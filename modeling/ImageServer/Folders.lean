import ImageServer.ThumbnailServer

/-! Directories beside the files, for what `mkdir -p` leaves behind. The shell reads the command
line; making one directory is up to the system. -/

namespace ImageServer

structure Tree where
  files : Files
  folders : Bytes → Bool

def waysFrom (before : Bytes) : Bytes → List Bytes
  | [] => if before.getLast? = some slash then [] else [before]
  | b :: rest => if b = slash ∧ before ≠ [] then before :: waysFrom (before ++ [b]) rest else waysFrom (before ++ [b]) rest

/-- The directories on the way to a directory, the outermost first. -/
def ways (dirname : Bytes) : List Bytes := waysFrom [] dirname

/-- `mkdir -p`: what is there is passed over, and a directory that cannot be made ends it. -/
def makeFolders (makes : Bytes → Tree → Option (Bytes → Bool)) : List Bytes → Tree → Tree
  | [], tree => tree
  | name :: rest, tree =>
    if tree.folders name then makeFolders makes rest tree
    else
      match makes name tree with
      | some folders => makeFolders makes rest { tree with folders }
      | none => tree

/-- The one command that is meant. -/
def mkdirCommand (dirname : Bytes) : Shell.Reading :=
  .commands [[Shell.literal (bytes "mkdir"), Shell.literal (bytes "-p"), Shell.literal dirname]]

/-- A host that has directories. -/
structure FolderHost extends Host where
  /-- The system makes one directory, or refuses to: it is there, or a file is, or it may not. -/
  makes : Bytes → Tree → Option (Bytes → Bool)
  makes_new : ∀ {name tree folders}, makes name tree = some folders → tree.folders name = false ∧ folders name = true
  makes_more : ∀ {name tree folders}, makes name tree = some folders →
    ∀ other, tree.folders other = true → folders other = true
  /-- The directories after a command line. -/
  arrange : Bytes → Tree → Bytes → Bool
  arrange_mkdir : ∀ {line dirname}, Shell.read line = mkdirCommand dirname →
    ∀ tree, arrange line tree = (makeFolders makes (ways dirname) tree).folders

/-- Nothing but what is there already stands in the way. -/
def makeMissing (name : Bytes) (tree : Tree) : Option (Bytes → Bool) :=
  if tree.folders name || (tree.files name).isSome then none else some (Function.update tree.folders name true)

def FolderHost.making (width height : Int) : FolderHost where
  toHost := .removing width height
  makes := makeMissing
  makes_new made := by
    obtain ⟨absent, same⟩ := Option.ite_none_left_eq_some.mp made
    rw [← Option.some.inj same]
    simp only [Bool.or_eq_true, not_or, Bool.not_eq_true] at absent
    exact ⟨absent.1, Function.update_self ..⟩
  makes_more {name} _ _ made other present := by
    obtain ⟨-, same⟩ := Option.ite_none_left_eq_some.mp made
    rw [← Option.some.inj same]
    by_cases here : other = name
    · rw [here, Function.update_self]
    · rwa [Function.update_of_ne here]
  arrange line tree :=
    match Shell.read line with
    | .commands [[program, option, folder]] =>
      if [program, option] = [Shell.literal (bytes "mkdir"), Shell.literal (bytes "-p")] ∧ folder.pattern = false then
        (makeFolders makeMissing (ways folder.text) tree).folders
      else tree.folders
    | _ => tree.folders
  arrange_mkdir read tree := by
    simp only [read, mkdirCommand, Shell.literal, and_self, if_true]

namespace ThumbnailServer

/-- One request. Its command line is run before anything is saved. -/
def resolveOnTree (host : FolderHost) (self : ImageProcessor) (oriRequestPath : Bytes) (tree : Tree) : Tree :=
  let after := (resolveImageURI host.toHost self oriRequestPath ⟨tree.files, [], []⟩).2
  { files := after.files
    folders := after.executed.foldl (fun folders line => host.arrange line { tree with folders }) tree.folders }

end ThumbnailServer
end ImageServer
