import ImageServer.Folders
import ImageServer.Proofs.ShellCommands

/-! What a request that the older server rejects leaves on the disk. The directory comes before the
two checks on the source and on the size, so a rejected request can leave one. -/

namespace ImageServer

structure CreatesNothing (before after : Tree) : Prop where
  files : ∀ name, (after.files name).isSome → (before.files name).isSome
  folders : ∀ name, after.folders name = true → before.folders name = true

theorem CreatesNothing.refl (tree : Tree) : CreatesNothing tree tree := ⟨fun _ => id, fun _ => id⟩

/-- Every directory on the way is there, or the first that is missing cannot be made. -/
def Settled (host : FolderHost) (tree : Tree) : List Bytes → Prop
  | [] => True
  | name :: rest => if tree.folders name then Settled host tree rest else host.makes name tree = none

section MakeFolders
variable (host : FolderHost)

theorem settled_of_present {names : List Bytes} {tree : Tree} (present : ∀ name ∈ names, tree.folders name = true) :
    Settled host tree names := by
  induction names with
  | nil => trivial
  | cons name rest ih =>
    rw [Settled, if_pos (present name List.mem_cons_self)]
    exact ih fun other member => present other (List.mem_cons_of_mem name member)

theorem makeFolders_keeps (names : List Bytes) (tree : Tree) {name : Bytes} (present : tree.folders name = true) :
    (makeFolders host.makes names tree).folders name = true := by
  induction names generalizing tree with
  | nil => exact present
  | cons first rest ih =>
    rw [makeFolders]
    split
    · exact ih tree present
    · split
      next folders made => exact ih _ (host.makes_more made name present)
      next => exact present

/-- A directory that is made is never given up again. -/
theorem makeFolders_nothing_iff (names : List Bytes) (tree : Tree) :
    (∀ name, (makeFolders host.makes names tree).folders name = true → tree.folders name = true) ↔
      Settled host tree names := by
  induction names with
  | nil => exact iff_of_true (fun _ => id) trivial
  | cons first rest ih =>
    rw [makeFolders, Settled]
    split
    · exact ih
    · split
      next folders made =>
        obtain ⟨absent, present⟩ := host.makes_new made
        refine iff_of_false (fun nothing => ?_) (by rw [made]; exact Option.some_ne_none folders)
        have kept := nothing first (makeFolders_keeps host rest _ present)
        rw [absent] at kept
        cases kept
      next refused => exact iff_of_true (fun _ => id) refused

end MakeFolders

namespace ThumbnailServer

/-- The disk after the command line of a request. -/
def afterLine (host : FolderHost) (info : ThumbInfo) (tree : Tree) : Tree :=
  ⟨host.shell (mkdirLine info) tree.files, host.arrange (mkdirLine info) tree⟩

/-- There is nothing to make for a request. Where a byte of the directory means something to the shell, it
is the commands of the line that must make nothing. -/
def NothingToMake (host : FolderHost) (info : ThumbInfo) (tree : Tree) : Prop :=
  if Shell.read (mkdirLine info) = mkdirCommand info.targetFolder then Settled host tree (ways info.targetFolder)
  else CreatesNothing tree (afterLine host info tree)

theorem afterLine_nothing_iff (host : FolderHost) (info : ThumbInfo) (tree : Tree) :
    CreatesNothing tree (afterLine host info tree) ↔ NothingToMake host info tree := by
  unfold NothingToMake
  split
  next meant =>
    have kept : host.shell (mkdirLine info) tree.files = tree.files :=
      host.mkdir_keeps _ _ (.inl ⟨[Shell.literal info.targetFolder], meant⟩)
    rw [← makeFolders_nothing_iff, ← host.arrange_mkdir meant]
    constructor
    · exact CreatesNothing.folders
    · intro folders
      exact ⟨fun name present => by rwa [afterLine, kept] at present, folders⟩
  next => exact Iff.rfl

/-- One of the three reasons: the path, the source, or the size. -/
def Rejected (self : ImageProcessor) (files : Files) (oriRequestPath : Bytes) : Prop :=
  ∀ info, self.extractThumbInfo files oriRequestPath = some info →
    isFileExists files info.sourceImageName = false ∨ sizeStr info.width info.height ∉ self.permitedSizes

theorem Told.refl (world : World) : Told world world := ⟨rfl, rfl⟩

theorem Told.trans {a b c : World} (first : Told a b) (second : Told b c) : Told a c :=
  ⟨second.1.trans first.1, second.2.trans first.2⟩

/-- The checks of `resizeImage` come before its save. -/
theorem resizeImage_rejected {host : Host} {self : ImageProcessor} {info : ThumbInfo} {world : World}
    (rejected : isFileExists world.files info.sourceImageName = false ∨ sizeStr info.width info.height ∉ self.permitedSizes) :
    (resizeImage host self info world).2.files = world.files := by
  simp only [resizeImage, Exec.bind_run, Exec.get_run]
  rcases rejected with missing | refused
  · rw [missing]
    rfl
  · split
    · rfl
    · cases loaded : Image.new host.magick (some info.sourceImageName) with
      | error raised => simp only [Exec.bind_run, Exec.lift_run]
      | ok image =>
        simp only [Exec.bind_run, Exec.lift_run]
        exact (finish_within Told.refl .trans (sendMessage_keeps host) self info false world).1

/-- No file is removed. -/
def FilesKept (before after : World) : Prop := ∀ name, (before.files name).isSome → (after.files name).isSome

theorem FilesKept.refl (world : World) : FilesKept world world := fun _ => id

theorem FilesKept.trans {a b c : World} (first : FilesKept a b) (second : FilesKept b c) : FilesKept a c :=
  fun name present => second name (first name present)

theorem save_keeps (host : Host) (image : Image) (path : Bytes) : Exec.Within FilesKept (image.save host path) := by
  intro world name present
  unfold Image.save
  split
  · rw [Exec.modify_run]
    by_cases here : name = path
    · simp only [here, Function.update_self, Option.isSome_some]
    · simpa only [Function.update_of_ne here] using present
  · exact present

theorem resizeImage_keeps (host : Host) (self : ImageProcessor) (info : ThumbInfo) :
    Exec.Within FilesKept (resizeImage host self info) := by
  apply resizeImage_within FilesKept.refl .trans _ (save_keeps host) self info
  intro message serverUrl world name present
  rwa [(sendMessage_keeps host message serverUrl world).1]

section ResolveOnTree
variable {host : FolderHost} {self : ImageProcessor} {oriRequestPath : Bytes} {tree : Tree}

theorem resolveOnTree_unaccepted (unaccepted : self.extractThumbInfo tree.files oriRequestPath = none) :
    resolveOnTree host self oriRequestPath tree = tree := by
  simp only [resolveOnTree, resolveImageURI, Exec.bind_run, Exec.get_run, unaccepted, Exec.pure_run, List.foldl_nil]

variable {info : ThumbInfo} (accepted : self.extractThumbInfo tree.files oriRequestPath = some info)
include accepted

theorem resolveOnTree_present (present : info.targetFileExists = true) :
    resolveOnTree host self oriRequestPath tree = tree := by
  obtain ⟨told, ⟨files, executed⟩, run⟩ :=
    @resolveImageURI_told host.toHost self oriRequestPath ⟨tree.files, [], []⟩ info accepted
  simp only [resolveOnTree, run, generateAndAnswer_present present, files, executed, List.foldl_nil]

theorem resolveOnTree_absent (absent : info.targetFileExists = false) : ∃ world : World,
    world.files = (afterLine host info tree).files ∧ resolveOnTree host self oriRequestPath tree =
      ⟨(resizeImage host.toHost self info world).2.files, (afterLine host info tree).folders⟩ := by
  obtain ⟨told, ⟨files, executed⟩, run⟩ :=
    @resolveImageURI_told host.toHost self oriRequestPath ⟨tree.files, [], []⟩ info accepted
  have line : (mkdirs host.toHost info.targetFolder told).2.executed = [mkdirLine info] := by
    change told.executed ++ [mkdirLine info] = _
    rw [executed, List.nil_append]
  refine ⟨(mkdirs host.toHost info.targetFolder told).2, ?_, ?_⟩
  · exact congrArg (host.shell (mkdirLine info)) files
  · have ran := resizeImage_commandless host.toHost self info (mkdirs host.toHost info.targetFolder told).2
    simp only [resolveOnTree, run, generateAndAnswer_absent absent, Eq.trans ran line, List.foldl_cons, List.foldl_nil]
    rfl

end ResolveOnTree

theorem still_missing {before after : Tree} (nothing : CreatesNothing before after) {name : Bytes}
    (missing : isFileExists before.files name = false) : isFileExists after.files name = false := by
  apply Bool.eq_false_iff.mpr
  intro present
  exact Bool.eq_false_iff.mp missing (nothing.files name present)

/-- The configured roots, and the directories of an album if it has been asked for before. -/
def albumTree (known : Bool) : Tree where
  files _ := none
  folders name := name ∈ ways (bytes "/www/images/public/thumbnail/") ||
    (known && name ∈ ways (bytes "/www/images/public/thumbnail/album/"))

theorem album_rejected (known : Bool) : Rejected processor (albumTree known).files (bytes "/album/a_60_60.jpg") :=
  fun _ _ => .inl rfl

end ThumbnailServer
end ImageServer
