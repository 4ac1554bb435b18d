import ImageServer.Proofs.ThumbInfo

/-! What the request pattern accepts. It is meant for paths that end in name.WxH.ext, and it reads
those as they are meant, as long as no component before the last one holds a size as well. It also
accepts other paths. -/

namespace ImageServer
open Lua

/-- What follows the name in the pattern for requests. -/
def sizePattern : Bytes := bytes "[.]([0-9*]+)[X|x]([0-9*]+)[.][png|jpg|gif]"

def HasSize (component : Bytes) : Prop := (Lua.find component sizePattern 1).isSome = true

/-- The components name.WxH.ext that requests are meant to end in. -/
structure SizedComponent where
  name : Bytes
  width : Bytes
  sep : UInt8
  height : Bytes
  ext : Bytes
  plain : slash ∉ name
  width_size : IsSize width
  times : sep = 120 ∨ sep = 88
  height_size : IsSize height
  known : ext ∈ ["jpg", "png", "gif"].map bytes

namespace SizedComponent

def text (sized : SizedComponent) : Bytes :=
  sized.name ++ 46 :: (sized.width ++ sized.sep :: (sized.height ++ 46 :: sized.ext))

def original (sized : SizedComponent) : Bytes := sized.name ++ 46 :: sized.ext

end SizedComponent

def InGrammar (component : Bytes) : Prop := ∃ sized : SizedComponent, component = sized.text

/-- The folder that a path is looked for in. -/
def imageFolder (directory : Bytes) : Bytes := appendPathSimbol2Tail (removePathSimbolAtHead directory)

theorem sizePattern_compiled : compile sizePattern = some sizeItems := by decide

theorem hasSize_iff (component : Bytes) : HasSize component ↔ Contains sizeItems component := by
  rw [HasSize, find_compiled sizePattern_compiled, findFrom_isSome_iff]
  rfl

theorem sizeItems_inert : Pattern.takes sizeItems slash = false := by decide

theorem sizeItems_takes : ¬ Fits sizeItems [] := by simp [Fits, matchItems, sizeItems]

theorem fits_sizeItems {width height rest : Bytes} {sep ext : UInt8} (size1 : IsSize width) (size2 : IsSize height)
    (separates : IsSeparator sep) (letter : extClass.mem ext = true) :
    Fits sizeItems (46 :: (width ++ sep :: (height ++ 46 :: ext :: rest))) := by
  apply Fits.one (by decide)
  apply size1.fits
  apply Fits.one ((separator_iff sep).mpr separates)
  apply size2.fits
  apply Fits.one (by decide)
  exact Fits.one letter rfl

namespace SizedComponent
variable (sized : SizedComponent)

theorem ext_cases : sized.ext = bytes "jpg" ∨ sized.ext = bytes "png" ∨ sized.ext = bytes "gif" := by
  simpa using sized.known

theorem sep_isSeparator : IsSeparator sized.sep := by
  rcases sized.times with same | same <;> simp [IsSeparator, same]

theorem fits : Fits sizeItems (46 :: (sized.width ++ sized.sep :: (sized.height ++ 46 :: sized.ext))) := by
  obtain ⟨ext, rest, shape, letter⟩ : ∃ ext rest, sized.ext = ext :: rest ∧ extClass.mem ext = true := by
    rcases sized.ext_cases with same | same | same <;> rw [same] <;> exact ⟨_, _, rfl, by decide⟩
  rw [shape]
  exact fits_sizeItems sized.width_size sized.height_size sized.sep_isSeparator letter

theorem text_plain : slash ∉ sized.text := by
  have separator : slash ≠ sized.sep := by rcases sized.times with same | same <;> rw [same] <;> decide
  have letters : slash ∉ sized.ext := by rcases sized.ext_cases with same | same | same <;> rw [same] <;> decide
  have dot : slash ≠ 46 := by decide
  simp only [text, List.mem_append, List.mem_cons, not_or]
  exact ⟨sized.plain, dot, sized.width_size.not_mem (by decide), separator, sized.height_size.not_mem (by decide), dot, letters⟩

theorem ext_length : sized.ext.length = 3 := by
  rcases sized.ext_cases with same | same | same <;> rw [same] <;> rfl

/-- There is one dot between the two sizes and after them, so a longer name leaves no two. -/
theorem one_dot : (sized.width ++ sized.sep :: (sized.height ++ 46 :: sized.ext)).count 46 = 1 := by
  have size {text : Bytes} (isSize : IsSize text) : text.count 46 = 0 :=
    List.count_eq_zero.mpr (isSize.not_mem (by decide))
  have letters : sized.ext.count 46 = 0 := by
    rcases sized.ext_cases with same | same | same <;> rw [same] <;> decide
  have separator : (sized.sep == 46) = false := by rcases sized.times with same | same <;> rw [same] <;> decide
  simp [List.count_append, List.count_cons, size sized.width_size, size sized.height_size, letters, separator]

/-- The longest name before a size is the name that was meant. -/
theorem parts_unique {name width height rest : Bytes} {sep ext : UInt8} (size1 : IsSize width) (size2 : IsSize height)
    (separates : IsSeparator sep)
    (same : sized.text = name ++ 46 :: (width ++ sep :: (height ++ 46 :: ext :: rest)))
    (longest : ∀ more later, 46 :: (width ++ sep :: (height ++ 46 :: ext :: rest)) = more ++ later → more ≠ [] →
      ¬ Fits sizeItems later) :
    name = sized.name ∧ width = sized.width ∧ height = sized.height := by
  have dots : (sized.width ++ sized.sep :: (sized.height ++ 46 :: sized.ext)).count 46 ≤
      (width ++ sep :: (height ++ 46 :: ext :: rest)).count 46 := by
    rw [sized.one_dot]
    simp [List.count_append, List.count_cons]
    omega
  obtain ⟨sameName, sizes⟩ := split_at_marks same dots
    (fun more tail => Classical.byContradiction fun longer => longest more _ tail longer sized.fits)
  have stop {sep : UInt8} (separates : IsSeparator sep) : ¬ (isDigit sep = true ∨ sep = 42) := by
    rcases separates with same | same | same <;> rw [same] <;> decide
  obtain ⟨sameWidth, -, heights⟩ := split_after_run sized.width_size.2 size1.2 (stop sized.sep_isSeparator)
    (stop separates) sizes
  obtain ⟨sameHeight, -, -⟩ := split_after_run sized.height_size.2 size2.2 (by decide) (by decide) heights
  exact ⟨sameName.symm, sameWidth.symm, sameHeight.symm⟩

end SizedComponent

variable {d : Bytes}

theorem find_sized (sized : SizedComponent) (ends : IsFolder d)
    (clear : ∀ component, Between component d → ¬ HasSize component) :
    ∃ last, Lua.find (d ++ sized.text) ImageProcessor.thumbPattern 1 =
      some ⟨d.length, last, [sized.name, sized.width, sized.height]⟩ := by
  rw [find_compiled thumbPattern_compiled]
  obtain ⟨start, rfl⟩ := ends
  have some : (findFrom (componentPattern sizeItems) (start ++ [slash] ++ sized.text) 1).isSome = true :=
    (findFrom_isSome_iff ..).mpr ⟨start, _, by simp [SizedComponent.text], fits_component sized.plain sized.fits⟩
  obtain ⟨found, hit⟩ := Option.isSome_iff_exists.mp some
  obtain ⟨name, rest, left, captures, shape, first, done, texts, longest⟩ := component_last sizeItems_inert sizeItems_takes
    ⟨start, rfl⟩ sized.text_plain (fun inner between => mt (hasSize_iff inner).mpr (clear inner between)) hit
  obtain ⟨width, sep, height, ext, rfl, size1, separates, size2, sizes⟩ := match_sizeItems (by simp [Closed]) done
  obtain ⟨rfl, rfl, rfl⟩ := sized.parts_unique size1 size2 separates shape longest
  obtain ⟨position, last, texts'⟩ := found
  simp only at first texts
  exact ⟨last, by rw [hit, first, texts, sizes]; rfl⟩

theorem sized_suffix (sized : SizedComponent) :
    Lua.sub (d ++ sized.text) (Lua.len (d ++ sized.text) - 3) (Lua.len (d ++ sized.text)) = 46 :: sized.ext := by
  have four : (46 :: sized.ext).length = 4 := by simp [sized.ext_length]
  have shape : d ++ sized.text =
      (d ++ sized.name ++ 46 :: (sized.width ++ sized.sep :: sized.height)) ++ 46 :: sized.ext := by
    simp [SizedComponent.text]
  rw [sub_last_four _ (by rw [shape, List.length_append, four]; omega), shape, List.length_append, four]
  exact List.drop_left

theorem extractThumbInfo_sized (self : ImageProcessor) (files : Files) (sized : SizedComponent) (ends : IsFolder d)
    (clear : ∀ component, Between component d → ¬ HasSize component) :
    let requestImageName := imageFolder d ++ sized.name ++ bytes "_" ++ sized.width ++ bytes "*" ++ sized.height ++
      bytes "." ++ sized.ext
    self.extractThumbInfo files (d ++ sized.text) = some {
      isThumbRequest := true
      targetFileExists := isFileExists files (self.thumbnailImagesRoot ++ requestImageName)
      sourceImageName := self.originalImagesRoot ++ imageFolder d ++ sized.name ++ bytes "." ++ sized.ext
      requestImageName
      targetFolder := self.thumbnailImagesRoot ++ imageFolder d
      targetImageName := self.thumbnailImagesRoot ++ requestImageName
      width := ImageProcessor.sizeNumber sized.width
      height := ImageProcessor.sizeNumber sized.height } := by
  obtain ⟨last, hit⟩ := find_sized sized ends clear
  have dot : bytes "." = [46] := by decide
  simp only [ImageProcessor.extractThumbInfo, hit, sized_suffix, sub_upto, List.take_left, dot, imageFolder,
    List.append_assoc, List.singleton_append]

theorem imageFolder_slashes (begins : d.head? = some slash) (ends : IsFolder d) :
    imageFolder d = if d = [slash] then [slash] else d.tail := by
  obtain ⟨rest, rfl⟩ := List.head?_eq_some_iff.mp begins
  obtain ⟨start, shape⟩ := ends
  rw [imageFolder, removePathSimbolAtHead_slash]
  cases start with
  | nil =>
    obtain ⟨-, rfl⟩ := List.cons.inj shape
    exact appendPathSimbol2Tail_nil
  | cons b start =>
    obtain ⟨-, rfl⟩ := List.cons.inj shape
    simp [appendPathSimbol2Tail_folder]

/-- A request for a size is decoded into the picture, the thumbnail and the two sides. -/
theorem sized_request_decoded (self : ImageProcessor) (files : Files) (begins : d.head? = some slash) (ends : IsFolder d)
    (clear : ∀ component, Between component d → ¬ HasSize component) (sized : SizedComponent) :
    let folder := if d = [slash] then [slash] else d.tail
    ∃ info, self.extractThumbInfo files (d ++ sized.text) = some info ∧
      info.sourceImageName = self.originalImagesRoot ++ folder ++ sized.name ++ bytes "." ++ sized.ext ∧
      info.requestImageName =
        folder ++ sized.name ++ bytes "_" ++ sized.width ++ bytes "*" ++ sized.height ++ bytes "." ++ sized.ext ∧
      info.targetImageName = self.thumbnailImagesRoot ++ info.requestImageName ∧
      info.targetFolder = self.thumbnailImagesRoot ++ folder ∧
      info.width =
        (if sized.width = bytes "0" ∨ 42 ∈ sized.width then none else some (.nearest (decimal sized.width))) ∧
      info.height =
        (if sized.height = bytes "0" ∨ 42 ∈ sized.height then none else some (.nearest (decimal sized.height))) := by
  intro folder
  have decoded := extractThumbInfo_sized self files sized ends clear
  rw [imageFolder_slashes begins ends] at decoded
  exact ⟨_, decoded, rfl, rfl, rfl, rfl, sizeNumber_eq sized.width_size, sizeNumber_eq sized.height_size⟩

theorem hasSize_dot {component : Bytes} (sized : HasSize component) : (46 : UInt8) ∈ component := by
  obtain ⟨before, tail, rfl, fits⟩ := (hasSize_iff component).mp sized
  obtain ⟨result, done⟩ := Option.isSome_iff_exists.mp fits
  obtain ⟨_, _, _, _, rfl, -⟩ := match_sizeItems (by simp [Closed]) done
  simp

theorem clear_of_no_dot (undotted : (46 : UInt8) ∉ d) (component : Bytes) (between : Between component d) :
    ¬ HasSize component := by
  obtain ⟨-, before, after, rfl⟩ := between
  intro sized
  exact undotted (by simp [hasSize_dot sized])

/-- The name may itself look like a request. -/
theorem dotted_request_decoded :
    let path := bytes "/upload/a.3x4.jpg.600x0.png"
    ∃ info, Thumbnail.processor.extractThumbInfo (fun _ => none) path = some info ∧
      info.sourceImageName = bytes "/www/target/images/public/upload/a.3x4.jpg.png" := by
  have plain : slash ∉ bytes "a.3x4.jpg" := by simp [bytes, slash]
  have width : IsSize (bytes "600") := by decide +kernel
  have height : IsSize (bytes "0") := by decide +kernel
  have clear := @clear_of_no_dot (bytes "/upload/") (by simp [bytes])
  obtain ⟨info, accepted, source, -⟩ := sized_request_decoded Thumbnail.processor (fun _ => none) (by decide +kernel)
    ⟨bytes "/upload", by simp [bytes, slash]⟩ clear
    ⟨bytes "a.3x4.jpg", bytes "600", 120, bytes "0", bytes "png", plain, width, Or.inl rfl, height, by decide +kernel⟩
  refine ⟨info, accepted, ?_⟩
  rw [source]
  dsimp only
  decide +kernel

/-- What is accepted is what the grammar says, and its picture is named after the last component. -/
def ReadsGrammar (self : ImageProcessor) (files : Files) (path : Bytes) : Prop :=
  ((self.extractThumbInfo files path).isSome = true ↔ InGrammar (lastComponent path)) ∧
    ∀ info, self.extractThumbInfo files path = some info → ∃ sized : SizedComponent, lastComponent path = sized.text ∧
      info.sourceImageName = self.originalImagesRoot ++ imageFolder (directory path) ++ sized.original

theorem between_slashed {component path : Bytes} (between : Between component path) : slash ∈ path := by
  obtain ⟨-, before, after, shape⟩ := between
  simp [shape]

theorem between_directory {component path : Bytes} (slashed : slash ∈ path) :
    Between component path ↔ Between component (directory path) := by
  have ends := directory_folder slashed
  have plainLast := lastComponent_plain path
  constructor
  · intro between
    obtain ⟨plain, before, after, shape⟩ := between
    have same := (directory_append path).trans shape
    rcases slash_cases ends same plainLast with ⟨-, tail⟩ | ⟨inner, after', plainInner, place, tail⟩
    · exact absurd (tail ▸ by simp) plainLast
    · have stop : ¬ slash ≠ slash := fun other => other rfl
      have apart {text : Bytes} (plain : slash ∉ text) (b : UInt8) (member : b ∈ text) : b ≠ slash :=
        fun same => plain (same ▸ member)
      obtain ⟨rfl, -⟩ := split_after_run (apart plain) (apart plainInner) stop stop tail
      exact ⟨plain, before, after', place⟩
  · intro between
    obtain ⟨plain, before, after, shape⟩ := between
    refine ⟨plain, before, after ++ lastComponent path, ?_⟩
    calc path = directory path ++ lastComponent path := (directory_append path).symm
      _ = before ++ slash :: (component ++ slash :: (after ++ lastComponent path)) := by simp [shape]

theorem extractThumbInfo_isSome (self : ImageProcessor) (files : Files) (path : Bytes) :
    (self.extractThumbInfo files path).isSome = (Lua.find path ImageProcessor.thumbPattern 1).isSome := by
  cases hit : Lua.find path ImageProcessor.thumbPattern 1 with
  | none => simp [ImageProcessor.extractThumbInfo, hit]
  | some found =>
    obtain ⟨first, last, captures⟩ := found
    obtain ⟨_, name, width, _, height, _, _, -, -, -, -, -, texts⟩ := find_thumbPattern hit
    simp only at texts
    simp [ImageProcessor.extractThumbInfo, hit, texts]

/-- A path is accepted for any component with a size that follows a slash. -/
theorem accepted_iff (self : ImageProcessor) (files : Files) (path : Bytes) :
    (self.extractThumbInfo files path).isSome = true ↔
      (∃ component, Between component path ∧ HasSize component) ∨ (slash ∈ path ∧ HasSize (lastComponent path)) := by
  rw [extractThumbInfo_isSome, find_compiled thumbPattern_compiled]
  constructor
  · intro accepted
    obtain ⟨found, hit⟩ := Option.isSome_iff_exists.mp accepted
    obtain ⟨before, name, rest, left, captures, shape, plain, -, done, -, -, -⟩ := component_some hit
    have slashed : slash ∈ path := by simp [shape]
    have place := component_place sizeItems_inert sizeItems_takes (directory_folder slashed) (lastComponent_plain path)
      ((directory_append path).trans shape) plain (fits_of_some done)
    rcases place with ⟨-, last⟩ | ⟨inner, after, plainInner, place, contains, -⟩
    · exact Or.inr ⟨slashed, (hasSize_iff _).mpr ⟨name, rest, last.symm, fits_of_some done⟩⟩
    · exact Or.inl ⟨inner, (between_directory slashed).mpr ⟨plainInner, before, after, place⟩, (hasSize_iff _).mpr contains⟩
  · intro sized
    rw [findFrom_isSome_iff]
    rcases sized with ⟨component, between, sized⟩ | ⟨slashed, sized⟩
    · obtain ⟨plain, earlier, after, rfl⟩ := between
      obtain ⟨name, tail, rfl, fits⟩ := (hasSize_iff _).mp sized
      obtain ⟨taken, rest, rfl, -, keeps⟩ := fits.taken
      refine ⟨earlier, _, rfl, ?_⟩
      have plainName : slash ∉ name := fun member => plain (by simp [member])
      simpa using fits_component plainName (keeps (rest ++ slash :: after))
    · obtain ⟨start, ends⟩ := directory_folder slashed
      obtain ⟨name, tail, last, fits⟩ := (hasSize_iff _).mp sized
      refine ⟨start, slash :: (name ++ tail), ?_, fits_component ?_ fits⟩
      · calc path = directory path ++ lastComponent path := (directory_append path).symm
          _ = start ++ slash :: (name ++ tail) := by simp [ends, last]
      · intro member
        exact lastComponent_plain path (by simp [last, member])

theorem imageFolder_length (ends : IsFolder d) :
    d.length ≤ (imageFolder d).length + 1 ∧ (imageFolder d).length ≤ d.length := by
  obtain ⟨start, rfl⟩ := ends
  cases start with
  | nil => decide
  | cons b start =>
    rw [imageFolder, List.cons_append]
    by_cases slashed : b = slash
    · subst b
      rw [removePathSimbolAtHead_slash, appendPathSimbol2Tail_folder]
      simp
    · rw [removePathSimbolAtHead_other (by simpa using slashed), ← List.cons_append, appendPathSimbol2Tail_folder]
      simp

/-- A size in a component before the last one gives another, shorter picture name. -/
theorem inner_source_short {self : ImageProcessor} {files : Files} {path component : Bytes} {info : ThumbInfo}
    (between : Between component path) (sized : HasSize component)
    (accepted : self.extractThumbInfo files path = some info) :
    info.sourceImageName.length + 1 < self.originalImagesRoot.length + (directory path).length + 4 := by
  have slashed := between_slashed between
  obtain ⟨found, name, rest, left, captures, hit, done, texts, short⟩ := component_inner sizeItems_inert sizeItems_takes
    (directory_folder slashed) (lastComponent_plain path) ((between_directory slashed).mp between) ((hasSize_iff _).mp sized)
  rw [directory_append, ← find_compiled thumbPattern_compiled] at hit
  obtain ⟨before, name', width, sep, height, ext, rest', shape, -, -, -, position, texts'⟩ := find_thumbPattern hit
  obtain ⟨_, _, _, _, -, -, -, -, sizes⟩ := match_sizeItems (by simp [Closed]) done
  obtain ⟨first, last, parts⟩ := found
  simp only at position texts texts' short
  obtain rfl : name' = name := (List.cons.inj (texts'.symm.trans (texts.trans sizes))).1
  have cut : path.take first = before ++ [slash] := by
    have ends : path = (before ++ [slash]) ++ (name' ++ 46 :: (width ++ sep :: (height ++ 46 :: ext :: rest'))) := by
      simp [shape]
    rw [ends, List.take_left' (by simp [position])]
  have folder := (imageFolder_length ⟨before, cut⟩).2
  have four := sub_last_four path (by rw [shape]; simp; omega)
  subst texts'
  simp only [ImageProcessor.extractThumbInfo, hit, sub_upto, four, Option.some.injEq] at accepted
  rw [← accepted]
  simp only [List.length_append, List.length_drop, imageFolder] at folder ⊢
  have taken : (path.take first).length ≤ first := by simp
  omega

theorem accepted_clear {path : Bytes} (self : ImageProcessor) (files : Files)
    (clear : ∀ component, Between component path → ¬ HasSize component) :
    (self.extractThumbInfo files path).isSome = true ↔ slash ∈ path ∧ HasSize (lastComponent path) := by
  rw [accepted_iff]
  constructor
  · intro sized
    rcases sized with ⟨component, between, inside⟩ | last
    · exact absurd inside (clear component between)
    · exact last
  · exact Or.inr

/-- A picture named after the last component has too long a name for a size further up the path. -/
theorem clear_of_sources {self : ImageProcessor} {files : Files} {path : Bytes}
    (sources : ∀ info, self.extractThumbInfo files path = some info → ∃ sized : SizedComponent,
      lastComponent path = sized.text ∧
        info.sourceImageName = self.originalImagesRoot ++ imageFolder (directory path) ++ sized.original)
    (component : Bytes) (between : Between component path) : ¬ HasSize component := by
  intro inside
  have accepted := (accepted_iff self files path).mpr (Or.inl ⟨component, between, inside⟩)
  obtain ⟨info, here⟩ := Option.isSome_iff_exists.mp accepted
  obtain ⟨sized, -, source⟩ := sources info here
  have short := inner_source_short between inside here
  have folder := (imageFolder_length (directory_folder (between_slashed between))).1
  have letters := sized.ext_length
  rw [source] at short
  simp only [List.length_append, SizedComponent.original, List.length_cons] at short
  omega

theorem clear_source {self : ImageProcessor} {files : Files} {path : Bytes} {info : ThumbInfo}
    (clear : ∀ component, Between component path → ¬ HasSize component) (slashed : slash ∈ path) (sized : SizedComponent)
    (text : lastComponent path = sized.text) (accepted : self.extractThumbInfo files path = some info) :
    info.sourceImageName = self.originalImagesRoot ++ imageFolder (directory path) ++ sized.original := by
  have clearFolder (component : Bytes) (between : Between component (directory path)) : ¬ HasSize component :=
    clear component ((between_directory slashed).mpr between)
  have decoded := extractThumbInfo_sized self files sized (directory_folder slashed) clearFolder
  rw [← text, directory_append, accepted] at decoded
  rw [Option.some.inj decoded]
  simp [SizedComponent.original, bytes]

end ImageServer
