import ImageServer.CompressImage

/-! What compressing an image can do to it. The temporary file replaces the image whatever the
optimizer said about it, so the image survives only if the file that is found there is the
complete output of a run that succeeded, or says the same as the image. -/

namespace ImageServer.CompressImage
open Shell

variable {path : Bytes}

theorem compressCmd_eq (path : Bytes) : compressCmd path =
    39 :: (optimizer ++ 39 :: 32 :: 32 :: 39 :: (path ++ 39 :: 32 :: 39 :: (tempFile path ++ [39]))) := by
  have command : compressCommand = 39 :: (optimizer ++ [39, 32]) := by simp [compressCommand, optimizer, bytes]
  simp [compressCmd, command, bytes]

theorem replaceCmd_eq (path : Bytes) : replaceCmd path =
    bytes "mv -f " ++ 39 :: (tempFile path ++ 39 :: 32 :: 39 :: (path ++ [39])) := by
  simp [replaceCmd, bytes]

theorem optimizer_plain : (39 : UInt8) ∉ optimizer ∧ (0 : UInt8) ∉ optimizer := by simp [optimizer, bytes]

theorem tempFile_mem {b : UInt8} (other : b ∉ bytes ".comps.jpg") : b ∈ tempFile path ↔ b ∈ path := by
  simp [tempFile, other]

theorem tempFile_unquoted (unquoted : (39 : UInt8) ∉ path) : (39 : UInt8) ∉ tempFile path :=
  mt (tempFile_mem (by decide)).mp unquoted

theorem tempFile_whole (whole : (0 : UInt8) ∉ path) : (0 : UInt8) ∉ tempFile path :=
  mt (tempFile_mem (by decide)).mp whole

theorem tempFile_ne (path : Bytes) : tempFile path ≠ path := by
  simp [tempFile, bytes]

/-- A path without a quote comes through the quotes of both command lines. -/
theorem read_compressCmd (unquoted : (39 : UInt8) ∉ path) (whole : (0 : UInt8) ∉ path) :
    Shell.read (compressCmd path) = .commands [[literal optimizer, literal path, literal (tempFile path)]] := by
  have shown : cString (compressCmd path) = compressCmd path := by
    apply cString_whole
    simp [compressCmd_eq, optimizer_plain, whole, tempFile_whole whole]
  rw [Shell.read, shown, compressCmd_eq, scan_quoted optimizer_plain.1, scan_blank, scan_blank, scan_quoted unquoted,
    scan_blank, scan_quoted (tempFile_unquoted unquoted), scan_end]
  rfl

theorem read_replaceCmd (unquoted : (39 : UInt8) ∉ path) (whole : (0 : UInt8) ∉ path) :
    Shell.read (replaceCmd path) =
      .commands [[literal (bytes "mv"), literal (bytes "-f"), literal (tempFile path), literal path]] := by
  have shown : cString (replaceCmd path) = replaceCmd path := by
    apply cString_whole
    simp [replaceCmd_eq, whole, tempFile_whole whole, bytes]
  rw [Shell.read, shown, replaceCmd_eq]
  have command (rest : Bytes) : scan .plain ⟨[], [], none⟩ (bytes "mv -f " ++ rest) =
      scan .plain ⟨[], [literal (bytes "mv"), literal (bytes "-f")], none⟩ rest := rfl
  rw [command, scan_quoted (tempFile_unquoted unquoted), scan_blank, scan_quoted unquoted, scan_end]
  rfl

theorem cString_unquoted (unquoted : (39 : UInt8) ∉ path) : (39 : UInt8) ∉ cString path :=
  fun member => unquoted ((List.takeWhile_sublist _).mem member)

/-- With a zero byte in the path both lines end inside quotes. -/
theorem compressCmd_unfinished (unquoted : (39 : UInt8) ∉ path) (zero : (0 : UInt8) ∈ path) :
    Unfinished (compressCmd path) := by
  have split : compressCmd path = (39 :: (optimizer ++ [39, 32, 32, 39])) ++
      (path ++ 39 :: 32 :: 39 :: (tempFile path ++ [39])) := by simp [compressCmd_eq]
  rw [Unfinished, Shell.read, split, cString_append (by simp [optimizer_plain]), cString_cut zero]
  have shape : (39 :: (optimizer ++ [39, 32, 32, 39])) ++ cString path =
      39 :: (optimizer ++ 39 :: 32 :: 32 :: 39 :: cString path) := by simp
  rw [shape, scan_quoted optimizer_plain.1, scan_blank, scan_blank, scan_unclosed (cString_unquoted unquoted)]

theorem replaceCmd_unfinished (unquoted : (39 : UInt8) ∉ path) (zero : (0 : UInt8) ∈ path) :
    Unfinished (replaceCmd path) := by
  have split : replaceCmd path = (bytes "mv -f " ++ [39]) ++ (tempFile path ++ 39 :: 32 :: 39 :: (path ++ [39])) := by
    simp [replaceCmd_eq]
  have inside : (0 : UInt8) ∈ tempFile path := (tempFile_mem (by decide)).mpr zero
  have command (rest : Bytes) : scan .plain ⟨[], [], none⟩ ((bytes "mv -f " ++ [39]) ++ rest) =
      scan .plain ⟨[], [literal (bytes "mv"), literal (bytes "-f")], none⟩ (39 :: rest) := rfl
  rw [Unfinished, Shell.read, split, cString_append (by decide), cString_cut inside, command,
    scan_unclosed (cString_unquoted (tempFile_unquoted unquoted))]

/-- The image is as before, or it is the complete output of this run of the optimizer, which succeeded. -/
def Preserved (host : Host) (path : Bytes) (world : World) : Prop :=
  let after := (compressImage host path world).2.disk
  after (cString path) = world.disk (cString path) ∨
    (host.outcome.success = true ∧ host.outcome.output = .complete ∧ ∃ original,
      world.disk (cString path) = some original ∧ after (cString path) = some (host.optimized original))

/-- Nothing is run for the path, or what the run leaves at the temporary file is harmless. -/
def Spared (host : Host) (path : Bytes) (disk : Disk) : Prop :=
  (0 : UInt8) ∈ path ∨ path.head? = some 45 ∨ disk path = none ∨
    match host.outcome.output with
    | .nothing => disk (tempFile path) = none ∨ disk (tempFile path) = disk path
    | .truncated content => disk path = some content
    | .complete => host.outcome.success = true ∨ ∀ original, disk path = some original → host.optimized original = original

theorem compressImage_zero (host : Host) (unquoted : (39 : UInt8) ∉ path) (zero : (0 : UInt8) ∈ path) (world : World) :
    (compressImage host path world).2.disk = world.disk := by
  have first := host.runs_nothing _ world.disk (compressCmd_unfinished unquoted zero)
  have second := host.runs_nothing _ world.disk (replaceCmd_unfinished unquoted zero)
  simp only [compressImage, Exec.bind_run, Exec.modify_run, Exec.get_run, execute]
  split
  · simp only [Exec.bind_run, Exec.modify_run, Exec.get_run, first]
    split <;> simp [second]
  · rfl

theorem compressImage_run (host : Host) (unquoted : (39 : UInt8) ∉ path) (whole : (0 : UInt8) ∉ path) (world : World) :
    (compressImage host path world).2.disk =
      if (world.disk path).isSome then
        let made := optimize host.optimized host.outcome path (tempFile path) world.disk
        if (made (tempFile path)).isSome then moveFile (tempFile path) path made else made
      else world.disk := by
  have first := host.runs_optimizer _ world.disk path (tempFile path) (read_compressCmd unquoted whole)
  have second := host.runs_mv _ (optimize host.optimized host.outcome path (tempFile path) world.disk) (tempFile path)
    path (read_replaceCmd unquoted whole)
  simp only [compressImage, Exec.bind_run, Exec.modify_run, Exec.get_run, execute, isFileExists, cString_whole whole]
  split
  · simp only [Exec.bind_run, Exec.modify_run, Exec.get_run, first, cString_whole (tempFile_whole whole)]
    split <;> simp [second]
  · rfl

theorem optimize_image (optimized : Bytes → Bytes) (outcome : Outcome) (path : Bytes) (disk : Disk) :
    optimize optimized outcome path (tempFile path) disk path = disk path := by
  have other : path ≠ tempFile path := (tempFile_ne path).symm
  unfold optimize
  cases outcome.output <;> cases read : disk path <;> simp [other, read]

theorem moveFile_image {source target : Bytes} {disk : Disk} {content : Bytes}
    (operands : ¬ (source.head? = some 45 ∧ target.head? = some 45)) (found : disk source = some content) :
    moveFile source target disk target = some content := by
  simp [moveFile, if_neg operands, found]

theorem tempFile_head {b : UInt8} (first : path.head? = some b) : (tempFile path).head? = some b := by
  obtain ⟨rest, rfl⟩ := List.head?_eq_some_iff.mp first
  rfl

/-- Whatever is found at the temporary file takes the place of the image. -/
theorem compressImage_image (host : Host) (unquoted : (39 : UInt8) ∉ path) (whole : (0 : UInt8) ∉ path)
    (operand : path.head? ≠ some 45) {world : World} {original : Bytes} (present : world.disk path = some original) :
    (compressImage host path world).2.disk path =
      (optimize host.optimized host.outcome path (tempFile path) world.disk (tempFile path)).or (some original) := by
  rw [compressImage_run host unquoted whole, if_pos (by simp [present])]
  cases made : optimize host.optimized host.outcome path (tempFile path) world.disk (tempFile path) with
  | none =>
    simp only [Option.isSome_none, Bool.false_eq_true, if_false, Option.none_or]
    rw [optimize_image, present]
  | some content =>
    simp only [Option.isSome_some, if_true, Option.some_or]
    exact moveFile_image (fun options => operand options.2) made

/-- The image survives exactly when nothing is run for it or what is left at the temporary
file is harmless. -/
theorem compressImage_preserves_iff (host : Host) (path : Bytes) (unquoted : (39 : UInt8) ∉ path) (world : World) :
    Preserved host path world ↔ Spared host path world.disk := by
  by_cases zero : (0 : UInt8) ∈ path
  · have same := compressImage_zero host unquoted zero world
    exact iff_of_true (Or.inl (by rw [same])) (Or.inl zero)
  simp only [Preserved, Spared, cString_whole zero, zero, false_or]
  cases present : world.disk path with
  | none =>
    have same := compressImage_run host unquoted zero world
    rw [present] at same
    simp [same, present]
  | some original =>
    by_cases dash : path.head? = some 45
    · have same := compressImage_run host unquoted zero world
      rw [if_pos (by simp [present])] at same
      have kept : (compressImage host path world).2.disk path = some original := by
        rw [same]
        simp [moveFile, tempFile_head dash, dash, optimize_image, present]
      simp [kept, dash]
    rw [compressImage_image host unquoted zero dash present]
    simp only [dash, false_or, reduceCtorEq, optimize, present]
    cases host.outcome.output with
    | nothing =>
      cases left : world.disk (tempFile path) <;> simp [left]
    | truncated content =>
      simp only [Function.update_self, Option.some_or, Option.some.injEq, reduceCtorEq, false_and, and_false, or_false]
      exact eq_comm
    | complete =>
      cases host.outcome.success <;> simp

/-- One picture and the file that an interrupted run has left beside it. -/
def interrupted : World where
  disk path :=
    if path = bytes "/www/images/public/a.jpg" then some (bytes "JPEG")
    else if path = bytes "/www/images/public/a.jpg.comps.jpg" then some (bytes "JP")
    else none
  compressed := []
  sent := []

/-- A run that succeeds also replaces what an interrupted one has left. -/
theorem success_preserves :
    Preserved (.running (fun _ => bytes "J") ⟨true, .complete⟩ fun _ => .error .argument)
      (bytes "/www/images/public/a.jpg") interrupted :=
  (compressImage_preserves_iff _ (bytes "/www/images/public/a.jpg") (by simp [bytes]) interrupted).mpr
    (Or.inr (Or.inr (Or.inr (Or.inl rfl))))

theorem interrupted_image (host : Host) : let path := bytes "/www/images/public/a.jpg"
    (compressImage host path interrupted).2.disk (cString path) =
      (optimize host.optimized host.outcome path (bytes "/www/images/public/a.jpg.comps.jpg") interrupted.disk
        (bytes "/www/images/public/a.jpg.comps.jpg")).or (interrupted.disk (cString path)) := by
  intro path
  have left : tempFile path = bytes "/www/images/public/a.jpg.comps.jpg" := by simp [tempFile, path, bytes]
  have whole : (0 : UInt8) ∉ path := by simp [path, bytes]
  have present : interrupted.disk path = some (bytes "JPEG") := by simp [interrupted, path]
  rw [cString_whole whole, present, ← left]
  exact compressImage_image host (by simp [path, bytes]) whole (by simp [path, bytes]) present

/-- A run that fails and has written a part of its output, and a run that fails and has written nothing. -/
theorem failure_destroys :
    ¬ Preserved (.running (fun _ => bytes "J") ⟨false, .truncated (bytes "")⟩ fun _ => .error .argument)
      (bytes "/www/images/public/a.jpg") interrupted ∧
    ¬ Preserved (.running (fun _ => bytes "J") ⟨false, .nothing⟩ fun _ => .error .argument)
      (bytes "/www/images/public/a.jpg") interrupted := by
  have whole : (0 : UInt8) ∉ bytes "/www/images/public/a.jpg" := by simp [bytes]
  constructor
  · rintro (same | ⟨success, -⟩)
    · rw [interrupted_image, cString_whole whole] at same
      simp [optimize, Host.running, interrupted, bytes] at same
    · cases success
  · rintro (same | ⟨success, -⟩)
    · rw [interrupted_image, cString_whole whole] at same
      simp [optimize, Host.running, interrupted, bytes] at same
    · cases success

end ImageServer.CompressImage
