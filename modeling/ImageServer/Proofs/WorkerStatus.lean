import ImageServer.Proofs.CompressedPaths
import ImageServer.Proofs.Compression
import ImageServer.Proofs.Envelopes

/-! When the worker may say that it was successful. Only an error makes it say anything else, and
of all that can go wrong only a message without its fields is an error. -/

namespace ImageServer.CompressImage

/-- What the optimizer writes for a picture. -/
def written (host : Host) (original : Bytes) : Option Bytes :=
  match host.outcome.output with
  | .nothing => none
  | .truncated content => some content
  | .complete => some (host.optimized original)

/-- The image that the message designates was there, was compressed, and is what the optimizer wrote. -/
def Replaced (host : Host) (jsonMsg : Bytes) (before after : World) : Prop :=
  ∃ path original content, Rooted host jsonMsg path ∧ after.compressed = before.compressed ++ [path] ∧
    before.disk (Shell.cString path) = some original ∧ written host original = some content ∧
    after.disk (Shell.cString path) = some content

def Truthful (host : Host) (jsonMsg : Bytes) (world : World) : Prop :=
  (answer host (some jsonMsg) world).1 = .ok (some (bytes "success")) →
    Replaced host jsonMsg world (answer host (some jsonMsg) world).2

/-- A message that names its source, without the one field that its type needs. -/
def Incomplete (fields : List (Bytes × Value)) : Prop :=
  Value.truthy (field fields "sourceImageName") = true ∧
    if Value.isNumber (field fields "msgType") 2 then field fields "targetImageName" = none
    else if Value.isNumber (field fields "msgType") 3 then field fields "imagePath" = none
    else ∀ text, Value.concatenated (field fields "msgType") ≠ .ok text

def Raises (host : Host) (jsonMsg : Bytes) : Prop :=
  match host.decode jsonMsg with
  | .error _ => True
  | .ok (.table fields) => Incomplete fields
  | .ok (.boolean flag) => flag = true
  | .ok (.string _) => False
  | .ok _ => True

/-- A message about a thumbnail that is there and that the optimizer writes something for. With a zero
byte in its path nothing is run, and then the file must already be what would be written. -/
def Replaceable (host : Host) (jsonMsg : Bytes) (disk : Disk) : Prop :=
  ∃ fields name original content, host.decode jsonMsg = .ok (.table fields) ∧
    Value.truthy (field fields "sourceImageName") = true ∧ Value.isNumber (field fields "msgType") 2 = true ∧
    field fields "targetImageName" = some (.string name) ∧
    let path := appendPathSimbol2Tail thumbnailImaegRoot ++ removePathSimbolAtHead name
    disk (Shell.cString path) = some original ∧ written host original = some content ∧
      ((0 : UInt8) ∈ path → content = original)

/-- The fields that paths are made of are texts without a quote. -/
def PlainFields (fields : List (Bytes × Value)) : Prop :=
  ∀ name ∈ ["sourceImageName", "targetImageName", "imagePath"], ∀ value, field fields name = some value →
    ∃ text, value = .string text ∧ (39 : UInt8) ∉ text

theorem PlainFields.strings {fields : List (Bytes × Value)} (plain : PlainFields fields) : StringFields fields := by
  intro name listed value found
  obtain ⟨text, same, -⟩ := plain name listed value found
  exact ⟨text, same⟩

theorem compressImage_written (host : Host) {path : Bytes} (unquoted : (39 : UInt8) ∉ path)
    (operand : path.head? ≠ some 45) {world : World} {original content : Bytes}
    (present : world.disk (Shell.cString path) = some original) (output : written host original = some content)
    (same : (0 : UInt8) ∈ path → content = original) :
    (compressImage host path world).2.disk (Shell.cString path) = some content := by
  by_cases zero : (0 : UInt8) ∈ path
  · rw [compressImage_zero host unquoted zero, present, same zero]
  · rw [Shell.cString_whole zero] at present ⊢
    rw [compressImage_image host unquoted zero operand present]
    unfold written at output
    simp only [optimize, present]
    cases made : host.outcome.output with
    | nothing => simp [made] at output
    | truncated text => simp_all
    | complete => simp_all

theorem onMessageArrive_run (host : Host) (jsonMsg : Bytes) (world : World) {fields : List (Bytes × Value)}
    (decoded : host.decode jsonMsg = .ok (.table fields))
    (named : Value.truthy (field fields "sourceImageName") = true) :
    onMessageArrive host jsonMsg world =
      if Value.isNumber (field fields "msgType") 2 then
        match Value.removePathSimbolAtHead (field fields "targetImageName") >>= Value.concatenated with
        | .error raised => (.error raised, world)
        | .ok name => (.ok true, (sendMessage host jsonMsg resendServerUrl
            (compressImage host (appendPathSimbol2Tail thumbnailImaegRoot ++ name) world).2).2)
      else if Value.isNumber (field fields "msgType") 3 then
        match Value.removePathSimbolAtHead (field fields "imagePath") >>= Value.concatenated,
          Value.concatenated (field fields "imagePath") with
        | .ok _, .ok path => (.ok true, (compressImage host path world).2)
        | .error raised, _ | .ok _, .error raised => (.error raised, world)
      else
        match Value.concatenated (field fields "msgType") with
        | .error raised => (.error raised, world)
        | .ok _ => (.ok false, world) := by
  have table : Value.truthy (some (.table fields)) = true := rfl
  rw [field] at named
  simp only [onMessageArrive, Exec.bind_run, Exec.lift_run, decoded, table, Bool.not_true, Bool.false_eq_true, if_false,
    Value.index, named, field]
  rcases Bool.eq_false_or_eq_true (Value.isNumber (fields.lookup (bytes "msgType")) 2) with two | two
  · simp only [two, if_true, Exec.bind_run, Exec.lift_run]
    cases Value.removePathSimbolAtHead (fields.lookup (bytes "targetImageName")) >>= Value.concatenated with
    | error raised => rfl
    | ok name =>
      obtain ⟨after, done, -⟩ := compressImage_compressed host (appendPathSimbol2Tail thumbnailImaegRoot ++ name) world
      simp only [done, sendMessage, Exec.modify_run, Exec.pure_run]
  rcases Bool.eq_false_or_eq_true (Value.isNumber (fields.lookup (bytes "msgType")) 3) with three | three
  · simp only [two, three, Bool.false_eq_true, if_false, if_true, Exec.bind_run, Exec.lift_run]
    cases Value.removePathSimbolAtHead (fields.lookup (bytes "imagePath")) >>= Value.concatenated with
    | error raised => rfl
    | ok name =>
      cases Value.concatenated (fields.lookup (bytes "imagePath")) with
      | error raised => rfl
      | ok path =>
        obtain ⟨after, done, -⟩ := compressImage_compressed host path world
        simp only [done, Exec.pure_run]
  · simp only [two, three, Bool.false_eq_true, if_false, Exec.bind_run, Exec.lift_run]
    cases Value.concatenated (fields.lookup (bytes "msgType")) <;> rfl

/-- A message that names no source is no error, whatever else is in it. -/
theorem onMessageArrive_nameless (host : Host) (jsonMsg : Bytes) (world : World) {fields : List (Bytes × Value)}
    (decoded : host.decode jsonMsg = .ok (.table fields))
    (nameless : Value.truthy (field fields "sourceImageName") = false) :
    onMessageArrive host jsonMsg world = (.ok false, world) := by
  have table : Value.truthy (some (.table fields)) = true := rfl
  rw [field] at nameless
  simp [onMessageArrive, Exec.bind_run, decoded, table, Value.index, nameless]

/-- The messages whose fields have to be texts. -/
def Typed (fields : List (Bytes × Value)) : Prop :=
  Value.isNumber (field fields "msgType") 2 = true ∨ Value.isNumber (field fields "msgType") 3 = true

theorem onMessageArrive_raises_iff (host : Host) (jsonMsg : Bytes) (world : World)
    (plain : ∀ fields, host.decode jsonMsg = .ok (.table fields) → Typed fields → PlainFields fields) :
    (∃ raised, (onMessageArrive host jsonMsg world).1 = .error raised) ↔ Raises host jsonMsg := by
  unfold Raises
  cases decoded : host.decode jsonMsg with
  | error raised => simp [onMessageArrive, Exec.bind_run, decoded]
  | ok msg =>
    cases msg with
    | null | number value => simp [onMessageArrive, Exec.bind_run, decoded, Value.truthy, Value.index]
    | boolean flag => cases flag <;> simp [onMessageArrive, Exec.bind_run, decoded, Value.truthy, Value.index]
    | string text => simp [onMessageArrive, Exec.bind_run, decoded, Value.truthy, Value.index]
    | table fields =>
      rcases Bool.eq_false_or_eq_true (Value.truthy (field fields "sourceImageName")) with named | nameless
      · simp only [onMessageArrive_run host jsonMsg world decoded named, Incomplete, named, true_and]
        rcases Bool.eq_false_or_eq_true (Value.isNumber (field fields "msgType") 2) with two | two
        · simp only [two, if_true]
          rcases field_path (plain fields decoded (Or.inl two)).strings "targetImageName" (by simp) with
            ⟨missing, failed⟩ | ⟨text, found, done⟩
          · rw [failed]
            simp [missing]
          · rw [done]
            simp [found]
        rcases Bool.eq_false_or_eq_true (Value.isNumber (field fields "msgType") 3) with three | three
        · simp only [two, three, Bool.false_eq_true, if_false, if_true]
          rcases field_path (plain fields decoded (Or.inr three)).strings "imagePath" (by simp) with
            ⟨missing, failed⟩ | ⟨text, found, done⟩
          · rw [failed]
            simp [missing]
          · rw [done, found]
            simp [Value.concatenated]
        · simp only [two, three, Bool.false_eq_true, if_false]
          cases Value.concatenated (field fields "msgType") <;> simp
      · simp [onMessageArrive_nameless host jsonMsg world decoded nameless, Incomplete, nameless]

theorem sendMessage_keeps (host : Host) (message serverUrl : Bytes) (world : World) :
    (sendMessage host message serverUrl world).2.disk = world.disk ∧
      (sendMessage host message serverUrl world).2.compressed = world.compressed := by
  simp only [sendMessage, Exec.modify_run]
  split <;> exact ⟨rfl, rfl⟩

theorem onMessageArrive_thumbnail (host : Host) (jsonMsg : Bytes) (world : World) {fields : List (Bytes × Value)}
    (decoded : host.decode jsonMsg = .ok (.table fields))
    (named : Value.truthy (field fields "sourceImageName") = true)
    (two : Value.isNumber (field fields "msgType") 2 = true) {name : Bytes}
    (found : field fields "targetImageName" = some (.string name)) :
    let path := appendPathSimbol2Tail thumbnailImaegRoot ++ removePathSimbolAtHead name
    let after := (onMessageArrive host jsonMsg world).2
    after.disk = (compressImage host path world).2.disk ∧ after.compressed = world.compressed ++ [path] := by
  intro path after
  have text : (Value.removePathSimbolAtHead (field fields "targetImageName") >>= Value.concatenated) =
      .ok (removePathSimbolAtHead name) := by
    rw [found]
    rfl
  obtain ⟨middle, done, logged⟩ := compressImage_compressed host path world
  have kept := sendMessage_keeps host jsonMsg resendServerUrl middle
  simp only [after, onMessageArrive_run host jsonMsg world decoded named, two, if_true, text]
  rw [show appendPathSimbol2Tail thumbnailImaegRoot ++ removePathSimbolAtHead name = path from rfl, done]
  exact ⟨kept.1, kept.2.trans logged⟩

/-- A path below the thumbnails is no option, and has a quote only from its name. -/
theorem thumbnail_path {name : Bytes} (unquoted : (39 : UInt8) ∉ name) :
    (appendPathSimbol2Tail thumbnailImaegRoot ++ removePathSimbolAtHead name).head? ≠ some 45 ∧
      (39 : UInt8) ∉ appendPathSimbol2Tail thumbnailImaegRoot ++ removePathSimbolAtHead name := by
  have head : (appendPathSimbol2Tail thumbnailImaegRoot).head? = some slash := by decide
  have root : (39 : UInt8) ∉ appendPathSimbol2Tail thumbnailImaegRoot := by decide
  refine ⟨by simp [List.head?_append, head, slash], ?_⟩
  rw [List.mem_append, mem_removePathSimbolAtHead (by decide)]
  exact not_or.mpr ⟨root, unquoted⟩

/-- The image is replaced exactly when the message is about a thumbnail that can be. -/
theorem replaced_iff (host : Host) (jsonMsg : Bytes) (world : World)
    (plain : ∀ fields, host.decode jsonMsg = .ok (.table fields) → Typed fields → PlainFields fields) :
    Replaced host jsonMsg world (onMessageArrive host jsonMsg world).2 ↔ Replaceable host jsonMsg world.disk := by
  constructor
  · intro holds
    obtain ⟨path, original, content, ⟨fields, name, decoded, kinds⟩, calls, present, output, holds⟩ := holds
    rcases Bool.eq_false_or_eq_true (Value.truthy (field fields "sourceImageName")) with named | nameless
    · rcases kinds with ⟨two, found, rfl⟩ | ⟨three, found, rfl⟩
      · refine ⟨fields, name, original, content, decoded, named, two, found, present, output, ?_⟩
        intro zero
        obtain ⟨text, same, unquoted⟩ := plain fields decoded (Or.inl two) "targetImageName" (by simp) _ found
        cases same
        obtain ⟨disk, -⟩ := onMessageArrive_thumbnail host jsonMsg world decoded named two found
        rw [disk, compressImage_zero host (thumbnail_path unquoted).2 zero, present] at holds
        exact (Option.some.inj holds).symm
      · have notTwo : Value.isNumber (field fields "msgType") 2 = false := by
          by_contra both
          rw [not_both (Bool.eq_true_of_not_eq_false both)] at three
          cases three
        have itself : compressedPaths fields = [name] := by
          simp [compressedPaths, notTwo, three, found, Value.removePathSimbolAtHead, Value.concatenated, bind,
            Except.bind]
        rw [onMessageArrive_named host jsonMsg world decoded named, itself] at calls
        have same := List.append_cancel_left calls
        exact absurd (List.singleton_inj.mp same) (not_rooted_itself name)
    · rw [onMessageArrive_nameless host jsonMsg world decoded nameless] at calls
      cases List.self_eq_append_right.mp calls
  · intro holds
    obtain ⟨fields, name, original, content, decoded, named, two, found, present, output, same⟩ := holds
    obtain ⟨text, again, unquoted⟩ := plain fields decoded (Or.inl two) "targetImageName" (by simp) _ found
    cases again
    obtain ⟨operand, quotes⟩ := thumbnail_path unquoted
    obtain ⟨disk, calls⟩ := onMessageArrive_thumbnail host jsonMsg world decoded named two found
    refine ⟨_, original, content, ⟨fields, name, decoded, Or.inl ⟨two, found, rfl⟩⟩, calls, present, output, ?_⟩
    rw [disk]
    exact compressImage_written host quotes operand present output same

theorem message_plain (msgType : Number) (name : String) : PlainFields (message msgType name) := by
  intro asked listed value found
  obtain ⟨text, rfl⟩ := message_strings msgType name asked listed value found
  obtain ⟨before, after, shape, -⟩ := List.lookup_eq_some_iff.mp found
  have member : (bytes asked, .string text) ∈ message msgType name := by simp [shape]
  simp only [message, List.mem_cons, List.not_mem_nil, or_false, Prod.mk.injEq, reduceCtorEq, and_false, false_or,
    Value.string.injEq] at member
  refine ⟨text, rfl, ?_⟩
  rcases member with ⟨-, rfl⟩ | ⟨-, rfl⟩ <;> decide

theorem absent_untruthful {host : Host} {jsonMsg : Bytes} (answered : (answer host (some jsonMsg)
    ⟨fun _ => none, [], []⟩).1 = .ok (some (bytes "success"))) : ¬ Truthful host jsonMsg ⟨fun _ => none, [], []⟩ := by
  intro truthful
  obtain ⟨path, original, content, -, -, present, -⟩ := truthful answered
  cases present

end ImageServer.CompressImage
