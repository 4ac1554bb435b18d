import ImageServer.CompressImage

/-! Which paths a message can make the worker compress. Both branches build a path below their
root; the second one then compresses the path of the message instead. -/

namespace ImageServer.CompressImage

def field (fields : List (Bytes × Value)) (name : String) : Option Value := fields.lookup (bytes name)

/-- The fields that paths are made of are texts wherever they are there. -/
def StringFields (fields : List (Bytes × Value)) : Prop :=
  ∀ name ∈ ["sourceImageName", "targetImageName", "imagePath"], ∀ value, field fields name = some value →
    ∃ text, value = .string text

/-- Where the message says that the path is: under one of the two roots. -/
def Rooted (host : Host) (jsonMsg path : Bytes) : Prop :=
  ∃ fields name, host.decode jsonMsg = .ok (.table fields) ∧
    ((Value.isNumber (field fields "msgType") 2 = true ∧ field fields "targetImageName" = some (.string name) ∧
        path = appendPathSimbol2Tail thumbnailImaegRoot ++ removePathSimbolAtHead name) ∨
      (Value.isNumber (field fields "msgType") 3 = true ∧ field fields "imagePath" = some (.string name) ∧
        path = appendPathSimbol2Tail originalImageRoot ++ removePathSimbolAtHead name))

/-- Every path that the message makes the worker compress is where the message says. -/
def Confined (host : Host) (jsonMsg : Bytes) (world : World) : Prop :=
  ∀ calls, (onMessageArrive host jsonMsg world).2.compressed = world.compressed ++ calls →
    ∀ path ∈ calls, Rooted host jsonMsg path

/-- A message about an uploaded image, which has the third type. -/
def Uploaded (host : Host) (jsonMsg : Bytes) (name : Bytes) : Prop :=
  ∃ fields, host.decode jsonMsg = .ok (.table fields) ∧ Value.truthy (field fields "sourceImageName") = true ∧
    Value.isNumber (field fields "msgType") 3 = true ∧ field fields "imagePath" = some (.string name)

theorem compressImage_compressed (host : Host) (path : Bytes) (world : World) :
    ∃ after, compressImage host path world = (.ok (), after) ∧ after.compressed = world.compressed ++ [path] := by
  simp only [compressImage, Exec.bind_run, Exec.modify_run, Exec.get_run, execute]
  split
  · simp only [Exec.bind_run, Exec.modify_run, Exec.get_run]
    split <;> exact ⟨_, rfl, rfl⟩
  · exact ⟨_, rfl, rfl⟩

theorem not_both {value : Option Value} (two : Value.isNumber value 2 = true) :
    Value.isNumber value 3 = false := by
  cases value with
  | none => rfl
  | some value =>
    cases value with
    | number value =>
      simp only [Value.isNumber, Number.eq, Bool.and_eq_true, beq_iff_eq] at two ⊢
      rw [two.1]
      decide
    | _ => rfl

/-- A message that is not a table, or that names no source, makes the worker compress nothing. -/
theorem onMessageArrive_unnamed (host : Host) (jsonMsg : Bytes) (world : World)
    (unnamed : ∀ fields, host.decode jsonMsg = .ok (.table fields) →
      Value.truthy (field fields "sourceImageName") = false) :
    (onMessageArrive host jsonMsg world).2.compressed = world.compressed := by
  simp only [onMessageArrive, Exec.bind_run, Exec.lift_run]
  cases decoded : host.decode jsonMsg with
  | error raised => rfl
  | ok msg =>
    simp only
    split
    · rfl
    cases msg with
    | table fields =>
      have missing := unnamed fields decoded
      rw [field] at missing
      simp [Value.index, Exec.bind_run, missing]
    | string text => simp [Value.index, Exec.bind_run, Value.truthy]
    | null | boolean value | number value => rfl

/-- What a message that names its source makes the worker compress. -/
def compressedPaths (fields : List (Bytes × Value)) : List Bytes :=
  if Value.isNumber (field fields "msgType") 2 then
    match Value.removePathSimbolAtHead (field fields "targetImageName") >>= Value.concatenated with
    | .ok name => [appendPathSimbol2Tail thumbnailImaegRoot ++ name]
    | .error _ => []
  else if Value.isNumber (field fields "msgType") 3 then
    match Value.removePathSimbolAtHead (field fields "imagePath") >>= Value.concatenated,
      Value.concatenated (field fields "imagePath") with
    | .ok _, .ok path => [path]
    | _, _ => []
  else []

theorem onMessageArrive_named (host : Host) (jsonMsg : Bytes) (world : World) {fields : List (Bytes × Value)}
    (decoded : host.decode jsonMsg = .ok (.table fields))
    (named : Value.truthy (field fields "sourceImageName") = true) :
    (onMessageArrive host jsonMsg world).2.compressed = world.compressed ++ compressedPaths fields := by
  have table : Value.truthy (some (.table fields)) = true := rfl
  rw [field] at named
  simp only [onMessageArrive, Exec.bind_run, Exec.lift_run, decoded, table, Bool.not_true, Bool.false_eq_true, if_false,
    Value.index, named, compressedPaths, field]
  rcases Bool.eq_false_or_eq_true (Value.isNumber (fields.lookup (bytes "msgType")) 2) with two | two
  · simp only [two, if_true, Exec.bind_run, Exec.lift_run]
    cases Value.removePathSimbolAtHead (fields.lookup (bytes "targetImageName")) >>= Value.concatenated with
    | error raised => simp
    | ok name =>
      obtain ⟨after, done, logged⟩ := compressImage_compressed host (appendPathSimbol2Tail thumbnailImaegRoot ++ name) world
      simp only [done, sendMessage, Exec.modify_run, Exec.pure_run]
      split <;> exact logged
  rcases Bool.eq_false_or_eq_true (Value.isNumber (fields.lookup (bytes "msgType")) 3) with three | three
  · simp only [two, three, Bool.false_eq_true, if_false, if_true, Exec.bind_run, Exec.lift_run]
    cases Value.removePathSimbolAtHead (fields.lookup (bytes "imagePath")) >>= Value.concatenated with
    | error raised => simp
    | ok name =>
      cases Value.concatenated (fields.lookup (bytes "imagePath")) with
      | error raised => simp
      | ok path =>
        obtain ⟨after, done, logged⟩ := compressImage_compressed host path world
        simpa [done] using logged
  · simp only [two, three, Bool.false_eq_true, if_false, Exec.bind_run, Exec.lift_run]
    cases Value.concatenated (fields.lookup (bytes "msgType")) <;> simp

theorem not_rooted_itself (name : Bytes) :
    name ≠ appendPathSimbol2Tail originalImageRoot ++ removePathSimbolAtHead name := by
  intro same
  have long : 2 ≤ (appendPathSimbol2Tail originalImageRoot).length := by decide
  have lengths := congrArg List.length same
  rw [List.length_append] at lengths
  rcases removePathSimbolAtHead_cases name with whole | slashed
  · rw [whole] at lengths
    omega
  · have one := congrArg List.length slashed
    rw [List.length_cons] at one
    omega

theorem field_path {fields : List (Bytes × Value)} (strings : StringFields fields) (name : String)
    (listed : name ∈ ["sourceImageName", "targetImageName", "imagePath"]) :
    (field fields name = none ∧
        Value.removePathSimbolAtHead (field fields name) >>= Value.concatenated = .error .concatenation) ∨
      ∃ text, field fields name = some (.string text) ∧
        Value.removePathSimbolAtHead (field fields name) >>= Value.concatenated = .ok (removePathSimbolAtHead text) := by
  cases found : field fields name with
  | none => exact Or.inl ⟨rfl, rfl⟩
  | some value =>
    obtain ⟨text, rfl⟩ := strings name listed value found
    exact Or.inr ⟨text, rfl, rfl⟩

/-- A message keeps the worker below its two roots exactly when it is not about an upload. -/
theorem onMessageArrive_confined_iff (host : Host) (jsonMsg : Bytes) (world : World)
    (strings : ∀ fields, host.decode jsonMsg = .ok (.table fields) → StringFields fields) :
    Confined host jsonMsg world ↔ ∀ name, ¬ Uploaded host jsonMsg name := by
  constructor
  · rintro confined name ⟨fields, decoded, named, three, image⟩
    have two : Value.isNumber (field fields "msgType") 2 = false := by
      by_contra both
      rw [not_both (Bool.eq_true_of_not_eq_false both)] at three
      cases three
    have calls : compressedPaths fields = [name] := by
      simp [compressedPaths, two, three, image, Value.removePathSimbolAtHead, Value.concatenated, bind, Except.bind]
    have run := onMessageArrive_named host jsonMsg world decoded named
    obtain ⟨other, text, again, rooted⟩ := confined _ run name (by simp [calls])
    obtain rfl : fields = other := by simpa [decoded] using again
    rcases rooted with ⟨thumbnail, -⟩ | ⟨-, path, same⟩
    · simp [two] at thumbnail
    · obtain rfl : name = text := by simpa [image] using path
      exact not_rooted_itself name same
  · intro notUploaded calls run path member
    by_cases named : ∃ fields, host.decode jsonMsg = .ok (.table fields) ∧
        Value.truthy (field fields "sourceImageName") = true
    · obtain ⟨fields, decoded, truthy⟩ := named
      rw [onMessageArrive_named host jsonMsg world decoded truthy] at run
      rw [← List.append_cancel_left run] at member
      rcases Bool.eq_false_or_eq_true (Value.isNumber (field fields "msgType") 2) with two | two
      · rcases field_path (strings fields decoded) "targetImageName" (by simp) with
          ⟨-, none⟩ | ⟨text, found, done⟩
        · simp [compressedPaths, two, none] at member
        · obtain rfl : path = appendPathSimbol2Tail thumbnailImaegRoot ++ removePathSimbolAtHead text := by
            simpa [compressedPaths, two, done] using member
          exact ⟨fields, text, decoded, Or.inl ⟨two, found, rfl⟩⟩
      rcases Bool.eq_false_or_eq_true (Value.isNumber (field fields "msgType") 3) with three | three
      · rcases field_path (strings fields decoded) "imagePath" (by simp) with ⟨-, none⟩ | ⟨text, found, -⟩
        · simp [compressedPaths, two, three, none] at member
        · exact absurd ⟨fields, decoded, truthy, three, found⟩ (notUploaded text)
      · simp [compressedPaths, two, three] at member
    · have none := onMessageArrive_unnamed host jsonMsg world fun fields decoded =>
        Bool.eq_false_iff.mpr fun truthy => named ⟨fields, decoded, truthy⟩
      rw [none] at run
      rw [List.self_eq_append_right.mp run] at member
      cases member

def reading (fields : List (Bytes × Value)) : Host :=
  .running id ⟨true, .complete⟩ fun _ => .ok (.table fields)

/-- A message of some type, with its source and one more path. -/
def message (msgType : Number) (name : String) : List (Bytes × Value) :=
  [(bytes "msgType", .number msgType), (bytes "sourceImageName", .string (bytes "p/a.jpg")),
    (bytes name, .string (bytes "/p/a.jpg"))]

theorem message_strings (msgType : Number) (name : String) : StringFields (message msgType name) := by
  intro asked listed value found
  obtain ⟨before, after, shape, -⟩ := List.lookup_eq_some_iff.mp found
  have member : (bytes asked, value) ∈ message msgType name := by simp [shape]
  have notType : bytes asked ≠ bytes "msgType" := by
    simp only [List.mem_cons, List.not_mem_nil, or_false] at listed
    rcases listed with rfl | rfl | rfl <;> decide
  simp only [message, List.mem_cons, List.not_mem_nil, or_false, Prod.mk.injEq, notType, false_and, false_or] at member
  rcases member with ⟨-, rfl⟩ | ⟨-, rfl⟩ <;> exact ⟨_, rfl⟩

theorem thumbnail_confined :
    Confined (reading (message 2 "targetImageName")) (bytes "message") ⟨fun _ => none, [], []⟩ := by
  refine (onMessageArrive_confined_iff (reading (message 2 "targetImageName")) (bytes "message") _ ?_).mpr ?_
  · rintro fields ⟨⟩
    exact message_strings 2 "targetImageName"
  · rintro name ⟨fields, ⟨⟩, -, three, -⟩
    revert three
    decide +kernel

/-- A message about an uploaded image makes the worker compress a file that is not below its roots. -/
theorem upload_not_confined :
    StringFields (message 3 "imagePath") ∧
      ¬ Confined (reading (message 3 "imagePath")) (bytes "message") ⟨fun _ => none, [], []⟩ := by
  refine ⟨message_strings 3 "imagePath", fun confined => ?_⟩
  have run : (onMessageArrive (reading (message 3 "imagePath")) (bytes "message") ⟨fun _ => none, [], []⟩).2.compressed =
      [] ++ [bytes "/p/a.jpg"] := by decide +kernel
  obtain ⟨fields, name, ⟨⟩, rooted⟩ := confined [bytes "/p/a.jpg"] run _ (List.mem_singleton_self _)
  rcases rooted with ⟨two, -⟩ | ⟨-, path, same⟩
  · revert two
    decide +kernel
  · have found : field (message 3 "imagePath") "imagePath" = some (.string (bytes "/p/a.jpg")) := rfl
    obtain rfl : bytes "/p/a.jpg" = name := by simpa [found] using path
    exact not_rooted_itself _ same

end ImageServer.CompressImage
