import ImageServer.ShopCache
import ImageServer.Proofs.ReadBack
import ImageServer.Proofs.ShopRouting

/-! When the cache of the router cannot be seen. A key is read in lower case and written as it was
sent, so what a prefix finds in the cache was written by the prefix in lower case, about another
row of the table. -/

namespace ImageServer.Shop
open JavaScript

theorem SqlInteger.number_whole (integer : SqlInteger) :
    ∃ whole : ℤ, integer.number = .fin whole ∧ Number.nearest whole = .fin whole := by
  have magnitude : |integer.value| ≤ 2 ^ 64 := by
    have := integer.lower
    have := integer.upper
    rw [abs_le]
    omega
  have small : |(integer.value : ℚ)| < 2 ^ 1024 - 2 ^ 970 := by
    calc |(integer.value : ℚ)| ≤ 2 ^ 64 := by exact_mod_cast magnitude
      _ < 2 ^ 970 := pow_lt_pow_right₀ (by norm_num) (by norm_num)
      _ ≤ 2 ^ 1024 - 2 ^ 970 := by
        rw [Number.top_power]
        have : (0 : ℚ) < 2 ^ 970 := by positivity
        generalize (2 : ℚ) ^ 970 = half at *
        linarith
  obtain ⟨rounded, done⟩ := Number.nearest_finite small
  obtain ⟨whole, rfl⟩ := Number.nearest_int done
  exact ⟨whole, done, Number.nearest_nearest done⟩

theorem SqlInteger.readBack (integer : SqlInteger) : parseInt (numberText integer.number) = integer.number := by
  obtain ⟨whole, same, double⟩ := integer.number_whole
  rw [same]
  exact parseInt_numberText double

theorem SqlInteger.mark_not_text (integer : SqlInteger) : '|' ∉ numberText integer.number := by
  obtain ⟨whole, same, -⟩ := integer.number_whole
  rw [same]
  exact mark_not_numberText _

def rowAnswer : Option Row → Action
  | some ⟨some _, some companyType⟩ => typeAnswer companyType.number
  | _ => .notFound

def textAnswer (data : Text) : Action :=
  match JavaScript.split data '|' with
  | [_, companyType] => typeAnswer (parseInt companyType)
  | _ => .notFound

/-- What is added about a row. Nothing is, when the handler raises before. -/
def rowText (untargeted : Except Error Unit) : Option Row → Option Text
  | some ⟨some companyId, some companyType⟩ =>
    if typeAnswer companyType.number = .notFound ∧ untargeted ≠ .ok () then none
    else some (companyId ++ '|' :: numberText companyType.number)
  | _ => some invalid

/-- The mark between the two fields is in the first one. -/
def Marked (row : Option Row) : Prop :=
  ∃ companyId companyType, row = some ⟨some companyId, some companyType⟩ ∧ '|' ∈ companyId

theorem split_nonempty (text : Text) (mark : Char) : 0 < (JavaScript.split text mark).length :=
  List.length_pos_iff.mpr (List.splitOn_ne_nil mark text)

theorem textAnswer_fields (companyId : Text) (companyType : SqlInteger) :
    textAnswer (companyId ++ '|' :: numberText companyType.number) =
      if '|' ∈ companyId then .notFound else typeAnswer companyType.number := by
  have second : (numberText companyType.number).splitOn '|' = [numberText companyType.number] :=
    List.splitOn_eq_singleton companyType.mark_not_text
  have shape : JavaScript.split (companyId ++ '|' :: numberText companyType.number) '|' =
      JavaScript.split companyId '|' ++ [numberText companyType.number] := by
    rw [JavaScript.split, List.splitOn_append_cons_self, second, JavaScript.split]
  unfold textAnswer
  split_ifs with marked
  · obtain ⟨before, after, rfl, -⟩ := List.eq_append_cons_of_mem marked
    split
    next first last fields =>
      have pieces : JavaScript.split (before ++ '|' :: after) '|' = JavaScript.split before '|' ++ JavaScript.split after '|' :=
        List.splitOn_append_cons_self before after
      have lengths := congrArg List.length (shape.symm.trans fields)
      have := split_nonempty before '|'
      have := split_nonempty after '|'
      simp only [pieces, List.length_append, List.length_cons, List.length_nil] at lengths
      omega
    next => rfl
  · have first : JavaScript.split companyId '|' = [companyId] := List.splitOn_eq_singleton marked
    rw [shape, first]
    exact congrArg typeAnswer companyType.readBack

/-- A kept text leads where its row leads, unless the mark is in the company. -/
theorem textAnswer_rowText {untargeted : Except Error Unit} {row : Option Row} {data : Text}
    (kept : rowText untargeted row = some data) :
    data ≠ [] ∧ (Marked row → textAnswer data = .notFound) ∧ (¬ Marked row → textAnswer data = rowAnswer row) := by
  have notFound : textAnswer invalid = .notFound := by decide +kernel
  have some : invalid ≠ [] := by decide
  unfold rowText at kept
  split at kept
  next companyId companyType =>
    split at kept
    · cases kept
    · cases kept
      refine ⟨by simp, ?_, ?_⟩
      · intro holds
        obtain ⟨_, _, ⟨⟩, marked⟩ := holds
        rw [textAnswer_fields, if_pos marked]
      · intro unmarked
        rw [textAnswer_fields, if_neg fun marked => unmarked ⟨_, _, rfl, marked⟩, rowAnswer]
  next others =>
    cases kept
    refine ⟨some, fun _ => notFound, fun _ => ?_⟩
    rw [notFound, rowAnswer]
    exact others

def outcome (actions : List Action) : Option Action := actions.find? Action.answers

variable (setting : Setting)

theorem rowAnswer_isAnswer (row : Option Row) : IsAnswer (rowAnswer row) := by
  unfold rowAnswer
  split
  · exact typeAnswer_isAnswer _
  · exact Or.inl rfl

theorem textAnswer_isAnswer (data : Text) : IsAnswer (textAnswer data) := by
  unfold textAnswer
  split
  · exact typeAnswer_isAnswer _
  · exact Or.inl rfl

theorem outcome_answered {answer : Action} (isAnswer : IsAnswer answer) (cache : Cache) (rest : List Action) :
    outcome (answer :: rest) = some answer ∧
      (answer :: rest).foldl (remember setting) cache = rest.foldl (remember setting) cache := by
  rcases isAnswer with rfl | rfl | rfl <;> exact ⟨rfl, rfl⟩

theorem getData_actions (cache : Cache) (name : Bytes) :
    ∃ rest, (getData (outsideOf setting cache) name []).2 = rowAnswer (setting.table name) :: rest ∧
      ∀ before, rest.foldl (remember setting) before =
        match rowText setting.untargeted (setting.table name) with
        | some text => keep setting before (cacheKey name) text
        | none => before := by
  have selected : (outsideOf setting cache).select name = some (setting.table name).toList := rfl
  unfold getData
  rw [selected]
  rcases setting.table name with _ | ⟨_ | companyId, _ | companyType⟩
  · exact ⟨_, rfl, fun before => rfl⟩
  · exact ⟨_, rfl, fun before => rfl⟩
  · exact ⟨_, rfl, fun before => rfl⟩
  · exact ⟨_, rfl, fun before => rfl⟩
  · have run := answerType_run (outsideOf setting cache) companyType.number []
    have untargeted : (outsideOf setting cache).untargeted = setting.untargeted := rfl
    simp only [Option.toList_some, rowText, rowAnswer]
    by_cases unknown : typeAnswer companyType.number = .notFound
    · rw [if_pos unknown, untargeted] at run
      cases raised : setting.untargeted with
      | error failure =>
        rw [raised] at run
        rw [Exec.bind_error run, unknown]
        exact ⟨_, rfl, fun before => by simp [remember]⟩
      | ok nothing =>
        rw [raised] at run
        rw [Exec.bind_ok run, unknown]
        exact ⟨_, rfl, fun before => by simp [remember]⟩
    · rw [if_neg unknown] at run
      rw [Exec.bind_ok run]
      refine ⟨_, rfl, fun before => ?_⟩
      simp [remember, unknown]

theorem answerCached_actions (cache : Cache) (data : Text) :
    ∃ rest, (answerCached (outsideOf setting cache) data []).2 = textAnswer data :: rest ∧
      ∀ before, rest.foldl (remember setting) before = before := by
  unfold answerCached textAnswer
  rcases JavaScript.split data '|' with _ | ⟨companyId, _ | ⟨companyType, _ | ⟨third, more⟩⟩⟩
  · exact ⟨[], rfl, fun before => rfl⟩
  · exact ⟨[], rfl, fun before => rfl⟩
  · simp only [answerType_run]
    split
    next unknown => exact ⟨[.web none], by rw [unknown]; rfl, fun before => rfl⟩
    next => exact ⟨[], rfl, fun before => rfl⟩
  · exact ⟨[], rfl, fun before => rfl⟩

/-- The rules leave the prefix to the cache, and the cache client takes its key. -/
structure Asked (host : Bytes) : Prop where
  unruled : developerRule (toLowerCase (hostPrefix host)) = false ∧ supplierRule (toLowerCase (hostPrefix host)) = false
  accepted : setting.accepts (cacheKey (toLowerCase (hostPrefix host))) = true

theorem actionsOf_host (cache : Cache) (url host : Bytes) :
    actionsOf setting cache ⟨url, some host⟩ = (answerPrefix (outsideOf setting cache) host []).2 := rfl

theorem request_unasked {host : Bytes} (unasked : ¬ Asked setting host) :
    ∃ answer, IsAnswer answer ∧ ∀ cache url, actionsOf setting cache ⟨url, some host⟩ = [answer] := by
  rcases Bool.eq_false_or_eq_true (developerRule (toLowerCase (hostPrefix host))) with developer | notDeveloper
  · refine ⟨.web (some developerWebUrl), by simp [IsAnswer], fun cache url => ?_⟩
    simp [actionsOf_host, answerPrefix, developer, web_run]
  rcases Bool.eq_false_or_eq_true (supplierRule (toLowerCase (hostPrefix host))) with supplier | notSupplier
  · refine ⟨.web (some supplierWebUrl), by simp [IsAnswer], fun cache url => ?_⟩
    simp [actionsOf_host, answerPrefix, notDeveloper, supplier, web_run]
  · have refused : setting.accepts (cacheKey (toLowerCase (hostPrefix host))) = false :=
      Bool.eq_false_iff.mpr fun accepted => unasked ⟨⟨notDeveloper, notSupplier⟩, accepted⟩
    refine ⟨.notFound, Or.inl rfl, fun cache url => ?_⟩
    simp only [actionsOf_host, answerPrefix, notDeveloper, notSupplier, outsideOf, refused, Bool.false_eq_true, if_false]
    rfl

theorem actionsOf_asked {host : Bytes} (asked : Asked setting host) (cache : Cache) (url : Bytes) :
    actionsOf setting cache ⟨url, some host⟩ =
      (answerGot (outsideOf setting cache) (.data (cache (cacheKey (toLowerCase (hostPrefix host))))) (hostPrefix host) []).2 := by
  have got : (outsideOf setting cache).get (cacheKey (toLowerCase (hostPrefix host))) =
      .data (cache (cacheKey (toLowerCase (hostPrefix host)))) := if_pos asked.accepted
  simp only [actionsOf_host, answerPrefix, asked.unruled.1, asked.unruled.2, got, Bool.false_eq_true, if_false]

theorem request_kept {host : Bytes} (asked : Asked setting host) {cache : Cache} {data : Text}
    (kept : cache (cacheKey (toLowerCase (hostPrefix host))) = some data) (nonempty : data ≠ []) (url : Bytes) :
    outcome (actionsOf setting cache ⟨url, some host⟩) = some (textAnswer data) ∧
      step setting cache (.request ⟨url, some host⟩) = cache := by
  obtain ⟨rest, actions, unchanged⟩ := answerCached_actions setting cache data
  have run : actionsOf setting cache ⟨url, some host⟩ = textAnswer data :: rest := by
    rw [actionsOf_asked setting asked, kept, ← actions]
    cases data with
    | nil => exact absurd rfl nonempty
    | cons c rest => rfl
  obtain ⟨first, later⟩ := outcome_answered setting (textAnswer_isAnswer data) cache rest
  exact ⟨by rw [run, first], by rw [step, run, later, unchanged]⟩

theorem request_missed {host : Bytes} (asked : Asked setting host) {cache : Cache}
    (missed : cache (cacheKey (toLowerCase (hostPrefix host))) = none) (url : Bytes) :
    outcome (actionsOf setting cache ⟨url, some host⟩) = some (rowAnswer (setting.table (hostPrefix host))) ∧
      step setting cache (.request ⟨url, some host⟩) =
        match rowText setting.untargeted (setting.table (hostPrefix host)) with
        | some text => keep setting cache (cacheKey (hostPrefix host)) text
        | none => cache := by
  obtain ⟨rest, actions, remembered⟩ := getData_actions setting cache (hostPrefix host)
  have run : actionsOf setting cache ⟨url, some host⟩ = rowAnswer (setting.table (hostPrefix host)) :: rest := by
    rw [actionsOf_asked setting asked, missed, ← actions]
    rfl
  obtain ⟨first, later⟩ := outcome_answered setting (rowAnswer_isAnswer (setting.table (hostPrefix host))) cache rest
  exact ⟨by rw [run, first], by rw [step, run, later, remembered]⟩

/-- Everything kept was written about the row of the name that its key has. -/
def Faithful (cache : Cache) : Prop :=
  ∀ key data, cache key = some data →
    ∃ name, key = cacheKey name ∧ rowText setting.untargeted (setting.table name) = some data

variable {setting}

theorem cacheKey_injective {first second : Bytes} (same : cacheKey first = cacheKey second) : first = second :=
  List.append_cancel_left same

theorem Faithful.text {cache : Cache} (faithful : Faithful setting cache) {name : Bytes} {data : Text}
    (kept : cache (cacheKey name) = some data) : rowText setting.untargeted (setting.table name) = some data := by
  obtain ⟨other, same, text⟩ := faithful _ _ kept
  rw [cacheKey_injective same]
  exact text

theorem Faithful.keep {cache : Cache} (faithful : Faithful setting cache) {name : Bytes} {text : Text}
    (about : rowText setting.untargeted (setting.table name) = some text) :
    Faithful setting (keep setting cache (cacheKey name) text) := by
  intro key data kept
  unfold Shop.keep at kept
  split at kept
  · by_cases same : key = cacheKey name
    · rw [same, Function.update_self, Option.some.injEq] at kept
      exact ⟨name, same, kept ▸ about⟩
    · rw [Function.update_of_ne same] at kept
      exact faithful key data kept
  · exact faithful key data kept

theorem Faithful.step {cache : Cache} (faithful : Faithful setting cache) (event : Event) :
    Faithful setting (step setting cache event) := by
  cases event with
  | evict key =>
    intro other data kept
    by_cases same : other = key
    · simp [Shop.step, same] at kept
    · exact faithful other data (by simpa [Shop.step, same] using kept)
  | request request =>
    obtain ⟨url, _ | host⟩ := request
    · exact faithful
    by_cases asked : Asked setting host
    · cases kept : cache (cacheKey (toLowerCase (hostPrefix host))) with
      | some data =>
        rw [(request_kept setting asked kept (textAnswer_rowText (faithful.text kept)).1 url).2]
        exact faithful
      | none =>
        rw [(request_missed setting asked kept url).2]
        split
        next text about => exact faithful.keep about
        next => exact faithful
    · obtain ⟨answer, isAnswer, actions⟩ := request_unasked setting asked
      rw [Shop.step, actions, (outcome_answered setting isAnswer cache []).2]
      exact faithful

theorem Faithful.run (events : List Event) : Faithful setting (Runs.run (Shop.step setting) emptyCache events) :=
  Runs.run_invariant (fun _ event faithful => faithful.step event) (by rintro _ _ ⟨⟩) events

/-- The first piece of a text: the text up to the mark, or all of it. -/
theorem split_first (text : Bytes) (mark : UInt8) :
    ∃ rest, text = (JavaScript.split text mark).headD [] ++ rest ∧ mark ∉ (JavaScript.split text mark).headD [] := by
  by_cases marked : mark ∈ text
  · obtain ⟨before, after, rfl, unmarked⟩ := List.eq_append_cons_of_mem marked
    rw [JavaScript.split, List.splitOn_append_cons_self_of_not_mem unmarked]
    exact ⟨_, rfl, unmarked⟩
  · rw [JavaScript.split, List.splitOn_eq_singleton marked]
    exact ⟨[], by simp, marked⟩

theorem split_unmarked {text : Bytes} {mark : UInt8} (unmarked : mark ∉ text) : (JavaScript.split text mark).headD [] = text := by
  rw [JavaScript.split, List.splitOn_eq_singleton unmarked, List.headD_cons]

theorem hostPrefix_unmarked (host : Bytes) : 58 ∉ hostPrefix host ∧ 46 ∉ hostPrefix host := by
  obtain ⟨port, whole, colon⟩ := split_first host 58
  obtain ⟨domain, hosts, dot⟩ := split_first ((JavaScript.split host 58).headD []) 46
  refine ⟨fun member => colon ?_, dot⟩
  rw [hosts]
  exact List.mem_append_left domain member

theorem hostPrefix_self {name : Bytes} (colon : 58 ∉ name) (dot : 46 ∉ name) : hostPrefix name = name := by
  unfold hostPrefix
  rw [split_unmarked colon, split_unmarked dot]

theorem toLowerCase_idem (text : Bytes) : toLowerCase (toLowerCase text) = toLowerCase text := by
  simp only [toLowerCase, List.map_map, List.map_inj_left, Function.comp]
  intro c _
  split
  next upper =>
    rw [if_neg]
    simp only [UInt8.le_iff_toNat_le, ne_eq, ← UInt8.toNat_inj, UInt8.toNat_add] at upper ⊢
    simp at upper ⊢
    omega
  next => rfl

/-- Lower case turns no letter into another sign below the letters. -/
theorem toLowerCase_unmarked {text : Bytes} {mark : UInt8} (low : mark < 65) (unmarked : mark ∉ text) :
    mark ∉ toLowerCase text := by
  intro member
  obtain ⟨c, inside, same⟩ := List.mem_map.mp member
  split at same
  next upper =>
    simp only [UInt8.le_iff_toNat_le, UInt8.lt_iff_toNat_lt, ne_eq, ← UInt8.toNat_inj, UInt8.toNat_add] at upper low same
    simp at upper low same
    omega
  next => exact unmarked (same ▸ inside)

/-- The lower-case prefix can itself be sent as a host, and is then asked for under the same key. -/
theorem hostPrefix_lower (host : Bytes) :
    hostPrefix (toLowerCase (hostPrefix host)) = toLowerCase (hostPrefix host) := by
  obtain ⟨colon, dot⟩ := hostPrefix_unmarked host
  exact hostPrefix_self (toLowerCase_unmarked (by decide) colon) (toLowerCase_unmarked (by decide) dot)

theorem Asked.lower {host : Bytes} (asked : Asked setting host) : Asked setting (toLowerCase (hostPrefix host)) := by
  have same : toLowerCase (hostPrefix (toLowerCase (hostPrefix host))) = toLowerCase (hostPrefix host) := by
    rw [hostPrefix_lower, toLowerCase_idem]
  exact ⟨by rw [same]; exact asked.unruled, by rw [same]; exact asked.accepted⟩

variable (setting)

/-- The row has a type that no web belongs to, and the handler raises before it is remembered. -/
def Unkept (row : Option Row) : Prop :=
  ∃ companyId companyType, row = some ⟨some companyId, some companyType⟩ ∧ ¬ Known companyType.number ∧
    setting.untargeted ≠ .ok ()

/-- The prefix as it is sent and the prefix in lower case lead to the same place, and where that
is a web, the company of the prefix in lower case can be kept. -/
structure Agreeing (host : Bytes) : Prop where
  same : rowAnswer (setting.table (hostPrefix host)) = rowAnswer (setting.table (toLowerCase (hostPrefix host)))
  unmarked : rowAnswer (setting.table (toLowerCase (hostPrefix host))) ≠ .notFound →
    ¬ Marked (setting.table (toLowerCase (hostPrefix host)))

/-- Two requests with one host lead to the same place, whatever happened before and between. -/
def Transparent : Prop :=
  ∀ (before between : List Event) (first second : Request), first.host = second.host →
    outcome (actionsOf setting (Runs.run (step setting) emptyCache before) first) =
      outcome (actionsOf setting (Runs.run (step setting) emptyCache (before ++ .request first :: between)) second)

variable {setting}

theorem rowText_eq_none_iff (row : Option Row) : rowText setting.untargeted row = none ↔ Unkept setting row := by
  rcases row with _ | ⟨_ | companyId, _ | companyType⟩ <;>
    simp [rowText, Unkept, known_iff]

theorem textAnswer_kept {host : Bytes} (agreeing : Agreeing setting host) {data : Text}
    (text : rowText setting.untargeted (setting.table (toLowerCase (hostPrefix host))) = some data) :
    textAnswer data = rowAnswer (setting.table (hostPrefix host)) := by
  obtain ⟨-, marked, unmarked⟩ := textAnswer_rowText text
  rw [agreeing.same]
  by_cases mark : Marked (setting.table (toLowerCase (hostPrefix host)))
  · rw [marked mark]
    by_contra web
    exact agreeing.unmarked (Ne.symm web) mark
  · exact unmarked mark

theorem outcome_row {host : Bytes} (asked : Asked setting host)
    (agreed : Unkept setting (setting.table (toLowerCase (hostPrefix host))) ∨ Agreeing setting host)
    {cache : Cache} (faithful : Faithful setting cache) (url : Bytes) :
    outcome (actionsOf setting cache ⟨url, some host⟩) = some (rowAnswer (setting.table (hostPrefix host))) := by
  cases kept : cache (cacheKey (toLowerCase (hostPrefix host))) with
  | none => exact (request_missed setting asked kept url).1
  | some data =>
    have text := faithful.text kept
    rw [(request_kept setting asked kept (textAnswer_rowText text).1 url).1]
    rcases agreed with unkept | agreeing
    · rw [(rowText_eq_none_iff _).mpr unkept] at text
      cases text
    · rw [textAnswer_kept agreeing text]

theorem step_lower {host : Bytes} (asked : Asked setting host) {data : Text}
    (text : rowText setting.untargeted (setting.table (toLowerCase (hostPrefix host))) = some data)
    {cache : Cache} (faithful : Faithful setting cache) (url : Bytes) :
    step setting cache (.request ⟨url, some (toLowerCase (hostPrefix host))⟩)
      (cacheKey (toLowerCase (hostPrefix host))) = some data := by
  have lower := hostPrefix_lower host
  have key : toLowerCase (hostPrefix (toLowerCase (hostPrefix host))) = toLowerCase (hostPrefix host) := by
    rw [lower, toLowerCase_idem]
  cases kept : cache (cacheKey (toLowerCase (hostPrefix host))) with
  | some other =>
    obtain rfl : other = data := by simpa [faithful.text kept] using text
    rw [(request_kept setting asked.lower (by rw [key]; exact kept) (textAnswer_rowText text).1 url).2, kept]
  | none =>
    rw [(request_missed setting asked.lower (by rw [key]; exact kept) url).2, lower, text]
    simp [keep, asked.accepted, kept]

/-- In a transparent run every host that shares a key leads where the kept text leads. -/
theorem Transparent.row {host : Bytes} (transparent : Transparent setting) (asked : Asked setting host) {data : Text}
    (text : rowText setting.untargeted (setting.table (toLowerCase (hostPrefix host))) = some data)
    (other : Bytes) (shares : toLowerCase (hostPrefix other) = toLowerCase (hostPrefix host)) :
    rowAnswer (setting.table (hostPrefix other)) = textAnswer data := by
  have otherAsked : Asked setting other := ⟨by rw [shares]; exact asked.unruled, by rw [shares]; exact asked.accepted⟩
  have faithful : Faithful setting _ := Faithful.run [.request ⟨[], some other⟩]
  have kept := step_lower asked text faithful []
  rw [← shares] at kept
  have same := transparent [] [.request ⟨[], some (toLowerCase (hostPrefix host))⟩] ⟨[], some other⟩ ⟨[], some other⟩ rfl
  have missed : emptyCache (cacheKey (toLowerCase (hostPrefix other))) = none := rfl
  have first := (request_missed setting otherAsked missed []).1
  have second := (request_kept setting otherAsked kept (textAnswer_rowText text).1 []).1
  rw [← shares] at same
  simp only [Runs.run_nil, List.nil_append, Runs.run_cons] at same second
  rw [first, second] at same
  exact Option.some.inj same

/-- The cache cannot be seen exactly when, for every host that the cache is asked about, the row of
the prefix in lower case is never remembered or agrees with the row of the prefix as it is sent. -/
theorem transparent_iff :
    Transparent setting ↔ ∀ host, Asked setting host →
      Unkept setting (setting.table (toLowerCase (hostPrefix host))) ∨ Agreeing setting host := by
  constructor
  · intro transparent host asked
    cases text : rowText setting.untargeted (setting.table (toLowerCase (hostPrefix host))) with
    | none => exact Or.inl ((rowText_eq_none_iff _).mp text)
    | some data =>
      have sent := transparent.row asked text host rfl
      have lower := transparent.row asked text (toLowerCase (hostPrefix host))
        (by rw [hostPrefix_lower, toLowerCase_idem])
      rw [hostPrefix_lower] at lower
      refine Or.inr ⟨by rw [sent, lower], fun web marked => ?_⟩
      exact web (by rw [lower, (textAnswer_rowText text).2.1 marked])
  · rintro agreed before between ⟨url, host⟩ ⟨other, _⟩ ⟨⟩
    cases host with
    | none => rfl
    | some host =>
      by_cases asked : Asked setting host
      · rw [outcome_row asked (agreed host asked) (Faithful.run before) url,
          outcome_row asked (agreed host asked) (Faithful.run _) other]
      · obtain ⟨answer, -, actions⟩ := request_unasked setting asked
        rw [actions, actions]

/-- One company has a domain in lower case, another one has the mark in its name. -/
def shopSetting : Setting where
  table name :=
    if name = bytes "shop" then some ⟨some "7".toList, some ⟨1, by norm_num, by norm_num⟩⟩
    else if name = bytes "store" then some ⟨some "7|8".toList, some ⟨2, by norm_num, by norm_num⟩⟩
    else none
  accepts _ := true
  untargeted := .error .type

def shopHost (host : String) : Request := ⟨bytes "/", some (bytes host)⟩

/-- A capital letter finds no row, until the domain in lower case has been asked for, and a marked
company is found only until it is kept. -/
theorem cache_is_seen :
    ¬ Transparent shopSetting ∧
      outcome (actionsOf shopSetting emptyCache (shopHost "store.example.com")) ≠
        outcome (actionsOf shopSetting
          (step shopSetting emptyCache (.request (shopHost "store.example.com"))) (shopHost "store.example.com")) := by
  refine ⟨fun transparent => ?_, by decide +kernel⟩
  have same := transparent [] [.request (shopHost "shop.example.com")] (shopHost "Shop.example.com")
    (shopHost "Shop.example.com") rfl
  revert same
  decide +kernel

end ImageServer.Shop
