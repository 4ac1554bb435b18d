import ImageServer.ShopTime
import ImageServer.Proofs.CacheTransparency

/-! How old an answer of the router can be. What is kept was made of the row that its name had at
some point of the run, was under way until it was kept, and runs out ten minutes later. -/

namespace ImageServer.ShopTime
open JavaScript Shop

theorem calls_answered {answer : Action} (isAnswer : IsAnswer answer) (rest : List Action) :
    calls (answer :: rest) = calls rest := by
  rcases isAnswer with rfl | rfl | rfl <;> rfl

theorem answerType_calls (outside : Outside) (companyType : Number) :
    calls (answerType outside companyType []).2 = [] := by
  rw [answerType_run]
  split
  · rfl
  · exact calls_answered (typeAnswer_isAnswer companyType) []

theorem answerCached_calls (outside : Outside) (data : Text) : calls (answerCached outside data []).2 = [] := by
  unfold answerCached
  rcases JavaScript.split data '|' with _ | ⟨companyId, _ | ⟨companyType, _ | ⟨third, more⟩⟩⟩
  · rfl
  · rfl
  · exact answerType_calls outside _
  · rfl

/-- A callback of the cache that does not ask the database adds nothing. -/
theorem answerGot_calls (outside : Outside) {got : Got} (present : Got.missing got = false) (name : Bytes) :
    calls (answerGot outside got name []).2 = [] := by
  rcases got with _ | _ | _ | ⟨c, rest⟩
  · rfl
  · cases present
  · cases present
  · exact answerCached_calls outside (c :: rest)

variable (setting : Setting)

theorem getData_calls (cache : Cache) (name : Bytes) :
    calls (getData (outsideOf setting cache) name []).2 =
      (rowText setting.untargeted (setting.table name)).toList.map fun text => (cacheKey name, text) := by
  have selected : (outsideOf setting cache).select name = some (setting.table name).toList := rfl
  unfold getData
  rw [selected]
  rcases setting.table name with _ | ⟨_ | companyId, _ | companyType⟩
  · rfl
  · rfl
  · rfl
  · rfl
  · have run := answerType_run (outsideOf setting cache) companyType.number []
    have untargeted : (outsideOf setting cache).untargeted = setting.untargeted := rfl
    simp only [Option.toList_some, rowText]
    by_cases unknown : typeAnswer companyType.number = .notFound
    · rw [if_pos unknown, untargeted] at run
      cases raised : setting.untargeted with
      | error failure =>
        rw [raised] at run
        rw [Exec.bind_error run]
        simp [unknown, calls]
      | ok nothing =>
        rw [raised] at run
        rw [Exec.bind_ok run]
        simp [perform, calls]
    · rw [if_neg unknown] at run
      rw [Exec.bind_ok run]
      rw [if_neg fun unkept => unknown unkept.1]
      exact calls_answered (typeAnswer_isAnswer companyType.number) _

theorem outsideAt_got (moment : Moment) (host : Bytes) :
    (outsideAt setting moment).get (lowerKey host) =
      if setting.accepts (lowerKey host) then .data (moment.cache (lowerKey host)) else .error := rfl

theorem answerPrefix_ruled (outside : Outside) {host : Bytes} (decided : ruled host = true) :
    ∃ answer, IsAnswer answer ∧ (answerPrefix outside host []).2 = [answer] := by
  rcases Bool.eq_false_or_eq_true (developerRule (toLowerCase (hostPrefix host))) with developer | notDeveloper
  · refine ⟨.web (some developerWebUrl), Or.inr (Or.inl rfl), ?_⟩
    simp [answerPrefix, developer, web_run]
  · have supplier : supplierRule (toLowerCase (hostPrefix host)) = true := by simpa [ruled, notDeveloper] using decided
    refine ⟨.web (some supplierWebUrl), Or.inr (Or.inr rfl), ?_⟩
    simp [answerPrefix, notDeveloper, supplier, web_run]

/-- Only the callback of the query adds a text, and it is the text of the row that was read. -/
theorem actionsAt_calls (moment : Moment) (event : Event) :
    ∀ call ∈ calls (actionsAt setting moment event), ∃ name,
      event = .selected name ∧ call.1 = cacheKey name ∧ rowText setting.untargeted (moment.table name) = some call.2 := by
  intro call member
  cases event with
  | request request =>
    obtain ⟨url, _ | host⟩ := request
    · cases member
    simp only [actionsAt] at member
    split at member
    next decided =>
      obtain ⟨answer, isAnswer, actions⟩ := answerPrefix_ruled (outsideAt setting moment) decided
      rw [actions, calls_answered isAnswer] at member
      cases member
    next => cases member
  | got host =>
    simp only [actionsAt] at member
    split at member
    next asked =>
      rw [answerGot_calls _ asked.2] at member
      cases member
    next => cases member
  | failed host =>
    simp only [actionsAt] at member
    split at member
    · cases member
    · cases member
  | selected name =>
    simp only [actionsAt] at member
    split at member
    next waiting =>
      have same : (clientConnectionReady (outsideAt setting moment) name []).2 =
          (getData (outsideAt setting moment) name []).2 := rfl
      rw [same, outsideAt, getData_calls] at member
      simp only [List.mem_map, Option.mem_toList] at member
      obtain ⟨text, made, rfl⟩ := member
      exact ⟨name, rfl, rfl, made⟩
    next => cases member
  | landed key text => cases member
  | evict key => cases member
  | store name row => cases member
  | wait seconds => cases member

theorem step_adding {moment : Moment} {event : Event} {call : Bytes × Text}
    (member : call ∈ (step setting moment event).adding) :
    call ∈ moment.adding ∨ ∃ name, event = .selected name ∧ call.1 = cacheKey name ∧
      rowText setting.untargeted (moment.table name) = some call.2 := by
  rcases List.mem_append.mp member with older | called
  · refine Or.inl ?_
    cases event with
    | request request =>
      obtain ⟨url, _ | host⟩ := request
      · exact older
      · simp only [next] at older
        split at older <;> exact older
    | got host =>
      simp only [next] at older
      split at older <;> exact older
    | landed key text =>
      simp only [next] at older
      split at older
      · exact List.mem_of_mem_erase older
      · exact older
    | failed host => exact older
    | selected name => exact older
    | evict key => exact older
    | store name row => exact older
    | wait seconds => exact older
  · exact Or.inr (actionsAt_calls setting moment event call called)

theorem step_kept {moment : Moment} {event : Event} {key : Bytes} {item : Text × ℕ}
    (kept : (step setting moment event).kept key = some item) :
    moment.kept key = some item ∨
      event = .landed key item.1 ∧ (key, item.1) ∈ moment.adding ∧ item.2 = moment.now + lifetime := by
  cases event with
  | request request =>
    refine Or.inl ?_
    obtain ⟨url, _ | host⟩ := request
    · exact kept
    · simp only [step, next] at kept
      split at kept <;> exact kept
  | got host =>
    refine Or.inl ?_
    simp only [step, next] at kept
    split at kept <;> exact kept
  | failed host => exact Or.inl kept
  | selected name => exact Or.inl kept
  | store name row => exact Or.inl kept
  | wait seconds => exact Or.inl kept
  | evict other =>
    refine Or.inl ?_
    by_cases same : key = other
    · simp [step, next, same] at kept
    · simpa [step, next, same] using kept
  | landed other text =>
    simp only [step, next] at kept
    split at kept
    next waiting =>
      split at kept
      next free =>
        change Function.update moment.kept other (some (text, moment.now + lifetime)) key = some item at kept
        by_cases same : key = other
        · rw [same, Function.update_self] at kept
          cases kept
          exact Or.inr ⟨by rw [same], by rw [same]; exact waiting, rfl⟩
        · rw [Function.update_of_ne same] at kept
          exact Or.inl kept
      next => exact Or.inl kept
    next => exact Or.inl kept

theorem step_now (moment : Moment) (event : Event) : moment.now ≤ (step setting moment event).now := by
  cases event with
  | request request =>
    obtain ⟨url, _ | host⟩ := request
    · exact le_refl _
    · simp only [step, next]
      split <;> exact le_refl _
  | got host =>
    simp only [step, next]
    split <;> exact le_refl _
  | landed key text =>
    simp only [step, next]
    split <;> exact le_refl _
  | failed host => exact le_refl _
  | selected name => exact le_refl _
  | evict key => exact le_refl _
  | store name row => exact le_refl _
  | wait seconds => exact Nat.le_add_right _ _

theorem after_append (past events : List Event) :
    after setting (past ++ events) = Runs.run (step setting) (after setting past) events :=
  List.foldl_append

theorem after_concat (past : List Event) (event : Event) :
    after setting (past ++ [event]) = step setting (after setting past) event :=
  after_append setting past [event]

theorem after_now {first last : List Event} (initial : first <+: last) :
    (after setting first).now ≤ (after setting last).now := by
  obtain ⟨rest, rfl⟩ := initial
  rw [after_append]
  have keeps : ∀ moment event, (after setting first).now ≤ moment.now →
      (after setting first).now ≤ (step setting moment event).now :=
    fun moment event earlier => earlier.trans (step_now setting moment event)
  exact Runs.run_invariant keeps (le_refl _) rest

/-- A text was made of the row that the name of its key had at this point of the run. -/
def Made (made : List Event) (call : Bytes × Text) : Prop :=
  ∃ name, call.1 = cacheKey name ∧ rowText setting.untargeted ((after setting made).table name) = some call.2

/-- A text was made at a point of the run and has been under way since. -/
structure UnderWay (past made : List Event) (call : Bytes × Text) : Prop where
  initial : made <+: past
  text : Made setting made call
  since : ∀ middle, made <+: middle → middle <+: past → call ∈ (after setting middle).adding

/-- Where everything that is under way or kept comes from. -/
structure History (past : List Event) : Prop where
  adding : ∀ call ∈ (after setting past).adding, ∃ made, UnderWay setting past made call
  kept : ∀ key item, (after setting past).kept key = some item →
    ∃ before made, before ++ [.landed key item.1] <+: past ∧ UnderWay setting before made (key, item.1) ∧
      item.2 = (after setting before).now + lifetime

variable {setting}

theorem UnderWay.concat {past made : List Event} {call : Bytes × Text} (way : UnderWay setting past made call) {event : Event}
    (still : call ∈ (after setting (past ++ [event])).adding) : UnderWay setting (past ++ [event]) made call := by
  refine ⟨way.initial.trans (List.prefix_append past [event]), way.text, ?_⟩
  intro middle later within
  rcases List.prefix_concat_iff.mp within with rfl | earlier
  · exact still
  · exact way.since middle later earlier

theorem UnderWay.selected {past : List Event} {call : Bytes × Text} {name : Bytes} (key : call.1 = cacheKey name)
    (text : rowText setting.untargeted ((after setting past).table name) = some call.2)
    (added : call ∈ (after setting (past ++ [.selected name])).adding) :
    UnderWay setting (past ++ [.selected name]) (past ++ [.selected name]) call := by
  refine ⟨List.prefix_refl _, ⟨name, key, ?_⟩, ?_⟩
  · rw [after_concat]
    exact text
  · intro middle later within
    rw [later.eq_of_length_le within.length_le] at added
    exact added

theorem History.concat {past : List Event} (history : History setting past) (event : Event) :
    History setting (past ++ [event]) := by
  constructor
  · intro call member
    have stepped := member
    rw [after_concat] at stepped
    rcases step_adding setting stepped with older | ⟨name, rfl, key, text⟩
    · obtain ⟨made, way⟩ := history.adding call older
      exact ⟨made, way.concat member⟩
    · exact ⟨_, UnderWay.selected key text member⟩
  · intro key item kept
    rw [after_concat] at kept
    rcases step_kept setting kept with older | ⟨rfl, waiting, till⟩
    · obtain ⟨before, made, initial, way, till⟩ := history.kept key item older
      exact ⟨before, made, initial.trans (List.prefix_append past [event]), way, till⟩
    · obtain ⟨made, way⟩ := history.adding _ waiting
      exact ⟨past, made, List.prefix_refl _, way, till⟩

theorem History.run (events : List Event) : History setting events := by
  induction events using List.reverseRecOn with
  | nil =>
    refine ⟨?_, ?_⟩
    · intro call member
      cases member
    · intro key item kept
      cases kept
  | append_singleton past event history => exact history.concat event

theorem cache_kept {moment : Moment} {key : Bytes} {data : Text} (cached : moment.cache key = some data) :
    ∃ till, moment.kept key = some (data, till) ∧ moment.now < till := by
  obtain ⟨⟨text, till⟩, kept, rfl⟩ := Option.map_eq_some_iff.mp cached
  obtain ⟨found, live⟩ := Option.filter_eq_some_iff.mp kept
  exact ⟨till, found, of_decide_eq_true live⟩

/-- A text that can be found in the cache reached it less than ten minutes before. -/
theorem cached_since {events : List Event} {key : Bytes} {data : Text} (cached : (after setting events).cache key = some data) :
    ∃ before made, before <+: events ∧ UnderWay setting before made (key, data) ∧
      (after setting events).now < (after setting before).now + lifetime := by
  obtain ⟨till, kept, live⟩ := cache_kept cached
  obtain ⟨before, made, initial, way, rfl⟩ := (History.run events).kept key _ kept
  exact ⟨before, made, (List.prefix_append before _).trans initial, way, live⟩

theorem got_outcome {moment : Moment} {host : Bytes} {answer : Action} (accepted : setting.accepts (lowerKey host) = true)
    (answered : outcome (actionsAt setting moment (.got host)) = some answer) :
    ∃ data, moment.cache (lowerKey host) = some data ∧ answer = textAnswer data := by
  simp only [actionsAt, outsideAt_got, accepted, if_true] at answered
  split at answered
  next asked =>
    cases cached : moment.cache (lowerKey host) with
    | none =>
      rw [cached] at asked
      cases asked.2
    | some data =>
      rw [cached] at asked answered
      cases data with
      | nil => cases asked.2
      | cons c rest =>
        obtain ⟨later, actions, -⟩ := answerCached_actions { setting with table := moment.table } moment.cache (c :: rest)
        have run : (answerGot (outsideAt setting moment) (.data (some (c :: rest))) (hostPrefix host) []).2 =
            textAnswer (c :: rest) :: later := actions
        rw [run, (outcome_answered setting (textAnswer_isAnswer _) moment.cache later).1] at answered
        exact ⟨_, rfl, (Option.some.inj answered).symm⟩
  next => cases answered

theorem selected_outcome {moment : Moment} {name : Bytes} {answer : Action}
    (answered : outcome (actionsAt setting moment (.selected name)) = some answer) :
    answer = rowAnswer (moment.table name) := by
  simp only [actionsAt] at answered
  split at answered
  next waiting =>
    obtain ⟨later, actions, -⟩ := getData_actions { setting with table := moment.table } moment.cache name
    have run : (clientConnectionReady (outsideAt setting moment) name []).2 = rowAnswer (moment.table name) :: later := actions
    rw [run, (outcome_answered setting (rowAnswer_isAnswer _) moment.cache later).1] at answered
    exact (Option.some.inj answered).symm
  next => cases answered

/-- An answer is that of a row, or the mark in its company hides it. -/
def Leads (row : Option Row) (answer : Action) : Prop :=
  answer = rowAnswer row ∨ Marked row ∧ answer = .notFound

theorem Made.leads {made : List Event} {name : Bytes} {data : Text} (text : Made setting made (cacheKey name, data)) :
    Leads ((after setting made).table name) (textAnswer data) := by
  obtain ⟨other, key, about⟩ := text
  rw [← cacheKey_injective key] at about
  obtain ⟨-, marked, unmarked⟩ := textAnswer_rowText about
  by_cases mark : Marked ((after setting made).table name)
  · exact Or.inr ⟨mark, marked mark⟩
  · exact Or.inl (unmarked mark)

/-- The events at which a name is answered: the cache is read under it, or its row is. -/
inductive Asks (name : Bytes) : Event → Prop where
  | got (host : Bytes) (lower : toLowerCase (hostPrefix host) = name) : Asks name (.got host)
  | selected : Asks name (.selected name)

variable (setting)

/-- The first domain is asked for, and its row is kept. -/
def openedShop : List Event :=
  [.request (shopHost "shop.example.com"), .got (bytes "shop.example.com"), .selected (bytes "shop"),
    .landed (cacheKey (bytes "shop")) "7|1".toList]

theorem step_table (moment : Moment) (event : Event) {name : Bytes} (unstored : ∀ row, event ≠ .store name row) :
    (step setting moment event).table name = moment.table name := by
  cases event with
  | request request =>
    obtain ⟨url, _ | host⟩ := request
    · rfl
    · simp only [step, next]
      split <;> rfl
  | got host =>
    simp only [step, next]
    split <;> rfl
  | landed key text =>
    simp only [step, next]
    split <;> rfl
  | store other row =>
    have different : name ≠ other := fun same => unstored row (by rw [same])
    exact Function.update_of_ne different row moment.table
  | failed host => rfl
  | selected name => rfl
  | evict key => rfl
  | wait seconds => rfl

theorem after_table (settled rest : List Event) {name : Bytes} (steady : ∀ row, .store name row ∉ rest) :
    (after setting (settled ++ rest)).table name = (after setting settled).table name := by
  induction rest using List.reverseRecOn with
  | nil => rw [List.append_nil]
  | append_singleton rest event ih =>
    have unstored : ∀ row, event ≠ .store name row := fun row same => steady row (by simp [same])
    rw [← List.append_assoc, after_concat, step_table setting _ _ unstored]
    exact ih fun row member => steady row (List.mem_append_left _ member)

/-- Once nothing about a name is under way and its row stays as it is, every answer that is given ten
minutes later or after that is the row's. -/
theorem change_seen (settled rest : List Event) (event : Event) (name : Bytes) (answer : Action)
    (accepted : setting.accepts (cacheKey name) = true)
    (idle : ∀ text, (cacheKey name, text) ∉ (after setting settled).adding) (steady : ∀ row, .store name row ∉ rest)
    (later : (after setting settled).now + lifetime ≤ (after setting (settled ++ rest)).now) (asks : Asks name event)
    (answered : outcome (actionsAt setting (after setting (settled ++ rest)) event) = some answer) :
    Leads ((after setting settled).table name) answer := by
  cases asks with
  | got host lower =>
    subst lower
    obtain ⟨data, cached, rfl⟩ := got_outcome accepted answered
    obtain ⟨before, made, initial, way, live⟩ := cached_since cached
    have settledFirst : settled <+: before := by
      rcases List.prefix_or_prefix_of_prefix (List.prefix_append settled rest) initial with first | last
      · exact first
      · have := after_now setting last
        omega
    rcases List.prefix_or_prefix_of_prefix settledFirst way.initial with older | newer
    · obtain ⟨since, rfl⟩ := older
      have within : since <+: rest := (List.prefix_append_right_inj settled).mp (way.initial.trans initial)
      have same := after_table setting settled since fun row member => steady row (within.subset member)
      rw [← same]
      exact way.text.leads
    · exact absurd (way.since settled newer settledFirst) (idle data)
  | selected =>
    rw [← after_table setting settled rest steady]
    exact Or.inl (selected_outcome answered)

/-- Ten minutes after the domain was dropped nobody finds it, in the cache or out of it. -/
theorem dropped_shop_gone :
    Leads ((after shopSetting (openedShop ++ [.store (bytes "shop") none])).table (bytes "shop")) .notFound := by
  have idle : (after shopSetting (openedShop ++ [.store (bytes "shop") none])).adding = [] := by decide +kernel
  have lower : toLowerCase (hostPrefix (bytes "shop.example.com")) = bytes "shop" := by decide +kernel
  refine change_seen shopSetting _
    [.wait 600, .request (shopHost "shop.example.com"), .got (bytes "shop.example.com"), .selected (bytes "shop"),
      .landed (cacheKey (bytes "shop")) invalid, .request (shopHost "shop.example.com")]
    (.got (bytes "shop.example.com")) _ _ rfl ?_ ?_ ?_ (.got _ lower) (by decide +kernel)
  · intro text member
    rw [idle] at member
    cases member
  · intro row member
    simp at member
  · decide +kernel

/-- What is done along a run. -/
def actionsAlong (moment : Moment) : List Event → List Action
  | [] => []
  | event :: events => actionsAt setting moment event ++ actionsAlong (step setting moment event) events

/-- A text that reaches the cache is kept as `keep` says. -/
theorem landed_cache {moment : Moment} {key : Bytes} {text : Text} (waiting : (key, text) ∈ moment.adding) :
    (step setting moment (.landed key text)).cache = keep setting moment.cache key text := by
  have lasting : moment.now < moment.now + lifetime := Nat.lt_add_of_pos_right (by decide)
  have now : (step setting moment (.landed key text)).now = moment.now := by simp only [step, next, if_pos waiting]
  have kept : (step setting moment (.landed key text)).kept =
      if setting.accepts key = true ∧ moment.cache key = none then
        Function.update moment.kept key (some (text, moment.now + lifetime))
      else moment.kept := by
    simp only [step, next, if_pos waiting]
  funext other
  change (((step setting moment (.landed key text)).kept other).filter _).map Prod.fst = _
  rw [now, kept]
  unfold keep
  split_ifs with free
  · by_cases same : other = key
    · rw [same, Function.update_self, Function.update_self]
      simp [lasting]
    · rw [Function.update_of_ne same, Function.update_of_ne same]
      rfl
  · rfl

/-- A request whose callbacks are called at once does what the handler does when nothing is asked in
between. -/
theorem request_at_once (moment : Moment) (idle : moment.asking = [] ∧ moment.selecting = []) (url host : Bytes) :
    actionsAlong setting moment [.request ⟨url, some host⟩, .got host, .selected (hostPrefix host)] =
      actionsOf { setting with table := moment.table } moment.cache ⟨url, some host⟩ := by
  obtain ⟨now, table, kept, asking, selecting, adding⟩ := moment
  obtain ⟨rfl, rfl⟩ : asking = [] ∧ selecting = [] := idle
  have outside : ∀ asking selecting called, outsideAt setting ⟨now, table, kept, asking, selecting, called⟩ =
      outsideOf { setting with table := table } (Moment.cache ⟨now, table, kept, [], [], adding⟩) :=
    fun asking selecting called => rfl
  rw [actionsOf_host]
  rcases Bool.eq_false_or_eq_true (ruled host) with decided | undecided
  · simp [actionsAlong, actionsAt, step, next, decided, outside]
  · have rules := undecided
    simp only [ruled, Bool.or_eq_false_iff] at rules
    simp only [answerPrefix, rules.1, rules.2, Bool.false_eq_true, if_false]
    simp only [actionsAlong, actionsAt, step, next, undecided, outside, Bool.false_eq_true, if_false, List.nil_append,
      List.mem_singleton, true_and, if_true, List.append_nil]
    change _ = (answerGot _ (Outside.get _ (lowerKey host)) (hostPrefix host) []).2
    rcases Outside.get _ (lowerKey host) with _ | _ | _ | ⟨c, rest⟩
    · simp [Got.missing]
    · simp [Got.missing, answerGot, connect, outsideOf]
    · simp [Got.missing, answerGot, connect, outsideOf]
    · simp [Got.missing]

end ImageServer.ShopTime
