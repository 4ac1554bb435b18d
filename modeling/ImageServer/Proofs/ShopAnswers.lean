import ImageServer.Proofs.Staleness
import ImageServer.Schedules

/-! Every request is answered once, whatever comes in between. The answers that were given under a prefix and
those that are still waited for are together as many as the requests. -/

namespace ImageServer.ShopTime
open JavaScript Shop Runs

/-- The events that a prefix is answered at. -/
def answersAt (name : Bytes) : Event → Bool
  | .request ⟨_, some host⟩ => hostPrefix host == name
  | .got host => hostPrefix host == name
  | .failed host => hostPrefix host == name
  | .selected other => other == name
  | _ => false

/-- The requests under a prefix. -/
def asks (name : Bytes) : Event → Bool
  | .request ⟨_, some host⟩ => hostPrefix host == name
  | _ => false

/-- How many answers under a prefix are waited for. -/
def pending (name : Bytes) (moment : Moment) : ℕ :=
  moment.asking.countP (hostPrefix · == name) + moment.selecting.count name

section Answers
variable (setting : Setting)

/-- The answers that an event brings under a prefix. -/
def answersOf (name : Bytes) (moment : Moment) (event : Event) : List Action :=
  if answersAt name event then (actionsAt setting moment event).filter Action.answers else []

def answersAlong (name : Bytes) (moment : Moment) : List Event → List Action
  | [] => []
  | event :: events => answersOf setting name moment event ++ answersAlong name (step setting moment event) events

end Answers

/-- The rows, and the texts that were made of rows, have known types, if they have any. -/
structure Orderly (moment : Moment) : Prop where
  table : ∀ name, RowsKnown (moment.table name).toList
  adding : ∀ call ∈ moment.adding, CachedKnown call.2
  kept : ∀ key item, moment.kept key = some item → CachedKnown item.1

/-- Only rows of known types are stored. -/
def Stores : Event → Prop
  | .store _ row => RowsKnown row.toList
  | _ => True

theorem fields_split (companyId : Text) (companyType : SqlInteger) :
    JavaScript.split (companyId ++ '|' :: numberText companyType.number) '|' =
      JavaScript.split companyId '|' ++ [numberText companyType.number] := by
  have second : (numberText companyType.number).splitOn '|' = [numberText companyType.number] :=
    List.splitOn_eq_singleton companyType.mark_not_text
  rw [JavaScript.split, List.splitOn_append_cons_self, second, JavaScript.split]

theorem rowText_known {untargeted : Except Error Unit} {row : Option Row} {data : Text} (known : RowsKnown row.toList)
    (kept : rowText untargeted row = some data) : CachedKnown data := by
  unfold rowText at kept
  intro first second fields
  split at kept
  next companyId companyType =>
    split at kept
    · cases kept
    · cases kept
      rw [fields_split] at fields
      have last := congrArg List.getLast? fields
      simp only [List.getLast?_append, List.getLast?_singleton, Option.some_or, List.getLast?_cons_cons] at last
      rw [← Option.some.inj last, companyType.readBack]
      exact known companyId companyType rfl
  next =>
    cases kept
    have single : JavaScript.split invalid '|' = [invalid] := by decide +kernel
    rw [single] at fields
    cases fields

variable {setting : Setting} {moment : Moment}

theorem orderly_step (orderly : Orderly moment) {event : Event} (stores : Stores event) :
    Orderly (step setting moment event) where
  table name := by
    by_cases stored : ∃ row, event = .store name row
    · obtain ⟨row, rfl⟩ := stored
      have now : (step setting moment (.store name row)).table name = row := by simp [step, next]
      rw [now]
      exact stores
    · rw [step_table setting moment event fun row same => stored ⟨row, same⟩]
      exact orderly.table name
  adding call member := by
    rcases step_adding setting member with older | ⟨name, -, -, text⟩
    · exact orderly.adding call older
    · exact rowText_known (orderly.table name) text
  kept key item kept := by
    rcases step_kept setting kept with older | ⟨-, waiting, -⟩
    · exact orderly.kept key item older
    · exact orderly.adding _ waiting

theorem once_single {handler : Handler} (once : AnsweredOnce handler) :
    ∃ answer, IsAnswer answer ∧ (handler []).2.filter Action.answers = [answer] := by
  obtain ⟨actions, answer, run, answers, isAnswer⟩ := once
  exact ⟨answer, isAnswer, by rw [run, answers]⟩

/-- The callback of the cache answers once, if it does not ask the database. -/
theorem got_single (orderly : Orderly moment) {host : Bytes}
    (present : Got.missing ((outsideAt setting moment).get (lowerKey host)) = false) (name : Bytes) :
    ∃ answer, IsAnswer answer ∧ (answerGot (outsideAt setting moment) ((outsideAt setting moment).get (lowerKey host)) name
      []).2.filter Action.answers = [answer] := by
  apply once_single
  rw [answerGot_once]
  rw [outsideAt_got] at present ⊢
  split
  next accepted =>
    rw [if_pos accepted] at present
    cases cached : moment.cache (lowerKey host) with
    | none =>
      rw [cached] at present
      cases present
    | some data =>
      obtain ⟨till, kept, -⟩ := cache_kept cached
      cases data with
      | nil =>
        rw [cached] at present
        cases present
      | cons c rest => exact orderly.kept _ _ kept
  next => trivial

/-- The callback of the query answers once. -/
theorem selected_single (orderly : Orderly moment) (name : Bytes) :
    ∃ answer, IsAnswer answer ∧
      (clientConnectionReady (outsideAt setting moment) name []).2.filter Action.answers = [answer] := by
  apply once_single
  have same : clientConnectionReady (outsideAt setting moment) name = getData (outsideAt setting moment) name := rfl
  rw [same, getData_once]
  exact ⟨_, rfl, orderly.table name⟩

theorem ruled_single {host : Bytes} (decided : ruled host = true) :
    ∃ answer, IsAnswer answer ∧ (answerPrefix (outsideAt setting moment) host []).2.filter Action.answers = [answer] := by
  obtain ⟨answer, isAnswer, actions⟩ := answerPrefix_ruled (outsideAt setting moment) decided
  refine ⟨answer, isAnswer, ?_⟩
  rw [actions]
  rcases isAnswer with rfl | rfl | rfl <;> rfl

/-- A callback that was waited for is not any more. -/
theorem countP_erased {items : List Bytes} {item : Bytes} (waited : item ∈ items) (is : Bytes → Bool) :
    (items.erase item).countP is + (is item).toNat = items.countP is := by
  rw [(List.perm_cons_erase waited).countP_eq is, List.countP_cons]
  cases is item <;> simp

/-- An event brings one answer under a prefix, or none, and what is waited for changes with it. -/
inductive Brings (setting : Setting) (name : Bytes) (moment : Moment) (event : Event) : Prop where
  | none (silent : answersOf setting name moment event = [])
      (waits : pending name (step setting moment event) = pending name moment + (asks name event).toNat)
  | one (answer : Action) (isAnswer : IsAnswer answer) (single : answersOf setting name moment event = [answer])
      (waits : pending name (step setting moment event) + 1 = pending name moment + (asks name event).toNat)

theorem brings_request (url host name : Bytes) : Brings setting name moment (.request ⟨url, some host⟩) := by
  cases here : hostPrefix host == name with
  | false =>
    refine .none (by simp only [answersOf, answersAt, here, Bool.false_eq_true, if_false]) ?_
    simp only [step, next, pending, asks, here]
    split <;> simp [here]
  | true =>
    rcases Bool.eq_false_or_eq_true (ruled host) with decided | undecided
    · obtain ⟨answer, isAnswer, single⟩ := @ruled_single setting moment host decided
      refine .one answer isAnswer ?_ ?_
      · simp only [answersOf, answersAt, actionsAt, here, decided, if_true, single]
      · simp only [step, next, pending, asks, here, decided, if_true, Bool.toNat_true]
    · refine .none ?_ ?_
      · simp only [answersOf, answersAt, actionsAt, here, undecided, if_true, Bool.false_eq_true, if_false, List.filter_nil]
      · simp only [step, next, pending, asks, here, undecided, Bool.false_eq_true, if_false, List.countP_append,
          List.countP_singleton, if_true, Bool.toNat_true]
        omega

theorem brings_got (orderly : Orderly moment) (host name : Bytes) : Brings setting name moment (.got host) := by
  by_cases waited : host ∈ moment.asking
  case neg =>
    refine .none ?_ ?_
    · simp only [answersOf, actionsAt, waited, false_and, if_false, List.filter_nil, ite_self]
    · simp only [step, next, pending, asks, waited, if_false, Bool.toNat_false, Nat.add_zero]
  have erased : (moment.asking.erase host).countP (hostPrefix · == name) + (hostPrefix host == name).toNat =
      moment.asking.countP (hostPrefix · == name) := countP_erased waited _
  cases missing : Got.missing ((outsideAt setting moment).get (lowerKey host)) with
  | true =>
    -- the database is asked instead
    refine .none ?_ ?_
    · simp only [answersOf, actionsAt, missing, Bool.true_eq_false, and_false, if_false, List.filter_nil, ite_self]
    · have more : [hostPrefix host].count name = (hostPrefix host == name).toNat := by
        rw [List.count_singleton]
        cases hostPrefix host == name <;> rfl
      simp only [step, next, pending, asks, waited, missing, if_true, List.count_append, more, Bool.toNat_false]
      omega
  | false =>
    have goes : pending name (step setting moment (.got host)) + (hostPrefix host == name).toNat = pending name moment := by
      simp only [step, next, pending, waited, missing, if_true, Bool.false_eq_true, if_false]
      omega
    cases here : hostPrefix host == name with
    | false =>
      rw [here] at goes
      exact .none (by simp only [answersOf, answersAt, here, Bool.false_eq_true, if_false]) goes
    | true =>
      obtain ⟨answer, isAnswer, single⟩ := got_single orderly missing (hostPrefix host)
      rw [here] at goes
      refine .one answer isAnswer ?_ goes
      simp only [answersOf, answersAt, actionsAt, here, waited, missing, and_self, if_true, single]

theorem brings_failed (host name : Bytes) : Brings setting name moment (.failed host) := by
  by_cases waited : host ∈ moment.asking
  case neg =>
    refine .none ?_ ?_
    · simp only [answersOf, actionsAt, waited, if_false, List.filter_nil, ite_self]
    · simp only [step, next, pending, asks, List.erase_of_not_mem waited, Bool.toNat_false, Nat.add_zero]
  have erased : (moment.asking.erase host).countP (hostPrefix · == name) + (hostPrefix host == name).toNat =
      moment.asking.countP (hostPrefix · == name) := countP_erased waited _
  have goes : pending name (step setting moment (.failed host)) + (hostPrefix host == name).toNat = pending name moment := by
    simp only [step, next, pending]
    omega
  cases here : hostPrefix host == name with
  | false =>
    rw [here] at goes
    exact .none (by simp only [answersOf, answersAt, here, Bool.false_eq_true, if_false]) goes
  | true =>
    rw [here] at goes
    refine .one .notFound (Or.inl rfl) ?_ goes
    simp only [answersOf, answersAt, actionsAt, here, waited, if_true]
    rfl

theorem brings_selected (orderly : Orderly moment) (other name : Bytes) : Brings setting name moment (.selected other) := by
  by_cases waited : other ∈ moment.selecting
  case neg =>
    refine .none ?_ ?_
    · simp only [answersOf, actionsAt, waited, if_false, List.filter_nil, ite_self]
    · simp only [step, next, pending, asks, List.erase_of_not_mem waited, Bool.toNat_false, Nat.add_zero]
  have erased : (moment.selecting.erase other).count name + (other == name).toNat = moment.selecting.count name :=
    countP_erased waited _
  have goes : pending name (step setting moment (.selected other)) + (other == name).toNat = pending name moment := by
    simp only [step, next, pending]
    omega
  cases here : other == name with
  | false =>
    rw [here] at goes
    exact .none (by simp only [answersOf, answersAt, here, Bool.false_eq_true, if_false]) goes
  | true =>
    obtain ⟨answer, isAnswer, single⟩ := @selected_single setting moment orderly other
    rw [here] at goes
    refine .one answer isAnswer ?_ goes
    simp only [answersOf, answersAt, actionsAt, here, waited, if_true, single]

theorem brings (orderly : Orderly moment) (event : Event) (name : Bytes) : Brings setting name moment event := by
  cases event with
  | request request =>
    obtain ⟨url, _ | host⟩ := request
    · exact .none rfl rfl
    · exact brings_request url host name
  | got host => exact brings_got orderly host name
  | failed host => exact brings_failed host name
  | selected other => exact brings_selected orderly other name
  | landed key text =>
    refine .none rfl ?_
    simp only [step, next, pending]
    split <;> rfl
  | evict key => exact .none rfl rfl
  | store stored row => exact .none rfl rfl
  | wait seconds => exact .none rfl rfl

/-- Over a run: what was answered under a prefix and what is waited for are what was asked for. -/
theorem answersAlong_counted (orderly : Orderly moment) {events : List Event} (stores : ∀ event ∈ events, Stores event)
    (name : Bytes) :
    (∀ answer ∈ answersAlong setting name moment events, IsAnswer answer) ∧
      (answersAlong setting name moment events).length + pending name (run (step setting) moment events) =
        pending name moment + events.countP (asks name) := by
  induction events generalizing moment with
  | nil => exact ⟨by simp [answersAlong], by simp [answersAlong]⟩
  | cons event events ih =>
    obtain ⟨here, later⟩ := List.forall_mem_cons.mp stores
    obtain ⟨proper, count⟩ := ih (orderly_step orderly here) later
    have asked : (event :: events).countP (asks name) = (asks name event).toNat + events.countP (asks name) := by
      rw [List.countP_cons, Nat.add_comm]
      cases asks name event <;> rfl
    rw [run_cons, asked]
    cases @brings setting moment orderly event name with
    | none silent waits =>
      simp only [answersAlong, silent, List.nil_append]
      exact ⟨proper, by omega⟩
    | one answer isAnswer single waits =>
      simp only [answersAlong, single, List.singleton_append, List.length_cons, List.forall_mem_cons]
      exact ⟨⟨isAnswer, proper⟩, by omega⟩

theorem orderly_start (known : ∀ name, RowsKnown (setting.table name).toList) : Orderly (start setting) where
  table := known
  adding := by simp [start]
  kept := by simp [start]

theorem shop_known (name : Bytes) : RowsKnown (shopSetting.table name).toList := by
  intro companyId companyType first
  simp only [shopSetting] at first
  split at first
  · cases first
    exact Or.inl (by decide +kernel)
  · split at first
    · cases first
      exact Or.inr (by decide +kernel)
    · cases first

/-- A callback of the cache or of the database. -/
inductive Callback where
  | got (host : Bytes)
  | selected (name : Bytes)

/-- Whom the cache is asked about, and the database. -/
def waiting (moment : Moment) : List Bytes × List Bytes := (moment.asking, moment.selecting)

def Callback.Waits (waiting : List Bytes × List Bytes) : Callback → Prop
  | .got host => host ∈ waiting.1
  | .selected name => name ∈ waiting.2

/-- The events that call it. -/
def Callback.Called (event : Event) : Callback → Prop
  | .got host => event = .got host ∨ event = .failed host
  | .selected name => event = .selected name

/-- After the cache the database may be asked. -/
def waitingCost (waiting : List Bytes × List Bytes) : ℕ := 2 * waiting.1.length + waiting.2.length

theorem length_erased {items : List Bytes} {item : Bytes} (waited : item ∈ items) :
    (items.erase item).length + 1 = items.length := by
  have some := List.length_pos_of_mem waited
  rw [List.length_erase_of_mem waited]
  omega

/-- A callback that is waited for is not any more, and at most the database is asked for it. -/
theorem called_uses (callback : Callback) (waits : callback.Waits (waiting moment)) {event : Event} (called : callback.Called event) :
    waitingCost (waiting (step setting moment event)) < waitingCost (waiting moment) := by
  cases callback with
  | got host =>
    have erased := length_erased (show host ∈ moment.asking from waits)
    rcases called with rfl | rfl
    · simp only [step, next, if_pos (show host ∈ moment.asking from waits), waiting, waitingCost]
      split
      · rw [List.length_append, List.length_singleton]
        omega
      · omega
    · simp only [step, next, waiting, waitingCost]
      omega
  | selected name =>
    have erased := length_erased (show name ∈ moment.selecting from waits)
    subst called
    simp only [step, next, waiting, waitingCost]
    omega

theorem pending_none (unwaited : ∀ callback : Callback, ¬ callback.Waits (waiting moment)) (name : Bytes) :
    pending name moment = 0 := by
  have asking : moment.asking = [] := List.eq_nil_iff_forall_not_mem.mpr fun host => unwaited (.got host)
  have selecting : moment.selecting = [] := List.eq_nil_iff_forall_not_mem.mpr fun name => unwaited (.selected name)
  rw [pending, asking, selecting]
  rfl

/-- Without new requests what is waited for stays as it is, or gets less. -/
theorem waiting_uses {event : Event} (quiet : ∀ request, event ≠ .request request) :
    waiting (step setting moment event) = waiting moment ∨
      waitingCost (waiting (step setting moment event)) < waitingCost (waiting moment) := by
  cases event with
  | request request => exact absurd rfl (quiet request)
  | got host =>
    by_cases waits : host ∈ moment.asking
    · exact Or.inr (called_uses (.got host) waits (Or.inl rfl))
    · exact Or.inl (by simp only [step, next, if_neg waits, waiting])
  | failed host =>
    by_cases waits : host ∈ moment.asking
    · exact Or.inr (called_uses (.got host) waits (Or.inr rfl))
    · exact Or.inl (by simp only [step, next, waiting, List.erase_of_not_mem waits])
  | selected name =>
    by_cases waits : name ∈ moment.selecting
    · exact Or.inr (called_uses (.selected name) waits rfl)
    · exact Or.inl (by simp only [step, next, waiting, List.erase_of_not_mem waits])
  | landed key text =>
    left
    simp only [step, next, waiting]
    split <;> rfl
  | evict key => exact Or.inl rfl
  | store name row => exact Or.inl rfl
  | wait seconds => exact Or.inl rfl

/-- The cache and the database answer in turn. -/
def callbacks (time : ℕ) : Event :=
  match time % 2 with
  | 0 => .got (bytes "shop.example.com")
  | _ => .selected (bytes "shop")

/-- Only the first domain is asked about. -/
def OneShop (moment : Moment) : Prop :=
  (∀ host ∈ moment.asking, host = bytes "shop.example.com") ∧ ∀ name ∈ moment.selecting, name = bytes "shop"

theorem oneShop_step (one : OneShop moment) (time : ℕ) : OneShop (step shopSetting moment (callbacks time)) := by
  have shop : hostPrefix (bytes "shop.example.com") = bytes "shop" := by decide +kernel
  obtain ⟨asking, selecting⟩ := one
  unfold callbacks
  split
  · simp only [step, next]
    split
    · refine ⟨fun host member => asking host (List.mem_of_mem_erase member), fun name member => ?_⟩
      dsimp only at member
      split at member
      · rcases List.mem_append.mp member with earlier | here
        · exact selecting name earlier
        · rw [List.mem_singleton.mp here, shop]
      · exact selecting name member
    · exact ⟨asking, selecting⟩
  · exact ⟨asking, fun name member => selecting name (List.mem_of_mem_erase member)⟩

end ImageServer.ShopTime
