import ImageServer.Shop

/-! Which requests to the router get exactly one answer. -/

namespace ImageServer.Shop
open JavaScript

/-- One 404, or one proxied request to one of the two webs. -/
def IsAnswer (action : Action) : Prop :=
  action = .notFound ∨ action = .web (some developerWebUrl) ∨ action = .web (some supplierWebUrl)

def Action.answers : Action → Bool
  | .add _ _ => false
  | _ => true

/-- The handler returns and has answered once. -/
def AnsweredOnce (handler : Handler) : Prop :=
  ∃ actions answer, handler [] = (.ok (), actions) ∧ actions.filter Action.answers = [answer] ∧ IsAnswer answer

/-- A type that a web belongs to. -/
def Known (companyType : Number) : Prop := companyType.eq 1 = true ∨ companyType.eq 2 = true

variable (outside : Outside)

theorem web_run (target : Bytes) (actions : List Action) :
    web outside (some target) actions = (.ok (), actions ++ [.web (some target)]) := rfl

def typeAnswer (companyType : Number) : Action :=
  if companyType.eq 1 then .web (some developerWebUrl)
  else if companyType.eq 2 then .web (some supplierWebUrl)
  else .notFound

theorem typeAnswer_isAnswer (companyType : Number) : IsAnswer (typeAnswer companyType) := by
  unfold typeAnswer IsAnswer
  split
  · simp
  · split <;> simp

theorem known_iff (companyType : Number) : Known companyType ↔ typeAnswer companyType ≠ .notFound := by
  unfold Known typeAnswer
  split
  next one => simp [one]
  next notOne =>
    split
    next two => simp [two]
    next notTwo => simp [notOne, notTwo]

theorem answerType_run (companyType : Number) (actions : List Action) :
    answerType outside companyType actions =
      if typeAnswer companyType = .notFound then (outside.untargeted, actions ++ [.notFound, .web none])
      else (.ok (), actions ++ [typeAnswer companyType]) := by
  unfold answerType typeAnswer
  rcases Bool.eq_false_or_eq_true (companyType.eq 1) with one | notOne
  · simp [one, web_run]
  rcases Bool.eq_false_or_eq_true (companyType.eq 2) with two | notTwo
  · simp [notOne, two, web_run]
  · simp [notOne, notTwo, web, handle404Error, perform, Exec.bind_run]

theorem answerType_once (companyType : Number) :
    AnsweredOnce (answerType outside companyType) ↔ Known companyType := by
  unfold AnsweredOnce
  rw [answerType_run, known_iff]
  constructor
  · rintro ⟨actions, answer, run, answers, -⟩ unknown
    rw [if_pos unknown, Prod.mk.injEq] at run
    rw [← run.2] at answers
    simp [List.filter_cons, Action.answers] at answers
  · intro known
    rw [if_neg known]
    refine ⟨_, typeAnswer companyType, rfl, ?_, typeAnswer_isAnswer companyType⟩
    rcases typeAnswer_isAnswer companyType with same | same | same <;> rw [same] <;> rfl

theorem handle404Error_once : AnsweredOnce handle404Error :=
  ⟨_, .notFound, rfl, rfl, Or.inl rfl⟩

theorem web_once {target : Bytes} (isAnswer : IsAnswer (.web (some target))) : AnsweredOnce (web outside (some target)) :=
  ⟨_, _, rfl, rfl, isAnswer⟩

theorem not_once_raise (raised : Error) : ¬ AnsweredOnce (Exec.raise raised) := by
  intro holds
  obtain ⟨actions, answer, ⟨⟩, -⟩ := holds

theorem not_once_pure : ¬ AnsweredOnce (pure ()) := by
  intro holds
  obtain ⟨actions, answer, ⟨⟩, answers, -⟩ := holds
  cases answers

theorem once_add (handler : Handler) (key : Bytes) (value : Text) :
    AnsweredOnce (handler >>= fun _ => perform (.add key value)) ↔ AnsweredOnce handler := by
  constructor
  · intro holds
    obtain ⟨actions, answer, run, answers, isAnswer⟩ := holds
    rw [Exec.bind_run] at run
    cases done : handler [] with
    | mk result before =>
      rw [done] at run
      cases result with
      | error raised => cases run
      | ok nothing =>
        cases run
        rw [List.filter_append] at answers
        exact ⟨before, answer, done, by simpa [Action.answers] using answers, isAnswer⟩
  · intro holds
    obtain ⟨actions, answer, run, answers, isAnswer⟩ := holds
    refine ⟨_, answer, Exec.bind_ok run, ?_, isAnswer⟩
    simp [answers, Action.answers]

/-- The kept text has not two fields, or its second field is a known type. -/
def CachedKnown (data : Text) : Prop :=
  ∀ companyId companyType, JavaScript.split data '|' = [companyId, companyType] → Known (parseInt companyType)

theorem answerCached_once (data : Text) : AnsweredOnce (answerCached outside data) ↔ CachedKnown data := by
  unfold answerCached CachedKnown
  split
  next companyId companyType fields =>
    rw [answerType_once, fields]
    constructor
    · rintro known _ _ ⟨⟩
      exact known
    · intro known
      exact known _ _ rfl
  next others =>
    refine iff_of_true handle404Error_once fun companyId companyType fields => ?_
    exact absurd fields (others companyId companyType)

/-- The first of the rows, if it has both fields, has a known type. -/
def RowsKnown (rows : List Row) : Prop :=
  ∀ companyId companyType, rows.head? = some ⟨some companyId, some companyType⟩ → Known companyType.number

theorem getData_once (name : Bytes) :
    AnsweredOnce (getData outside name) ↔ ∃ rows, outside.select name = some rows ∧ RowsKnown rows := by
  unfold getData
  split
  next failed =>
    rw [failed]
    exact iff_of_false not_once_pure (by simp)
  next companyId companyType rest selected =>
    rw [once_add, answerType_once, selected]
    constructor
    · intro known
      refine ⟨_, rfl, ?_⟩
      rintro _ _ ⟨⟩
      exact known
    · intro holds
      obtain ⟨rows, ⟨⟩, known⟩ := holds
      exact known _ _ rfl
  next rows others selected =>
    rw [once_add, selected]
    refine iff_of_true handle404Error_once ⟨rows, rfl, fun companyId companyType first => ?_⟩
    cases rows with
    | nil => cases first
    | cons row rest =>
      cases first
      exact (others companyId companyType rest rfl).elim

/-- The database answers, and the first row found is not one of an unknown type. -/
def Stored (name : Bytes) : Prop :=
  outside.connect = true ∧ outside.use = true ∧ ∃ rows, outside.select name = some rows ∧ RowsKnown rows

theorem connect_once (name : Bytes) : AnsweredOnce (connect outside name) ↔ Stored outside name := by
  unfold connect clientConnectionReady Stored
  cases outside.connect with
  | false => exact iff_of_false (not_once_raise _) (by simp)
  | true =>
    cases outside.use with
    | false => exact iff_of_false not_once_pure (by simp)
    | true => simpa using getData_once outside name

/-- The cache fails, keeps a text of a known type or of no type, or keeps nothing and the
database answers. -/
def GotAnswerable (got : Got) (name : Bytes) : Prop :=
  match got with
  | .error => True
  | .data (some (c :: rest)) => CachedKnown (c :: rest)
  | .data _ => Stored outside name

theorem answerGot_once (got : Got) (name : Bytes) :
    AnsweredOnce (answerGot outside got name) ↔ GotAnswerable outside got name := by
  cases got with
  | error => exact iff_of_true handle404Error_once trivial
  | data text =>
    cases text with
    | none => exact connect_once outside name
    | some text =>
      cases text with
      | nil => exact connect_once outside name
      | cons c rest => exact answerCached_once outside (c :: rest)

/-- What the prefix is answered by, after the rules. -/
def Answerable (host : Bytes) : Prop :=
  let lower := toLowerCase (hostPrefix host)
  developerRule lower = true ∨ supplierRule lower = true ∨
    GotAnswerable outside (outside.get (cacheKey lower)) (hostPrefix host)

theorem answerPrefix_once (host : Bytes) :
    AnsweredOnce (answerPrefix outside host) ↔ Answerable outside host := by
  unfold answerPrefix Answerable
  dsimp only
  rcases Bool.eq_false_or_eq_true (developerRule (toLowerCase (hostPrefix host))) with rule | none
  · simp only [rule, if_true, true_or, iff_true]
    exact web_once outside (by simp [IsAnswer])
  rcases Bool.eq_false_or_eq_true (supplierRule (toLowerCase (hostPrefix host))) with rule | never
  · simp only [none, rule, Bool.false_eq_true, if_false, if_true, true_or, or_true, iff_true]
    exact web_once outside (by simp [IsAnswer])
  · simp only [none, never, Bool.false_eq_true, if_false, false_or]
    exact answerGot_once outside _ _

/-- A request is answered exactly once, and nothing is raised, when its address can be read, its
host is there, and what the cache or the database says of the prefix can be answered. -/
theorem onRequest_once_iff (request : Request) :
    AnsweredOnce (onRequest outside request) ↔
      outside.parse request.url = .ok () ∧ ∃ host, request.host = some host ∧ Answerable outside host := by
  have run : onRequest outside request [] = match outside.parse request.url, request.host with
      | .ok _, some host => answerPrefix outside host []
      | .ok _, none => (.error .type, [])
      | .error raised, _ => (.error raised, []) := by
    cases request with
    | mk url host =>
      cases parsed : outside.parse url <;> cases host <;> simp [onRequest, Exec.bind_run, parsed]
  unfold AnsweredOnce
  rw [run]
  cases outside.parse request.url with
  | error raised => exact iff_of_false (by rintro ⟨_, _, ⟨⟩, -⟩) (by simp)
  | ok nothing =>
    cases request.host with
    | none => exact iff_of_false (by rintro ⟨_, _, ⟨⟩, -⟩) (by simp)
    | some host =>
      simp only [true_and, Option.some.injEq, exists_eq_left']
      exact answerPrefix_once outside host

/-- Nothing fails outside, and the cache keeps a type that no web belongs to. -/
def unknownCached : Outside where
  parse _ := .ok ()
  get _ := .data (some "7|3".toList)
  connect := true
  use := true
  select _ := some []
  untargeted := .error .type

/-- The cache keeps nothing, and the database cannot be reached. -/
def unreachable : Outside where
  parse _ := .ok ()
  get _ := .data none
  connect := false
  use := true
  select _ := none
  untargeted := .error .type

def shopRequest : Request := ⟨bytes "/", some (bytes "shop.example.com:9500")⟩

/-- An unknown type is answered twice and raises, an unreachable database raises with no answer,
and so does a request without a host. -/
theorem unanswered_requests :
    ¬ AnsweredOnce (onRequest unknownCached shopRequest) ∧ ¬ AnsweredOnce (onRequest unreachable shopRequest) ∧
      ¬ AnsweredOnce (onRequest unknownCached ⟨bytes "/", none⟩) := by
  have twice : onRequest unknownCached shopRequest [] = (.error .type, [.notFound, .web none]) := by decide +kernel
  have unreached : onRequest unreachable shopRequest [] = (.error .reference, []) := by decide +kernel
  have hostless : onRequest unknownCached ⟨bytes "/", none⟩ [] = (.error .type, []) := rfl
  refine ⟨?_, ?_, ?_⟩ <;> rintro ⟨actions, answer, run, -⟩
  · rw [twice] at run
    cases run
  · rw [unreached] at run
    cases run
  · rw [hostless] at run
    cases run

end ImageServer.Shop
