import ImageServer.ThumbnailGate
import ImageServer.Proofs.Rounding

/-! Which tokens run out. The gate turns a token away when its time is over, so a time that is not
a number, or that is too large for one, never turns it away. -/

namespace ImageServer.ThumbnailGate
open JavaScript

variable (outside : Outside)

/-- The request goes on to the image server. -/
def Forwards (now : ℤ) (url : Bytes) : Prop := .web imageServerUrl ∈ (onRequest outside now url []).2

def Decrypts (token : Option Text) (fileId timeStr : Text) : Prop :=
  ∃ fileStr, aesDecrypt outside token password = some fileStr ∧ JavaScript.split fileStr '|' = [fileId, timeStr]

def Carries (url : Bytes) (token : Text) : Prop :=
  ∃ urlObject, outside.parse url = .ok urlObject ∧ urlObject.token = some token

/-- Every request that the token lets through comes in the time of the token, and there is a time
after which it lets none through. -/
structure Expires (token : Text) : Prop where
  intime : ∀ now url, Carries outside url token → Forwards outside now url →
    ∃ fileId timeStr, Decrypts outside (some token) fileId timeStr ∧ parseInt timeStr ≠ .nan ∧
      Number.le (.ofInt now) (expiry timeStr) = true
  refused : ∃ deadline, ∀ now > deadline, ∀ url, Carries outside url token → ¬ Forwards outside now url

/-- The time of the token is no number or above all numbers, and some path with the token has its
file. -/
def Everlasting (token : Text) : Prop :=
  ∃ fileId timeStr, Decrypts outside (some token) fileId timeStr ∧
    (parseInt timeStr = .nan ∨ parseInt timeStr = .inf false) ∧
    ∃ url pathname, outside.parse url = .ok ⟨some pathname, some token⟩ ∧ indexOf pathname fileId ≠ -1

theorem not_forbidden : Action.web imageServerUrl ∉ (handle403Error []).2 := by simp [handle403Error, perform]

theorem answerFields_forwards (now : ℤ) (pathname : Option Text) (fields : List Text) :
    .web imageServerUrl ∈ (answerFields now pathname fields []).2 ↔
      ∃ fileId timeStr text, fields = [fileId, timeStr] ∧ (expiry timeStr).lt (.ofInt now) = false ∧
        pathname = some text ∧ indexOf text fileId ≠ -1 := by
  rcases fields with _ | ⟨fileId, _ | ⟨timeStr, _ | ⟨third, more⟩⟩⟩
  · simp [answerFields, not_forbidden]
  · simp [answerFields, not_forbidden]
  · rcases Bool.eq_false_or_eq_true ((expiry timeStr).lt (.ofInt now)) with past | intime
    · simp [answerFields, past, not_forbidden]
    cases pathname with
    | none => simp [answerFields, intime]
    | some text =>
      by_cases found : indexOf text fileId = -1
      · simp [answerFields, intime, found, not_forbidden]
      · simp [answerFields, intime, found, perform]
  · simp [answerFields, not_forbidden]

theorem forwards_iff (now : ℤ) (url : Bytes) :
    Forwards outside now url ↔ ∃ pathname token fileId timeStr, outside.parse url = .ok ⟨some pathname, token⟩ ∧
      Decrypts outside token fileId timeStr ∧ (expiry timeStr).lt (.ofInt now) = false ∧
      indexOf pathname fileId ≠ -1 := by
  unfold Forwards onRequest
  simp only [Exec.bind_run, Exec.lift_run]
  cases parsed : outside.parse url with
  | error raised => simp
  | ok urlObject =>
    obtain ⟨pathname, token⟩ := urlObject
    simp only [Except.ok.injEq, Url.mk.injEq, Decrypts]
    cases decrypted : aesDecrypt outside token password with
    | none =>
      refine iff_of_false (by simp [handle404Error, perform]) ?_
      intro holds
      obtain ⟨_, _, _, _, ⟨-, rfl⟩, ⟨fileStr, same, -⟩, -⟩ := holds
      simp [decrypted] at same
    | some fileStr =>
      dsimp only
      rw [answerFields_forwards]
      constructor
      · intro holds
        obtain ⟨fileId, timeStr, text, fields, intime, rfl, found⟩ := holds
        exact ⟨text, token, fileId, timeStr, ⟨rfl, rfl⟩, ⟨fileStr, decrypted, fields⟩, intime, found⟩
      · intro holds
        obtain ⟨text, _, fileId, timeStr, ⟨rfl, rfl⟩, ⟨again, same, fields⟩, intime, found⟩ := holds
        rw [decrypted] at same
        cases same
        exact ⟨fileId, timeStr, text, fields, intime, rfl, found⟩

theorem Decrypts.unique {token : Option Text} {fileId timeStr otherId otherStr : Text}
    (first : Decrypts outside token fileId timeStr) (second : Decrypts outside token otherId otherStr) :
    fileId = otherId ∧ timeStr = otherStr := by
  obtain ⟨fileStr, decrypted, fields⟩ := first
  obtain ⟨again, same, pieces⟩ := second
  rw [decrypted] at same
  cases same
  rw [fields] at pieces
  cases pieces
  exact ⟨rfl, rfl⟩

theorem parseInt_double {text : Text} {value : ℚ} (parsed : parseInt text = .fin value) : Number.Double value := by
  unfold parseInt at parsed
  dsimp only at parsed
  split at parsed
  · cases parsed
  · exact Number.double_nearest parsed

theorem expiry_nan {timeStr : Text} (parsed : parseInt timeStr = .nan) : expiry timeStr = .nan := by
  rw [expiry, parsed]
  rfl

theorem expiry_inf {timeStr : Text} {negative : Bool} (parsed : parseInt timeStr = .inf negative) :
    expiry timeStr = .inf negative := by
  rw [expiry, parsed]
  rfl

theorem expiry_fin {timeStr : Text} {value : ℚ} (parsed : parseInt timeStr = .fin value) :
    ∃ last, expiry timeStr = .fin last := by
  have small : ((21600000 : ℕ) : ℚ) < 2 ^ 970 := by
    calc ((21600000 : ℕ) : ℚ) < 2 ^ 25 := by norm_num
      _ < 2 ^ 970 := pow_lt_pow_right₀ (by norm_num) (by norm_num)
  rw [expiry, parsed]
  exact Number.add_finite (parseInt_double parsed) small

/-- A time that is a number is over at last, and until then it is not below the present. -/
theorem expiry_le {timeStr : Text} {last : ℚ} (finite : expiry timeStr = .fin last) (now : ℤ) :
    (expiry timeStr).lt (.ofInt now) = false ↔ (now : ℚ) ≤ last := by
  simp [finite, Number.ofInt, Number.lt]

/-- A token runs out exactly when it lets no request through for ever. -/
theorem expires_iff (token : Text) : Expires outside token ↔ ¬ Everlasting outside token := by
  constructor
  · rintro expires ⟨fileId, timeStr, decrypts, untimed, url, pathname, parsed, found⟩
    obtain ⟨deadline, refused⟩ := expires.refused
    refine refused (deadline + 1) (by omega) url ⟨_, parsed, rfl⟩ ?_
    rw [forwards_iff]
    refine ⟨pathname, some token, fileId, timeStr, parsed, decrypts, ?_, found⟩
    rcases untimed with nan | infinite
    · rw [expiry_nan nan, Number.nan_lt]
    · rw [expiry_inf infinite]
      rfl
  · intro notEverlasting
    -- the time of a token that lets something through is a number or below all of them
    have timed : ∀ now url, Carries outside url token → Forwards outside now url →
        ∃ fileId timeStr last, Decrypts outside (some token) fileId timeStr ∧ parseInt timeStr ≠ .nan ∧
          expiry timeStr = .fin last ∧ (now : ℚ) ≤ last := by
      rintro now url ⟨urlObject, parsed, carried⟩ forwards
      obtain ⟨pathname, other, fileId, timeStr, again, decrypts, intime, found⟩ := (forwards_iff outside now url).mp forwards
      rw [parsed] at again
      cases again
      cases carried
      cases time : parseInt timeStr with
      | nan => exact absurd ⟨fileId, timeStr, decrypts, Or.inl time, url, pathname, parsed, found⟩ notEverlasting
      | inf negative =>
        cases negative with
        | false => exact absurd ⟨fileId, timeStr, decrypts, Or.inr time, url, pathname, parsed, found⟩ notEverlasting
        | true =>
          rw [expiry_inf time] at intime
          cases intime
      | fin value =>
        obtain ⟨last, finite⟩ := expiry_fin time
        exact ⟨fileId, timeStr, last, decrypts, by simp [time], finite, (expiry_le finite now).mp intime⟩
    constructor
    · intro now url carries forwards
      obtain ⟨fileId, timeStr, last, decrypts, number, finite, intime⟩ := timed now url carries forwards
      refine ⟨fileId, timeStr, decrypts, number, ?_⟩
      rw [finite]
      simpa [Number.le, Number.lt, Number.eq, Number.ofInt, ← le_iff_lt_or_eq] using intime
    · by_cases ever : ∃ now url, Carries outside url token ∧ Forwards outside now url
      · obtain ⟨now, url, carries, forwards⟩ := ever
        obtain ⟨fileId, timeStr, last, decrypts, -, finite, -⟩ := timed now url carries forwards
        refine ⟨⌈last⌉, fun later past other carried forwarded => ?_⟩
        obtain ⟨otherId, otherStr, otherLast, same, -, sameLast, intime⟩ := timed later other carried forwarded
        obtain ⟨rfl, rfl⟩ := decrypts.unique outside same
        rw [finite] at sameLast
        cases sameLast
        exact absurd (Int.le_ceil last) (not_le.mpr (lt_of_lt_of_le (by exact_mod_cast past) intime))
      · exact ⟨0, fun now _ url carries forwards => ever ⟨now, url, carries, forwards⟩⟩

def timelessToken : Text := "uYiIC/hW/iyp5TMrEoho2A==".toList

/-- One address, with a token that decrypts to a file and no time. -/
def timeless : Outside where
  parse _ := .ok ⟨some "/a.jpg".toList, some timelessToken⟩
  decipher _ _ := .ok "a.jpg|never".toList

/-- A token without a time lets its file through at every time. -/
theorem timeless_never_expires :
    (∀ now, Forwards timeless now (bytes "/a.jpg?token=uYiIC%2FhW%2Fiyp5TMrEoho2A%3D%3D")) ∧
      ¬ Expires timeless timelessToken := by
  have decrypts : Decrypts timeless (some timelessToken) "a.jpg".toList "never".toList :=
    ⟨"a.jpg|never".toList, rfl, by decide +kernel⟩
  have found : indexOf "/a.jpg".toList "a.jpg".toList ≠ -1 := by decide +kernel
  have nan : parseInt "never".toList = .nan := by decide +kernel
  have forwards (now : ℤ) (url : Bytes) : Forwards timeless now url := by
    rw [forwards_iff]
    exact ⟨_, _, _, _, rfl, decrypts, by rw [expiry_nan nan, Number.nan_lt], found⟩
  refine ⟨fun now => forwards now _, fun expires => ?_⟩
  obtain ⟨deadline, refused⟩ := expires.refused
  exact refused (deadline + 1) (by omega) [] ⟨_, rfl, rfl⟩ (forwards _ _)

end ImageServer.ThumbnailGate
