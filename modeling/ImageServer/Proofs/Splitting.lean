import ImageServer.ImageProcessor
import ImageServer.Proofs.PatternMatching
import ImageServer.Separator

/-! What `split` returns. The separator is given to `string.find` as a pattern, so one without magic
characters is looked for as it is. Every turn of the loop begins where the last occurrence ended,
which may be one past the end of the text. -/

namespace ImageServer
open Lua Separator

/-- The magic characters of Lua patterns. -/
def magic : Bytes := bytes "^$()%.[]*+-?"

/-- A pattern that matches one text only. -/
def literalItems (text : Bytes) : Pattern := text.map fun b => .single (.byte b) .one

theorem quantifier_literal {rest : Bytes} (plain : ∀ b ∈ rest, b ∉ magic) : quantifier rest = (.one, rest) := by
  cases rest with
  | nil => rfl
  | cons b rest =>
    have here := plain b List.mem_cons_self
    simp only [magic, bytes] at here
    unfold quantifier
    split <;> simp_all

theorem compileItems_literal {text : Bytes} (plain : ∀ b ∈ text, b ∉ magic) {n : Nat} (long : text.length ≤ n) :
    compileItems n text = some (literalItems text) := by
  induction text generalizing n with
  | nil => simp [compileItems, literalItems]
  | cons b rest ih =>
    obtain ⟨m, rfl⟩ : ∃ m, n = m + 1 := Nat.exists_eq_add_one.mpr (by simp at long; omega)
    have here := plain b List.mem_cons_self
    have later : ∀ c ∈ rest, c ∉ magic := fun c member => plain c (List.mem_cons_of_mem b member)
    have compiled := ih later (Nat.le_of_succ_le_succ long)
    simp only [magic, bytes] at here
    unfold compileItems
    split <;> simp_all [literalItems, quantifier_literal]

theorem compile_literal {text : Bytes} (plain : ∀ b ∈ text, b ∉ magic) : compile text = some (literalItems text) :=
  compileItems_literal plain le_rfl

theorem fits_literal {text subject : Bytes} : Fits (literalItems text) subject ↔ text <+: subject := by
  induction text generalizing subject with
  | nil => exact iff_of_true rfl List.nil_prefix
  | cons b text ih =>
    constructor
    · intro fits
      obtain ⟨result, done⟩ := Option.isSome_iff_exists.mp fits
      obtain ⟨c, rest, rfl, same, later⟩ := match_one done
      obtain rfl := eq_of_beq same
      exact List.cons_prefix_cons.mpr ⟨rfl, ih.mp (fits_of_some later)⟩
    · intro begins
      obtain ⟨rest, rfl⟩ := begins
      exact Fits.one (beq_self_eq_true b) (ih.mpr (List.prefix_append text rest))

theorem find_from {text pattern : Bytes} {items : Pattern} (compiled : compile pattern = some items) {start : Nat}
    (inside : start ≤ text.length) :
    Lua.find text pattern (start + 1) = findFrom items (text.drop start) (start + 1) := by
  have notPast : ¬ text.length + 1 < start + 1 := by omega
  simp only [Lua.find, compiled, if_neg notPast, Nat.add_sub_cancel]

/-- The next occurrence is the leftmost one. -/
theorem find_literal {text separator : Bytes} (plain : ∀ b ∈ separator, b ∉ magic) {start : Nat}
    (inside : start ≤ text.length) {found : Found} (hit : Lua.find text separator (start + 1) = some found) :
    ∃ piece rest, text.drop start = piece ++ (separator ++ rest) ∧ First separator piece (separator ++ rest) ∧
      found.first = start + 1 + piece.length := by
  rw [find_from (compile_literal plain) inside] at hit
  obtain ⟨piece, tail, left, captures, shape, done, position, -, none⟩ := findFrom_some hit
  obtain ⟨rest, rfl⟩ := fits_literal.mp (fits_of_some done)
  refine ⟨piece, rest, shape, ?_, position⟩
  intro earlier later split shorter begins
  exact not_fits_iff.mpr (none earlier later (shape.trans split) shorter) (fits_literal.mpr begins)

theorem find_literal_none {text separator : Bytes} (plain : ∀ b ∈ separator, b ∉ magic) {start : Nat}
    (inside : start ≤ text.length) (missed : Lua.find text separator (start + 1) = none) :
    ¬ separator <:+: text.drop start := by
  rw [find_from (compile_literal plain) inside] at missed
  intro within
  obtain ⟨before, after, shape⟩ := within
  rw [← shape, List.append_assoc] at missed
  exact findFrom_none missed (fits_literal.mpr (List.prefix_append separator after))

theorem sub_piece (text : Bytes) (start count : Nat) :
    Lua.sub text (start + 1 : Nat) ((start + 1 + count : Nat) - 1 : Int) = (text.drop start).take count := by
  have first : ¬ ((start + 1 : Nat) : Int) < 0 := by omega
  have last : ¬ ((start + 1 + count : Nat) - 1 : Int) < 0 := by omega
  have stop : ((start + 1 + count : Nat) - 1 : Int).toNat = start + count := by omega
  simp only [Lua.sub, if_neg first, if_neg last, stop, Int.toNat_natCast, Nat.add_sub_cancel]
  rw [List.drop_take, Nat.add_sub_cancel_left]

/-- One turn for each occurrence, on what is left of the text. -/
theorem splitLoop_cuts {text separator : Bytes} (filled : separator ≠ []) (plain : ∀ b ∈ separator, b ∉ magic)
    {fuel start : Nat} (inside : start ≤ text.length) (enough : text.length - start < fuel) :
    ∃ pieces, splitLoop fuel text separator (start + 1) = some pieces ∧ Cuts separator (text.drop start) pieces := by
  induction fuel generalizing start with
  | zero => omega
  | succ fuel ih =>
    unfold splitLoop
    cases hit : Lua.find text separator (start + 1) with
    | none =>
      refine ⟨_, rfl, ?_⟩
      rw [sub_from]
      exact .whole (find_literal_none plain inside hit)
    | some found =>
      obtain ⟨piece, rest, shape, first, position⟩ := find_literal plain inside hit
      have long := List.length_pos_of_ne_nil filled
      have sizes := congrArg List.length shape
      simp only [List.length_drop, List.length_append] at sizes
      have next : start + 1 + piece.length + separator.length = start + (piece.length + separator.length) + 1 := by omega
      have left : text.drop (start + (piece.length + separator.length)) = rest := by
        rw [← List.drop_drop, shape, ← List.append_assoc, ← List.length_append, List.drop_left]
      obtain ⟨pieces, done, cuts⟩ := @ih (start + (piece.length + separator.length)) (by omega) (by omega)
      rw [left] at cuts
      refine ⟨piece :: pieces, ?_, shape ▸ .cut first cuts⟩
      simp only [position, sub_piece, shape, List.take_left, next, done, Option.map_some]

/-- Joining undoes `split`. -/
theorem split_joins (szFullString szSeparator : Bytes) (filled : szSeparator ≠ [])
    (plain : ∀ b ∈ szSeparator, b ∉ magic) :
    ∃ pieces, split szFullString szSeparator = some pieces ∧ Cuts szSeparator szFullString pieces ∧
      szSeparator.intercalate pieces = szFullString ∧ (∀ piece ∈ pieces, ¬ szSeparator <:+: piece) ∧
      pieces.length = occurrences szSeparator 0 szFullString + 1 := by
  obtain ⟨pieces, done, cuts⟩ := splitLoop_cuts filled plain (Nat.zero_le szFullString.length)
    (Nat.lt_add_of_pos_right Nat.two_pos)
  exact ⟨pieces, done, cuts, cuts.joined, cuts.apart filled, cuts.counted filled⟩

/-- Neighbouring separators and those at the ends give empty pieces. -/
theorem split_joins_slashes : ∃ pieces, split (bytes "/p//") [47] = some pieces ∧
    [47].intercalate pieces = bytes "/p//" ∧ pieces.length = 4 := by
  obtain ⟨pieces, done, -, joined, -, counted⟩ := split_joins (bytes "/p//") [47] (by simp) (by simp [magic, bytes])
  have slashes : occurrences [47] 0 (bytes "/p//") = 3 := by decide +kernel
  exact ⟨pieces, done, joined, by rw [counted, slashes]⟩

end ImageServer
