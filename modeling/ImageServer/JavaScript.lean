import ImageServer.Number

/-! What the two Node programs use of JavaScript: texts, and numbers read from and written
to texts. -/

namespace ImageServer

abbrev Text := List Char

namespace JavaScript

inductive Error where
  | type
  | reference
  /-- `url.parse` cannot decode what it is given. -/
  | uri
  deriving DecidableEq

/-- `split` with a mark of one character. -/
def split {α : Type} [DecidableEq α] (text : List α) (mark : α) : List (List α) := text.splitOn mark

/-- `indexOf`: where the piece begins first in the text. -/
def indexOf (text piece : Text) : ℤ :=
  match text.tails.findIdx? (piece.isPrefixOf ·) with
  | some index => index
  | none => -1

/-- The white space and line ends that `parseInt` skips. -/
def isWhite (c : Char) : Bool :=
  c.toNat ∈ [9, 10, 11, 12, 13, 32, 160, 5760, 8232, 8233, 8239, 8287, 12288, 65279] ||
    (8192 ≤ c.toNat && c.toNat ≤ 8202)

def digitOf (radix : Nat) (c : Char) : Option Nat :=
  let value :=
    if '0' ≤ c ∧ c ≤ '9' then c.toNat - 48
    else if 'a' ≤ c ∧ c ≤ 'z' then c.toNat - 87
    else if 'A' ≤ c ∧ c ≤ 'Z' then c.toNat - 55
    else 36
  if value < radix then some value else none

/-- The digits that a text begins with. -/
def leadingDigits (radix : Nat) : Text → List Nat
  | [] => []
  | c :: rest =>
    match digitOf radix c with
    | some value => value :: leadingDigits radix rest
    | none => []

def valueOf (radix : Nat) (digits : List Nat) : Nat := digits.foldl (fun value digit => radix * value + digit) 0

def signOf : Text → Bool × Text
  | '-' :: rest => (true, rest)
  | '+' :: rest => (false, rest)
  | rest => (false, rest)

def radixOf : Text → Nat × Text
  | '0' :: 'x' :: rest | '0' :: 'X' :: rest => (16, rest)
  | rest => (10, rest)

/-- `parseInt` without a radix. -/
def parseInt (text : Text) : Number :=
  let signed := signOf (text.dropWhile isWhite)
  let numeral := radixOf signed.2
  match leadingDigits numeral.1 numeral.2 with
  | [] => .nan
  | digits => .nearest (if signed.1 then -(valueOf numeral.1 digits : ℚ) else valueOf numeral.1 digits)

/-- The whole numbers near a number that have few digits before their zeros, fewest first. -/
def shortened (n : Nat) : List Nat :=
  let length := (Nat.toDigits 10 n).length
  (List.range length).map fun digits =>
    let unit : Nat := 10 ^ (length - 1 - digits)
    (Number.roundHalfEven (n / unit)).toNat * unit

/-- The number with the fewest digits that still reads back as the given one. -/
def shortest (n : Nat) : Nat :=
  let readsBack (candidate : Nat) : Bool := Number.nearest candidate = .fin n
  ((shortened n).find? readsBack).getD n

/-- `String` of a number. The finite ones it is called on are whole and below `10 ^ 21`. -/
def numberText : Number → Text
  | .fin value =>
    if value < 0 then '-' :: Nat.toDigits 10 (shortest ⌊-value⌋.toNat) else Nat.toDigits 10 (shortest ⌊value⌋.toNat)
  | .inf negative => if negative then "-Infinity".toList else "Infinity".toList
  | .nan => "NaN".toList

end JavaScript
end ImageServer
