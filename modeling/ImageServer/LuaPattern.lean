import ImageServer.LuaString

/-! Lua patterns: single-character classes, greedy repetition with backtracking, and
captures. A pattern is compiled from its text, so a model can carry the text itself.
Anchors, `%` classes, the lazy `-` and position captures are outside the fragment and
do not compile. -/

namespace ImageServer.Lua

inductive Class where
  | any
  | byte (value : UInt8)
  | set (complement : Bool) (ranges : List (UInt8 × UInt8))
  deriving DecidableEq, Repr

def Class.mem : Class → UInt8 → Bool
  | .any, _ => true
  | .byte value, b => b == value
  | .set complement ranges, b => ranges.any (fun (low, high) => low ≤ b && b ≤ high) != complement

inductive Quantifier where
  | one | star | plus | option
  deriving DecidableEq, Repr

inductive Item where
  | single (chars : Class) (times : Quantifier)
  | opening
  | closing
  deriving DecidableEq, Repr

abbrev Pattern := List Item

/-- The inside of a bracket up to the closing one. A minus is a range sign only between
two characters. -/
def setRanges : Bytes → Option (List (UInt8 × UInt8) × Bytes)
  | [] => none
  | 93 :: rest => some ([], rest)
  | 37 :: _ => none
  | low :: 45 :: 93 :: rest => some ([(low, low), (45, 45)], rest)
  | low :: 45 :: high :: rest => (setRanges rest).map fun (ranges, after) => ((low, high) :: ranges, after)
  | b :: rest => (setRanges rest).map fun (ranges, after) => ((b, b) :: ranges, after)

def compileSet : Bytes → Option (Class × Bytes)
  | 93 :: _ | 94 :: 93 :: _ => none
  | 94 :: rest => (setRanges rest).map fun (ranges, after) => (.set true ranges, after)
  | rest => (setRanges rest).map fun (ranges, after) => (.set false ranges, after)

def quantifier : Bytes → Quantifier × Bytes
  | 42 :: rest => (.star, rest)
  | 43 :: rest => (.plus, rest)
  | 63 :: rest => (.option, rest)
  | rest => (.one, rest)

/-- The first argument bounds the number of items and is the length of the text. -/
def compileItems : Nat → Bytes → Option Pattern
  | _, [] => some []
  | 0, _ :: _ => none
  | n + 1, 40 :: rest => (compileItems n rest).map (.opening :: ·)
  | n + 1, 41 :: rest => (compileItems n rest).map (.closing :: ·)
  | n + 1, 91 :: rest =>
    match compileSet rest with
    | none => none
    | some (chars, after) =>
      (compileItems n (quantifier after).2).map (.single chars (quantifier after).1 :: ·)
  | n + 1, b :: rest =>
    -- the characters that would mean something this fragment does not have
    if b ∈ [36, 37, 42, 43, 45, 63, 93, 94] then none
    else (compileItems n (quantifier rest).2).map
      (.single (if b = 46 then .any else .byte b) (quantifier rest).1 :: ·)

def compile (text : Bytes) : Option Pattern := compileItems text.length text

/-- A capture remembers the subject from where it was opened until it is closed. -/
structure Capture where
  start : Bytes
  text : Option Bytes
  deriving DecidableEq, Repr

/-- Close the capture opened last. -/
def closeCapture (rest : Bytes) : List Capture → List Capture
  | [] => []
  | capture :: later =>
    if capture.text.isSome || later.any (·.text.isNone) then capture :: closeCapture rest later
    else { capture with text := some (capture.start.take (capture.start.length - rest.length)) } :: later

/-- Take as many characters of the class as possible, then give them back one at a time
until the rest of the pattern matches. -/
def maxExpand (chars : Class) (next : Bytes → Option α) : Bytes → Option α
  | [] => next []
  | b :: rest => if chars.mem b then (maxExpand chars next rest).or (next (b :: rest)) else next (b :: rest)

/-- Match at the start of the subject: what is left of it, and the captures. -/
def matchItems : Pattern → Bytes → List Capture → Option (Bytes × List Capture)
  | [], subject, captures => some (subject, captures)
  | .opening :: items, subject, captures => matchItems items subject (captures ++ [⟨subject, none⟩])
  | .closing :: items, subject, captures => matchItems items subject (closeCapture subject captures)
  | .single chars .one :: items, subject, captures =>
    match subject with
    | [] => none
    | b :: rest => if chars.mem b then matchItems items rest captures else none
  | .single chars .star :: items, subject, captures =>
    maxExpand chars (fun rest => matchItems items rest captures) subject
  | .single chars .plus :: items, subject, captures =>
    match subject with
    | [] => none
    | b :: rest =>
      if chars.mem b then maxExpand chars (fun rest => matchItems items rest captures) rest else none
  | .single chars .option :: items, subject, captures =>
    match subject with
    | [] => matchItems items [] captures
    | b :: rest =>
      if chars.mem b then (matchItems items rest captures).or (matchItems items (b :: rest) captures)
      else matchItems items (b :: rest) captures

theorem matchItems_nil (subject : Bytes) (captures : List Capture) :
    matchItems [] subject captures = some (subject, captures) := by rw [matchItems]

structure Found where
  first : Nat
  last : Nat
  captures : List Bytes
  deriving DecidableEq, Repr

/-- The leftmost match. The position is counted from one, as `string.find` reports it. -/
def findFrom (pattern : Pattern) : Bytes → Nat → Option Found
  | subject, position =>
    match matchItems pattern subject [] with
    | some (rest, captures) =>
      some ⟨position, position + (subject.length - rest.length) - 1, captures.filterMap (·.text)⟩
    | none =>
      match subject with
      | [] => none
      | _ :: later => findFrom pattern later (position + 1)

/-- `string.find` with a start index of one or more. A pattern outside the fragment
finds nothing. -/
def find (subject text : Bytes) (start : Nat) : Option Found :=
  match compile text with
  | none => none
  | some pattern => if subject.length + 1 < start then none else findFrom pattern (subject.drop (start - 1)) start

end ImageServer.Lua
