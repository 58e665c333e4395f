import RequestEcho.Utf8

/-!
# Similarity of two words

The Jaro measure. Two equal characters match if their positions are not too far apart; each character of the first word
takes, in order, the first free match in reach. Two matched characters that stand in another order on the two sides
make one transposition.
-/

namespace RequestEcho

namespace Similarity

/-- How far apart two matching characters may stand, in words of lengths `m` and `n`. -/
def reach (m n : Nat) : Nat := max m n / 2 - 1

/-- The characters of a word, each with a mark that says whether it is matched. -/
abbrev Places := List (Char × Bool)

/-- Marks the first free `c` from position `low` up to, but not including, `high`; `places` begins at position `j`. -/
def claim? (c : Char) (low high : Nat) : (j : Nat) → (places : Places) → Option Places
  | _, [] => none
  | j, (d, used) :: places =>
    if low ≤ j ∧ j < high ∧ d = c ∧ used = false then some ((d, true) :: places)
    else (claim? c low high (j + 1) places).map ((d, used) :: ·)

/-- The matched characters of a word whose rest begins at position `i`, in order, and the other word's places with
their partners marked. -/
def pairUp (r : Nat) : (i : Nat) → Text → Places → Text × Places
  | _, [], places => ([], places)
  | i, c :: cs, places =>
    match claim? c (i - r) (i + r + 1) 0 places with
    | some places => (c :: (pairUp r (i + 1) cs places).1, (pairUp r (i + 1) cs places).2)
    | none => pairUp r (i + 1) cs places

end Similarity

/-- From 0 for words without a match to 1 for equal words, in double precision: two words whose measures are equal
fractions may still differ by rounding. -/
def similarity (a b : Text) : Float :=
  let paired := Similarity.pairUp (Similarity.reach a.length b.length) 0 a (b.map (·, false))
  let left := paired.1
  let right := (paired.2.filter (·.2)).map (·.1)
  let shifted := (left.zip right).countP (fun p => p.1 ≠ p.2) / 2
  let share (m n : Nat) : Float := m.toFloat / n.toFloat
  if a = [] ∧ b = [] then 1
  else if left = [] then 0
  else (share left.length a.length + share left.length b.length + share (left.length - shifted) left.length) / 3

end RequestEcho
