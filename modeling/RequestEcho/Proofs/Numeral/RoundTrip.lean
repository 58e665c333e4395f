import Mathlib.Tactic.SplitIfs
import RequestEcho.Numeral

/-!
# Reading back numerals

The numeral of every number is read back as the number (`value?_toDigits`): a digit has its own value
(`digit?_digitChar`), and a further digit at the end multiplies by the base and adds (`extend?_append`).  In front of a
rest that goes on with no digit (`Ends`) digits are the whole run of digits (`takeWhile_append_of_ends`).
-/

namespace RequestEcho

namespace Numeral

theorem extend?_append (base n : Nat) (s t : Text) :
    extend? base n (s ++ t) = (extend? base n s).bind fun m => extend? base m t := List.foldlM_append

private theorem digit?_table : ∀ base ≤ 16, ∀ d < base, digit? base (Nat.digitChar d) = some d := by
  decide

theorem digit?_digitChar {base d : Nat} (hbase : base ≤ 16) (hd : d < base) :
    digit? base (Nat.digitChar d) = some d :=
  digit?_table base hbase d hd

theorem extend?_toDigits {base : Nat} (hlow : 1 < base) (hhigh : base ≤ 16) (n : Nat) :
    extend? base 0 (Nat.toDigits base n) = some n := by
  induction n using Nat.strongRecOn with
  | ind n ih =>
    by_cases h : n < base
    · rw [Nat.toDigits_of_lt_base h]
      simp [extend?, push?, digit?_digitChar hhigh h]
    · have hdiv : n / base < n := Nat.div_lt_self (by omega) hlow
      have hmod : n % base < base := Nat.mod_lt n (by omega)
      rw [Nat.toDigits_of_base_le hlow (by omega), extend?_append, ih _ hdiv]
      simp [extend?, push?, digit?_digitChar hhigh hmod, Nat.div_add_mod']

/-- A number is read back from its digits. -/
theorem value?_toDigits {base : Nat} (hlow : 1 < base) (hhigh : base ≤ 16) (n : Nat) :
    value? base (Nat.toDigits base n) = some n := by
  rw [value?, if_neg Nat.toDigits_ne_nil, extend?_toDigits hlow hhigh]

theorem value?_decimal (n : Nat) : value? 10 (decimal n) = some n := value?_toDigits (by omega) (by omega) n

/-- A decimal numeral is made of the ten digits, so it has no blank and no line end in it. -/
theorem isDigit_of_mem_decimal {n : Nat} {c : Char} (h : c ∈ decimal n) : c.isDigit :=
  Nat.isDigit_of_mem_toDigits (by omega) (by omega) h

/-! ### Where a numeral ends -/

/-- A rest that goes on with no digit. -/
def Ends (base : Nat) (rest : Text) : Prop := ∀ c ∈ rest.head?, isDigit base c = false

theorem isDigit_of_le {base base' : Nat} (h : base ≤ base') {c : Char} (hc : isDigit base c = true) :
    isDigit base' c = true := by
  simp only [isDigit, digit?, Option.isSome_ite] at hc ⊢
  split_ifs at hc ⊢ <;> omega

theorem Ends.of_le {base base' : Nat} (h : base ≤ base') {rest : Text} (hrest : Ends base' rest) : Ends base rest := by
  intro c hc
  have hc' := hrest c hc
  cases hdigit : isDigit base c with
  | false => rfl
  | true => rw [isDigit_of_le h hdigit] at hc'; cases hc'

theorem ends_nil (base : Nat) : Ends base [] := by
  intro c hc
  cases hc

theorem ends_cons {base : Nat} {c : Char} (h : isDigit base c = false) (rest : Text) : Ends base (c :: rest) := by
  intro d hd
  cases hd
  exact h

theorem takeWhile_of_ends {base : Nat} {rest : Text} (h : Ends base rest) : rest.takeWhile (isDigit base) = [] := by
  cases rest with
  | nil => rfl
  | cons c rest => rw [List.takeWhile_cons, h c rfl]; rfl

theorem ends_dropWhile {base : Nat} (t : Text) : Ends base (t.dropWhile (isDigit base)) := by
  intro c hc
  have hnot := List.head?_dropWhile_not (isDigit base) t
  rw [Option.mem_def.1 hc] at hnot
  simpa using hnot

/-- The run of digits at the front ends where the digits do. -/
theorem takeWhile_append_of_ends {base : Nat} {s rest : Text} (hs : ∀ c ∈ s, isDigit base c = true)
    (hrest : Ends base rest) : (s ++ rest).takeWhile (isDigit base) = s := by
  rw [List.takeWhile_append_of_pos hs, takeWhile_of_ends hrest, List.append_nil]

end Numeral

end RequestEcho
