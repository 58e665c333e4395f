import RequestEcho.Utf8

/-!
# Numerals

A numeral is written by `Nat.toDigits` and read digit by digit, with any number of leading zeros, letters of either case
and no sign. `value?` reads its exact value whatever its size; `valueBelow?` gives up at the first digit that leads to
the bound or above, and otherwise reads the same value (`valueBelow?_eq`).
-/

namespace RequestEcho

namespace Numeral

/-- The value of an ASCII digit or letter as a digit of the given base. -/
def digit? (base : Nat) (c : Char) : Option Nat :=
  let d :=
    if '0' ≤ c ∧ c ≤ '9' then c.toNat - '0'.toNat
    else if 'a' ≤ c ∧ c ≤ 'z' then c.toNat - 'a'.toNat + 10
    else if 'A' ≤ c ∧ c ≤ 'Z' then c.toNat - 'A'.toNat + 10
    else base
  if d < base then some d else none

def isDigit (base : Nat) (c : Char) : Bool := (digit? base c).isSome

/-- The number written by the digits of `n` and one more. -/
def push? (base n : Nat) (c : Char) : Option Nat := (digit? base c).map (n * base + ·)

/-- The number written by the digits `t` after digits of value `n`. -/
def extend? (base : Nat) (n : Nat) (t : Text) : Option Nat := t.foldlM (push? base) n

/-- The number written by a non-empty run of digits. -/
def value? (base : Nat) (t : Text) : Option Nat :=
  if t = [] then none else extend? base 0 t

/-- As `extend?`, as long as the number stays below `bound`. -/
def extendBelow? (base bound : Nat) (n : Nat) (t : Text) : Option Nat :=
  t.foldlM (fun n c => (push? base n c).filter (· < bound)) n

/-- As `value?`, below `bound`. -/
def valueBelow? (base bound : Nat) (t : Text) : Option Nat :=
  if t = [] then none else extendBelow? base bound 0 t

/-- The numbers that a machine word holds are those below. -/
def wordBound : Nat := UInt64.size

section

variable {base bound m n : Nat} {c : Char} {t : Text}

theorem extend?_cons (base m : Nat) (c : Char) (t : Text) :
    extend? base m (c :: t) = (push? base m c).bind fun n => extend? base n t := rfl

theorem extendBelow?_cons (base bound m : Nat) (c : Char) (t : Text) :
    extendBelow? base bound m (c :: t) =
      ((push? base m c).filter (· < bound)).bind fun n => extendBelow? base bound n t := rfl

theorem le_of_push? (h : push? base m c = some n) : m ≤ n := by
  obtain ⟨d, hd, rfl⟩ := Option.map_eq_some_iff.1 h
  have hbase : 0 < base := by
    simp only [digit?, Option.ite_none_right_eq_some] at hd
    omega
  exact Nat.le_trans (Nat.le_mul_of_pos_right m hbase) (Nat.le_add_right _ _)

/-- Digits that follow make no number smaller. -/
theorem le_of_extend? (h : extend? base m t = some n) : m ≤ n := by
  induction t generalizing m with
  | nil => exact Nat.le_of_eq (Option.some.inj h)
  | cons c t ih =>
    rw [extend?_cons, Option.bind_eq_some_iff] at h
    obtain ⟨k, hpush, hrest⟩ := h
    exact Nat.le_trans (le_of_push? hpush) (ih hrest)

/-- A number that reaches the bound stays there, so it does not matter after which digit it is compared. -/
theorem extendBelow?_eq (h : t = [] → m < bound) :
    extendBelow? base bound m t = (extend? base m t).filter (· < bound) := by
  induction t generalizing m with
  | nil => simp [extendBelow?, extend?, Option.filter_some, h]
  | cons c t ih =>
    rw [extendBelow?_cons, extend?_cons]
    cases push? base m c with
    | none => rfl
    | some k =>
      by_cases hk : k < bound
      · simpa [Option.filter_some, hk] using ih fun _ => hk
      · have hlarge : (extend? base k t).filter (· < bound) = none := by
          rw [Option.filter_eq_none_iff]
          intro n hn
          have hle := le_of_extend? hn
          simp
          omega
        simpa [Option.filter_some, hk] using hlarge.symm

/-- Reading below a bound is reading, for numbers below the bound, and fails for all others. -/
theorem valueBelow?_eq (base bound : Nat) (t : Text) :
    valueBelow? base bound t = (value? base t).filter (· < bound) := by
  by_cases h : t = []
  · simp [valueBelow?, value?, h]
  · rw [valueBelow?, value?, if_neg h, if_neg h, extendBelow?_eq (absurd · h)]

theorem valueBelow?_eq_some_iff : valueBelow? base bound t = some n ↔ value? base t = some n ∧ n < bound := by
  rw [valueBelow?_eq, Option.filter_eq_some_iff, decide_eq_true_iff]

end

end Numeral

def decimal (n : Nat) : Text := Nat.toDigits 10 n

end RequestEcho
