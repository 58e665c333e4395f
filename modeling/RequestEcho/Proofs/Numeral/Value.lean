import Mathlib.Data.List.Forall2
import Mathlib.Data.Nat.Digits.Defs
import Mathlib.Tactic.Ring
import RequestEcho.Proofs.Numeral.RoundTrip

/-!
# The value of a numeral

A numeral of any length is read as its exact value: the sum of its digits, each by the weight of its place
(`value?_eq_some_iff`).

* Zeros in front do not change the value (`Spelled.zeros_append`).
* A numeral is a non-empty run of digits (`Spelled.ne_nil`, `Spelled.isDigit_of_mem`) and has one value
  (`Spelled.unique`).
-/

namespace RequestEcho

namespace Numeral

variable {base d m n : Nat} {c : Char} {t : Text}

/-- `c` is the digit of value `d`, in either case. -/
structure IsDigitOf (base d : Nat) (c : Char) : Prop where
  lt : d < base
  toLower : c.toLower = Nat.digitChar d

/-- `t` is a numeral of `n`: a non-empty row of digits, the last with the lowest weight. -/
def Spelled (base n : Nat) (t : Text) : Prop :=
  t ≠ [] ∧ ∃ digits, List.Forall₂ (IsDigitOf base) digits t ∧ n = Nat.ofDigits base digits.reverse

/-! ### Digits -/

private theorem toNat_toLower (c : Char) :
    c.toLower.toNat = if 65 ≤ c.toNat ∧ c.toNat ≤ 90 then c.toNat + 32 else c.toNat := by
  have hupper : ('A'.val ≤ c.val ∧ c.val ≤ 'Z'.val) ↔ (65 ≤ c.toNat ∧ c.toNat ≤ 90) := Iff.rfl
  unfold Char.toLower
  split_ifs with h h' h'
  · have hsum : (c.val + ('a'.val - 'A'.val)).toNat = (c.toNat + 32) % 4294967296 := UInt32.toNat_add _ _
    change (c.val + ('a'.val - 'A'.val)).toNat = c.toNat + 32
    omega
  · exact absurd (hupper.1 h) h'
  · exact absurd (hupper.2 h') h
  · rfl

private theorem toNat_digitChar : ∀ d < 16, (Nat.digitChar d).toNat = if d < 10 then d + 48 else d + 87 := by
  decide

theorem digit?_eq_some_iff (hbase : base ≤ 16) : digit? base c = some d ↔ IsDigitOf base d c := by
  have hdigit : ('0' ≤ c ∧ c ≤ '9') ↔ (48 ≤ c.toNat ∧ c.toNat ≤ 57) := Iff.rfl
  have hlower : ('a' ≤ c ∧ c ≤ 'z') ↔ (97 ≤ c.toNat ∧ c.toNat ≤ 122) := Iff.rfl
  have hupper : ('A' ≤ c ∧ c ≤ 'Z') ↔ (65 ≤ c.toNat ∧ c.toNat ≤ 90) := Iff.rfl
  have hzero : '0'.toNat = 48 := rfl
  have ha : 'a'.toNat = 97 := rfl
  have hA : 'A'.toNat = 65 := rfl
  have hchar (h : d < base) : c.toLower = Nat.digitChar d ↔
      (if 65 ≤ c.toNat ∧ c.toNat ≤ 90 then c.toNat + 32 else c.toNat) = if d < 10 then d + 48 else d + 87 := by
    rw [← Char.toNat_inj, toNat_toLower, toNat_digitChar d (by omega)]
  constructor
  · intro h
    simp only [digit?, hdigit, hlower, hupper, hzero, ha, hA, Option.ite_none_right_eq_some, Option.some.injEq] at h
    obtain ⟨hlt, rfl⟩ := h
    refine ⟨hlt, (hchar hlt).2 ?_⟩
    split_ifs at hlt ⊢ <;> omega
  · rintro ⟨hlt, hcase⟩
    have hcode := (hchar hlt).1 hcase
    simp only [digit?, hdigit, hlower, hupper, hzero, ha, hA, Option.ite_none_right_eq_some, Option.some.injEq]
    split_ifs at hcode ⊢ <;> omega

/-! ### Rows of digits -/

/-- Digits behind a numeral of value `m` move it up by their number of places and add their own value. -/
theorem extend?_eq_some_iff (hbase : base ≤ 16) :
    extend? base m t = some n ↔
      ∃ digits, List.Forall₂ (IsDigitOf base) digits t ∧
        n = Nat.ofDigits base digits.reverse + base ^ t.length * m := by
  induction t generalizing m with
  | nil => simp [extend?, eq_comm]
  | cons c t ih =>
    have hcons : extend? base m (c :: t) = (digit? base c).bind fun d => extend? base (m * base + d) t := by
      cases hc : digit? base c <;> simp [extend?_cons, push?, hc]
    -- a digit in front of `digits` stands as many places up as these are many
    have hplaces (digits : List Nat) (hlength : digits.length = t.length) (d : Nat) :
        Nat.ofDigits base (d :: digits).reverse + base ^ (c :: t).length * m =
          Nat.ofDigits base digits.reverse + base ^ t.length * (m * base + d) := by
      rw [Nat.ofDigits_reverse_cons, hlength, List.length_cons, Nat.pow_succ]
      ring
    rw [hcons, Option.bind_eq_some_iff]
    constructor
    · rintro ⟨d, hd, hrest⟩
      obtain ⟨digits, hdigits, rfl⟩ := ih.1 hrest
      exact ⟨d :: digits, .cons ((digit?_eq_some_iff hbase).1 hd) hdigits, (hplaces digits hdigits.length_eq d).symm⟩
    · rintro ⟨digits, hdigits, rfl⟩
      cases hdigits with
      | @cons d _ digits _ hd hrest =>
        exact ⟨d, (digit?_eq_some_iff hbase).2 hd, ih.2 ⟨digits, hrest, hplaces digits hrest.length_eq d⟩⟩

theorem value?_eq_some_iff (hbase : base ≤ 16) : value? base t = some n ↔ Spelled base n t := by
  unfold value? Spelled
  by_cases ht : t = []
  · simp [ht]
  · rw [if_neg ht, extend?_eq_some_iff hbase]
    simp [ht]

/-! ### Numerals -/

theorem Spelled.unique (hbase : base ≤ 16) (hm : Spelled base m t) (hn : Spelled base n t) : m = n := by
  rw [← value?_eq_some_iff hbase] at hm hn
  exact Option.some.inj (hm.symm.trans hn)

theorem Spelled.ne_nil (h : Spelled base n t) : t ≠ [] := h.1

theorem Spelled.isDigit_of_mem (hbase : base ≤ 16) (h : Spelled base n t) (hc : c ∈ t) : isDigit base c = true := by
  obtain ⟨-, digits, hdigits, -⟩ := h
  induction hdigits with
  | nil => cases hc
  | cons hd _ ih =>
    rcases List.mem_cons.1 hc with rfl | hmem
    · rw [isDigit, (digit?_eq_some_iff hbase).2 hd]
      rfl
    · exact ih hmem

theorem spelled_toDigits (hlow : 1 < base) (hhigh : base ≤ 16) (n : Nat) : Spelled base n (Nat.toDigits base n) :=
  (value?_eq_some_iff hhigh).1 (value?_toDigits hlow hhigh n)

/-- A numeral has the same value behind any number of zeros. -/
theorem Spelled.zeros_append (hbase : 0 < base) (h : Spelled base n t) (k : Nat) :
    Spelled base n (List.replicate k '0' ++ t) := by
  obtain ⟨hne, digits, hdigits, rfl⟩ := h
  have hzero : IsDigitOf base 0 '0' := ⟨hbase, rfl⟩
  refine ⟨by simp [hne], List.replicate k 0 ++ digits, ?_, ?_⟩
  · induction k with
    | zero => exact hdigits
    | succ k ih => exact .cons hzero ih
  · rw [List.reverse_append, List.reverse_replicate, Nat.ofDigits_append_replicate_zero]

/-! ### Where a numeral ends -/

variable {s s' rest rest' : Text}

/-- A text can be cut behind its run of digits in one way only. -/
theorem append_inj_of_ends (hs : ∀ c ∈ s, isDigit base c = true) (hs' : ∀ c ∈ s', isDigit base c = true)
    (hrest : Ends base rest) (hrest' : Ends base rest') (h : s ++ rest = s' ++ rest') : s = s' ∧ rest = rest' := by
  have htake : s = s' := by
    rw [← takeWhile_append_of_ends hs hrest, h, takeWhile_append_of_ends hs' hrest']
  subst htake
  exact ⟨rfl, List.append_cancel_left h⟩

theorem Spelled.not_ends (hbase : base ≤ 16) (h : Spelled base n s) (t : Text) : ¬ Ends base (s ++ t) := by
  intro hends
  cases s with
  | nil => exact h.ne_nil rfl
  | cons c s =>
    have hdigit := h.isDigit_of_mem hbase (List.mem_cons_self (a := c))
    rw [hends c rfl] at hdigit
    cases hdigit

end Numeral

end RequestEcho
