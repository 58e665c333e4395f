import RequestEcho.Log.Level
import RequestEcho.Proofs.Numeral.Value

/-!
# The texts that denote a level

A text denotes a level if it is the name of the level up to ASCII case, or a numeral of its rank, with or without a plus
sign in front (`Spelled`).

* Exactly these texts are read, each as the level that it denotes (`ofText?_eq_some_iff`).
* A numeral may have any length, and zeros in front may make it longer than a machine word could hold.  It denotes a
  level by its exact value: one that is too large for a machine word is not read, so it is never taken for what such a
  word would keep of it (`number?_eq_some_iff`, `spelled_numeral_iff`).
-/

namespace RequestEcho

namespace Level

/-- The two texts differ only in the case of ASCII letters. -/
def SameUpToCase (s t : Text) : Prop := s.map Char.toLower = t.map Char.toLower

/-- What may stand in front of a number. -/
def IsSign (t : Text) : Prop := t = [] ∨ t = ['+']

/-- `t` denotes the level. -/
inductive Spelled (l : Level) : Text → Prop
  | name {t : Text} (h : SameUpToCase t l.name) : Spelled l t
  | number {sign digits : Text} (hsign : IsSign sign) (hdigits : Numeral.Spelled 10 l.rank digits) :
    Spelled l (sign ++ digits)

variable {l : Level} {t : Text} {m n : Nat}

/-! ### By name -/

theorem ofName?_eq_some_iff : ofName? t = some l ↔ SameUpToCase t l.name := by
  unfold ofName? SameUpToCase
  constructor
  · intro h
    have hsome := List.find?_some h
    exact (eq_of_beq hsome).symm
  · intro h
    rw [h]
    cases l <;> decide

/-! ### By number -/

/-- `t` is a numeral of `n`, with or without a plus sign in front. -/
def IsNumber (n : Nat) (t : Text) : Prop :=
  ∃ sign digits, t = sign ++ digits ∧ IsSign sign ∧ Numeral.Spelled 10 n digits

theorem plus_notMem {digits : Text} (h : Numeral.Spelled 10 n digits) : '+' ∉ digits := by
  intro hmem
  exact absurd (h.isDigit_of_mem (by omega) hmem) (by decide)

theorem isNumber_plus_iff {digits : Text} : IsNumber n ('+' :: digits) ↔ Numeral.Spelled 10 n digits := by
  constructor
  · rintro ⟨sign, digits', htext, rfl | rfl, h⟩
    · rw [List.nil_append] at htext
      exact absurd (htext ▸ List.mem_cons_self) (plus_notMem h)
    · rwa [(List.cons.inj htext).2]
  · intro h
    exact ⟨['+'], digits, rfl, .inr rfl, h⟩

theorem isNumber_iff (hplus : ∀ digits, t ≠ '+' :: digits) : IsNumber n t ↔ Numeral.Spelled 10 n t := by
  constructor
  · rintro ⟨sign, digits, rfl, rfl | rfl, h⟩
    · exact h
    · exact absurd rfl (hplus digits)
  · intro h
    exact ⟨[], t, rfl, .inl rfl, h⟩

theorem IsNumber.unique (hm : IsNumber m t) (hn : IsNumber n t) : m = n := by
  by_cases hplus : ∃ digits, t = '+' :: digits
  · obtain ⟨digits, rfl⟩ := hplus
    exact (isNumber_plus_iff.1 hm).unique (by omega) (isNumber_plus_iff.1 hn)
  · rw [not_exists] at hplus
    exact ((isNumber_iff hplus).1 hm).unique (by omega) ((isNumber_iff hplus).1 hn)

/-- A number is read if a machine word holds it. -/
theorem number?_eq_some_iff : number? t = some n ↔ IsNumber n t ∧ n < Numeral.wordBound := by
  have hread (digits : Text) : Numeral.valueBelow? 10 Numeral.wordBound digits = some n ↔
      Numeral.Spelled 10 n digits ∧ n < Numeral.wordBound := by
    rw [Numeral.valueBelow?_eq_some_iff, Numeral.value?_eq_some_iff (by omega)]
  unfold number?
  split
  · rw [hread, isNumber_plus_iff]
  · rename_i hplus
    rw [hread, isNumber_iff fun digits => hplus digits]

theorem ofRank?_eq_some_iff : ofRank? n = some l ↔ n = l.rank := by
  unfold ofRank?
  constructor
  · intro h
    have hsome := List.find?_some h
    exact (eq_of_beq hsome).symm
  · rintro rfl
    cases l <;> decide

theorem rank_lt_wordBound (l : Level) : l.rank < Numeral.wordBound := by
  cases l <;> decide

/-! ### Both -/

private theorem head?_name_ne (l : Level) :
    (l.name.map Char.toLower).head? ≠ some '+' ∧
      ∀ d < 10, (l.name.map Char.toLower).head? ≠ some (Nat.digitChar d) := by
  cases l <;> decide

/-- A name begins with a letter and a number does not. -/
theorem IsNumber.not_sameUpToCase (hn : IsNumber n t) : ¬ SameUpToCase t l.name := by
  intro h
  obtain ⟨hplus, hdigit⟩ := head?_name_ne l
  rw [← h] at hplus hdigit
  obtain ⟨sign, digits, rfl, rfl | rfl, hne, values, hvalues, -⟩ := hn
  · cases hvalues with
    | nil => exact absurd rfl hne
    | cons hd _ => exact hdigit _ hd.lt (congrArg some hd.toLower)
  · exact hplus rfl

theorem spelled_iff : l.Spelled t ↔ SameUpToCase t l.name ∨ IsNumber l.rank t := by
  constructor
  · intro h
    cases h with
    | name h => exact .inl h
    | number hsign hdigits => exact .inr ⟨_, _, rfl, hsign, hdigits⟩
  · rintro (h | ⟨sign, digits, rfl, hsign, hdigits⟩)
    · exact .name h
    · exact .number hsign hdigits

theorem ofText?_eq_some_iff : ofText? t = some l ↔ l.Spelled t := by
  have hrank : (number? t).bind ofRank? = some l ↔ IsNumber l.rank t := by
    simp only [Option.bind_eq_some_iff, number?_eq_some_iff, ofRank?_eq_some_iff, exists_eq_right, rank_lt_wordBound,
      and_true]
  rw [ofText?, Option.or_eq_some_iff, hrank, ofName?_eq_some_iff, spelled_iff]
  constructor
  · rintro (hnumber | ⟨-, hname⟩)
    · exact .inr hnumber
    · exact .inl hname
  · rintro (hname | hnumber)
    · refine .inr ⟨?_, hname⟩
      rw [Option.eq_none_iff_forall_ne_some]
      intro l' hl'
      obtain ⟨n, hn, -⟩ := Option.bind_eq_some_iff.1 hl'
      exact (number?_eq_some_iff.1 hn).1.not_sameUpToCase hname
    · exact .inl hnumber

theorem Spelled.unique {l' : Level} (h : l.Spelled t) (h' : l'.Spelled t) : l = l' := by
  rw [← ofText?_eq_some_iff] at h h'
  exact Option.some.inj (h.symm.trans h')

/-- A numeral denotes a level by its value alone, so none above 5 does, however long it is. -/
theorem spelled_numeral_iff {sign digits : Text} (hsign : IsSign sign) (hdigits : Numeral.Spelled 10 n digits) :
    l.Spelled (sign ++ digits) ↔ n = l.rank := by
  have hnumber : IsNumber n (sign ++ digits) := ⟨sign, digits, rfl, hsign, hdigits⟩
  rw [spelled_iff]
  constructor
  · rintro (hname | hrank)
    · exact absurd hname hnumber.not_sameUpToCase
    · exact hnumber.unique hrank
  · rintro rfl
    exact .inr hnumber

end Level

end RequestEcho
