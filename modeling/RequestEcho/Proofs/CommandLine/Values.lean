import RequestEcho.CommandLine.Word
import RequestEcho.Proofs.Address.Recognition
import RequestEcho.Proofs.Utf8.Ascii

/-!
# How values begin

A value that a parameter accepts is not empty and begins neither with a dash nor with an equals sign
(`Assignment.exists_cons_of_ofText?`).  So it can stand as a word of its own without being taken for an option, and
behind a short name without losing its first character.
-/

namespace RequestEcho

/-! ### Addresses -/

/-- An address begins with a digit or a bracket. -/
theorem SocketAddress.ofText?_cons {c : Char} (hdigit : Numeral.isDigit 10 c = false) (hbracket : c ≠ '[') (t : Text) :
    ofText? (c :: t) = none := by
  rw [Option.eq_none_iff_forall_ne_some]
  intro address h
  generalize htext : c :: t = text at h
  cases ofText?_eq_some_iff.1 h with
  | v4 hip _ =>
    obtain ⟨n, octet, rest, rfl, hoctet⟩ := hip.exists_octet
    rw [List.append_assoc] at htext
    exact hoctet.not_ends (by omega) _ (htext ▸ Numeral.ends_cons hdigit t)
  | v6 _ _ _ => exact hbracket (List.cons.inj htext).1

theorem SocketAddress.ofText?_nil : ofText? [] = none := by
  decide

/-! ### Levels -/

theorem Numeral.value?_cons {base : Nat} {c : Char} (h : isDigit base c = false) (t : Text) :
    value? base (c :: t) = none := by
  have hc : digit? base c = none := by simpa [isDigit] using h
  simp [value?, extend?, push?, hc]

/-- A level begins with a digit, a plus sign or a letter. -/
theorem Level.ofText?_cons {c : Char} (hdigit : Numeral.isDigit 10 c = false) (hplus : c ≠ '+')
    (hname : ∀ l : Level, (l.name.map Char.toLower).head? ≠ some c.toLower) (t : Text) : ofText? (c :: t) = none := by
  have hnumber : number? (c :: t) = none := by
    unfold number?
    split
    · rename_i digits heq
      exact absurd (List.cons.inj heq).1 hplus
    · rw [Numeral.valueBelow?_eq, Numeral.value?_cons hdigit]
      rfl
  have hnone : ofName? (c :: t) = none := by
    rw [ofName?, List.find?_eq_none]
    intro l _ heq
    exact hname l (by rw [eq_of_beq heq]; rfl)
  rw [ofText?, hnumber, hnone]
  rfl

theorem Level.ofText?_nil : ofText? [] = none := by
  decide

namespace CommandLine

theorem Assignment.parameter_of_ofText? {p : Parameter} {t : Text} {a : Assignment} (h : ofText? p t = some a) :
    a.parameter = p := by
  cases p with
  | socket =>
    obtain ⟨address, -, rfl⟩ := Option.map_eq_some_iff.1 h
    rfl
  | logLevel =>
    obtain ⟨level, -, rfl⟩ := Option.map_eq_some_iff.1 h
    rfl

theorem Assignment.exists_cons_of_ofText? {p : Parameter} {t : Text} {a : Assignment} (h : ofText? p t = some a) :
    ∃ c rest, t = c :: rest ∧ c ≠ '-' ∧ c ≠ '=' := by
  -- no type accepts the empty text, or one that begins with either character
  have hnil : ofText? p [] = none := by
    cases p
    · simp [ofText?, SocketAddress.ofText?_nil]
    · simp [ofText?, Level.ofText?_nil]
  have hdash (rest : Text) : ofText? p ('-' :: rest) = none := by
    cases p
    · simp [ofText?, SocketAddress.ofText?_cons (c := '-') (by decide) (by decide)]
    · simp [ofText?, Level.ofText?_cons (c := '-') (by decide) (by decide) (by intro l; cases l <;> decide)]
  have hequals (rest : Text) : ofText? p ('=' :: rest) = none := by
    cases p
    · simp [ofText?, SocketAddress.ofText?_cons (c := '=') (by decide) (by decide)]
    · simp [ofText?, Level.ofText?_cons (c := '=') (by decide) (by decide) (by intro l; cases l <;> decide)]
  cases t with
  | nil => simp [hnil] at h
  | cons c rest =>
    refine ⟨c, rest, rfl, ?_, ?_⟩
    · rintro rfl
      simp [hdash] at h
    · rintro rfl
      simp [hequals] at h

/-- The bytes of an accepted value, as a part of a command line. -/
theorem Assignment.head?_encode_of_ofText? {p : Parameter} {t : Text} {a : Assignment} (h : ofText? p t = some a) :
    Utf8.encode t ≠ [] ∧ (Utf8.encode t).head? ≠ some Word.dash ∧ (Utf8.encode t).head? ≠ some Word.equals := by
  obtain ⟨c, rest, rfl, hdash, hequals⟩ := exists_cons_of_ofText? h
  refine ⟨?_, ?_, ?_⟩
  · simp [Utf8.encode_eq_nil_iff, -Utf8.encode_cons]
  · exact Utf8.head?_encode_cons_ne (d := '-') (by decide) hdash rest
  · exact Utf8.head?_encode_cons_ne (d := '=') (by decide) hequals rest

end CommandLine

end RequestEcho
