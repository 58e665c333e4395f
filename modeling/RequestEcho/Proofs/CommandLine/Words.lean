import RequestEcho.CommandLine.Word
import RequestEcho.Proofs.Line.Cuts

/-!
# The forms of a parameter

A parameter gets its value in one of five forms (`Form`): behind its long or its short name as a word of its own, or in
the same word, behind the long name with an equals sign and behind the short one with or without it.

A word is read as the beginning of a clause exactly if it is one of these names, alone (`ofBytes_eq_bare_iff`) or with a
value attached (`ofBytes_eq_attached_iff`).
-/

namespace RequestEcho

namespace CommandLine

open Word (dash equals)

/-- The name of a parameter as a word: two dashes and the long name. -/
def Parameter.longWord (p : Parameter) : Bytes := Utf8.encode ("--".toList ++ p.long)

/-- The name of a parameter as a word: a dash and the letter. -/
def Parameter.shortWord (p : Parameter) : Bytes := Utf8.encode ['-', p.short]

/-- How a parameter is given its value. -/
inductive Form
  | long
  | short
  | longEquals
  | shortAttached
  | shortEquals
deriving DecidableEq, Repr

/-- The words that give a parameter a value. -/
def Form.words (p : Parameter) (value : Bytes) : Form → List Bytes
  | long => [p.longWord, value]
  | short => [p.shortWord, value]
  | longEquals => [p.longWord ++ equals :: value]
  | shortAttached => [p.shortWord ++ value]
  | shortEquals => [p.shortWord ++ equals :: value]

theorem Form.exists_of_name {p : Parameter} {name : Bytes} (h : name = p.longWord ∨ name = p.shortWord)
    (value : Bytes) : ∃ form : Form, form.words p value = [name, value] := by
  rcases h with rfl | rfl
  · exact ⟨long, rfl⟩
  · exact ⟨short, rfl⟩

/-- The word that ends the options. -/
def separatorWord : Bytes := Utf8.encode "--".toList

/-! ### Names -/

namespace Parameter

/-- The byte of the short name. -/
def letter (p : Parameter) : UInt8 := UInt8.ofNat p.short.toNat

theorem longWord_eq (p : Parameter) : p.longWord = dash :: dash :: Utf8.encode p.long := by
  cases p <;> rfl

theorem shortWord_eq (p : Parameter) : p.shortWord = [dash, p.letter] := by
  cases p <;> rfl

theorem equals_notMem_long (p : Parameter) : equals ∉ Utf8.encode p.long := by
  cases p <;> decide

theorem long_ne_nil (p : Parameter) : Utf8.encode p.long ≠ [] := by
  cases p <;> decide

theorem letter_ne_dash (p : Parameter) : p.letter ≠ dash := by
  cases p <;> decide

theorem ofLong?_eq_some_iff {name : Bytes} {p : Parameter} : ofLong? name = some p ↔ name = Utf8.encode p.long := by
  unfold ofLong?
  constructor
  · intro h
    have hname := List.find?_some h
    simpa [eq_comm] using hname
  · rintro rfl
    cases p <;> decide

theorem ofShort?_eq_some_iff {b : UInt8} {p : Parameter} : ofShort? b = some p ↔ b = p.letter := by
  have hname : Utf8.encode [p.short] = [p.letter] := by cases p <;> rfl
  unfold ofShort?
  constructor
  · intro h
    have hb := List.find?_some h
    simpa [hname, eq_comm] using hb
  · rintro rfl
    cases p <;> decide

end Parameter

namespace Word

/-- What stands behind a long name that has the value `attached`. -/
def attachment : Option Bytes → Bytes
  | none => []
  | some value => equals :: value

/-- A long form is cut at its first equals sign. -/
theorem exists_attachment (body : Bytes) : ∃ name attached, body = name ++ attachment attached ∧ equals ∉ name := by
  have hbody := List.takeWhile_append_dropWhile (p := (· ≠ equals)) (l := body)
  have hname := Line.not_mem_takeWhile_ne equals body
  rcases Line.dropWhile_ne_eq_nil_or equals body with hnil | ⟨value, hvalue⟩
  · rw [hnil] at hbody
    exact ⟨_, none, hbody.symm, hname⟩
  · rw [← hvalue] at hbody
    exact ⟨_, some value, hbody.symm, hname⟩

theorem ofLong_append {name : Bytes} (h : equals ∉ name) (attached : Option Bytes) :
    ofLong (name ++ attachment attached) =
      match Parameter.ofLong? name, Notice.ofLong? name with
      | some p, _ => .parameter p attached
      | none, some n => .notice n attached
      | none, none => .unknownLong (Utf8.decodeLossy name) := by
  cases attached with
  | none =>
    have hall : name.dropWhile (· ≠ equals) = [] :=
      List.dropWhile_eq_nil_iff.2 fun b hb => decide_eq_true fun heq => h (heq ▸ hb)
    have hname := Line.takeWhile_ne_of_not_mem h
    cases hp : Parameter.ofLong? name <;> cases hn : Notice.ofLong? name <;>
      simp only [ofLong, attachment, List.append_nil, hname, hall, hp, hn]
  | some value =>
    have hbegins : [equals] <+: equals :: value := ⟨value, rfl⟩
    have hname := Line.takeWhile_ne_append h (.inr hbegins)
    have hrest := Line.dropWhile_ne_append h value
    cases hp : Parameter.ofLong? name <;> cases hn : Notice.ofLong? name <;>
      simp only [ofLong, attachment, hname, hrest, hp, hn]

theorem ofLong_eq_parameter_iff {body : Bytes} {p : Parameter} {attached : Option Bytes} :
    ofLong body = .parameter p attached ↔ body = Utf8.encode p.long ++ attachment attached := by
  constructor
  · intro h
    obtain ⟨name, attached', rfl, hname⟩ := exists_attachment body
    rw [ofLong_append hname] at h
    cases hlong : Parameter.ofLong? name with
    | none =>
      rw [hlong] at h
      cases hnotice : Notice.ofLong? name <;> simp [hnotice] at h
    | some q =>
      rw [hlong] at h
      cases h
      rw [Parameter.ofLong?_eq_some_iff.1 hlong]
  · rintro rfl
    rw [ofLong_append p.equals_notMem_long, Parameter.ofLong?_eq_some_iff.2 rfl]

theorem ofCluster_eq_parameter_iff {b : UInt8} {rest : Bytes} {p : Parameter} {attached : Option Bytes} :
    ofCluster b rest = .parameter p attached ↔ b = p.letter ∧ clusterValue? rest = attached := by
  rw [← Parameter.ofShort?_eq_some_iff]
  unfold ofCluster
  constructor
  · intro h
    cases hshort : Parameter.ofShort? b with
    | none =>
      rw [hshort] at h
      cases hnotice : Notice.ofShort? b with
      | none => cases hfirst : Utf8.firstChar? (b :: rest) <;> simp [hnotice, hfirst] at h
      | some n => simp [hnotice] at h
    | some q =>
      rw [hshort] at h
      cases h
      exact ⟨rfl, rfl⟩
  · rintro ⟨h, rfl⟩
    rw [h]

theorem clusterValue?_eq_none_iff {rest : Bytes} : clusterValue? rest = none ↔ rest = [] := by
  cases rest <;> simp [clusterValue?]

/-- A value in a cluster may have one equals sign in front, and must have it if it is empty or begins with one. -/
theorem clusterValue?_eq_some_iff {rest value : Bytes} :
    clusterValue? rest = some value ↔
      rest = equals :: value ∨ (rest = value ∧ value ≠ [] ∧ value.head? ≠ some equals) := by
  cases rest with
  | nil =>
    constructor
    · rintro ⟨⟩
    · rintro (h | ⟨rfl, hne, -⟩)
      · cases h
      · exact absurd rfl hne
  | cons b rest =>
    by_cases hb : b = equals
    · subst hb
      simp [clusterValue?]
      rintro rfl
      simp
    · simp [clusterValue?, hb]
      rintro rfl
      simpa using hb

/-- The words that begin a clause: a parameter in its long form or in its short one, and what is attached. -/
theorem ofBytes_eq_parameter_iff {word : Bytes} {p : Parameter} {attached : Option Bytes} :
    ofBytes word = .parameter p attached ↔
      word = p.longWord ++ attachment attached ∨
        ∃ rest, word = p.shortWord ++ rest ∧ clusterValue? rest = attached := by
  rw [p.longWord_eq, p.shortWord_eq]
  rcases word with _ | ⟨a, _ | ⟨b, rest⟩⟩
  · simp [ofBytes]
  · simp [ofBytes]
  · have hletter := p.letter_ne_dash
    simp only [List.cons_append, List.nil_append, List.cons.injEq]
    by_cases ha : a = dash
    · by_cases hb : b = dash
      · -- the second dash is no letter, so the word is a long form or the separator
        have hshort : ¬ ∃ rest', (a = dash ∧ b = p.letter ∧ rest = rest') ∧ clusterValue? rest' = attached := by
          rintro ⟨rest', ⟨-, hletter', -⟩, -⟩
          exact hletter (hletter'.symm.trans hb)
        rw [or_iff_left hshort]
        by_cases hrest : rest = []
        · simp [ofBytes, ha, hb, hrest, p.long_ne_nil]
        · simp [ofBytes, ha, hb, hrest, ofLong_eq_parameter_iff]
      · simp only [ofBytes, ha, hb, ofCluster_eq_parameter_iff, ne_eq, not_true_eq_false, not_false_eq_true, if_true,
          if_false, true_and, false_and, false_or, and_assoc, exists_and_left, exists_eq_left']
    · simp [ofBytes, ha]

/-- A word is a parameter without a value exactly if it is one of its two names. -/
theorem ofBytes_eq_bare_iff {word : Bytes} {p : Parameter} :
    ofBytes word = .parameter p none ↔ word = p.longWord ∨ word = p.shortWord := by
  rw [ofBytes_eq_parameter_iff]
  simp [attachment, clusterValue?_eq_none_iff]

/-- A word is a parameter with a value in it exactly if it is one of the three forms that have one word; the form
without an equals sign is only for values that neither are empty nor begin with one. -/
theorem ofBytes_eq_attached_iff {word value : Bytes} {p : Parameter} :
    ofBytes word = .parameter p (some value) ↔
      [word] = Form.longEquals.words p value ∨ [word] = Form.shortEquals.words p value ∨
        ([word] = Form.shortAttached.words p value ∧ value ≠ [] ∧ value.head? ≠ some equals) := by
  rw [ofBytes_eq_parameter_iff]
  simp only [Form.words, attachment, clusterValue?_eq_some_iff, List.cons.injEq, and_true]
  refine or_congr_right ⟨?_, ?_⟩
  · rintro ⟨rest, hword, hrest | ⟨rfl, hvalue⟩⟩
    · exact .inl (by rw [hword, hrest])
    · exact .inr ⟨hword, hvalue⟩
  · rintro (hword | ⟨hword, hvalue⟩)
    · exact ⟨_, hword, .inl rfl⟩
    · exact ⟨_, hword, .inr ⟨rfl, hvalue⟩⟩

/-- A value attached to a parameter is attached in one of the forms. -/
theorem exists_form_of_ofBytes {word value : Bytes} {p : Parameter} (h : ofBytes word = .parameter p (some value)) :
    ∃ form : Form, form.words p value = [word] := by
  rcases ofBytes_eq_attached_iff.1 h with hword | hword | ⟨hword, -⟩
  · exact ⟨.longEquals, hword.symm⟩
  · exact ⟨.shortEquals, hword.symm⟩
  · exact ⟨.shortAttached, hword.symm⟩

theorem ofLong_ne_separator (body : Bytes) : ofLong body ≠ .separator := by
  obtain ⟨name, attached, rfl, hname⟩ := exists_attachment body
  rw [ofLong_append hname]
  cases Parameter.ofLong? name <;> cases Notice.ofLong? name <;> simp

theorem ofCluster_ne_separator (b : UInt8) (rest : Bytes) : ofCluster b rest ≠ .separator := by
  unfold ofCluster
  cases Parameter.ofShort? b <;> cases Notice.ofShort? b <;> cases Utf8.firstChar? (b :: rest) <;> simp

theorem ofBytes_eq_separator_iff {word : Bytes} : ofBytes word = .separator ↔ word = separatorWord := by
  have hword : separatorWord = [dash, dash] := by decide
  rw [hword]
  rcases word with _ | ⟨a, _ | ⟨b, rest⟩⟩
  · simp [ofBytes]
  · simp [ofBytes]
  · by_cases ha : a = dash
    · by_cases hb : b = dash
      · by_cases hrest : rest = []
        · simp [ofBytes, ha, hb, hrest]
        · simp [ofBytes, ha, hb, hrest, ofLong_ne_separator]
      · simp [ofBytes, ha, hb, ofCluster_ne_separator]
    · simp [ofBytes, ha]

theorem ofBytes_of_head_ne_dash {word : Bytes} (h : word.head? ≠ some dash) : ofBytes word = .plain := by
  rcases word with _ | ⟨a, _ | ⟨b, rest⟩⟩
  · rfl
  · rfl
  · have ha : a ≠ dash := fun heq => h (congrArg some heq)
    simp [ofBytes, ha]

end Word

/-- The form gives the value as it is.  Behind the letter alone, an empty value would be none, and an equals sign in
front would not be part of it. -/
def Form.Holds (form : Form) (value : Bytes) : Prop :=
  form = shortAttached → value ≠ [] ∧ value.head? ≠ some equals

/-- The words of a form are a name and the value, or one word with both. -/
theorem Form.words_eq {form : Form} {p : Parameter} {value : Bytes} (h : form.Holds value) :
    (∃ name, form.words p value = [name, value] ∧ Word.ofBytes name = .parameter p none) ∨
      ∃ word, form.words p value = [word] ∧ Word.ofBytes word = .parameter p (some value) := by
  cases form with
  | long => exact .inl ⟨_, rfl, Word.ofBytes_eq_bare_iff.2 (.inl rfl)⟩
  | short => exact .inl ⟨_, rfl, Word.ofBytes_eq_bare_iff.2 (.inr rfl)⟩
  | longEquals => exact .inr ⟨_, rfl, Word.ofBytes_eq_attached_iff.2 (.inl rfl)⟩
  | shortEquals => exact .inr ⟨_, rfl, Word.ofBytes_eq_attached_iff.2 (.inr (.inl rfl))⟩
  | shortAttached => exact .inr ⟨_, rfl, Word.ofBytes_eq_attached_iff.2 (.inr (.inr ⟨rfl, h rfl⟩))⟩

end CommandLine

end RequestEcho
