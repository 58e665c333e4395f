import Mathlib.Algebra.Group.Nat.Even
import RequestEcho.Proofs.Numeral.Value
import RequestEcho.Text.Quoted

/-!
# Reading back quoted texts

Which characters are written by their code points is left open (`escapeBy`), except that the control characters are
among them.  In whatever way that is settled, each character is shown in one of three ways (`Shown`), and so

* a quoted text has no control character in it (`Shown.not_isControl`);
* of its quotes only the first and the last are bare: every other one has a backslash in front that is not itself
  escaped (`bare_iff_of_eq`);
* the text can be read back, and the reading stops at the last quote, whatever stands behind it (`unquote?_quoteBy`).
-/

namespace RequestEcho

namespace Quoted

/-- A control character: one of the codes before the blank, the delete code or one of the codes of the second set. -/
def IsControl (c : Char) : Prop := c.toNat < 0x20 ∨ 0x7F ≤ c.toNat ∧ c.toNat ≤ 0x9F

instance (c : Char) : Decidable (IsControl c) := inferInstanceAs (Decidable (_ ∨ _))

theorem isHidden_of_isControl {c : Char} (h : IsControl c) : isHidden c = true := by
  have hinvisible : isInvisible c = true := by
    rw [isInvisible, List.any_eq_true]
    rcases h with hlow | ⟨hlow, hhigh⟩
    · exact ⟨(0x0, 0x1F), .head _, by simp; omega⟩
    · exact ⟨(0x7F, 0xA0), .tail _ (.head _), by simp; omega⟩
  rw [isHidden, hinvisible, Bool.true_or]

/-! ### How a character is shown -/

/-- The characters with an escape of two characters, and the second of these. -/
def marks : List (Char × Char) :=
  [('\x00', '0'), ('\t', 't'), ('\n', 'n'), ('\r', 'r'), ('"', '"'), ('\\', '\\')]

/-- What may stand for a character. -/
inductive Shown : Char → Text → Prop
  | mark {c letter : Char} (h : (c, letter) ∈ marks) : Shown c ['\\', letter]
  | code (c : Char) : Shown c (codePoint c)
  | self {c : Char} (hcontrol : ¬ IsControl c) (hquote : c ≠ '"') (hbackslash : c ≠ '\\') : Shown c [c]

variable {hidden : Char → Bool} {c : Char} {s t before after : Text}

theorem shown_escapeBy (h : ∀ c, IsControl c → hidden c = true) (c : Char) : Shown c (escapeBy hidden c) := by
  unfold escapeBy
  split_ifs with hzero htab hline hreturn hquote hbackslash hhidden
  any_goals exact .mark (by simp_all [marks])
  · exact .code c
  · exact .self (fun hcontrol => hhidden (h c hcontrol)) hquote hbackslash

theorem codePoint_eq (c : Char) : codePoint c = ['\\', 'u', '\x7b'] ++ Nat.toDigits 16 c.toNat ++ ['\x7d'] := rfl

theorem isDigit_of_mem_toDigits {d : Char} (h : d ∈ Nat.toDigits 16 c.toNat) : Numeral.isDigit 16 d = true :=
  (Numeral.spelled_toDigits (by omega) (by omega) c.toNat).isDigit_of_mem (by omega) h

theorem not_isControl_of_isDigit {base : Nat} (h : Numeral.isDigit base c = true) : ¬ IsControl c := by
  have hdigit : ('0' ≤ c ∧ c ≤ '9') ↔ (48 ≤ c.toNat ∧ c.toNat ≤ 57) := Iff.rfl
  have hlower : ('a' ≤ c ∧ c ≤ 'z') ↔ (97 ≤ c.toNat ∧ c.toNat ≤ 122) := Iff.rfl
  have hupper : ('A' ≤ c ∧ c ≤ 'Z') ↔ (65 ≤ c.toNat ∧ c.toNat ≤ 90) := Iff.rfl
  simp only [Numeral.isDigit, Numeral.digit?, hdigit, hlower, hupper, Option.isSome_ite] at h
  unfold IsControl
  split_ifs at h <;> omega

/-- The characters of a code point are digits, apart from four that frame them. -/
theorem mem_codePoint {d : Char} (h : d ∈ codePoint c) :
    d ∈ ['\\', 'u', '\x7b', '\x7d'] ∨ Numeral.isDigit 16 d = true := by
  rw [codePoint_eq, List.mem_append, List.mem_append] at h
  rcases h with (hfront | hdigit) | hend
  · exact .inl (List.mem_append_left ['\x7d'] hfront)
  · exact .inr (isDigit_of_mem_toDigits hdigit)
  · exact .inl (List.mem_append_right ['\\', 'u', '\x7b'] hend)

theorem quote_notMem_codePoint (c : Char) : '"' ∉ codePoint c := by
  intro h
  rcases mem_codePoint h with hframe | hdigit
  · exact absurd hframe (by decide)
  · exact absurd hdigit (by decide)

theorem Shown.not_isControl (h : Shown c s) : ∀ d ∈ s, ¬ IsControl d := by
  cases h with
  | @mark letter hmark =>
    have hletters : ∀ p ∈ marks, ∀ d ∈ ['\\', p.2], ¬ IsControl d := by simp [marks, IsControl]
    exact hletters _ hmark
  | code =>
    intro d hd
    rcases mem_codePoint hd with hframe | hdigit
    · have hcharacters : ∀ d ∈ ['\\', 'u', '\x7b', '\x7d'], ¬ IsControl d := by simp [IsControl]
      exact hcharacters d hframe
    · exact not_isControl_of_isDigit hdigit
  | self hcontrol =>
    intro d hd
    rw [List.mem_singleton.1 hd]
    exact hcontrol

theorem not_isControl_of_mem_quoteBy (h : ∀ c, IsControl c → hidden c = true) (t : Text) :
    ∀ d ∈ quoteBy hidden t, ¬ IsControl d := by
  intro d hd
  simp only [quoteBy, List.mem_cons, List.mem_append, List.mem_flatMap, List.cons_append, List.not_mem_nil,
    or_false] at hd
  rcases hd with rfl | ⟨c, -, hc⟩ | rfl
  · decide
  · exact (shown_escapeBy h c).not_isControl d hc
  · decide

/-! ### Bare quotes -/

/-- What follows is not escaped: an even number of backslashes stands directly in front of it. -/
def Bare (before : Text) : Prop := Even (before.reverse.takeWhile (· = '\\')).length

theorem bare_append_backslash (before : Text) : Bare (before ++ ['\\']) ↔ ¬ Bare before := by
  simp [Bare, Nat.even_add_one]

theorem bare_append_of_ne (before : Text) (h : c ≠ '\\') : Bare (before ++ [c]) := by
  simp [Bare, h]

/-- Behind a shown character nothing is escaped, if nothing was in front of it. -/
theorem Shown.bare (h : Shown c s) (hbare : Bare before) : Bare (before ++ s) := by
  cases h with
  | @mark letter hmark =>
    have happend : before ++ ['\\', letter] = before ++ ['\\'] ++ [letter] := by simp
    rw [happend]
    by_cases hletter : letter = '\\'
    · subst hletter
      rw [bare_append_backslash, bare_append_backslash]
      exact not_not_intro hbare
    · exact bare_append_of_ne _ hletter
  | code =>
    rw [codePoint_eq, ← List.append_assoc]
    exact bare_append_of_ne _ (by decide)
  | self _ _ hbackslash => exact bare_append_of_ne _ hbackslash

/-- A quote within a shown character has its backslash there. -/
theorem Shown.not_bare (h : Shown c (s ++ '"' :: after)) (hbare : Bare before) : ¬ Bare (before ++ s) := by
  generalize hshown : s ++ '"' :: after = shown at h
  cases h with
  | mark hmark =>
    rcases s with _ | ⟨b, _ | ⟨b', s⟩⟩
    · simp at hshown
    · obtain ⟨rfl, -⟩ := List.cons.inj hshown
      rw [bare_append_backslash]
      exact not_not_intro hbare
    · simp at hshown
  | code =>
    have hmem : '"' ∈ codePoint c := by simp [← hshown]
    exact absurd hmem (quote_notMem_codePoint c)
  | self _ hquote =>
    have hmem : '"' ∈ [c] := by simp [← hshown]
    exact absurd (List.mem_singleton.1 hmem).symm hquote

/-- Of the quotes behind the first one only the last is bare. Induction on the text. -/
theorem bare_iff_of_flatMap {f : Char → Text} (hf : ∀ c, Shown c (f c)) (hbare : Bare before)
    (h : t.flatMap f ++ ['"'] = s ++ '"' :: after) : Bare (before ++ s) ↔ after = [] := by
  induction t generalizing before s with
  | nil =>
    rcases s with _ | ⟨b, s⟩
    · have hafter : after = [] := by simpa [eq_comm] using h
      simp [hafter, hbare]
    · simp at h
  | cons c t ih =>
    rw [List.flatMap_cons, List.append_assoc, List.append_eq_append_iff] at h
    have hshown := hf c
    rcases h with ⟨s', rfl, hrest⟩ | ⟨rest, hc, hrest⟩
    · rw [← List.append_assoc]
      exact ih (hshown.bare hbare) hrest
    · rcases rest with _ | ⟨d, rest⟩
      · rw [List.append_nil] at hc
        rw [hc] at hshown
        have hnext := ih (s := []) (hshown.bare hbare) hrest.symm
        rwa [List.append_nil] at hnext
      · obtain ⟨rfl, rfl⟩ := List.cons.inj hrest
        rw [hc] at hshown
        have hnot := hshown.not_bare hbare
        simp [hnot]

/-- Behind a heading without quotes, a quoted text has two bare quotes: its first character and its last. -/
theorem bare_iff_of_eq (hcontrol : ∀ c, IsControl c → hidden c = true) {heading : Text} (hquote : '"' ∉ heading)
    (hbare : Bare heading) (h : heading ++ quoteBy hidden t = before ++ '"' :: after) :
    Bare before ↔ before = heading ∨ after = [] := by
  rw [quoteBy, List.cons_append, List.append_eq_append_iff] at h
  rcases h with ⟨_ | ⟨d, s⟩, rfl, hrest⟩ | ⟨_ | ⟨d, rest⟩, rfl, hrest⟩
  · simp [hbare]
  · obtain ⟨rfl, hbody⟩ := List.cons.inj hrest
    have hfirst : Bare (heading ++ ['"']) := bare_append_of_ne heading (by decide)
    have hlast := bare_iff_of_flatMap (shown_escapeBy hcontrol) hfirst hbody
    have happend : heading ++ '"' :: s = heading ++ ['"'] ++ s := by simp
    rw [happend, hlast]
    simp
  · rw [List.append_nil] at hbare
    simp [hbare]
  · obtain ⟨rfl, -⟩ := List.cons.inj hrest
    exact absurd (by simp) hquote

/-! ### The reader -/

/-- Where the reader is: between characters, behind a backslash, behind the letter of a code point, or among its digits,
of which it has read some. -/
inductive Mode
  | plain
  | escaped
  | named
  | code (digits : Text)

def unmark? (letter : Char) : Option Char := (marks.find? (·.2 = letter)).map (·.1)

/-- The character with the code point `digits`, if there is one. -/
def char? (digits : Text) : Option Char :=
  (Numeral.value? 16 digits).bind fun n => if n.isValidChar then some (Char.ofNat n) else none

/-- Reads up to the closing quote: the text that is shown, and what stands behind the quote. -/
def read? : Mode → Text → Option (Text × Text)
  | _, [] => none
  | .plain, c :: t =>
    if c = '"' then some ([], t)
    else if c = '\\' then read? .escaped t
    else (read? .plain t).map (Prod.map (c :: ·) id)
  | .escaped, c :: t =>
    if c = 'u' then read? .named t
    else (unmark? c).bind fun d => (read? .plain t).map (Prod.map (d :: ·) id)
  | .named, c :: t => if c = '\x7b' then read? (.code []) t else none
  | .code digits, c :: t =>
    if c = '\x7d' then (char? digits).bind fun d => (read? .plain t).map (Prod.map (d :: ·) id)
    else read? (.code (digits ++ [c])) t

/-- Undoes the escapes of a quoted text, up to its closing quote. -/
def unquote? : Text → Option (Text × Text)
  | '"' :: t => read? .plain t
  | _ => none

theorem char?_toDigits (c : Char) : char? (Nat.toDigits 16 c.toNat) = some c := by
  have hvalid : c.toNat.isValidChar := c.valid
  rw [char?, Numeral.value?_toDigits (by omega) (by omega), Option.bind_some, if_pos hvalid, Char.ofNat_toNat]

theorem read?_code_append {digits digits' : Text} (h : '\x7d' ∉ digits') (t : Text) :
    read? (.code digits) (digits' ++ t) = read? (.code (digits ++ digits')) t := by
  induction digits' generalizing digits with
  | nil => simp
  | cons c digits' ih =>
    rw [List.mem_cons, not_or] at h
    rw [List.cons_append, read?, if_neg (Ne.symm h.1), ih h.2, List.append_assoc, List.singleton_append]

theorem Shown.read?_append (h : Shown c s) (t : Text) :
    read? .plain (s ++ t) = (read? .plain t).map (Prod.map (c :: ·) id) := by
  cases h with
  | @mark letter hmark =>
    have hmarks : ∀ p ∈ marks, p.2 ≠ 'u' ∧ unmark? p.2 = some p.1 := by simp [marks, unmark?]
    obtain ⟨hletter, hunmark⟩ := hmarks _ hmark
    simp [read?, hletter, hunmark]
  | code =>
    have hbrace : '\x7d' ∉ Nat.toDigits 16 c.toNat := fun hmem => absurd (isDigit_of_mem_toDigits hmem) (by decide)
    calc read? .plain (codePoint c ++ t)
        = read? (.code []) (Nat.toDigits 16 c.toNat ++ '\x7d' :: t) := by simp [codePoint_eq, read?]
      _ = read? (.code (Nat.toDigits 16 c.toNat)) ('\x7d' :: t) := by rw [read?_code_append hbrace]; rfl
      _ = (read? .plain t).map (Prod.map (c :: ·) id) := by simp [read?, char?_toDigits]
  | self _ hquote hbackslash => simp [read?, hquote, hbackslash]

/-- A quoted text is read back from the front of any text. -/
theorem unquote?_quoteBy (h : ∀ c, IsControl c → hidden c = true) (t rest : Text) :
    unquote? (quoteBy hidden t ++ rest) = some (t, rest) := by
  have hread : read? .plain (t.flatMap (escapeBy hidden) ++ '"' :: rest) = some (t, rest) := by
    induction t with
    | nil => rfl
    | cons c t ih => rw [List.flatMap_cons, List.append_assoc, (shown_escapeBy h c).read?_append, ih]; rfl
  simpa [unquote?, quoteBy] using hread

end Quoted

end RequestEcho
