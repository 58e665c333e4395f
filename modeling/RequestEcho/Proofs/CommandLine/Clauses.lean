import RequestEcho.Proofs.CommandLine.Values
import RequestEcho.Proofs.CommandLine.Words
import RequestEcho.Proofs.Utf8.RoundTrip

/-!
# Clauses

A clause gives a parameter a value, in one of the five forms, by a text that the parameter accepts.  A well-made line of
words is a row of clauses, behind which the separator may stand (`line`).

What a row of clauses asks for is a matter of its assignments alone (`Denotes`): a parameter has the value it is given,
and its default if it is given none.  Unless a parameter is given twice there is exactly one such record of settings
(`denotes_ofAssignments`, `Denotes.unique`).  A line can be cut into clauses with the same assignments in one way only
(`assignments_of_line_eq`).
-/

namespace RequestEcho

/-- What the settings say of a parameter. -/
def Settings.assignment (settings : Settings) : CommandLine.Parameter → CommandLine.Assignment
  | .socket => .socket settings.socket
  | .logLevel => .logLevel settings.logLevel

theorem Settings.ext_assignment {s t : Settings} (h : ∀ p, s.assignment p = t.assignment p) : s = t := by
  obtain ⟨socket, level⟩ := s
  obtain ⟨socket', level'⟩ := t
  have hsocket := CommandLine.Assignment.socket.inj (h .socket)
  have hlevel := CommandLine.Assignment.logLevel.inj (h .logLevel)
  exact congr (congrArg Settings.mk hsocket) hlevel

namespace CommandLine

/-- A parameter with its value, as words give it: the form and the text. -/
structure Clause where
  form : Form
  assignment : Assignment
  value : Text
  accepted : Assignment.ofText? assignment.parameter value = some assignment

namespace Clause

def parameter (c : Clause) : Parameter := c.assignment.parameter

def words (c : Clause) : List Bytes := c.form.words c.parameter (Utf8.encode c.value)

end Clause

/-- The words that may stand behind the clauses. -/
def ending (separated : Bool) : List Bytes := if separated then [separatorWord] else []

/-- The words of a row of clauses, with or without a separator behind them. -/
def line (clauses : List Clause) (separated : Bool) : List Bytes := clauses.flatMap Clause.words ++ ending separated

/-- The value of a parameter that is not given, as a text. -/
def Parameter.defaultText : Parameter → Text
  | socket => "0.0.0.0:8000".toList
  | logLevel => "INFO".toList

/-- The settings that a row of assignments asks for. -/
structure Denotes (given : List Assignment) (settings : Settings) : Prop where
  of_mem : ∀ a ∈ given, settings.assignment a.parameter = a
  of_notMem : ∀ p ∉ given.map Assignment.parameter,
    Assignment.ofText? p p.defaultText = some (settings.assignment p)

/-! ### What a line is made of -/

theorem Clause.map_parameter (row : List Clause) :
    row.map Clause.parameter = (row.map Clause.assignment).map Assignment.parameter := by
  rw [List.map_map]
  rfl

/-- A clause is a name and its value or one word with both. -/
theorem Clause.words_eq (c : Clause) :
    (∃ name, c.words = [name, Utf8.encode c.value] ∧ Word.ofBytes name = .parameter c.parameter none) ∨
      ∃ word, c.words = [word] ∧ Word.ofBytes word = .parameter c.parameter (some (Utf8.encode c.value)) := by
  obtain ⟨hne, -, hequals⟩ := Assignment.head?_encode_of_ofText? c.accepted
  exact Form.words_eq fun _ => ⟨hne, hequals⟩

theorem Clause.assignment_eq {c d : Clause} (hparameter : c.parameter = d.parameter)
    (hvalue : Utf8.encode c.value = Utf8.encode d.value) : c.assignment = d.assignment := by
  have hc : Assignment.ofText? c.parameter c.value = some c.assignment := c.accepted
  have hd : Assignment.ofText? d.parameter d.value = some d.assignment := d.accepted
  rw [hparameter, Utf8.encode_injective hvalue, hd] at hc
  exact (Option.some.inj hc).symm

/-- The separator begins no clause. -/
theorem ending_ne_words_append (separated : Bool) (c : Clause) (rest : List Bytes) :
    ending separated ≠ c.words ++ rest := by
  have hseparator := Word.ofBytes_eq_separator_iff.2 (Eq.refl separatorWord)
  intro h
  cases separated with
  | false => rcases c.words_eq with ⟨name, hc, -⟩ | ⟨word, hc, -⟩ <;> simp [ending, hc] at h
  | true =>
    rcases c.words_eq with ⟨name, hc, hname⟩ | ⟨word, hc, hword⟩
    · simp [ending, hc] at h
    · simp only [ending, hc, if_true, List.singleton_append, List.cons.injEq] at h
      rw [← h.1, hseparator] at hword
      cases hword

/-- Words can be cut into clauses in one way only, as far as the values go. -/
theorem assignments_of_line_eq {clauses clauses' : List Clause} {separated separated' : Bool}
    (h : line clauses separated = line clauses' separated') :
    clauses.map Clause.assignment = clauses'.map Clause.assignment := by
  induction clauses generalizing clauses' with
  | nil =>
    cases clauses' with
    | nil => rfl
    | cons d clauses' =>
      rw [line, line, List.flatMap_nil, List.nil_append, List.flatMap_cons, List.append_assoc] at h
      exact absurd h (ending_ne_words_append _ _ _)
  | cons c clauses ih =>
    cases clauses' with
    | nil =>
      rw [line, line, List.flatMap_nil, List.nil_append, List.flatMap_cons, List.append_assoc] at h
      exact absurd h.symm (ending_ne_words_append _ _ _)
    | cons d clauses' =>
      rw [line, line, List.flatMap_cons, List.flatMap_cons, List.append_assoc, List.append_assoc] at h
      obtain ⟨hparameter, hvalue, hrest⟩ : c.parameter = d.parameter ∧ Utf8.encode c.value = Utf8.encode d.value ∧
          line clauses separated = line clauses' separated' := by
        -- what the first word is tells whether the value stands in it
        rcases c.words_eq with ⟨first, hc, hfirst⟩ | ⟨first, hc, hfirst⟩ <;>
          rcases d.words_eq with ⟨first', hd, hfirst'⟩ | ⟨first', hd, hfirst'⟩ <;>
          simp only [hc, hd, List.cons_append, List.nil_append, List.cons.injEq] at h <;>
          simp only [h.1, hfirst', Word.parameter.injEq, Option.some.injEq, reduceCtorEq, and_false] at hfirst
        · exact ⟨hfirst.1.symm, h.2.1, h.2.2⟩
        · exact ⟨hfirst.1.symm, hfirst.2.symm, h.2⟩
      rw [List.map_cons, List.map_cons, Clause.assignment_eq hparameter hvalue, ih hrest]

/-! ### The settings of a row of assignments -/

theorem Assignment.assignment_apply (a : Assignment) (settings : Settings) (p : Parameter) :
    (a.apply settings).assignment p = if p = a.parameter then a else settings.assignment p := by
  cases a <;> cases p <;> rfl

theorem Assignment.assignment_foldl_of_notMem {given : List Assignment} {p : Parameter}
    (h : p ∉ given.map Assignment.parameter) (settings : Settings) :
    (given.foldl apply settings).assignment p = settings.assignment p := by
  induction given generalizing settings with
  | nil => rfl
  | cons a given ih =>
    rw [List.map_cons, List.mem_cons, not_or] at h
    rw [List.foldl_cons, ih h.2, assignment_apply, if_neg h.1]

theorem Assignment.assignment_foldl_of_mem {given : List Assignment} (hnodup : (given.map Assignment.parameter).Nodup)
    {a : Assignment} (h : a ∈ given) (settings : Settings) :
    (given.foldl apply settings).assignment a.parameter = a := by
  induction given generalizing settings with
  | nil => cases h
  | cons b given ih =>
    rw [List.map_cons, List.nodup_cons] at hnodup
    rw [List.foldl_cons]
    rcases List.mem_cons.1 h with rfl | hmem
    · -- nothing behind it changes what it set
      rw [assignment_foldl_of_notMem hnodup.1, assignment_apply, if_pos rfl]
    · exact ih hnodup.2 hmem _

theorem ofText?_defaultText (p : Parameter) :
    Assignment.ofText? p p.defaultText = some (Settings.standard.assignment p) := by
  cases p <;> decide

theorem denotes_ofAssignments {given : List Assignment} (h : (given.map Assignment.parameter).Nodup) :
    Denotes given (Settings.ofAssignments given) where
  of_mem a hmem := Assignment.assignment_foldl_of_mem h hmem _
  of_notMem p hp := by
    rw [Settings.ofAssignments, Assignment.assignment_foldl_of_notMem hp, ofText?_defaultText]

namespace Denotes

variable {given given' : List Assignment} {s t : Settings}

theorem unique (hs : Denotes given s) (ht : Denotes given t) : s = t := by
  refine Settings.ext_assignment fun p => ?_
  by_cases hp : p ∈ given.map Assignment.parameter
  · obtain ⟨a, hmem, rfl⟩ := List.mem_map.1 hp
    rw [hs.of_mem a hmem, ht.of_mem a hmem]
  · exact Option.some.inj ((hs.of_notMem p hp).symm.trans (ht.of_notMem p hp))

/-- The order of the assignments does not matter. -/
theorem of_perm (hs : Denotes given s) (h : given.Perm given') : Denotes given' s where
  of_mem a hmem := hs.of_mem a (h.mem_iff.2 hmem)
  of_notMem p hp := hs.of_notMem p fun hmem => hp ((h.map _).mem_iff.1 hmem)

end Denotes

end CommandLine

end RequestEcho
