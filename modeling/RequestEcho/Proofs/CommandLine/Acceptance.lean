import Mathlib.Data.List.Induction
import Mathlib.Data.List.Nodup
import RequestEcho.CommandLine.Arguments
import RequestEcho.Proofs.CommandLine.Clauses

/-!
# The accepted command lines

A command line is accepted exactly if behind the program name it is a row of clauses in which no parameter is given
twice, with or without a separator behind them (`settings_eq_ok_iff`).

A value that is a word of its own is checked only when the next clause begins or the words end, so a state stands for
some checked clauses and the words of one that is only begun (`Checked`, `Begun`).  Every state that is reached stands
for the words that were read (`Reached`), which gives one direction.  For the other, a state is followed through the
words of one clause, by what it would be if nothing were pending (`SettlesAt`).
-/

namespace RequestEcho

namespace CommandLine

theorem bind_eq_ok_iff {α β : Type} {x : Except Stop α} {f : α → Except Stop β} {b : β} :
    x >>= f = .ok b ↔ ∃ a, x = .ok a ∧ f a = .ok b := by
  cases x <;> simp [bind, Except.bind]

namespace Progress

variable {s t : Progress} {p : Parameter} {value word : Bytes}

/-! ### What a step can do -/

/-- A parameter gets its value by a clause, in any form, and if it has none yet. -/
theorem assign_eq_ok_iff (form : Form) :
    s.assign p value = .ok t ↔
      p ∉ s.given.map Assignment.parameter ∧
        ∃ c : Clause, c.form = form ∧ c.parameter = p ∧ Utf8.encode c.value = value ∧
          t = { s with given := s.given ++ [c.assignment] } := by
  constructor
  · intro h
    unfold assign at h
    split at h
    · cases h
    rename_i hnew
    split at h
    · cases h
    rename_i text htext
    split at h
    · cases h
    rename_i a ha
    have hparameter := Assignment.parameter_of_ofText? ha
    refine ⟨hnew, ⟨form, a, text, hparameter ▸ ha⟩, rfl, hparameter, (Utf8.decode?_eq_some_iff.1 htext).symm, ?_⟩
    exact (Except.ok.inj h).symm
  · rintro ⟨hnew, c, -, rfl, rfl, rfl⟩
    have haccepted : Assignment.ofText? c.parameter c.value = some c.assignment := c.accepted
    simp [assign, hnew, Utf8.decode?_encode, haccepted]

theorem settle_eq_ok_iff :
    s.settle = .ok t ↔
      (s.pending = none ∧ t = s) ∨
        ∃ p value, s.pending = some (.holding p value) ∧ assign { s with pending := none } p value = .ok t := by
  unfold settle
  split
  · rename_i hpending
    simp [hpending, eq_comm]
  · rename_i hpending
    simp [hpending]
  · rename_i hpending
    simp [hpending, and_assoc]

/-- The words that may come next: the separator, a value that is waited for, the name of a parameter, and a clause in
one word; the last two only if what is pending is in order. -/
theorem read_eq_ok_iff :
    s.read word = .ok t ↔
      s.separated = false ∧
        ((word = separatorWord ∧ t = { s with separated := true }) ∨
          (∃ p, s.pending = some (.wanting p) ∧ Word.ofBytes word = .plain ∧
            t = { s with pending := some (.holding p word) }) ∨
          (∃ p u, (word = p.longWord ∨ word = p.shortWord) ∧ s.settle = .ok u ∧
            t = { u with pending := some (.wanting p) }) ∨
          ∃ p value u, Word.ofBytes word = .parameter p (some value) ∧ s.settle = .ok u ∧
            u.assign p value = .ok t) := by
  simp only [← Word.ofBytes_eq_separator_iff, ← Word.ofBytes_eq_bare_iff]
  unfold read
  cases hseparated : s.separated with
  | true => simp
  | false =>
    rcases hword : Word.ofBytes word with _ | _ | ⟨p, _ | value⟩ | ⟨n, _ | value⟩ | name | letter
    · simp [eq_comm]
    · rcases hpending : s.pending with _ | p | ⟨p, value⟩ <;> simp [eq_comm]
    · simp [bind_eq_ok_iff, pure, Except.pure, @eq_comm _ t]
    · simp [bind_eq_ok_iff, and_assoc]
    · simp [bind_eq_ok_iff]
    · simp
    · simp
    · simp

/-! ### Every state stands for the words that lead to it -/

/-- The words of a clause that is begun and not yet checked. -/
inductive Begun : Option Pending → List Bytes → Prop
  | nothing : Begun none []
  | named {p : Parameter} {name : Bytes} (h : name = p.longWord ∨ name = p.shortWord) : Begun (some (.wanting p)) [name]
  | valued {p : Parameter} {name value : Bytes} (h : name = p.longWord ∨ name = p.shortWord)
    (hvalue : Word.ofBytes value = .plain) : Begun (some (.holding p value)) [name, value]

/-- The clauses that have been checked, none of them for the parameter of another. -/
structure Checked (clauses : List Clause) (s : Progress) : Prop where
  given : s.given = clauses.map Clause.assignment
  nodup : (clauses.map Clause.parameter).Nodup

/-- What the words that lead to a state are made of. -/
def Reached (words : List Bytes) (s : Progress) : Prop :=
  ∃ clauses begun, Checked clauses s ∧ Begun s.pending begun ∧
    words = clauses.flatMap Clause.words ++ begun ++ ending s.separated

theorem Checked.congr {clauses : List Clause} (h : Checked clauses s) (hgiven : t.given = s.given) :
    Checked clauses t :=
  ⟨hgiven.trans h.given, h.nodup⟩

/-- Words that give a parameter its value make one more clause. -/
theorem Checked.assign {clauses : List Clause} (h : Checked clauses s) (form : Form) (hs : s.assign p value = .ok t) :
    ∃ c : Clause, Checked (clauses ++ [c]) t ∧ c.words = form.words p value ∧ t.pending = s.pending ∧
      t.separated = s.separated := by
  obtain ⟨hnew, c, rfl, rfl, rfl, rfl⟩ := (assign_eq_ok_iff form).1 hs
  rw [h.given, ← Clause.map_parameter] at hnew
  refine ⟨c, ⟨by simp [h.given], ?_⟩, rfl, rfl, rfl⟩
  rw [List.map_append, List.nodup_append_comm]
  exact List.nodup_cons.2 ⟨hnew, h.nodup⟩

/-- If what is pending is in order, it was the last clause, and the words are a well-made line. -/
theorem Reached.settle {words : List Bytes} (h : Reached words s) (hs : s.settle = .ok t) :
    ∃ clauses, Checked clauses t ∧ words = line clauses t.separated ∧ t.pending = none ∧ t.separated = s.separated := by
  obtain ⟨clauses, begun, hchecked, hbegun, rfl⟩ := h
  rcases settle_eq_ok_iff.1 hs with ⟨hpending, rfl⟩ | ⟨p, value, hpending, hassign⟩
  · rw [hpending] at hbegun
    cases hbegun
    exact ⟨clauses, hchecked, by rw [List.append_nil, line], hpending, rfl⟩
  · rw [hpending] at hbegun
    cases hbegun with
    | @valued _ name _ hname _ =>
      obtain ⟨form, hform⟩ := Form.exists_of_name hname value
      have hchecked' : Checked clauses { s with pending := none } := hchecked.congr rfl
      obtain ⟨c, hc, hwords, hnone, hsame⟩ := hchecked'.assign form hassign
      exact ⟨clauses ++ [c], hc, by simp [line, hwords, hform, hsame], hnone, hsame⟩

/-- A step either goes on with the clause that is begun or ends it and begins the next. -/
theorem Reached.read {words : List Bytes} (h : Reached words s) (hs : s.read word = .ok t) :
    Reached (words ++ [word]) t := by
  obtain ⟨hopen, hstep⟩ := read_eq_ok_iff.1 hs
  rcases hstep with ⟨rfl, rfl⟩ | ⟨p, hpending, hplain, rfl⟩ | ⟨p, u, hname, hsettle, rfl⟩ |
    ⟨p, value, u, hword, hsettle, hassign⟩
  · obtain ⟨clauses, begun, hchecked, hbegun, rfl⟩ := h
    exact ⟨clauses, begun, hchecked.congr rfl, hbegun, by simp [hopen, ending]⟩
  · obtain ⟨clauses, begun, hchecked, hbegun, rfl⟩ := h
    rw [hpending] at hbegun
    cases hbegun with
    | @named _ name hname =>
      exact ⟨clauses, [name, word], hchecked.congr rfl, .valued hname hplain, by simp [hopen, ending]⟩
  · obtain ⟨clauses, hchecked, rfl, -, hsame⟩ := h.settle hsettle
    exact ⟨clauses, [word], hchecked.congr rfl, .named hname, by simp [line, hsame, hopen, ending]⟩
  · obtain ⟨clauses, hchecked, rfl, hnone, hsame⟩ := h.settle hsettle
    obtain ⟨form, hform⟩ := Word.exists_form_of_ofBytes hword
    obtain ⟨c, hc, hwords, hpending, hsame'⟩ := hchecked.assign form hassign
    rw [hnone] at hpending
    exact ⟨clauses ++ [c], [], hc, hpending ▸ .nothing, by simp [line, hsame', hsame, hopen, ending, hwords, hform]⟩

/-- Induction on the words from the end, as a step adds one behind the others. -/
theorem reached_of_read {words : List Bytes} (h : words.foldlM read initial = .ok s) : Reached words s := by
  induction words using List.reverseRecOn generalizing s with
  | nil =>
    cases h
    exact ⟨[], [], ⟨rfl, List.nodup_nil⟩, .nothing, rfl⟩
  | append_singleton words word ih =>
    rw [List.foldlM_append, bind_eq_ok_iff] at h
    obtain ⟨t, ht, hlast⟩ := h
    rw [List.foldlM_cons] at hlast
    simp only [List.foldlM_nil, bind_pure] at hlast
    exact (ih ht).read hlast

/-! ### Every well-made line is read -/

/-- The options are not ended, and what is pending is in order and completes the given assignments. -/
structure SettlesAt (given : List Assignment) (s : Progress) : Prop where
  isOpen : s.separated = false
  settle : s.settle = .ok ⟨given, none, false⟩

variable {given : List Assignment}

/-- The name of a parameter leaves its value pending. -/
theorem SettlesAt.read_name (h : SettlesAt given s) (hword : word = p.longWord ∨ word = p.shortWord) :
    s.read word = .ok ⟨given, some (.wanting p), false⟩ :=
  read_eq_ok_iff.2 ⟨h.isOpen, .inr (.inr (.inl ⟨_, _, hword, h.settle, rfl⟩))⟩

theorem read_value (given : List Assignment) (p : Parameter) (hword : Word.ofBytes word = .plain) :
    read ⟨given, some (.wanting p), false⟩ word = .ok ⟨given, some (.holding p word), false⟩ :=
  read_eq_ok_iff.2 ⟨rfl, .inr (.inl ⟨_, rfl, hword, rfl⟩)⟩

/-- The words of one clause. In two words its value is left pending. -/
theorem SettlesAt.read_clause (h : SettlesAt given s) {c : Clause}
    (hnew : c.parameter ∉ given.map Assignment.parameter) :
    ∃ t, c.words.foldlM read s = .ok t ∧ SettlesAt (given ++ [c.assignment]) t := by
  have hassign : assign ⟨given, none, false⟩ c.parameter (Utf8.encode c.value) =
      .ok ⟨given ++ [c.assignment], none, false⟩ := (assign_eq_ok_iff c.form).2 ⟨hnew, c, rfl, rfl, rfl, rfl⟩
  rcases c.words_eq with ⟨name, hwords, hname⟩ | ⟨word, hwords, hword⟩
  · obtain ⟨-, hdash, -⟩ := Assignment.head?_encode_of_ofText? c.accepted
    have hfirst := h.read_name (Word.ofBytes_eq_bare_iff.1 hname)
    have hsecond := read_value given c.parameter (Word.ofBytes_of_head_ne_dash hdash)
    refine ⟨⟨given, some (.holding c.parameter (Utf8.encode c.value)), false⟩, ?_, ⟨rfl, hassign⟩⟩
    simp [hwords, hfirst, hsecond, bind, Except.bind, pure, Except.pure]
  · have hread : s.read word = .ok ⟨given ++ [c.assignment], none, false⟩ :=
      read_eq_ok_iff.2 ⟨h.isOpen, .inr (.inr (.inr ⟨_, _, _, hword, h.settle, hassign⟩))⟩
    refine ⟨⟨given ++ [c.assignment], none, false⟩, ?_, ⟨rfl, rfl⟩⟩
    simp [hwords, hread, bind, Except.bind, pure, Except.pure]

theorem SettlesAt.read_clauses (h : SettlesAt given s) (clauses : List Clause)
    (hnodup : (given.map Assignment.parameter ++ clauses.map Clause.parameter).Nodup) :
    ∃ t, (clauses.flatMap Clause.words).foldlM read s = .ok t ∧
      SettlesAt (given ++ clauses.map Clause.assignment) t := by
  induction clauses generalizing given s with
  | nil => exact ⟨s, rfl, by simpa using h⟩
  | cons c clauses ih =>
    rw [List.map_cons, List.append_cons] at hnodup
    have hnew : c.parameter ∉ given.map Assignment.parameter := by
      have hfirst := List.nodup_append_comm.1 (List.nodup_append.1 hnodup).1
      exact (List.nodup_cons.1 hfirst).1
    obtain ⟨t, ht, hsettles⟩ := h.read_clause hnew
    obtain ⟨u, hu, hsettles'⟩ := ih hsettles (by simpa [Clause.parameter] using hnodup)
    refine ⟨u, ?_, by simpa using hsettles'⟩
    rw [List.flatMap_cons, List.foldlM_append, ht]
    exact hu

/-- The separator does not touch what is pending. -/
theorem settle_separated (s : Progress) (b : Bool) :
    settle { s with separated := b } = s.settle.map fun t => { t with separated := b } := by
  obtain ⟨given, pending, separated⟩ := s
  rcases pending with _ | p | ⟨p, value⟩
  · rfl
  · rfl
  · simp only [settle, assign]
    split
    · rfl
    split
    · rfl
    split <;> rfl

theorem SettlesAt.read_ending (h : SettlesAt given s) (separated : Bool) :
    ∃ t, (ending separated).foldlM read s = .ok t ∧ t.settle = .ok ⟨given, none, separated⟩ := by
  cases separated with
  | false => exact ⟨s, rfl, h.settle⟩
  | true =>
    have hread : s.read separatorWord = .ok { s with separated := true } :=
      read_eq_ok_iff.2 ⟨h.isOpen, .inl ⟨rfl, rfl⟩⟩
    refine ⟨{ s with separated := true }, by simp [ending, hread, bind, Except.bind, pure, Except.pure], ?_⟩
    rw [settle_separated, h.settle]
    rfl

end Progress

/-! ### Command lines -/

open Progress

/-- A row of clauses for different parameters is accepted. -/
theorem settings_line {clauses : List Clause} (hnodup : (clauses.map Clause.parameter).Nodup) (separated : Bool) :
    settings (line clauses separated) = .ok (Settings.ofAssignments (clauses.map Clause.assignment)) := by
  have hinitial : SettlesAt [] initial := ⟨rfl, rfl⟩
  obtain ⟨s, hs, hsettles⟩ := hinitial.read_clauses clauses hnodup
  obtain ⟨t, ht, hend⟩ := hsettles.read_ending separated
  have hread : (line clauses separated).foldlM read initial = .ok t := by
    rw [line, List.foldlM_append, hs]
    exact ht
  rw [settings, hread]
  simp [bind, Except.bind, hend, pure, Except.pure]

/-- Nothing else is accepted. -/
theorem exists_line_of_settings {words : List Bytes} {result : Settings} (h : settings words = .ok result) :
    ∃ clauses separated, words = line clauses separated ∧ (clauses.map Clause.parameter).Nodup ∧
      result = Settings.ofAssignments (clauses.map Clause.assignment) := by
  rw [settings, bind_eq_ok_iff] at h
  obtain ⟨s, hs, h⟩ := h
  rw [bind_eq_ok_iff] at h
  obtain ⟨t, ht, h⟩ := h
  obtain ⟨clauses, hchecked, hwords, -, -⟩ := (reached_of_read hs).settle ht
  refine ⟨clauses, t.separated, hwords, hchecked.nodup, ?_⟩
  rw [← hchecked.given]
  exact (Except.ok.inj h).symm

theorem settings_line_eq_ok_iff {clauses : List Clause} {separated : Bool} {result : Settings} :
    settings (line clauses separated) = .ok result ↔
      (clauses.map Clause.parameter).Nodup ∧ result = Settings.ofAssignments (clauses.map Clause.assignment) := by
  constructor
  · intro h
    obtain ⟨row, _, hrow, hnodup, rfl⟩ := exists_line_of_settings h
    have hsame := assignments_of_line_eq hrow
    rw [Clause.map_parameter, ← hsame, ← Clause.map_parameter] at hnodup
    exact ⟨hnodup, by rw [hsame]⟩
  · rintro ⟨hnodup, rfl⟩
    exact settings_line hnodup separated

theorem settings_eq_ok_iff {words : List Bytes} {result : Settings} :
    settings words = .ok result ↔
      ∃ clauses separated, words = line clauses separated ∧ (clauses.map Clause.parameter).Nodup ∧
        Denotes (clauses.map Clause.assignment) result := by
  constructor
  · intro h
    obtain ⟨clauses, separated, hwords, hnodup, rfl⟩ := exists_line_of_settings h
    have hdenotes := denotes_ofAssignments (Clause.map_parameter clauses ▸ hnodup)
    exact ⟨clauses, separated, hwords, hnodup, hdenotes⟩
  · rintro ⟨clauses, separated, rfl, hnodup, hdenotes⟩
    have hdenotes' := denotes_ofAssignments (Clause.map_parameter clauses ▸ hnodup)
    rw [settings_line hnodup, hdenotes.unique hdenotes']

/-- A command line is accepted exactly if the words behind the program name are a row of clauses for different
parameters, with or without a separator at the end, and it gives the settings that these clauses ask for.  These do not
change if the clauses change their places or forms, with the name of the program, or with the separator. -/
theorem parse_eq_ok_iff_line (argv : List Bytes) (result : Settings) :
    (parse argv = .ok result ↔
      ∃ clauses separated, argv.tail = line clauses separated ∧ (clauses.map Clause.parameter).Nodup ∧
        Denotes (clauses.map Clause.assignment) result) ∧
      ∀ argv' clauses clauses' separated separated',
        argv.tail = line clauses separated → argv'.tail = line clauses' separated' →
          (clauses.map Clause.assignment).Perm (clauses'.map Clause.assignment) →
            parse argv = .ok result → parse argv' = .ok result := by
  refine ⟨settings_eq_ok_iff, ?_⟩
  intro argv' clauses clauses' separated separated' hline hline' hperm hparse
  obtain ⟨row, _, hrow, hnodup, hdenotes⟩ := settings_eq_ok_iff.1 hparse
  have hsame := assignments_of_line_eq (hline.symm.trans hrow)
  have hdenotes' : Denotes (clauses'.map Clause.assignment) result := by
    rw [← hsame] at hdenotes
    exact hdenotes.of_perm hperm
  have hnodup' : (clauses'.map Clause.parameter).Nodup := by
    rw [Clause.map_parameter, ← hsame] at hnodup
    rw [Clause.map_parameter]
    exact (hperm.map _).nodup_iff.1 hnodup
  exact settings_eq_ok_iff.2 ⟨clauses', separated', hline', hnodup', hdenotes'⟩

example :
    parse (["path_echo", "-ldebug", "--socket", "127.0.0.1:9000", "--"].map fun w => Utf8.encode w.toList) =
      .ok ⟨.v4 ⟨127, 0, 0, 1⟩ 9000, .debug⟩ := by
  decide

end CommandLine

end RequestEcho
