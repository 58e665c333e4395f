import RequestEcho.Program
import RequestEcho.Proofs.CommandLine.Acceptance

/-!
# Answers that nothing behind them changes

The words are read from left to right, and the first one that cannot stand decides the answer: whatever is added to the
command line is not looked at (`parse_append`).  Help and version are such answers, and so are the refusals of a word
that is no option of the program or gives a value to an option that takes none.  The last of these names the
parameters whose values had been checked by then (`given_of_needlessValue`).

A value that is a word of its own is not checked at once.  If all words have been read and the last clause lacks its
value or has one that will be refused, the answer is given only because the words end, and they might go on
(`Unfinished`).  No decisive answer is given so late (`kind_notMem_of_refused`).
-/

namespace RequestEcho

namespace CommandLine

/-- The sorts of answers to a command line that asks for no settings. -/
inductive Kind
  | displayHelp
  | displayVersion
  | tooManyValues
  | unknownArgument
  | invalidValue
  | valueValidation
  | invalidUtf8
  | argumentConflict
deriving DecidableEq, Repr

/-- The sorts that are decided on the spot. -/
def Kind.decisive : List Kind := [displayHelp, displayVersion, tooManyValues, unknownArgument]

def Stop.kind : Stop → Kind
  | notice .help => .displayHelp
  | notice .version => .displayVersion
  | needlessValue _ _ => .tooManyValues
  | unexpected _ => .unknownArgument
  | unknownOption _ _ => .unknownArgument
  | missingValue _ => .invalidValue
  | badValue _ _ => .valueValidation
  | notText => .invalidUtf8
  | repeated _ => .argumentConflict

/-- An answer as the caller sees it. The message has the usage line and the suggestion in it. -/
structure Answer where
  kind : Kind
  message : Text
  exitCode : Nat
deriving DecidableEq, Repr

def Stop.answer (program : Text) (stop : Stop) : Answer := ⟨stop.kind, stop.message program, stop.exitCode⟩

/-- What a command line is answered: the settings it asks for, or why there are none. -/
def reply (argv : List Bytes) : Except Answer Settings := (parse argv).mapError (Stop.answer (programName argv))

/-- An option that the program does not have, or one that takes no value, with a value. -/
def Word.isForeign : Word → Bool
  | notice _ attached => attached.isSome
  | unknownLong _ => true
  | unknownShort _ => true
  | _ => false

/-- The word behind `before` decides the answer, and no word of `before` did. -/
structure Decides (before : List Bytes) (word : Bytes) (answer : Answer) : Prop where
  isFinal : ∀ after, reply (before ++ word :: after) = .error answer
  isFirst : ∀ earlier, earlier <+: before → ∀ other, reply earlier = .error other → other.kind ∉ Kind.decisive

variable {argv words ext before : List Bytes} {word : Bytes} {stop : Stop} {answer : Answer}

theorem bind_eq_error_iff {α β : Type} {x : Except Stop α} {f : α → Except Stop β} :
    x >>= f = .error stop ↔ x = .error stop ∨ ∃ a, x = .ok a ∧ f a = .error stop := by
  cases x <;> simp [bind, Except.bind]

/-! ### What is pending when the words end -/

namespace Progress

variable {s t : Progress}

/-- What is wrong with a pending value if the parameters `taken` have theirs. -/
inductive Refused (taken : List Parameter) : Pending → Stop → Prop
  | missing (p : Parameter) : Refused taken (.wanting p) (.missingValue p)
  | repeated {p : Parameter} (h : p ∈ taken) (value : Bytes) : Refused taken (.holding p value) (.repeated p)
  | notText {p : Parameter} {value : Bytes} (hnew : p ∉ taken) (h : Utf8.decode? value = none) :
    Refused taken (.holding p value) .notText
  | badValue {p : Parameter} {value : Bytes} {text : Text} (hnew : p ∉ taken) (htext : Utf8.decode? value = some text)
    (h : Assignment.ofText? p text = none) : Refused taken (.holding p value) (.badValue p text)

theorem kind_notMem_of_refused {taken : List Parameter} {pending : Pending} (h : Refused taken pending stop) :
    stop.kind ∉ Kind.decisive := by
  cases h <;> simp [Stop.kind, Kind.decisive]

theorem assign_eq_error_iff {p : Parameter} {value : Bytes} :
    s.assign p value = .error stop ↔ Refused (s.given.map Assignment.parameter) (.holding p value) stop := by
  constructor
  · intro h
    unfold assign at h
    split at h
    · rename_i hmem
      cases h
      exact .repeated hmem value
    rename_i hnew
    split at h
    · rename_i hnone
      cases h
      exact .notText hnew hnone
    rename_i htext
    split at h
    · rename_i hnone
      cases h
      exact .badValue hnew htext hnone
    · cases h
  · intro h
    cases h with
    | repeated hmem => rw [assign, if_pos hmem]
    | notText hnew hnone => rw [assign, if_neg hnew, hnone]
    | badValue hnew htext hnone => simp only [assign, if_neg hnew, htext, hnone]

theorem settle_eq_error_iff :
    s.settle = .error stop ↔
      ∃ pending, s.pending = some pending ∧ Refused (s.given.map Assignment.parameter) pending stop := by
  unfold settle
  split
  · rename_i hpending
    simp [hpending]
  · rename_i p hpending
    rw [hpending]
    constructor
    · intro h
      cases h
      exact ⟨_, rfl, .missing p⟩
    · rintro ⟨pending, heq, hrefused⟩
      cases heq
      cases hrefused
      rfl
  · rename_i p value hpending
    rw [hpending, assign_eq_error_iff]
    simp

/-- A clause that is begun behind others is left pending, also behind the separator. -/
theorem foldlM_read_of_begun {clauses : List Clause} {pending : Pending} {begun : List Bytes}
    (hnodup : (clauses.map Clause.parameter).Nodup) (hbegun : Begun (some pending) begun) (separated : Bool) :
    (clauses.flatMap Clause.words ++ begun ++ ending separated).foldlM read initial =
      .ok ⟨clauses.map Clause.assignment, some pending, separated⟩ := by
  have hinitial : SettlesAt [] initial := ⟨rfl, rfl⟩
  obtain ⟨s, hs, hsettles⟩ := hinitial.read_clauses clauses hnodup
  rw [List.nil_append] at hsettles
  have hread : begun.foldlM read s = .ok ⟨clauses.map Clause.assignment, some pending, false⟩ := by
    cases hbegun with
    | named hname => simp [hsettles.read_name hname, bind, Except.bind, pure, Except.pure]
    | valued hname hvalue =>
      simp [hsettles.read_name hname, read_value _ _ hvalue, bind, Except.bind, pure, Except.pure]
  rw [List.append_assoc, List.foldlM_append, hs]
  simp only [bind, Except.bind, List.foldlM_append, hread]
  cases separated with
  | false => rfl
  | true =>
    have hend : read ⟨clauses.map Clause.assignment, some pending, false⟩ separatorWord =
        .ok ⟨clauses.map Clause.assignment, some pending, true⟩ := read_eq_ok_iff.2 ⟨rfl, .inl ⟨rfl, rfl⟩⟩
    rw [ending, if_pos rfl, List.foldlM_cons, hend]
    rfl

/-! ### Words that are refused -/

/-- The first word that is refused. Induction on the words. -/
theorem exists_read_eq_error (h : words.foldlM read s = .error stop) :
    ∃ before word after t, words = before ++ word :: after ∧ before.foldlM read s = .ok t ∧
      t.read word = .error stop := by
  induction words generalizing s with
  | nil => cases h
  | cons word words ih =>
    rw [List.foldlM_cons, bind_eq_error_iff] at h
    rcases h with hread | ⟨t, hread, hrest⟩
    · exact ⟨[], word, words, s, rfl, rfl, hread⟩
    · obtain ⟨before, next, after, u, rfl, hbefore, hnext⟩ := ih hrest
      refine ⟨word :: before, next, after, u, rfl, ?_, hnext⟩
      rw [List.foldlM_cons, bind_eq_ok_iff]
      exact ⟨t, hread, hbefore⟩

theorem foldlM_append_of_eq_error (h : words.foldlM read s = .error stop) (ext : List Bytes) :
    (words ++ ext).foldlM read s = .error stop := by
  rw [List.foldlM_append, bind_eq_error_iff]
  exact .inl h

theorem foldlM_of_read_eq_error (hwords : words.foldlM read s = .ok t) (h : t.read word = .error stop)
    (ext : List Bytes) : (words ++ word :: ext).foldlM read s = .error stop := by
  rw [List.foldlM_append, bind_eq_error_iff]
  refine .inr ⟨t, hwords, ?_⟩
  rw [List.foldlM_cons, bind_eq_error_iff]
  exact .inl h

/-- If words can be read, so can the first of them. -/
theorem exists_foldlM_of_isPrefix (hwords : words.foldlM read s = .ok t) (h : before <+: words) :
    ∃ u, before.foldlM read s = .ok u := by
  obtain ⟨rest, rfl⟩ := h
  rw [List.foldlM_append, bind_eq_ok_iff] at hwords
  obtain ⟨u, hu, -⟩ := hwords
  exact ⟨u, hu⟩

/-- A value where none belongs is refused with the parameters that are checked by then. -/
theorem read_eq_needlessValue {n : Notice} {surplus : Surplus} (h : s.read word = .error (.needlessValue n surplus)) :
    s.separated = false ∧ ∃ value, Word.ofBytes word = .notice n (some value) ∧
      surplus = ⟨Utf8.decodeLossy value, s.given.map Assignment.parameter⟩ := by
  have hsettle : s.settle ≠ .error (.needlessValue n surplus) := by
    intro hs
    obtain ⟨_, -, hrefused⟩ := settle_eq_error_iff.1 hs
    cases hrefused
  unfold read at h
  by_cases hseparated : s.separated = true
  · rw [if_pos hseparated] at h
    cases h
  rw [if_neg hseparated] at h
  refine ⟨by simpa using hseparated, ?_⟩
  rcases hword : Word.ofBytes word with _ | _ | ⟨p, _ | value⟩ | ⟨n', _ | value⟩ | name | letter <;> rw [hword] at h
  · cases h
  · rcases hpending : s.pending with _ | _ | _ <;> simp [hpending] at h
  · obtain ⟨t, -, ht⟩ := (bind_eq_error_iff.1 h).resolve_left hsettle
    cases ht
  · obtain ⟨t, -, hassign⟩ := (bind_eq_error_iff.1 h).resolve_left hsettle
    cases assign_eq_error_iff.1 hassign
  · obtain ⟨t, -, ht⟩ := (bind_eq_error_iff.1 h).resolve_left hsettle
    cases ht
  · cases h
    exact ⟨value, rfl, rfl⟩
  · cases h
  · cases h

/-- In whatever state it comes, an option that is none of the program's is refused at once. -/
theorem exists_read_of_isForeign (s : Progress) (h : (Word.ofBytes word).isForeign = true) :
    ∃ stop, s.read word = .error stop ∧ stop.kind ∈ Kind.decisive := by
  unfold read
  by_cases hseparated : s.separated = true
  · rw [if_pos hseparated]
    exact ⟨_, rfl, by simp [Stop.kind, Kind.decisive]⟩
  · rw [if_neg hseparated]
    rcases hword : Word.ofBytes word with _ | _ | ⟨p, attached⟩ | ⟨n, _ | value⟩ | name | letter <;> rw [hword] at h
    · cases h
    · cases h
    · cases h
    · cases h
    · exact ⟨_, rfl, by simp [Stop.kind, Kind.decisive]⟩
    · exact ⟨_, rfl, by simp [Stop.kind, Kind.decisive]⟩
    · exact ⟨_, rfl, by simp [Stop.kind, Kind.decisive]⟩

end Progress

open Progress

/-- The words can all be read, and what is pending at their end will be refused. -/
def Unfinished (argv : List Bytes) (stop : Stop) : Prop :=
  ∃ (clauses : List Clause) (pending : Pending) (begun : List Bytes) (separated : Bool),
    argv.tail = clauses.flatMap Clause.words ++ begun ++ ending separated ∧
    (clauses.map Clause.parameter).Nodup ∧ Begun (some pending) begun ∧
    Refused (clauses.map Clause.parameter) pending stop

/-! ### Two ways to fail -/

/-- A word was refused, or all words were read and what is pending then is refused. -/
theorem settings_eq_error_iff :
    settings words = .error stop ↔
      words.foldlM read initial = .error stop ∨
        ∃ s, words.foldlM read initial = .ok s ∧ s.settle = .error stop := by
  have hsettle (s : Progress) :
      (s.settle >>= fun t => pure (Settings.ofAssignments t.given)) = .error stop ↔ s.settle = .error stop := by
    simp [bind_eq_error_iff, pure, Except.pure]
  simp only [settings, bind_eq_error_iff, hsettle]

theorem settings_of_foldlM_eq_error (h : words.foldlM read initial = .error stop) : settings words = .error stop :=
  settings_eq_error_iff.2 (.inl h)

theorem kind_notMem_of_settle {s : Progress} (h : s.settle = .error stop) : stop.kind ∉ Kind.decisive := by
  obtain ⟨_, -, hrefused⟩ := settle_eq_error_iff.1 h
  exact kind_notMem_of_refused hrefused

theorem unfinished_iff :
    Unfinished argv stop ↔ ∃ s, argv.tail.foldlM read initial = .ok s ∧ s.settle = .error stop := by
  constructor
  · rintro ⟨clauses, pending, begun, separated, htail, hnodup, hbegun, hrefused⟩
    refine ⟨_, htail ▸ foldlM_read_of_begun hnodup hbegun separated, settle_eq_error_iff.2 ⟨pending, rfl, ?_⟩⟩
    rw [← Clause.map_parameter]
    exact hrefused
  · rintro ⟨s, hread, hsettle⟩
    obtain ⟨pending, hpending, hrefused⟩ := settle_eq_error_iff.1 hsettle
    obtain ⟨clauses, begun, hchecked, hbegun, hwords⟩ := reached_of_read hread
    rw [hchecked.given, ← Clause.map_parameter] at hrefused
    exact ⟨clauses, pending, begun, s.separated, hwords, hchecked.nodup, hpending ▸ hbegun, hrefused⟩

/-- The refusal of a value where none belongs names the parameters of the clauses in front of it.  A clause that is only
begun is not among them, even if all its words have come. -/
theorem given_of_needlessValue {n : Notice} {surplus : Surplus} (h : parse argv = .error (.needlessValue n surplus)) :
    ∃ (clauses : List Clause) (pending : Option Pending) (begun : List Bytes) (word value : Bytes) (after : List Bytes),
      argv.tail = clauses.flatMap Clause.words ++ begun ++ word :: after ∧ (clauses.map Clause.parameter).Nodup ∧
        Begun pending begun ∧ Word.ofBytes word = .notice n (some value) ∧
        surplus = ⟨Utf8.decodeLossy value, clauses.map Clause.parameter⟩ := by
  rcases settings_eq_error_iff.1 h with hread | ⟨s, -, hsettle⟩
  · obtain ⟨before, word, after, s, htail, hbefore, hword⟩ := exists_read_eq_error hread
    obtain ⟨hopen, value, hnotice, rfl⟩ := read_eq_needlessValue hword
    obtain ⟨clauses, begun, hchecked, hbegun, rfl⟩ := reached_of_read hbefore
    refine ⟨clauses, s.pending, begun, word, value, after, ?_, hchecked.nodup, hbegun, hnotice, ?_⟩
    · rw [htail, hopen]
      simp [ending]
    · rw [hchecked.given, Clause.map_parameter]
  · obtain ⟨_, -, hrefused⟩ := settle_eq_error_iff.1 hsettle
    cases hrefused

/-- An address that is checked at once is in the usage line. -/
example :
    reply (["path_echo", "--socket=127.0.0.1:1", "--help=x"].map fun w => Utf8.encode w.toList) =
      .error ⟨.tooManyValues, "error: unexpected value 'x' for '--help' found; no more were expected\n\n".toList ++
        "Usage: path_echo --help <--socket <SOCKET>|--log-level <LOG_LEVEL>>\n\n".toList ++
        "For more information, try '--help'.\n".toList, 2⟩ := by
  decide +kernel

theorem Unfinished.ne_nil (h : Unfinished argv stop) : argv ≠ [] := by
  obtain ⟨clauses, pending, begun, separated, htail, -, hbegun, -⟩ := h
  rintro rfl
  cases hbegun <;> simp at htail

theorem reply_eq_error_iff :
    reply argv = .error answer ↔ ∃ stop, parse argv = .error stop ∧ stop.answer (programName argv) = answer := by
  unfold reply
  cases parse argv <;> simp [Except.mapError]

/-! ### Further words -/

theorem programName_append (h : argv ≠ []) (ext : List Bytes) : programName (argv ++ ext) = programName argv := by
  obtain ⟨program, words, rfl⟩ := List.exists_cons_of_ne_nil h
  rfl

theorem ne_nil_of_foldlM_eq_error (h : argv.tail.foldlM read initial = .error stop) : argv ≠ [] := by
  rintro rfl
  cases h

/-- Words behind one that was refused change neither the answer nor the name in it. -/
theorem parse_append (h : argv.tail.foldlM read initial = .error stop) (ext : List Bytes) :
    parse (argv ++ ext) = .error stop ∧ programName (argv ++ ext) = programName argv := by
  have hne := ne_nil_of_foldlM_eq_error h
  refine ⟨?_, programName_append hne ext⟩
  rw [parse, List.tail_append_of_ne_nil hne]
  exact settings_of_foldlM_eq_error (foldlM_append_of_eq_error h ext)

theorem reply_of_foldlM_eq_error (h : argv.tail.foldlM read initial = .error stop) :
    reply argv = .error (stop.answer (programName argv)) :=
  reply_eq_error_iff.2 ⟨stop, settings_of_foldlM_eq_error h, rfl⟩

theorem reply_append_of_foldlM_eq_error (h : argv.tail.foldlM read initial = .error stop) (ext : List Bytes) :
    reply (argv ++ ext) = .error (stop.answer (programName argv)) := by
  obtain ⟨hparse, hname⟩ := parse_append h ext
  exact reply_eq_error_iff.2 ⟨stop, hparse, by rw [hname]⟩

theorem run_append_of_foldlM_eq_error (h : argv.tail.foldlM read initial = .error stop) (ext : List Bytes)
    (requests : List (Option Bytes)) : Program.run (argv ++ ext) requests = Program.run argv requests := by
  obtain ⟨hparse, hname⟩ := parse_append h ext
  have hparse' : parse argv = .error stop := settings_of_foldlM_eq_error h
  rw [Program.run, Program.run, hparse, hparse', hname]

/-- A decisive answer means that a word was refused. -/
theorem foldlM_eq_error_of_decisive (h : parse argv = .error stop) (hkind : stop.kind ∈ Kind.decisive) :
    argv.tail.foldlM read initial = .error stop := by
  rcases settings_eq_error_iff.1 h with hread | ⟨s, -, hsettle⟩
  · exact hread
  · exact absurd hkind (kind_notMem_of_settle hsettle)

theorem decides_of_foldlM_eq_error (h : argv.tail.foldlM read initial = .error stop) :
    ∃ before word after, argv = before ++ word :: after ∧
      Decides before word (stop.answer (programName argv)) := by
  obtain ⟨program, words, rfl⟩ := List.exists_cons_of_ne_nil (ne_nil_of_foldlM_eq_error h)
  obtain ⟨before, word, after, s, rfl, hbefore, hword⟩ := exists_read_eq_error h
  refine ⟨program :: before, word, after, rfl, ?_, ?_⟩
  · intro rest
    have hread : (program :: before ++ word :: rest).tail.foldlM read initial = .error stop :=
      foldlM_of_read_eq_error hbefore hword rest
    exact reply_of_foldlM_eq_error hread
  · intro earlier hearlier other hother hkind
    obtain ⟨stop', hparse, rfl⟩ := reply_eq_error_iff.1 hother
    have hread := foldlM_eq_error_of_decisive hparse hkind
    rcases List.prefix_cons_iff.1 hearlier with rfl | ⟨earlier, rfl, hprefix⟩
    · cases hread
    · obtain ⟨u, hu⟩ := exists_foldlM_of_isPrefix hbefore hprefix
      rw [List.tail_cons, hu] at hread
      cases hread

end CommandLine

end RequestEcho
