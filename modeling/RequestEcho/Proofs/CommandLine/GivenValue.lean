import RequestEcho.Proofs.Address.Characters
import RequestEcho.Proofs.Address.RoundTrip
import RequestEcho.Proofs.CommandLine.Acceptance
import RequestEcho.Proofs.Level.Grammar

/-!
# A value among other clauses

A command line that gives a parameter by a value, in any form and among clauses for other parameters, is accepted
exactly if the parameter accepts the value, and the parameter then has what the value denotes
(`exists_parse_lineWith_iff`).  What is set does not depend on the form, or on the text by which the value is given
(`parse_lineWith_eq_ok_iff`), so an address may as well be given as it is printed (`socket_of_printed`).

To see which values are accepted the value may be any text, so the words need not be a row of clauses.  What a state
still waits for is followed instead: the words can be read to the end only if a value that is wanted comes next
(`Completes.of_wanting`) and one that is held is accepted when the next clause begins or the words end
(`Completes.of_holding`).
-/

namespace RequestEcho

namespace CommandLine

variable {p : Parameter} {a : Assignment} {form : Form} {value : Text} {program : Bytes} {before after : List Clause}
  {separated : Bool} {result : Settings}

/-- A command line that gives `p` by `value` among other clauses. -/
def lineWith (p : Parameter) (program : Bytes) (before after : List Clause) (separated : Bool) (form : Form)
    (value : Text) : List Bytes :=
  program :: (before.flatMap Clause.words ++ form.words p (Utf8.encode value) ++ after.flatMap Clause.words ++
    ending separated)

/-- The clauses give every parameter at most once, and they do not give `p`. -/
structure Others (p : Parameter) (clauses : List Clause) : Prop where
  notMem : p ∉ clauses.map Clause.parameter
  nodup : (clauses.map Clause.parameter).Nodup

/-! ### Accepted values -/

/-- The assignments of the other clauses and of the one that gives the value. -/
def assignmentsWith (before after : List Clause) (a : Assignment) : List Assignment :=
  before.map Clause.assignment ++ a :: after.map Clause.assignment

theorem others_iff_nodup :
    Others a.parameter (before ++ after) ↔ ((assignmentsWith before after a).map Assignment.parameter).Nodup := by
  rw [assignmentsWith, List.map_append, List.map_cons, ← Clause.map_parameter, ← Clause.map_parameter,
    List.nodup_middle, ← List.map_append, List.nodup_cons]
  exact ⟨fun h => ⟨h.notMem, h.nodup⟩, fun h => ⟨h.1, h.2⟩⟩

theorem Others.assignment_eq (hothers : Others a.parameter (before ++ after)) :
    (Settings.ofAssignments (assignmentsWith before after a)).assignment a.parameter = a := by
  have hmem : a ∈ assignmentsWith before after a := List.mem_append_right _ List.mem_cons_self
  exact (denotes_ofAssignments (others_iff_nodup.1 hothers)).of_mem a hmem

/-- A value that is accepted makes a clause, and the line is accepted if no other clause gives the parameter. -/
theorem parse_lineWith_eq_ok_iff (h : Assignment.ofText? p value = some a) :
    parse (lineWith p program before after separated form value) = .ok result ↔
      Others p (before ++ after) ∧ result = Settings.ofAssignments (assignmentsWith before after a) := by
  obtain rfl := Assignment.parameter_of_ofText? h
  let c : Clause := ⟨form, a, value, h⟩
  have htail : (lineWith a.parameter program before after separated form value).tail =
      line (before ++ c :: after) separated := by
    have hwords : c.words = form.words a.parameter (Utf8.encode value) := rfl
    rw [line, List.flatMap_append, List.flatMap_cons, hwords]
    simp [lineWith]
  have hassignments : (before ++ c :: after).map Clause.assignment = assignmentsWith before after a := by
    rw [List.map_append, List.map_cons]
    rfl
  rw [parse, htail, settings_line_eq_ok_iff, Clause.map_parameter, hassignments, others_iff_nodup]

theorem parse_lineWith (hothers : Others p (before ++ after)) (h : Assignment.ofText? p value = some a) :
    ∃ settings, parse (lineWith p program before after separated form value) = .ok settings ∧
      settings.assignment p = a := by
  refine ⟨_, (parse_lineWith_eq_ok_iff h).2 ⟨hothers, rfl⟩, ?_⟩
  obtain rfl := Assignment.parameter_of_ofText? h
  exact hothers.assignment_eq

/-! ### Values that are not accepted -/

namespace Progress

variable {s : Progress} {words : List Bytes} {bytes : Bytes}

/-- The words can be read to the end, and what is pending then is in order. -/
def Completes (s : Progress) (words : List Bytes) : Prop :=
  ∃ t u, words.foldlM read s = .ok t ∧ t.settle = .ok u

theorem completes_nil_iff : s.Completes [] ↔ ∃ u, s.settle = .ok u := by
  simp [Completes, pure, Except.pure]

theorem completes_cons_iff {word : Bytes} :
    s.Completes (word :: words) ↔ ∃ t, s.read word = .ok t ∧ t.Completes words := by
  simp only [Completes, List.foldlM_cons, bind_eq_ok_iff]
  constructor
  · rintro ⟨t, u, ⟨s', hread, hrest⟩, hsettle⟩
    exact ⟨s', hread, t, u, hrest, hsettle⟩
  · rintro ⟨s', hread, t, u, hrest, hsettle⟩
    exact ⟨t, u, ⟨s', hread, hrest⟩, hsettle⟩

theorem completes_append {words' : List Bytes} (h : s.Completes (words ++ words')) :
    ∃ t : Progress, t.Completes words' := by
  obtain ⟨t, u, hread, hsettle⟩ := h
  rw [List.foldlM_append, bind_eq_ok_iff] at hread
  obtain ⟨s', -, hrest⟩ := hread
  exact ⟨s', t, u, hrest, hsettle⟩

/-- Some text with these bytes is a value of `p`. -/
def Accepts (p : Parameter) (bytes : Bytes) : Prop :=
  ∃ c : Clause, c.parameter = p ∧ Utf8.encode c.value = bytes

theorem accepts_of_assign {t : Progress} (h : s.assign p bytes = .ok t) : Accepts p bytes := by
  obtain ⟨-, c, -, hparameter, hvalue, -⟩ := (assign_eq_ok_iff .long).1 h
  exact ⟨c, hparameter, hvalue⟩

theorem accepts_of_settle {t : Progress} (hpending : s.pending = some (.holding p bytes)) (h : s.settle = .ok t) :
    Accepts p bytes := by
  rcases settle_eq_ok_iff.1 h with ⟨hnone, -⟩ | ⟨p', bytes', hpending', hassign⟩
  · rw [hpending] at hnone
    cases hnone
  · rw [hpending] at hpending'
    cases hpending'
    exact accepts_of_assign hassign

/-- Induction on the words, as separators may come before the value is checked. -/
theorem Completes.of_holding (h : s.Completes words) (hpending : s.pending = some (.holding p bytes)) :
    Accepts p bytes := by
  induction words generalizing s with
  | nil =>
    obtain ⟨u, hsettle⟩ := completes_nil_iff.1 h
    exact accepts_of_settle hpending hsettle
  | cons word words ih =>
    obtain ⟨t, hread, hrest⟩ := completes_cons_iff.1 h
    rcases (read_eq_ok_iff.1 hread).2 with ⟨-, rfl⟩ | ⟨q, hwanting, -⟩ | ⟨q, u, -, hsettle, -⟩ |
      ⟨q, _, u, -, hsettle, -⟩
    · exact ih hrest hpending
    · rw [hpending] at hwanting
      cases hwanting
    · exact accepts_of_settle hpending hsettle
    · exact accepts_of_settle hpending hsettle

theorem settle_of_wanting (hpending : s.pending = some (.wanting p)) : s.settle = .error (.missingValue p) := by
  rw [settle, hpending]

theorem Completes.eq_nil_of_separated (h : s.Completes words) (hseparated : s.separated = true) : words = [] := by
  cases words with
  | nil => rfl
  | cons word words =>
    obtain ⟨t, hread, -⟩ := completes_cons_iff.1 h
    have hopen := (read_eq_ok_iff.1 hread).1
    rw [hseparated] at hopen
    cases hopen

/-- A value that is wanted is the next word: behind the separator nothing can be read. -/
theorem Completes.of_wanting (h : s.Completes words) (hpending : s.pending = some (.wanting p)) :
    ∃ bytes rest, ∃ t : Progress, words = bytes :: rest ∧ t.pending = some (.holding p bytes) ∧ t.Completes rest := by
  have hsettle := settle_of_wanting hpending
  cases words with
  | nil =>
    obtain ⟨u, hu⟩ := completes_nil_iff.1 h
    rw [hsettle] at hu
    cases hu
  | cons word words =>
    obtain ⟨t, hread, hrest⟩ := completes_cons_iff.1 h
    rcases (read_eq_ok_iff.1 hread).2 with ⟨-, rfl⟩ | ⟨q, hwanting, -, rfl⟩ | ⟨q, u, -, hu, -⟩ | ⟨q, _, u, -, hu, -⟩
    · obtain rfl := hrest.eq_nil_of_separated rfl
      obtain ⟨u, hu⟩ := completes_nil_iff.1 hrest
      rw [settle_separated, hsettle] at hu
      cases hu
    · rw [hpending] at hwanting
      cases hwanting
      exact ⟨word, words, _, rfl, rfl, hrest⟩
    · rw [hsettle] at hu
      cases hu
    · rw [hsettle] at hu
      cases hu

theorem pending_of_read_bare {t : Progress} {word : Bytes} (hword : Word.ofBytes word = .parameter p none)
    (h : s.read word = .ok t) : t.pending = some (.wanting p) := by
  unfold read at h
  split at h
  · cases h
  · rw [hword] at h
    obtain ⟨u, -, hu⟩ := bind_eq_ok_iff.1 h
    exact Except.ok.inj hu ▸ rfl

theorem accepts_of_read_attached {t : Progress} {word : Bytes} (hword : Word.ofBytes word = .parameter p (some bytes))
    (h : s.read word = .ok t) : Accepts p bytes := by
  unfold read at h
  split at h
  · cases h
  · rw [hword] at h
    obtain ⟨u, -, hassign⟩ := bind_eq_ok_iff.1 h
    exact accepts_of_assign hassign

/-- Words that give a value are read in any state only if the value is accepted then or later. -/
theorem Completes.of_form (h : s.Completes (form.words p bytes ++ words)) (hholds : form.Holds bytes) :
    Accepts p bytes := by
  rcases form.words_eq hholds with ⟨name, hwords, hname⟩ | ⟨word, hwords, hword⟩
  · rw [hwords] at h
    obtain ⟨t, hread, hrest⟩ := completes_cons_iff.1 h
    obtain ⟨_, _, u, heq, hholding, hcompletes⟩ := hrest.of_wanting (pending_of_read_bare hname hread)
    obtain ⟨rfl, rfl⟩ := List.cons.inj heq
    exact hcompletes.of_holding hholding
  · rw [hwords] at h
    obtain ⟨t, hread, -⟩ := completes_cons_iff.1 h
    exact accepts_of_read_attached hword hread

end Progress

open Progress

/-- A line with a value that is not accepted is not accepted either, whatever it is taken for. -/
theorem exists_ofText?_of_parse (hholds : form.Holds (Utf8.encode value))
    (h : parse (lineWith p program before after separated form value) = .ok result) :
    ∃ a, Assignment.ofText? p value = some a := by
  rw [parse, settings, bind_eq_ok_iff] at h
  obtain ⟨s, hread, h⟩ := h
  obtain ⟨t, hsettle, -⟩ := bind_eq_ok_iff.1 h
  have hcompletes : initial.Completes (before.flatMap Clause.words ++
      (form.words p (Utf8.encode value) ++ (after.flatMap Clause.words ++ ending separated))) := by
    refine ⟨s, t, ?_, hsettle⟩
    simpa [lineWith] using hread
  obtain ⟨u, hu⟩ := completes_append hcompletes
  obtain ⟨c, rfl, hvalue⟩ := hu.of_form hholds
  exact ⟨c.assignment, Utf8.encode_injective hvalue ▸ c.accepted⟩

theorem exists_parse_lineWith_iff (program : Bytes) (separated : Bool) (a : Assignment)
    (hothers : Others p (before ++ after)) (hholds : form.Holds (Utf8.encode value)) :
    (∃ result, parse (lineWith p program before after separated form value) = .ok result ∧ result.assignment p = a) ↔
      Assignment.ofText? p value = some a := by
  constructor
  · rintro ⟨result, hparse, rfl⟩
    obtain ⟨a, ha⟩ := exists_ofText?_of_parse hholds hparse
    obtain ⟨result', hparse', rfl⟩ := parse_lineWith hothers ha
    rw [hparse] at hparse'
    rwa [Except.ok.inj hparse']
  · intro ha
    exact parse_lineWith hothers ha

/-! ### The two parameters -/

/-- An address has one written form, and this gives the socket as exactly that address, in any form of the parameter and
among any other clauses.  So no two addresses are printed alike, and an accepted value may be replaced by the printed
result, in any form, without a change to what is set. -/
theorem socket_of_printed (address : SocketAddress) :
    (∀ t, address.Written t ↔ t = address.text) ∧
      (∀ program before after separated form, Others .socket (before ++ after) →
        ∃ settings, parse (lineWith .socket program before after separated form address.text) = .ok settings ∧
          settings.socket = address) ∧
      (∀ other : SocketAddress, other.text = address.text → other = address) ∧
      ∀ value, SocketAddress.ofText? value = some address →
        ∀ program before after separated form settings,
          parse (lineWith .socket program before after separated form value) = .ok settings →
            settings.socket = address ∧ settings.socket.text = address.text ∧
              ∀ form', parse (lineWith .socket program before after separated form' settings.socket.text) =
                .ok settings := by
  have hread {t : Text} (h : SocketAddress.ofText? t = some address) :
      Assignment.ofText? .socket t = some (.socket address) := congrArg (Option.map Assignment.socket) h
  have htext := hread (SocketAddress.ofText?_text address)
  refine ⟨fun t => SocketAddress.written_iff, ?_, fun other h => SocketAddress.text_injective h, ?_⟩
  · intro program before after separated form hothers
    obtain ⟨settings, hparse, hsocket⟩ := parse_lineWith hothers htext
    exact ⟨settings, hparse, Assignment.socket.inj hsocket⟩
  · intro value hvalue program before after separated form settings hparse
    obtain ⟨hothers, rfl⟩ := (parse_lineWith_eq_ok_iff (hread hvalue)).1 hparse
    have hsocket := Assignment.socket.inj (Others.assignment_eq (a := .socket address) hothers)
    refine ⟨hsocket, congrArg SocketAddress.text hsocket, fun form' => ?_⟩
    rw [hsocket]
    exact (parse_lineWith_eq_ok_iff htext).2 ⟨hothers, rfl⟩

/-- Of two runs of the same length the first is left out, whichever was left out in the value. -/
theorem socket_of_tied_runs :
    let address : SocketAddress := .v6 ⟨[0x2001, 0xDB8, 0, 0, 1, 0, 0, 1], rfl⟩ 7 8080
    let debug : Clause := ⟨.shortEquals, .logLevel .debug, "debug".toList, by decide⟩
    let program := Utf8.encode "path_echo".toList
    address.Written "[2001:db8::1:0:0:1%7]:8080".toList ∧
      (∃ settings, parse (lineWith .socket program [debug] [] true .shortAttached address.text) = .ok settings ∧
        settings.socket = address) ∧
      parse (lineWith .socket program [debug] [] false .long "[2001:0DB8:0:0:1::1%07]:08080".toList) =
        .ok ⟨address, .debug⟩ ∧
      parse (lineWith .socket program [debug] [] false .short address.text) = .ok ⟨address, .debug⟩ := by
  intro address debug program
  obtain ⟨hwritten, hlines, -, hvalues⟩ := socket_of_printed address
  have hparse : parse (lineWith .socket program [debug] [] false .long "[2001:0DB8:0:0:1::1%07]:08080".toList) =
      .ok ⟨address, .debug⟩ := by decide +kernel
  obtain ⟨-, -, hagain⟩ := hvalues _ (by decide +kernel) _ _ _ _ _ _ hparse
  have hline := hlines program [debug] [] true .shortAttached ⟨by decide, by decide⟩
  exact ⟨(hwritten _).2 (by decide +kernel), hline, hparse, hagain .short⟩

/-- The socket may be given by exactly the texts that denote an address, and it is then that address: the only one that
the text denotes, with the exact values of the numerals that stand for the port and the scope.  Such a text holds digits
and five marks only, and the port ends it. -/
theorem socket_of_value (value : Text) (address : SocketAddress) :
    (SocketAddress.ofText? value = some address ↔ address.Spelled value) ∧
      (∀ program before after separated form,
        Others .socket (before ++ after) → form.Holds (Utf8.encode value) →
          ((∃ result, parse (lineWith .socket program before after separated form value) = .ok result ∧
            result.socket = address) ↔ address.Spelled value)) ∧
      (address.Spelled value →
        (∀ other : SocketAddress, other.Spelled value → other = address) ∧
          MadeOf ['.', ':', '[', ']', '%'] value ∧
          (∃ c ∈ value.getLast?, Numeral.isDigit 10 c = true) ∧
          (∀ host digits n, value = host ++ ':' :: digits → Numeral.Spelled 10 n digits → address.port.toNat = n) ∧
          ∀ host digits rest n, value = host ++ '%' :: (digits ++ ']' :: rest) → Numeral.Spelled 10 n digits →
            ∃ ip scope port, address = .v6 ip scope port ∧ scope.toNat = n) := by
  refine ⟨SocketAddress.ofText?_eq_some_iff, ?_, ?_⟩
  · intro program before after separated form hothers hholds
    have hline := exists_parse_lineWith_iff program separated (.socket address) hothers hholds
    simp only [Settings.assignment, Assignment.ofText?, Assignment.socket.injEq, Option.map_eq_some_iff,
      exists_eq_right] at hline
    rw [hline, SocketAddress.ofText?_eq_some_iff]
  · intro h
    refine ⟨fun other hother => hother.unique h, h.madeOf, h.exists_getLast?, ?_, ?_⟩
    · rintro host digits n rfl hdigits
      exact h.port_of_digits hdigits
    · rintro host digits rest n rfl hdigits
      exact h.scope_of_digits hdigits

/-- Digits of either case, a gap for two groups, two groups with dots, and zeros in front of the scope and the port. -/
theorem socket_of_mixed_value :
    let value : Text := "[2001:DB8:0::ffff:192.0.2.1%007]:00080".toList
    let address : SocketAddress := .v6 ⟨[0x2001, 0xDB8, 0, 0, 0, 0xFFFF, 0xC000, 0x201], rfl⟩ 7 80
    let debug : Clause := ⟨.shortEquals, .logLevel .debug, "debug".toList, by decide⟩
    let program := Utf8.encode "path_echo".toList
    address.Spelled value ∧
      (∃ result, parse (lineWith .socket program [debug] [] true .shortAttached value) = .ok result ∧
        result.socket = address) ∧
      (∀ other : SocketAddress, other.Spelled value → other = address) ∧ address.port.toNat = 80 ∧
      ∃ ip scope port, address = .v6 ip scope port ∧ scope.toNat = 7 := by
  intro value address debug program
  obtain ⟨hread, hlines, hexact⟩ := socket_of_value value address
  have hspelled : address.Spelled value := hread.1 (by decide +kernel)
  have hline := (hlines program [debug] [] true .shortAttached ⟨by decide, by decide⟩ fun _ => by decide).2 hspelled
  obtain ⟨hunique, -, -, hport, hscope⟩ := hexact hspelled
  have heighty : Numeral.Spelled 10 80 "00080".toList := (Numeral.value?_eq_some_iff (by omega)).1 (by decide)
  have hseven : Numeral.Spelled 10 7 "007".toList := (Numeral.value?_eq_some_iff (by omega)).1 (by decide)
  exact ⟨hspelled, hline, hunique, hport "[2001:DB8:0::ffff:192.0.2.1%007]".toList _ 80 rfl heighty,
    hscope "[2001:DB8:0::ffff:192.0.2.1".toList _ ":00080".toList 7 rfl hseven⟩

/-- The log level may be given by exactly the texts that denote a level, and it is then that level.  A numeral denotes a
level by its exact value, behind any number of zeros and with or without a plus sign. -/
theorem logLevel_of_value (value : Text) (level : Level) :
    (Level.ofText? value = some level ↔ level.Spelled value) ∧
      (∀ program before after separated form,
        Others .logLevel (before ++ after) → form.Holds (Utf8.encode value) →
          ((∃ result, parse (lineWith .logLevel program before after separated form value) = .ok result ∧
            result.logLevel = level) ↔ level.Spelled value)) ∧
      (level.Spelled value → ∀ other : Level, other.Spelled value → other = level) ∧
      ∀ sign zeros digits n, value = sign ++ (List.replicate zeros '0' ++ digits) → Level.IsSign sign →
        Numeral.Spelled 10 n digits → (level.Spelled value ↔ n = level.rank) := by
  refine ⟨Level.ofText?_eq_some_iff, ?_, fun h other hother => hother.unique h, ?_⟩
  · intro program before after separated form hothers hholds
    have hline := exists_parse_lineWith_iff program separated (.logLevel level) hothers hholds
    simp only [Settings.assignment, Assignment.ofText?, Assignment.logLevel.injEq, Option.map_eq_some_iff,
      exists_eq_right] at hline
    rw [hline, Level.ofText?_eq_some_iff]
  · rintro sign zeros digits n rfl hsign hdigits
    exact Level.spelled_numeral_iff hsign (hdigits.zeros_append (by omega) zeros)

/-- Zeros change nothing, and a number that is 1 in a word of 64 bits is not 1. -/
theorem logLevel_of_long_value :
    let value : Text := '+' :: (List.replicate 40 '0' ++ ['4'])
    let program := Utf8.encode "path_echo".toList
    Level.debug.Spelled value ∧
      (∃ result, parse (lineWith .logLevel program [] [] false .longEquals value) = .ok result ∧
        result.logLevel = .debug) ∧
      ∀ level : Level, ¬ level.Spelled "18446744073709551617".toList := by
  intro value program
  have hnumeral (n : Nat) (digits : Text) (h : Numeral.value? 10 digits = some n) : Numeral.Spelled 10 n digits :=
    (Numeral.value?_eq_some_iff (by omega)).1 h
  obtain ⟨-, hlines, -, hvalue⟩ := logLevel_of_value value .debug
  have hspelled : Level.debug.Spelled value :=
    (hvalue ['+'] 40 ['4'] 4 rfl (.inr rfl) (hnumeral 4 ['4'] (by decide))).2 rfl
  refine ⟨hspelled, (hlines program [] [] false .longEquals ⟨by decide, by decide⟩ nofun).2 hspelled, ?_⟩
  intro level hlevel
  obtain ⟨-, -, -, hvalue'⟩ := logLevel_of_value "18446744073709551617".toList level
  have hrank := (hvalue' [] 0 _ 18446744073709551617 rfl (.inl rfl) (hnumeral _ _ (by decide +kernel))).1 hlevel
  cases level <;> cases hrank

end CommandLine

end RequestEcho
