import RequestEcho.Program
import RequestEcho.Proofs.Connection.FirstItem
import RequestEcho.Proofs.Connection.Segmentation
import RequestEcho.Proofs.Server.Isolation

/-!
# What the clients of a session receive

The turns of a session are a schedule of the server, and what comes of an action can be told without the server, from
the actions before it (`run_eq`).

* A task that has the turns to itself is served to its end (`Server.run_replicate`).
* A client that connects is announced and receives nothing.  What it does next is all that its connection reads, so it
  receives what its connection sends when it runs alone, whatever the other clients have done (`effect`).  After that it
  receives nothing, unless it connects again.
* So a client that waits and sends a request receives the response to it (`received_request`), and when the program is
  run each of its clients receives the response to its own request (`received_serve`).
-/

namespace RequestEcho

namespace Server

open Connection (Occurrence)

/-! ### A task alone -/

/-- A task that is served to its end: its connection does what it does alone, and then its failure is reported. -/
def Task.run (t : Task) : List Occurrence × Task :=
  let ended : Task := { t with connection := t.connection.run.2 }
  (t.connection.run.1 ++ if t.connection.outcome? = none then ended.report else [], ended)

theorem Task.run_of_finished {t : Task} {result : Option Failure} (h : t.connection.outcome? = some result) :
    t.run = ([], t) := by
  simp [run, Connection.run_of_outcome h, h]

theorem Task.run_of_unfinished {t : Task} (h : t.connection.outcome? = none) :
    t.run = (t.step.1 ++ t.step.2.run.1, t.step.2.run.2) := by
  rw [Task.step_of_unfinished h]
  cases hend : t.connection.step.2.outcome? with
  | some result =>
    have hended : Task.run { t with connection := t.connection.step.2 } = ([], _) := Task.run_of_finished hend
    rw [hended]
    simp [run, Connection.run_of_step h, Connection.run_of_outcome hend, h]
  | none =>
    rw [Task.report_of_unfinished hend]
    simp [run, Connection.run_of_step h, h, hend]

theorem run_nil (s : Server) : s.run [] = ([], s) := rfl

theorem run_cons (s : Server) (t : Turn) (turns : List Turn) :
    s.run (t :: turns) = ((s.turn t).1 ++ ((s.turn t).2.run turns).1, ((s.turn t).2.run turns).2) := rfl

theorem turn_task {s : Server} {i : Nat} {t : Task} (h : s.tasks[i]? = some t) :
    s.turn (.task i) = (t.step.1.map (⟨i, ·⟩), { s with tasks := s.tasks.set i t.step.2 }) := by
  rw [turn, h]

theorem set_self {s : Server} {i : Nat} {t : Task} (h : s.tasks[i]? = some t) :
    { s with tasks := s.tasks.set i t } = s := by
  obtain ⟨hi, rfl⟩ := List.getElem?_eq_some_iff.1 h
  rw [List.set_getElem_self]

/-- Enough turns in a row serve a task to its end and leave all else as it is. -/
theorem run_replicate {s : Server} {i n : Nat} {t : Task} (h : s.tasks[i]? = some t)
    (hn : t.connection.outcome? ≠ none ∨ t.connection.remaining ≤ n) :
    s.run (List.replicate n (.task i)) = (t.run.1.map (⟨i, ·⟩), { s with tasks := s.tasks.set i t.run.2 }) := by
  induction n generalizing s t with
  | zero =>
    cases hend : t.connection.outcome? with
    | some result => rw [Task.run_of_finished hend, set_self h]; rfl
    | none =>
      have hless := Connection.remaining_step_lt hend
      have hzero := hn.resolve_left (not_not_intro hend)
      omega
  | succ n ih =>
    have hlt := (List.getElem?_eq_some_iff.1 h).1
    rw [List.replicate_succ, run_cons, turn_task h]
    cases hend : t.connection.outcome? with
    | some result =>
      rw [Task.step_of_finished hend, set_self h, ih h (.inl (by simp [hend])), Task.run_of_finished hend]
      rfl
    | none =>
      have hless := Connection.remaining_step_lt hend
      have henough := hn.resolve_left (not_not_intro hend)
      have hnext : t.step.2.connection.remaining ≤ n := by
        rw [Task.step_of_unfinished hend]
        simp only
        omega
      have hset : (s.tasks.set i t.step.2)[i]? = some t.step.2 := List.getElem?_set_self hlt
      rw [ih (s := { s with tasks := s.tasks.set i t.step.2 }) hset (.inr hnext), Task.run_of_unfinished hend]
      simp

theorem Task.peer_run (t : Task) : t.run.2.peer = t.peer := rfl

theorem Task.outcome?_run_ne_none (t : Task) : t.run.2.connection.outcome? ≠ none := by
  obtain ⟨result, h⟩ := t.connection.exists_outcome_run
  exact Option.ne_none_iff_exists'.2 ⟨result, h⟩

end Server

namespace Session

open Server (Task Turn)

variable {client : Text} {action : Action} {actions before after : List Action} {s : Server} {t t' : Task} {i : Nat}

/-! ### The latest task of a client -/

theorem getElem?_of_task? (h : task? client s = some (i, t)) : s.tasks[i]? = some t ∧ t.peer = client := by
  obtain ⟨⟨u, j⟩, hfind, hpair⟩ := Option.map_eq_some_iff.1 h
  cases hpair
  have hmem := List.mem_of_find?_eq_some hfind
  have hpeer := List.find?_some hfind
  rw [List.mem_reverse, List.mk_mem_zipIdx_iff_getElem?] at hmem
  exact ⟨hmem, by simpa using hpeer⟩

/-- Only the tasks matter, and the last one comes first. -/
theorem task?_concat {tasks : List Task} (s s' : Server) (hs : s.tasks = tasks ++ [t]) (hs' : s'.tasks = tasks) :
    task? client s = if t.peer = client then some (tasks.length, t) else task? client s' := by
  by_cases h : t.peer = client <;> simp [task?, hs, hs', List.zipIdx_append, h]

/-- Progress of a task shows where it is the latest of its client, and nowhere else. Induction from the last task. -/
theorem task?_set (h : s.tasks[i]? = some t) (hpeer : t'.peer = t.peer) :
    task? client { s with tasks := s.tasks.set i t' } =
      (task? client s).map fun p => if p.1 = i then (i, t') else p := by
  obtain ⟨arrivals, tasks, failure⟩ := s
  induction tasks using List.reverseRecOn with
  | nil => cases h
  | append_singleton tasks last ih =>
    rw [task?_concat ⟨arrivals, tasks ++ [last], failure⟩ ⟨arrivals, tasks, failure⟩ rfl rfl]
    by_cases hi : i < tasks.length
    · have hset : (tasks ++ [last]).set i t' = tasks.set i t' ++ [last] := List.set_append_left i t' hi
      rw [task?_concat _ ⟨arrivals, tasks.set i t', failure⟩ hset rfl]
      split_ifs
      · have hne : tasks.length ≠ i := by omega
        simp [hne]
      · exact ih (by simpa [List.getElem?_append_left hi] using h)
    · have hlt := (List.getElem?_eq_some_iff.1 h).1
      rw [List.length_append, List.length_singleton] at hlt
      obtain rfl : i = tasks.length := by omega
      obtain rfl : last = t := by simpa using h
      have hset : (tasks ++ [last]).set tasks.length t' = tasks ++ [t'] := by simp
      rw [task?_concat _ ⟨arrivals, tasks, failure⟩ hset rfl, hpeer]
      split_ifs
      · simp
      · cases hearlier : task? client ⟨arrivals, tasks, failure⟩ with
        | none => rfl
        | some p =>
          have hbefore := (List.getElem?_eq_some_iff.1 (getElem?_of_task? hearlier).1).1
          have hne : p.1 ≠ tasks.length := Nat.ne_of_lt hbefore
          simp [hne]

/-! ### Clients that wait -/

/-- The client has done nothing since it connected. -/
def Waits (client : Text) (before : List Action) : Prop :=
  before.reverse.find? (·.client == client) = some (.connect client)

instance : Decidable (Waits client before) := inferInstanceAs (Decidable (_ = _))

theorem waits_concat_iff :
    Waits client (before ++ [action]) ↔
      action = .connect client ∨ action.client ≠ client ∧ Waits client before := by
  unfold Waits
  rw [List.reverse_concat, List.find?_cons]
  by_cases h : action.client = client
  · simp [h]
  · have hne : action ≠ .connect client := fun heq => h (by rw [heq]; rfl)
    have hother : (action.client == client) = false := beq_false_of_ne h
    simp [hother, h, hne]

/-- What comes of an action, by the actions before it. -/
def effect (before : List Action) (action : Action) : Effect :=
  match action.delivery? with
  | none => ⟨[], [.clientConnected action.client]⟩
  | some read =>
    if Waits action.client before then
      let alone := (Task.mk action.client (.opened [read] [] [] [])).run
      ⟨Connection.output alone.1, Connection.logs alone.1⟩
    else ⟨[], []⟩

/-- What comes of some actions, one by one. -/
def effects : (before actions : List Action) → List Effect
  | _, [] => []
  | before, action :: actions => effect before action :: effects (before ++ [action]) actions

/-- The server when `before` has been done and `after` is to come: the listening socket brings the clients of the
latter, and the connection of a client has been served unless the client waits, and then it will read what the client
does next. -/
structure Follows (before after : List Action) (s : Server) : Prop where
  failure_eq : s.failure = none
  arrivals_eq : s.arrivals = arrivals after
  of_waits : ∀ client, Waits client before →
    ∃ i, task? client s = some (i, ⟨client, .opened (reads client after) [] [] []⟩)
  of_not_waits : ∀ client, ¬ Waits client before → ∀ i t, task? client s = some (i, t) →
    t.connection.outcome? ≠ none

theorem follows_listening (actions : List Action) : Follows [] actions (.listening (arrivals actions)) where
  failure_eq := rfl
  arrivals_eq := rfl
  of_waits _ h := nomatch h
  of_not_waits _ _ _ _ h := nomatch h

theorem reads_cons_of_ne (h : action.client ≠ client) : reads client (action :: after) = reads client after := by
  simp [reads, h]

theorem reads_cons_self : reads action.client (action :: after) = action.delivery?.toList := by
  simp [reads]

/-! ### Actions -/

theorem ofRecords_map (i : Nat) (os : List Connection.Occurrence) :
    Effect.ofRecords (os.map (⟨i, ·⟩)) = ⟨Connection.output os, Connection.logs os⟩ := by
  simp [Effect.ofRecords, Connection.output, Connection.logs, List.flatMap_map, List.filterMap_map]

/-- A client that connects is announced, and waits. -/
theorem Follows.connect (h : Follows before (.connect client :: after) s) :
    s.run (turns s (.connect client)) = ([⟨s.tasks.length, .log (.clientConnected client)⟩],
      { s with arrivals := arrivals after,
               tasks := s.tasks ++ [⟨client, .opened (reads client after) [] [] []⟩] }) := by
  have harrivals := h.arrivals_eq
  have hfailure := h.failure_eq
  simp [turns, Server.run, Server.turn, Server.accept, harrivals, hfailure, arrivals]

theorem Follows.connected (h : Follows before (.connect client :: after) s) :
    Follows (before ++ [.connect client]) after (s.run (turns s (.connect client))).2 := by
  have htask (other : Text) : task? other (s.run (turns s (.connect client))).2 =
      if client = other then some (s.tasks.length, ⟨client, .opened (reads client after) [] [] []⟩)
      else task? other s := by
    rw [h.connect]
    exact task?_concat { s with tasks := s.tasks ++ [_] } s rfl rfl
  refine ⟨?_, ?_, ?_, ?_⟩
  · rw [h.connect]
    exact h.failure_eq
  · rw [h.connect]
  · intro other hwaits
    rw [htask]
    rcases waits_concat_iff.1 hwaits with heq | ⟨hne, hbefore⟩
    · cases heq
      exact ⟨_, if_pos rfl⟩
    · obtain ⟨i, hi⟩ := h.of_waits other hbefore
      rw [reads_cons_of_ne hne] at hi
      have hother : client ≠ other := hne
      exact ⟨i, by rw [if_neg hother, hi]⟩
  · intro other hwaits i t ht
    rw [waits_concat_iff, not_or] at hwaits
    have hne : client ≠ other := fun heq => hwaits.1 (by rw [heq])
    rw [htask, if_neg hne] at ht
    exact h.of_not_waits other (fun hbefore => hwaits.2 ⟨hne, hbefore⟩) i t ht

section

variable {read : Delivery}

theorem turns_eq (hread : action.delivery? = some read) :
    turns s action =
      (task? action.client s).elim [] fun p => List.replicate p.2.connection.remaining (.task p.1) := by
  cases action with
  | connect client => cases hread
  | _ => simp only [turns]; cases task? _ s <;> rfl

theorem arrivals_cons (hread : action.delivery? = some read) : arrivals (action :: after) = arrivals after := by
  cases action with
  | connect client => cases hread
  | _ => rfl

theorem task?_run (h : task? client s = some (i, t)) (other : Text) :
    task? other { s with tasks := s.tasks.set i t.run.2 } =
      if client = other then some (i, t.run.2) else task? other s := by
  obtain ⟨hi, hpeer⟩ := getElem?_of_task? h
  rw [task?_set hi t.peer_run]
  split_ifs with heq
  · simp [← heq, h]
  · cases hother : task? other s with
    | none => rfl
    | some p =>
      obtain ⟨hj, hpeer'⟩ := getElem?_of_task? hother
      have hne : p.1 ≠ i := by
        intro hsame
        rw [hsame, hi] at hj
        obtain rfl := Option.some.inj hj
        exact heq (hpeer.symm.trans hpeer')
      simp [hne]

/-- A client that is served waits no longer, and the others are as they were. -/
theorem Follows.concat (h : Follows before (action :: after) s) (hread : action.delivery? = some read) {s' : Server}
    (hfailure : s'.failure = s.failure) (harrivals : s'.arrivals = s.arrivals)
    (hothers : ∀ other, action.client ≠ other → task? other s' = task? other s)
    (hserved : ∀ i t, task? action.client s' = some (i, t) → t.connection.outcome? ≠ none) :
    Follows (before ++ [action]) after s' := by
  have hnot (client : Text) : action ≠ .connect client := by
    rintro rfl
    cases hread
  refine ⟨hfailure.trans h.failure_eq, ?_, ?_, ?_⟩
  · rw [harrivals, h.arrivals_eq, arrivals_cons hread]
  · intro other hwaits
    obtain ⟨hne, hbefore⟩ := (waits_concat_iff.1 hwaits).resolve_left (hnot other)
    rw [hothers other hne, ← reads_cons_of_ne hne]
    exact h.of_waits other hbefore
  · intro other hwaits i t ht
    by_cases heq : action.client = other
    · subst heq
      exact hserved i t ht
    · rw [hothers other heq] at ht
      exact h.of_not_waits other (fun hbefore => hwaits (waits_concat_iff.2 (.inr ⟨heq, hbefore⟩))) i t ht

/-- A client that waits is served as if it were alone; one that does not wait has no task that could do anything. -/
theorem Follows.served (h : Follows before (action :: after) s) (hread : action.delivery? = some read) :
    Effect.ofRecords (s.run (turns s action)).1 = effect before action ∧
      Follows (before ++ [action]) after (s.run (turns s action)).2 := by
  rw [turns_eq hread, effect, hread]
  cases htask : task? action.client s with
  | none =>
    have hnot : ¬ Waits action.client before := by
      intro hwaits
      obtain ⟨i, hi⟩ := h.of_waits _ hwaits
      rw [htask] at hi
      cases hi
    refine ⟨(if_neg hnot).symm, h.concat hread rfl rfl (fun _ _ => rfl) ?_⟩
    intro i t ht
    rw [Option.elim, Server.run_nil, htask] at ht
    cases ht
  | some p =>
    obtain ⟨i, t⟩ := p
    have hrun := Server.run_replicate (getElem?_of_task? htask).1 (.inr (Nat.le_refl _))
    rw [Option.elim, hrun, ofRecords_map]
    refine ⟨?_, h.concat hread rfl rfl ?_ ?_⟩
    · by_cases hwaits : Waits action.client before
      · obtain ⟨j, hj⟩ := h.of_waits _ hwaits
        rw [htask, reads_cons_self, hread] at hj
        cases hj
        exact (if_pos hwaits).symm
      · obtain ⟨result, hend⟩ := Option.ne_none_iff_exists'.1 (h.of_not_waits _ hwaits i t htask)
        rw [Task.run_of_finished hend]
        exact (if_neg hwaits).symm
    · intro other hne
      rw [task?_run htask, if_neg hne]
    · intro j u hu
      rw [task?_run htask, if_pos rfl] at hu
      cases hu
      exact t.outcome?_run_ne_none

end

/-! ### Sessions -/

theorem perform_eq (h : Follows before actions s) :
    (perform s actions).1 = effects before actions ∧
      Follows (before ++ actions) [] (perform s actions).2 := by
  induction actions generalizing before s with
  | nil =>
    rw [List.append_nil]
    exact ⟨rfl, h⟩
  | cons action actions ih =>
    have hstep : Effect.ofRecords (s.run (turns s action)).1 = effect before action ∧
        Follows (before ++ [action]) actions (s.run (turns s action)).2 := by
      cases hread : action.delivery? with
      | some read => exact h.served hread
      | none =>
        cases action with
        | connect client => exact ⟨by rw [h.connect]; rfl, h.connected⟩
        | _ => cases hread
    obtain ⟨heffects, hfollows⟩ := ih hstep.2
    rw [List.append_assoc, List.singleton_append] at hfollows
    refine ⟨?_, hfollows⟩
    rw [perform, effects, hstep.1, heffects]

/-- A session is what its actions say: each has its effect, by the actions before it, and at the end the accept loop
fails. -/
theorem run_eq (actions : List Action) : run actions = (effects [] actions, some (.accept .invalidArgument)) := by
  obtain ⟨heffects, hfollows⟩ := perform_eq (follows_listening actions)
  have hfailure := hfollows.failure_eq
  have harrivals := hfollows.arrivals_eq
  rw [run, heffects]
  simp [Server.turn, Server.accept, hfailure, harrivals, arrivals]

/-! ### Requests -/

/-- What answers these bytes. -/
def answer (bytes : Bytes) : Bytes :=
  if bytes = [] then []
  else (Response.ofPath (Request.ofText (Utf8.decodeLossy (bytes.take Reader.capacity))).path).encode

theorem output_of_data (bytes : Bytes) :
    Connection.output (Connection.opened [.data bytes] [] [] []).run.1 = answer bytes := by
  by_cases h : bytes = []
  · subst h
    have hpoll : (Reader.ofScript [.data []]).poll = (.ended, Reader.ofScript []) := rfl
    have hnext : (Reader.ofScript [.data []]).next.1 = .ended := by rw [Reader.next_of_ready (by simp [hpoll]), hpoll]
    obtain ⟨hrun, -⟩ := Connection.run_opened [.data []] [] [] []
    rw [hrun, Connection.output_logged, hnext, Connection.run_of_outcome rfl]
    rfl
  · have hframe : Reader.FirstFrame [.data bytes] (bytes.take Reader.capacity) := ⟨bytes, rfl, rfl⟩
    have hne : bytes.take Reader.capacity ≠ [] := by simp [h, Reader.capacity]
    rw [Connection.output_of_proceeds (Reader.next_of_firstFrame hframe hne) (by simp), answer, if_neg h]
    rfl

theorem output_run (t : Task) : Connection.output t.run.1 = Connection.output t.connection.run.1 := by
  have hreport (u : Task) : Connection.output u.report = [] := by
    unfold Task.report
    rcases u.connection.outcome? with _ | _ | failure <;> rfl
  rw [Task.run, Connection.output, List.flatMap_append]
  split_ifs
  · exact (congrArg _ (hreport _)).trans (List.append_nil _)
  · exact List.append_nil _

theorem received_effect {bytes : Bytes} (h : Waits action.client before)
    (hread : action.delivery? = some (.data bytes)) :
    (effect before action).received = answer bytes := by
  simp only [effect, hread, if_pos h, output_run, output_of_data]

theorem getElem?_effects (past before : List Action) (action : Action) (after : List Action) :
    (effects past (before ++ action :: after))[before.length]? = some (effect (past ++ before) action) := by
  induction before generalizing past with
  | nil => simp [effects]
  | cons first before ih =>
    have hrest := ih (past ++ [first])
    rw [List.append_assoc, List.singleton_append] at hrest
    exact hrest

/-- A client that waits and sends a request receives the response to it, whatever else there is in the session. -/
theorem received_request (h : Waits client before) (bytes : Bytes) (after : List Action) :
    (run (before ++ .request client bytes :: after)).1[before.length]?.map (·.received) = some (answer bytes) := by
  rw [run_eq, getElem?_effects, Option.map_some, List.nil_append]
  exact congrArg some (received_effect h rfl)

end Session

namespace Program

open Session (answer effects Waits)

theorem replies_connect (action : Session.Action) {bytes : Bytes} (hread : action.delivery? = some (.data bytes))
    (before after : List Session.Action) :
    replies (effects before (.connect action.client :: action :: after)) =
      answer bytes :: replies (effects (before ++ [.connect action.client] ++ [action]) after) := by
  have hwaits : Waits action.client (before ++ [.connect action.client]) := Session.waits_concat_iff.2 (.inl rfl)
  rw [effects, effects, replies, Session.received_effect hwaits hread]

/-- Each client connects and does one thing more. Induction on the clients, with the actions of those before. -/
theorem replies_effects (before : List Session.Action) (requests : List (Option Bytes × Nat)) :
    replies (effects before (requests.flatMap fun p =>
        [.connect (clientName p.2), p.1.elim (.close (clientName p.2)) (.request (clientName p.2))])) =
      requests.map fun p => answer (p.1.getD []) := by
  induction requests generalizing before with
  | nil => rfl
  | cons p requests ih =>
    obtain ⟨request, i⟩ := p
    rw [List.flatMap_cons, List.map_cons]
    cases request with
    | none =>
      have hclose := replies_connect (.close (clientName i)) rfl before
      exact (hclose _).trans (congrArg _ (ih _))
    | some bytes =>
      have hrequest := replies_connect (.request (clientName i) bytes) rfl before
      exact (hrequest _).trans (congrArg _ (ih _))

/-- Every client of the program receives the response to its own request, and nothing if it has closed at once. -/
theorem received_serve (settings : Settings) (requests : List (Option Bytes)) :
    (serve settings requests).received = requests.map fun request => answer (request.getD []) := by
  have hreplies := replies_effects [] requests.zipIdx
  have hfirst : requests.zipIdx.map (fun p => answer (p.1.getD [])) = requests.map fun request =>
      answer (request.getD []) := by
    conv => rhs; rw [← List.zipIdx_map_fst 0 requests, List.map_map]
    rfl
  rw [serve, Session.run_eq]
  exact hreplies.trans hfirst

end Program

end RequestEcho
