import Mathlib.Data.List.Induction
import RequestEcho.Proofs.Connection.Readiness
import RequestEcho.Server

/-!
# Isolation of connections

Whatever turns the accept loop and the tasks take, each connection does what it does when it runs alone.

* `Serves` says what has been recorded of one task: its client was announced, the connection has done a beginning of its
  run alone, and its failure is reported if it has ended with one.  A turn of the task goes on with the run
  (`Serves.step`), and a turn of anyone else records nothing about it.
* `Serving` says this of all tasks at once, and that the tasks belong to the arrivals before the one that is waited for.
  It is kept by every turn (`Serving.turn`), so it holds of every reachable server (`serving_run`).
* The accept loop does not look at the tasks (`loop_task`), so its course is that of the loop alone (`loop_run`).
-/

namespace RequestEcho

/-- What the server itself tells about a connection. -/
def Connection.Occurrence.isAnnouncement : Connection.Occurrence → Bool
  | .log (.clientConnected _) => true
  | .log (.connectionFailed _ _) => true
  | _ => false

namespace Connection

/-- A connection does not speak for the server. -/
theorem isAnnouncement_of_mem_step {c : Connection} {o : Occurrence} (h : o ∈ c.step.1) : o.isAnnouncement = false := by
  obtain ⟨phase, reader, writes, flushes, shutdowns⟩ := c
  cases phase with
  | reading =>
    obtain ⟨e, he, rfl⟩ := List.mem_map.1 h
    cases hpoll : reader.poll.1 with
    | notReady => simp [answer, hpoll] at he
    | ended =>
      obtain rfl : e = .clientSilent := by simpa [answer, hpoll] using he
      rfl
    | failed fault => simp [answer, hpoll] at he
    | chunk c =>
      simp only [answer, hpoll, List.mem_cons, List.not_mem_nil, or_false] at he
      rcases he with rfl | rfl | rfl <;> rfl
  | finished failure => cases h
  | _ =>
    obtain rfl := List.mem_singleton.1 h
    rfl

theorem isAnnouncement_of_mem_run {c : Connection} {o : Occurrence} (h : o ∈ c.run.1) : o.isAnnouncement = false := by
  induction c using run.induct with
  | case1 c result hend =>
    rw [run_of_outcome hend] at h
    cases h
  | case2 c hend ih =>
    rw [run_of_step hend, List.mem_append] at h
    rcases h with h | h
    · exact isAnnouncement_of_mem_step h
    · exact ih h

end Connection

namespace Server

open Connection (Occurrence)

/-- What is recorded of one task, in order. -/
def recordsOf (i : Nat) (records : List Record) : List Occurrence :=
  (records.filter (·.task = i)).map (·.occurrence)

theorem recordsOf_append (i : Nat) (first more : List Record) :
    recordsOf i (first ++ more) = recordsOf i first ++ recordsOf i more := by
  simp [recordsOf]

theorem recordsOf_map (i j : Nat) (os : List Occurrence) :
    recordsOf i (os.map (⟨j, ·⟩)) = if j = i then os else [] := by
  by_cases h : j = i <;> simp [recordsOf, List.filter_map, Function.comp_def, h]

theorem recordsOf_eq_nil {i : Nat} {records : List Record} (h : ∀ r ∈ records, r.task < i) :
    recordsOf i records = [] := by
  have hnone : records.filter (·.task = i) = [] := by
    rw [List.filter_eq_nil_iff]
    intro r hr
    have hlt := h r hr
    simp
    omega
  rw [recordsOf, hnone, List.map_nil]

/-! ### One task -/

/-- The arrival that a task begins with. -/
def Task.arrival (t : Task) : Arrival := .client t.peer t.connection

/-- What is told about the end of a task: its failure, if there is one. -/
def Task.report (t : Task) : List Occurrence :=
  match t.connection.outcome? with
  | some (some failure) => [.log (.connectionFailed t.peer failure)]
  | _ => []

theorem Task.report_of_unfinished {t : Task} (h : t.connection.outcome? = none) : t.report = [] := by
  rw [report, h]

theorem Task.step_of_finished {t : Task} {result : Option Failure} (h : t.connection.outcome? = some result) :
    t.step = ([], t) := by
  obtain ⟨peer, phase, reader, writes, flushes, shutdowns⟩ := t
  cases phase with
  | finished failure => rfl
  | _ => cases h

theorem Task.step_of_unfinished {t : Task} (h : t.connection.outcome? = none) :
    t.step = (t.connection.step.1 ++ report { t with connection := t.connection.step.2 },
      { t with connection := t.connection.step.2 }) := by
  simp only [step, report, h]
  cases t.connection.step.2.outcome? with
  | none => rfl
  | some result => cases result <;> rfl

/-- A task that began as `client` has come to `task`, with `os` recorded: the client was announced, the connection has
done a beginning of its run alone and is going to do the rest, and a failure is reported. -/
structure Serves (client task : Task) (os : List Occurrence) : Prop where
  peer_eq : task.peer = client.peer
  exists_own : ∃ own, os = .log (.clientConnected client.peer) :: (own ++ task.report) ∧
    client.connection.run = (own ++ task.connection.run.1, task.connection.run.2)

theorem serves_accepted {client : Task} (h : client.connection.outcome? = none) :
    Serves client client [.log (.clientConnected client.peer)] :=
  ⟨rfl, [], by rw [Task.report_of_unfinished h, List.nil_append], rfl⟩

theorem Serves.step {client task : Task} {os : List Occurrence} (h : Serves client task os) :
    Serves client task.step.2 (os ++ task.step.1) := by
  cases hend : task.connection.outcome? with
  | some result =>
    rw [Task.step_of_finished hend, List.append_nil]
    exact h
  | none =>
    obtain ⟨hpeer, own, hos, hrun⟩ := h
    rw [Task.report_of_unfinished hend, List.append_nil] at hos
    rw [Task.step_of_unfinished hend]
    refine ⟨hpeer, own ++ task.connection.step.1, ?_, ?_⟩
    · rw [hos, List.cons_append, List.append_assoc]
    · rw [hrun, Connection.run_of_step hend, List.append_assoc]

/-- What is recorded of a connection, apart from what the server tells about it. -/
def own (os : List Occurrence) : List Occurrence := os.filter fun o => !o.isAnnouncement

/-- The records `os` of a task that began as `client` and has come to `task` do not show that there are others: what the
connection does and logs is the beginning of its run alone, and all of it if the task has finished; the server tells
once, before all else, that the client is connected, and once that the task has failed, if it has. -/
structure Isolated (client task : Task) (os : List Occurrence) : Prop where
  own_prefix : own os <+: client.connection.run.1
  own_eq : ∀ result, task.connection.outcome? = some result →
    own os = client.connection.run.1 ∧ client.connection.run.2.outcome? = some result
  head_eq : os.head? = some (.log (.clientConnected client.peer))
  count_connected : ∀ peer, os.count (.log (.clientConnected peer)) = if peer = client.peer then 1 else 0
  count_failed : ∀ peer failure, os.count (.log (.connectionFailed peer failure)) =
    if peer = client.peer ∧ task.connection.outcome? = some (some failure) then 1 else 0

theorem Task.count_report_failed (t : Task) (peer : Text) (failure : Failure) :
    t.report.count (.log (.connectionFailed peer failure)) =
      if peer = t.peer ∧ t.connection.outcome? = some (some failure) then 1 else 0 := by
  unfold report
  rcases t.connection.outcome? with _ | _ | f
  · simp
  · simp
  · by_cases hpeer : peer = t.peer
    · by_cases hf : f = failure <;> simp [hpeer, hf]
    · simp [hpeer, Ne.symm hpeer]

theorem Task.count_report_connected (t : Task) (peer : Text) :
    t.report.count (.log (.clientConnected peer)) = 0 := by
  unfold report
  rcases t.connection.outcome? with _ | _ | f <;> simp

theorem Serves.isolated {client task : Task} {os : List Occurrence} (h : Serves client task os) :
    Isolated client task os := by
  obtain ⟨hpeer, done, rfl, hrun⟩ := h
  have hdone : ∀ o ∈ done, o.isAnnouncement = false := by
    intro o ho
    refine Connection.isAnnouncement_of_mem_run (c := client.connection) ?_
    rw [hrun]
    exact List.mem_append_left _ ho
  have hown : own (.log (.clientConnected client.peer) :: (done ++ task.report)) = done := by
    have hreport : own task.report = [] := by
      unfold Task.report
      rcases task.connection.outcome? with _ | _ | f <;> rfl
    have hall : own done = done := List.filter_eq_self.2 fun o ho => by rw [hdone o ho]; rfl
    have happend : own (done ++ task.report) = own done ++ own task.report := List.filter_append ..
    rw [own, List.filter_cons_of_neg (by simp [Occurrence.isAnnouncement]), ← own, happend, hall, hreport,
      List.append_nil]
  have hcount : ∀ e, (Occurrence.log e).isAnnouncement = true → done.count (.log e) = 0 := by
    intro e he
    refine List.count_eq_zero_of_not_mem fun hmem => ?_
    rw [hdone _ hmem] at he
    cases he
  refine ⟨?_, ?_, rfl, ?_, ?_⟩
  · rw [hown, hrun]
    exact List.prefix_append _ _
  · intro result hend
    rw [hown, hrun, Connection.run_of_outcome hend]
    exact ⟨(List.append_nil done).symm, hend⟩
  · intro peer
    rw [List.count_cons, List.count_append, hcount _ rfl, Task.count_report_connected]
    by_cases hpeer : peer = client.peer
    · simp [hpeer]
    · simp [hpeer, Ne.symm hpeer]
  · intro peer failure
    rw [List.count_cons, List.count_append, hcount _ rfl, Task.count_report_failed, hpeer]
    simp

/-! ### All tasks -/

/-- What has become of the arrivals: those of the clients have been accepted, in their order, and either the loop goes
on, or it has ended at the failed accept behind them. -/
def Accepted (arrivals : List Arrival) (clients : List Task) (s : Server) : Prop :=
  (s.failure = none ∧ arrivals = clients.map Task.arrival ++ s.arrivals) ∨
    ∃ fault, s.failure = some (.accept fault) ∧ arrivals = clients.map Task.arrival ++ .failed fault :: s.arrivals

/-- A server that has accepted the clients among the arrivals, and serves each of them by a task of its own. -/
structure Serving (arrivals : List Arrival) (clients : List Task) (records : List Record) (s : Server) : Prop where
  accepted : Accepted arrivals clients s
  length_tasks : s.tasks.length = clients.length
  task_lt : ∀ r ∈ records, r.task < clients.length
  serves : ∀ i client, clients[i]? = some client →
    ∃ task, s.tasks[i]? = some task ∧ Serves client task (recordsOf i records)

theorem serving_listening (arrivals : List Arrival) : Serving arrivals [] [] (listening arrivals) where
  accepted := .inl ⟨rfl, rfl⟩
  length_tasks := rfl
  task_lt _ h := nomatch h
  serves _ _ h := nomatch h

section

variable {arrivals : List Arrival} {clients : List Task} {records : List Record} {s : Server}

/-- A client that is accepted gets the next index, under which nothing has been recorded. -/
theorem Serving.concat (h : Serving arrivals clients records s) {client : Task} {s' : Server}
    (hclient : client.connection.outcome? = none) (haccepted : Accepted arrivals (clients ++ [client]) s')
    (htasks : s'.tasks = s.tasks ++ [client]) :
    Serving arrivals (clients ++ [client])
      (records ++ [⟨clients.length, .log (.clientConnected client.peer)⟩]) s' := by
  have hlength : s.tasks.length = clients.length := h.length_tasks
  refine ⟨haccepted, by simp [htasks, hlength], ?_, ?_⟩
  · intro r hr
    rw [List.length_append, List.length_singleton]
    rcases List.mem_append.1 hr with hr | hr
    · have hlt := h.task_lt r hr
      omega
    · obtain rfl := List.mem_singleton.1 hr
      exact Nat.lt_succ_self _
  · intro i served hi
    have hannounced : recordsOf i (records ++ [⟨clients.length, .log (.clientConnected client.peer)⟩]) =
        recordsOf i records ++ if clients.length = i then [.log (.clientConnected client.peer)] else [] := by
      rw [recordsOf_append, ← recordsOf_map]
      rfl
    rw [hannounced, htasks]
    rcases Nat.lt_or_ge i clients.length with hlt | hge
    · rw [List.getElem?_append_left hlt] at hi
      rw [List.getElem?_append_left (by omega), if_neg (by omega), List.append_nil]
      exact h.serves i served hi
    · have hlast := (List.getElem?_eq_some_iff.1 hi).1
      rw [List.length_append, List.length_singleton] at hlast
      obtain rfl : i = clients.length := by omega
      obtain rfl : client = served := by simpa using hi
      rw [recordsOf_eq_nil h.task_lt, if_pos rfl, ← hlength]
      exact ⟨client, by simp, serves_accepted hclient⟩

/-- The loop goes on to the next arrival. -/
theorem Serving.accept (h : Serving arrivals clients records s)
    (hnew : ∀ peer c, .client peer c ∈ arrivals → c.outcome? = none) :
    ∃ clients', Serving arrivals clients' (records ++ s.accept.1) s.accept.2 := by
  obtain ⟨rest, tasks, failure⟩ := s
  have hlength : tasks.length = clients.length := h.length_tasks
  rcases h.accepted with ⟨hfailure, harrivals⟩ | ⟨fault, hfailure, harrivals⟩
  · obtain rfl : failure = none := hfailure
    rcases rest with _ | ⟨⟨peer, c⟩ | fault, rest⟩
    · exact ⟨clients, by simpa [Server.accept] using h⟩
    · have hc : (Task.mk peer c).connection.outcome? = none := hnew peer c (by simp [harrivals])
      have haccepted : Accepted arrivals (clients ++ [⟨peer, c⟩]) ⟨rest, tasks ++ [⟨peer, c⟩], none⟩ :=
        .inl ⟨rfl, by simp [harrivals, Task.arrival]⟩
      refine ⟨clients ++ [⟨peer, c⟩], ?_⟩
      simp only [Server.accept, hlength]
      exact h.concat hc haccepted rfl
    · refine ⟨clients, .inr ⟨fault, rfl, harrivals⟩, hlength, ?_, ?_⟩
      · simpa [Server.accept] using h.task_lt
      · simpa [Server.accept] using h.serves
  · obtain rfl : failure = some (.accept fault) := hfailure
    exact ⟨clients, by simpa [Server.accept] using h⟩

/-- A turn of one task changes that task and no other. -/
theorem Serving.task (h : Serving arrivals clients records s) (j : Nat) :
    Serving arrivals clients (records ++ (s.turn (.task j)).1) (s.turn (.task j)).2 := by
  cases hj : s.tasks[j]? with
  | none => simpa [turn, hj] using h
  | some t =>
    have hlt := (List.getElem?_eq_some_iff.1 hj).1
    have hturn : s.turn (.task j) = (t.step.1.map (⟨j, ·⟩), { s with tasks := s.tasks.set j t.step.2 }) := by
      simp [turn, hj]
    rw [hturn]
    refine ⟨h.accepted, by simp [h.length_tasks], ?_, ?_⟩
    · intro r hr
      rcases List.mem_append.1 hr with hr | hr
      · exact h.task_lt r hr
      · obtain ⟨o, -, rfl⟩ := List.mem_map.1 hr
        rw [← h.length_tasks]
        exact hlt
    · intro i client hi
      obtain ⟨task, htask, hserves⟩ := h.serves i client hi
      rw [recordsOf_append, recordsOf_map]
      by_cases hij : j = i
      · subst hij
        obtain rfl : t = task := Option.some.inj (hj.symm.trans htask)
        refine ⟨t.step.2, by simp [hlt], ?_⟩
        rw [if_pos rfl]
        exact hserves.step
      · refine ⟨task, by simpa [hij] using htask, ?_⟩
        rw [if_neg hij, List.append_nil]
        exact hserves

theorem Serving.turn (h : Serving arrivals clients records s)
    (hnew : ∀ peer c, .client peer c ∈ arrivals → c.outcome? = none) (turn : Turn) :
    ∃ clients', Serving arrivals clients' (records ++ (s.turn turn).1) (s.turn turn).2 := by
  cases turn with
  | accept => exact h.accept hnew
  | task j => exact ⟨clients, h.task j⟩

end

/-! ### Schedules -/

theorem run_append (s : Server) (turns more : List Turn) :
    s.run (turns ++ more) = ((s.run turns).1 ++ ((s.run turns).2.run more).1, ((s.run turns).2.run more).2) := by
  induction turns generalizing s with
  | nil => rfl
  | cons t turns ih => simp only [List.cons_append, run, ih, List.append_assoc]

theorem run_concat (s : Server) (turns : List Turn) (t : Turn) :
    s.run (turns ++ [t]) = ((s.run turns).1 ++ ((s.run turns).2.turn t).1, ((s.run turns).2.turn t).2) := by
  rw [run_append]
  simp [run]

/-- Every reachable server serves the clients that have been accepted. -/
theorem serving_run {arrivals : List Arrival} (hnew : ∀ peer c, .client peer c ∈ arrivals → c.outcome? = none)
    (turns : List Turn) :
    ∃ clients, Serving arrivals clients ((listening arrivals).run turns).1 ((listening arrivals).run turns).2 := by
  induction turns using List.reverseRecOn with
  | nil => exact ⟨[], serving_listening arrivals⟩
  | append_singleton turns t ih =>
    obtain ⟨clients, h⟩ := ih
    rw [run_concat]
    exact h.turn hnew t

/-! ### The accept loop -/

/-- What the accept loop goes by. -/
def loop (s : Server) : List Arrival × Nat × Option Failure := (s.arrivals, s.tasks.length, s.failure)

theorem loop_accept {s t : Server} (h : s.loop = t.loop) : s.accept.2.loop = t.accept.2.loop := by
  obtain ⟨arrivals, tasks, failure⟩ := s
  obtain ⟨arrivals', tasks', failure'⟩ := t
  obtain ⟨rfl, hlength, rfl⟩ : arrivals = arrivals' ∧ tasks.length = tasks'.length ∧ failure = failure' := by
    simpa [loop] using h
  cases failure with
  | some failure => simp [accept, loop, hlength]
  | none => rcases arrivals with _ | ⟨⟨peer, c⟩ | fault, rest⟩ <;> simp [accept, loop, hlength]

/-- The loop does not look at the tasks. -/
theorem loop_task (s : Server) (j : Nat) : (s.turn (.task j)).2.loop = s.loop := by
  cases hj : s.tasks[j]? <;> simp [turn, hj, loop]

/-- The course of the accept loop is that of the loop alone. -/
theorem loop_run (s : Server) (turns : List Turn) :
    (s.run turns).2.loop = (s.run (turns.filter (· = .accept))).2.loop := by
  induction turns using List.reverseRecOn with
  | nil => rfl
  | append_singleton turns t ih =>
    rw [run_concat, List.filter_append]
    cases t with
    | accept =>
      rw [show [Turn.accept].filter (· = .accept) = [.accept] from rfl, run_concat]
      exact loop_accept ih
    | task j =>
      rw [show [Turn.task j].filter (· = .accept) = [] from rfl, List.append_nil, ← ih]
      exact loop_task _ j

/-! ### Progress -/

/-- A task keeps its place, and only its own turns move it. -/
theorem getElem?_tasks_turn {s : Server} {i : Nat} {task : Task} (h : s.tasks[i]? = some task) (t : Turn) :
    (s.turn t).2.tasks[i]? = some (if t = .task i then task.step.2 else task) := by
  have hlt := (List.getElem?_eq_some_iff.1 h).1
  cases t with
  | accept =>
    rw [if_neg (by simp)]
    change s.accept.2.tasks[i]? = some task
    unfold accept
    split
    · rwa [List.getElem?_append_left hlt]
    · exact h
    · exact h
  | task j =>
    by_cases hji : j = i
    · subst hji
      have hturn : (s.turn (.task j)).2.tasks = s.tasks.set j task.step.2 := by simp [turn, h]
      rw [hturn, List.getElem?_set_self hlt, if_pos rfl]
    · cases hj : s.tasks[j]? <;> simp [turn, hj, h, hji]

/-- A task ends once it has had enough turns, whoever else has turns between them. -/
theorem exists_finished {s : Server} {i : Nat} {task : Task} (h : s.tasks[i]? = some task) (turns : List Turn)
    (hturns : task.connection.outcome? ≠ none ∨ task.connection.remaining ≤ turns.count (.task i)) :
    ∃ task', (s.run turns).2.tasks[i]? = some task' ∧ task'.connection.outcome? ≠ none := by
  induction turns generalizing s task with
  | nil =>
    refine ⟨task, h, ?_⟩
    rcases hturns with hend | hzero
    · exact hend
    · intro hnone
      have hless := Connection.remaining_step_lt hnone
      simp at hzero
      omega
  | cons t turns ih =>
    refine ih (getElem?_tasks_turn h t) ?_
    by_cases hend : task.connection.outcome? = none
    · have henough := hturns.resolve_left (not_not_intro hend)
      by_cases ht : t = .task i
      · subst ht
        have hless := Connection.remaining_step_lt hend
        rw [List.count_cons_self] at henough
        rw [if_pos rfl, Task.step_of_unfinished hend]
        exact .inr (by simp only; omega)
      · rw [List.count_cons_of_ne ht] at henough
        rw [if_neg ht]
        exact .inr henough
    · -- a finished task makes no more steps
      obtain ⟨result, hresult⟩ := Option.ne_none_iff_exists'.1 hend
      have hstays : (if t = .task i then task.step.2 else task) = task := by
        rw [Task.step_of_finished hresult, ite_self]
      rw [hstays]
      exact .inl hend

/-- Whatever turns the loop and the tasks take, the clients that have been accepted are served by tasks of their own,
each as if it were alone, and each to the end if it gets enough turns.  The loop takes the course that it takes without
any tasks, and ends only at a failed accept. -/
theorem connections_isolated {arrivals : List Arrival}
    (hnew : ∀ peer c, .client peer c ∈ arrivals → c.outcome? = none) (turns : List Turn) :
    let records := ((listening arrivals).run turns).1
    let server := ((listening arrivals).run turns).2
    (∃ clients : List Task,
      Accepted arrivals clients server ∧ server.tasks.length = clients.length ∧
        (∀ r ∈ records, r.task < clients.length) ∧
        ∀ i client, clients[i]? = some client →
          ∃ task, server.tasks[i]? = some task ∧ Isolated client task (recordsOf i records) ∧
            ∀ more, task.connection.remaining ≤ more.count (.task i) →
              ∃ task', ((listening arrivals).run (turns ++ more)).2.tasks[i]? = some task' ∧
                task'.connection.outcome? ≠ none) ∧
      server.loop = ((listening arrivals).run (turns.filter (· = .accept))).2.loop ∧
      (∀ fault, (Failure.accept fault).message = "Failed to accept connection: ".toList ++ fault.text) ∧
      ∀ peer failure,
        (Log.Event.clientConnected peer).message = "Client connected: ".toList ++ peer ∧
        (Log.Event.connectionFailed peer failure).message =
          "Connection to ".toList ++ peer ++ " failed: ".toList ++ failure.message := by
  intro records server
  obtain ⟨clients, hserving⟩ := serving_run hnew turns
  refine ⟨⟨clients, hserving.accepted, hserving.length_tasks, hserving.task_lt, ?_⟩, loop_run _ turns,
    fun _ => rfl, fun _ _ => ⟨rfl, rfl⟩⟩
  intro i client hi
  obtain ⟨task, htask, hserves⟩ := hserving.serves i client hi
  refine ⟨task, htask, hserves.isolated, ?_⟩
  intro more henough
  rw [run_append]
  exact exists_finished htask more (.inr henough)

/-- Two clients by turns, one of whom resets its connection, up to the end of the loop. -/
theorem connections_isolated_of_reset :
    let arrivals : List Arrival := [.client "a".toList (.opened [.failed .resetByPeer] [] [] []),
      .client "b".toList (.opened [.notReady, .data [0x47, 0x20, 0x2F]] [.upTo 7, .notReady] [] []),
      .failed .invalidArgument]
    let turns := [.accept, .accept, .task 1, .task 0, .task 1, .accept, .task 1, .accept]
    let server := ((listening arrivals).run turns).2
    (∀ peer c, .client peer c ∈ arrivals → c.outcome? = none) ∧
      server.failure = some (.accept .invalidArgument) ∧
      ∃ clients, Accepted arrivals clients server ∧
        ∀ i client, clients[i]? = some client →
          ∃ task, server.tasks[i]? = some task ∧
            Isolated client task (recordsOf i ((listening arrivals).run turns).1) := by
  intro arrivals turns server
  have hnew : ∀ peer c, Arrival.client peer c ∈ arrivals → c.outcome? = none := by
    intro peer c h
    simp only [arrivals, List.mem_cons, List.not_mem_nil, or_false, Arrival.client.injEq, reduceCtorEq] at h
    rcases h with ⟨-, rfl⟩ | ⟨-, rfl⟩ <;> rfl
  obtain ⟨⟨clients, haccepted, -, -, hserved⟩, -⟩ := connections_isolated hnew turns
  refine ⟨hnew, by decide, clients, haccepted, ?_⟩
  intro i client hi
  obtain ⟨task, htask, hisolated, -⟩ := hserved i client hi
  exact ⟨task, htask, hisolated⟩

end Server

end RequestEcho
