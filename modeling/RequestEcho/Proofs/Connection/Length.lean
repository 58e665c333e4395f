import Mathlib.Algebra.Ring.Nat
import Mathlib.Data.List.Iterate
import RequestEcho.Proofs.Connection.FirstItem
import RequestEcho.Proofs.Connection.Protocol

/-!
# The length of a run

A run makes as many calls as there are bytes to send and late answers in its scripts, and a few more.

* A run is a finite number of steps (`exists_endsAfter`), each of which polls the reader or makes one call
  (`length_of_unfinished`).
* A poll that brings nothing takes a late read off the stream, so the polls are bounded by the late reads
  (`countP_visited_le`).
* `Phase.due` says how many calls of an operation follow at most while none is late, and `again` how many are added by
  the late ones: each is made again, and a late shutdown call has another flush before it (`Course.countP_le`).
* A late call takes a late answer off the script of its own operation (`late_step`), so a run has no more late calls
  than late answers (`count_notReady_run`).
* A transport that accepts nothing while something is unsent ends the run (`run_of_stalled`).
-/

namespace RequestEcho

/-- How many bytes an answer to a write call accepts at most. -/
def Acceptance.limit : Acceptance → Nat
  | upTo limit => limit
  | _ => 0

namespace Connection

/-! ### Steps -/

/-- The connections in which the first `n` steps are made. -/
def visited (c : Connection) (n : Nat) : List Connection := List.iterate (·.step.2) c n

/-- The run of a connection is its first `n` steps, and they lead it to its end. -/
structure EndsAfter (c : Connection) (n : Nat) (result : Option Failure) : Prop where
  unfinished : ∀ d ∈ c.visited n, d.outcome? = none
  occurrences_eq : c.run.1 = (c.visited n).flatMap (·.step.1)
  final_eq : c.run.2 = (fun d : Connection => d.step.2)^[n] c
  outcome_eq : c.run.2.outcome? = some result

theorem exists_endsAfter (c : Connection) : ∃ n result, EndsAfter c n result := by
  induction c using run.induct with
  | case1 c result h =>
    refine ⟨0, result, ?_, ?_, ?_, ?_⟩
    · intro d hd
      cases hd
    all_goals rw [run_of_outcome h]
    · rfl
    · rfl
    · exact h
  | case2 c h ih =>
    obtain ⟨n, result, hrest⟩ := ih
    refine ⟨n + 1, result, ?_, ?_, ?_, ?_⟩
    · intro d hd
      rcases List.mem_cons.1 hd with rfl | hd
      · exact h
      · exact hrest.unfinished d hd
    all_goals rw [run_of_step h]
    · rw [hrest.occurrences_eq]
      rfl
    · exact hrest.final_eq
    · exact hrest.outcome_eq

/-- Every step before the end either polls the reader or makes one call. -/
theorem length_of_unfinished {ds : List Connection} (h : ∀ d ∈ ds, d.outcome? = none) :
    ds.length = ds.countP (·.phase = .reading) + (calls (ds.flatMap (·.step.1))).length := by
  induction ds with
  | nil => rfl
  | cons d ds ih =>
    have hd := h d List.mem_cons_self
    have hrest := ih fun e he => h e (List.mem_cons_of_mem d he)
    rw [List.flatMap_cons, calls_append, List.length_append, List.length_cons, List.countP_cons, hrest]
    by_cases hr : d.phase = .reading
    · have hnone : calls d.step.1 = [] := by
        have hlogged := calls_logged (answer d.reader.poll.1).1 []
        rw [List.append_nil] at hlogged
        simp only [step, hr]
        exact hlogged
      simp only [hr, hnone, decide_true, if_true, List.length_nil]
      omega
    · obtain ⟨k, hk, -⟩ := step_transition hr hd
      have hone : (calls d.step.1).length = 1 := by rw [hk]; rfl
      simp only [hr, hone, decide_false, Bool.false_eq_true, if_false]
      omega

/-! ### Polls -/

/-- How often the reader is polled from here on at most. -/
def pollsDue (c : Connection) : Nat := if c.phase = .reading then c.reader.script.count .notReady + 1 else 0

theorem pollsDue_step (c : Connection) : [c].countP (·.phase = .reading) + c.step.2.pollsDue ≤ c.pollsDue := by
  by_cases hr : c.phase = .reading
  · by_cases hpoll : c.reader.poll.1 = .notReady
    · have hless : c.reader.poll.2.script.count .notReady < c.reader.script.count .notReady :=
        Reader.count_notReady_lt (by rw [← hpoll])
      simp only [pollsDue, step, hr, hpoll, answer, List.countP_singleton, decide_true, if_true]
      omega
    · have hphase : c.step.2.phase ≠ .reading := by
        simp only [step, hr]
        exact phase_answer_ne_reading hpoll
      simp only [pollsDue, hr, hphase, List.countP_singleton, decide_true, if_true, if_false]
      omega
  · have hphase := step_not_reading hr
    simp only [pollsDue, hr, hphase, List.countP_singleton, decide_false, Bool.false_eq_true, if_false]
    omega

theorem countP_visited_le (c : Connection) (n : Nat) : (c.visited n).countP (·.phase = .reading) ≤ c.pollsDue := by
  induction n generalizing c with
  | zero => exact Nat.zero_le _
  | succ n ih =>
    have hstep := c.pollsDue_step
    have hrest := ih c.step.2
    have hvisited : c.visited (n + 1) = [c] ++ c.step.2.visited n := rfl
    rw [hvisited, List.countP_append]
    omega

/-! ### Calls of a course -/

/-- How many calls of an operation are made from a phase on at most, if none of them is late. -/
def Phase.due : Phase → Operation → Nat
  | .sending unsent, .write => unsent.length
  | .sending _, .shutdown | .flushing, .shutdown | .closing, .shutdown | .shutting, .shutdown => 1
  | p, .flush => p.flushesOwed
  | _, _ => 0

/-- How many calls of an operation become due because others are late: a late call is made again, and a late shutdown
call has another flush before it. -/
def again (operation : Operation) (ks : List Call) : Nat :=
  ks.count (.notReady operation) + if operation = .flush then ks.count (.notReady .shutdown) else 0

theorem again_append (operation : Operation) (ks ks' : List Call) :
    again operation (ks ++ ks') = again operation ks + again operation ks' := by
  simp only [again, List.count_append]
  split <;> omega

/-- A call is one of those due, and what is due after it was due before or becomes due because the call is late. -/
theorem Transition.due_le {p q : Phase} {k : Call} (h : Transition p k q) (hp : p ≠ .sending [])
    (operation : Operation) :
    [k].countP (·.operation = operation) + q.due operation ≤ p.due operation + again operation [k] := by
  cases operation with
  | write =>
    -- a write that is not late takes a byte at least, or it is the last call and a byte is left to pay for it
    cases h with
    | wroteSome piece rest hpiece hrest =>
      have hpos := List.length_pos_iff.2 hpiece
      simp only [Phase.due, List.length_append]
      exact Nat.le_add_right_of_le (Nat.add_le_add_right hpos _)
    | wroteAll piece hpiece => exact List.length_pos_iff.2 hpiece
    | wroteNothing unsent => exact List.length_pos_iff.2 fun h => hp (by rw [h])
    | writeFailed unsent => exact List.length_pos_iff.2 fun h => hp (by rw [h])
    | writeNotReady unsent => exact Nat.le_of_eq (Nat.add_comm 1 _)
    | _ => exact Nat.le_refl 0
  | flush | shutdown => cases h <;> simp [Phase.due, Phase.flushesOwed, again, Call.operation]

/-- Once something is to be sent, no call leads to a phase that goes on sending nothing. -/
theorem Transition.ne_sending_nil {p q : Phase} {k : Call} (h : Transition p k q) (hp : p ≠ .sending []) :
    q ≠ .sending [] := by
  cases h with
  | wroteSome piece rest hpiece hrest => simpa using hrest
  | writeNotReady unsent => exact hp
  | _ => simp

theorem Course.countP_le {p : Phase} {ks : List Call} {result : Option Failure} (h : Course p ks result)
    (hp : p ≠ .sending []) (operation : Operation) :
    ks.countP (·.operation = operation) ≤ p.due operation + again operation ks := by
  induction h with
  | finished => exact Nat.zero_le _
  | @call p q k ks result first rest ih =>
    have hfirst := first.due_le hp operation
    have hrest := ih (first.ne_sending_nil hp)
    rw [← List.singleton_append, List.countP_append, again_append]
    omega

/-! ### Late answers -/

/-- How many answers to an operation say that it is not ready. -/
def late (c : Connection) : Operation → Nat
  | .write => c.writes.count .notReady
  | .flush => c.flushes.count .notReady
  | .shutdown => c.shutdowns.count .notReady

/-- A call that is late takes a late answer off the script of its operation; any other call leaves them all. -/
theorem late_step {c : Connection} {k : Call} (hr : c.phase ≠ .reading) (hk : c.step.1 = [.call k])
    (operation : Operation) : [k].count (.notReady operation) + c.step.2.late operation = c.late operation := by
  obtain ⟨phase, reader, writes, flushes, shutdowns⟩ := c
  cases phase with
  | reading => exact absurd rfl hr
  | sending unsent =>
    rcases writes with _ | ⟨_ | _ | fault, writes⟩ <;> cases hk <;>
      cases operation <;> simp [step, late, write, Nat.add_comm]
  | flushing | closing =>
    rcases flushes with _ | ⟨_ | _ | fault, flushes⟩ <;> cases hk <;>
      cases operation <;> simp [step, late, complete, Nat.add_comm]
  | shutting =>
    rcases shutdowns with _ | ⟨_ | _ | fault, shutdowns⟩ <;> cases hk <;>
      cases operation <;> simp [step, late, complete, Nat.add_comm]
  | finished failure => cases hk

/-- The late calls of a run are as many as the late answers that it takes off the script. -/
theorem count_notReady_run (c : Connection) (hr : c.phase ≠ .reading) (operation : Operation) :
    (calls c.run.1).count (.notReady operation) + c.run.2.late operation = c.late operation := by
  induction c using run.induct with
  | case1 c result h => rw [run_of_outcome h, calls_nil, List.count_nil, Nat.zero_add]
  | case2 c h ih =>
    obtain ⟨k, hk, ht⟩ := step_transition hr h
    have hstep := late_step hr hk operation
    have hrest := ih ht.not_reading
    rw [run_of_step h, hk]
    simp only [List.singleton_append, calls_call]
    rw [← List.singleton_append, List.count_append]
    omega

/-- A run past reading makes the calls that are due, and those that become due because the transport is late. -/
theorem countP_calls_run_le {c : Connection} (hr : c.phase ≠ .reading) (hs : c.phase ≠ .sending [])
    (operation : Operation) :
    (calls c.run.1).countP (·.operation = operation) ≤
      c.phase.due operation + (c.late operation + if operation = .flush then c.late .shutdown else 0) := by
  obtain ⟨ks, result, hks, -, hcourse⟩ := run_course c hr
  have hcalls : calls c.run.1 = ks := by rw [hks, calls_map_call]
  have hcount := hcourse.countP_le hs operation
  have hlate := count_notReady_run c hr
  rw [hcalls] at hlate ⊢
  have hagain : again operation ks ≤ c.late operation + if operation = .flush then c.late .shutdown else 0 := by
    have hoperation := hlate operation
    have hshutdown := hlate .shutdown
    unfold again
    split_ifs <;> omega
  omega

/-- The calls that it takes to send a response and to shut down. -/
theorem countP_calls_sending_le {response : Bytes} (hresponse : response ≠ []) (reader : Reader)
    (writes : List Acceptance) (flushes shutdowns : List Completion) :
    let ks := calls (run ⟨.sending response, reader, writes, flushes, shutdowns⟩).1
    ks.countP (·.operation = .write) ≤ response.length + writes.count .notReady ∧
      ks.countP (·.operation = .flush) ≤ 2 + flushes.count .notReady + shutdowns.count .notReady ∧
      ks.countP (·.operation = .shutdown) ≤ 1 + shutdowns.count .notReady := by
  intro ks
  have hcount := countP_calls_run_le (c := ⟨.sending response, reader, writes, flushes, shutdowns⟩) (by simp)
    (by simpa using hresponse)
  refine ⟨hcount .write, ?_, hcount .shutdown⟩
  rw [Nat.add_assoc]
  exact hcount .flush

/-! ### A transport that stops accepting -/

/-- An answer with too low a limit to take everything leaves the rest unsent, or is the end if it takes nothing. -/
theorem write_of_limit_lt {unsent : Bytes} {a : Acceptance} (ha : ∀ fault, a ≠ .failed fault)
    (hlimit : a.limit < unsent.length) :
    (write unsent a).2 = .finished (some (.write .noProgress)) ∨
      ∃ left, (write unsent a).2 = .sending left ∧ a.limit + left.length = unsent.length := by
  cases a with
  | upTo limit =>
    by_cases hpiece : unsent.take limit = []
    · left
      simp only [write, hpiece, if_true]
    · right
      have hlength : limit + (unsent.drop limit).length = unsent.length := by
        rw [List.length_drop]
        exact Nat.add_sub_of_le (Nat.le_of_lt hlimit)
      have hleft : unsent.drop limit ≠ [] := fun h => by
        rw [h] at hlength
        exact absurd hlength (Nat.ne_of_lt hlimit)
      refine ⟨unsent.drop limit, ?_, hlength⟩
      simp only [write, hpiece, hleft, if_false]
  | notReady => exact .inr ⟨unsent, rfl, Nat.zero_add _⟩
  | failed fault => exact absurd rfl (ha fault)

/-- A transport that accepts nothing, before it has accepted all the bytes, ends the run. -/
theorem run_of_stalled {before : List Acceptance} (hbefore : ∀ a ∈ before, ∀ fault, a ≠ .failed fault)
    {unsent : Bytes} (hlimit : (before.map (·.limit)).sum < unsent.length) (behind : List Acceptance) (reader : Reader)
    (flushes shutdowns : List Completion) :
    let run := (run ⟨.sending unsent, reader, before ++ .upTo 0 :: behind, flushes, shutdowns⟩)
    run.2.outcome? = some (some (.write .noProgress)) ∧ (calls run.1).length ≤ before.length + 1 := by
  intro run
  -- what the answers take is less than there is, so the bytes do not run out before a write accepts nothing
  induction before generalizing unsent with
  | nil =>
    have hstep : step ⟨.sending unsent, reader, .upTo 0 :: behind, flushes, shutdowns⟩ =
        ([.call (.wrote [])], ⟨.finished (some (.write .noProgress)), reader, behind, flushes, shutdowns⟩) := rfl
    simp only [run, List.nil_append]
    rw [run_of_step rfl, hstep, run_of_outcome rfl]
    exact ⟨rfl, Nat.le_refl 1⟩
  | cons a before ih =>
    have hrest := fun b hb => hbefore b (List.mem_cons_of_mem a hb)
    rw [List.map_cons, List.sum_cons] at hlimit
    have hless : a.limit < unsent.length := by omega
    have hstep : step ⟨.sending unsent, reader, a :: (before ++ .upTo 0 :: behind), flushes, shutdowns⟩ =
        ([.call (write unsent a).1],
          ⟨(write unsent a).2, reader, before ++ .upTo 0 :: behind, flushes, shutdowns⟩) := rfl
    simp only [run, List.cons_append]
    rw [run_of_step rfl, hstep]
    rcases write_of_limit_lt (hbefore a List.mem_cons_self) hless with hnext | ⟨left, hnext, hleft⟩
    · rw [hnext, run_of_outcome rfl]
      exact ⟨rfl, Nat.succ_le_succ (Nat.zero_le _)⟩
    · rw [hnext]
      have hunsent : (before.map (·.limit)).sum < left.length := by omega
      obtain ⟨houtcome, hlength⟩ := ih hrest hunsent
      exact ⟨houtcome, Nat.succ_le_succ hlength⟩

/-! ### The whole run -/

/-- Every run ends.  Each of its steps polls the reader or makes one call.  The reader is polled at most once more than
its stream is late.  Then a response is written in at most as many calls as it has bytes and writes are late, flushed at
most twice and once more for every late flush and every late shutdown, and shut down at most once and once more for
every late shutdown.  A transport that accepts nothing while something is unsent ends the run with this failure. -/
theorem run_ends_within (reads : List Delivery) (writes : List Acceptance) (flushes shutdowns : List Completion) :
    let c := opened reads writes flushes shutdowns
    ∃ n result, EndsAfter c n result ∧
      n = (c.visited n).countP (·.phase = .reading) + (calls c.run.1).length ∧
      (c.visited n).countP (·.phase = .reading) ≤ reads.count .notReady + 1 ∧
      match (Reader.ofScript reads).next.1 with
      | .notReady => False
      | .ended | .failed _ => calls c.run.1 = []
      | .chunk chunk =>
        let response := (Response.ofPath chunk.request.path).encode
        (calls c.run.1).countP (·.operation = .write) ≤ response.length + writes.count .notReady ∧
          (calls c.run.1).countP (·.operation = .flush) ≤
            2 + flushes.count .notReady + shutdowns.count .notReady ∧
          (calls c.run.1).countP (·.operation = .shutdown) ≤ 1 + shutdowns.count .notReady ∧
          ∀ before behind, writes = before ++ .upTo 0 :: behind →
            (∀ a ∈ before, ∀ fault, a ≠ .failed fault) → (before.map (·.limit)).sum < response.length →
            result = some (.write .noProgress) ∧ (calls c.run.1).length ≤ before.length + 1 := by
  intro c
  obtain ⟨n, result, hends⟩ := exists_endsAfter c
  have hsteps := length_of_unfinished hends.unfinished
  rw [← hends.occurrences_eq, visited, List.length_iterate] at hsteps
  have hpolls : (c.visited n).countP (·.phase = .reading) ≤ reads.count .notReady + 1 := countP_visited_le c n
  refine ⟨n, result, hends, hsteps, hpolls, ?_⟩
  obtain ⟨hoccurrences, houtcome, -, -⟩ := run_opened reads writes flushes shutdowns
  cases hitem : (Reader.ofScript reads).next.1 with
  | notReady => exact Reader.next_ne_notReady _ hitem
  | ended | failed fault =>
    rw [hoccurrences, hitem, calls_logged, run_of_outcome rfl]
    rfl
  | chunk chunk =>
    simp only [hitem, answer] at hoccurrences houtcome
    have hresult := hends.outcome_eq
    rw [houtcome] at hresult
    rw [hoccurrences, calls_logged]
    obtain ⟨hwrites, hflushes, hshutdowns⟩ :=
      countP_calls_sending_le (Response.encode_ne_nil _) _ writes flushes shutdowns
    refine ⟨hwrites, hflushes, hshutdowns, ?_⟩
    rintro before behind rfl hbefore hlimit
    obtain ⟨hstalled, hlength⟩ := run_of_stalled hbefore hlimit behind _ flushes shutdowns
    rw [hstalled] at hresult
    exact ⟨(Option.some.inj hresult).symm, hlength⟩

theorem run_ends_within_stalled :
    let c := opened [.notReady, .data [0x47, 0x20, 0x2F]] [.upTo 5, .notReady, .upTo 0, .upTo 0] [] []
    ∃ n, EndsAfter c n (some (.write .noProgress)) ∧ n ≤ 5 := by
  intro c
  have hnext : (Reader.ofScript [.notReady, .data [0x47, 0x20, 0x2F]]).next.1 =
      .chunk ⟨[0x47, 0x20, 0x2F], by decide⟩ := by
    rw [Reader.next_of_notReady rfl, Reader.next_of_ready (by decide)]
    rfl
  obtain ⟨n, result, hends, hsteps, hpolls, hrun⟩ :=
    run_ends_within [.notReady, .data [0x47, 0x20, 0x2F]] [.upTo 5, .notReady, .upTo 0, .upTo 0] [] []
  rw [hnext] at hrun
  obtain ⟨-, -, -, hstalled⟩ := hrun
  obtain ⟨rfl, hlength⟩ := hstalled [.upTo 5, .notReady] [.upTo 0] rfl (by simp) (by decide)
  have hlate : [Delivery.notReady, .data [0x47, 0x20, 0x2F]].count .notReady = 1 := by decide
  simp only [List.length_cons, List.length_nil] at hlength
  exact ⟨n, hends, by omega⟩

end Connection

end RequestEcho
