import RequestEcho.Connection

/-!
# The course of a connection

A run has two parts.  First the reader is polled until it has something to say (`run_of_reading`); what that is decides
what is logged and whether anything is sent.  From then on every step makes exactly one call of the writing side, and
`Transition` lists all that such a call can do.  So the rest of a run is a path of transitions that ends in a finished
phase, a `Course`, and what holds of all courses holds of all runs (`run_course`).
-/

namespace RequestEcho

namespace Connection

/-! ### Waiting for the first item -/

theorem run_of_outcome {c : Connection} {result : Option Failure} (h : c.outcome? = some result) :
    c.run = ([], c) := by
  rw [run]
  split
  · rfl
  · simp_all

theorem run_of_step {c : Connection} (h : c.outcome? = none) :
    c.run = (c.step.1 ++ c.step.2.run.1, c.step.2.run.2) := by
  rw [run]
  split
  · simp_all
  · rfl

theorem exists_outcome_run (c : Connection) : ∃ result, c.run.2.outcome? = some result := by
  induction c using run.induct with
  | case1 c result hend => exact ⟨result, by rw [run_of_outcome hend, hend]⟩
  | case2 c hend ih => rwa [run_of_step hend]

/-- The connection that has got the item `p` and goes on with the reader `r`. -/
def received (c : Connection) (p : Poll) (r : Reader) : Connection :=
  { c with phase := (answer p).2, reader := r }

/-- A run that begins by reading waits for the first item of the stream, answers it, and goes on from there. -/
theorem run_of_reading (c : Connection) (h : c.phase = .reading) :
    c.run = ((answer c.reader.next.1).1.map .log ++ (c.received c.reader.next.1 c.reader.next.2).run.1,
      (c.received c.reader.next.1 c.reader.next.2).run.2) := by
  obtain ⟨phase, reader, writes, flushes, shutdowns⟩ := c
  subst h
  -- the connection polls exactly as `Reader.next` does, and a poll that brings nothing leaves no trace
  induction reader using Reader.next.induct with
  | case1 r s hp ih =>
    have hstep : step ⟨.reading, r, writes, flushes, shutdowns⟩ = ([], ⟨.reading, s, writes, flushes, shutdowns⟩) := by
      simp [step, hp, answer]
    rw [run_of_step rfl, Reader.next_of_notReady hp, hstep, List.nil_append]
    exact ih
  | case2 r hp =>
    rw [run_of_step rfl, Reader.next_of_ready fun h => hp r.poll.2 (by rw [← h])]
    rfl

/-- A run whose first item is a chunk logs it and sends the response to it. -/
theorem run_of_chunk {reads : List Delivery} {c : Chunk} (h : (Reader.ofScript reads).next.1 = .chunk c)
    (writes : List Acceptance) (flushes shutdowns : List Completion) :
    let sending : Connection := ⟨.sending (Response.ofPath c.request.path).encode, (Reader.ofScript reads).next.2,
      writes, flushes, shutdowns⟩
    (opened reads writes flushes shutdowns).run = ((answer (.chunk c)).1.map .log ++ sending.run.1, sending.run.2) := by
  intro sending
  have hrun := run_of_reading (opened reads writes flushes shutdowns) rfl
  simp only [opened, received, h] at hrun
  exact hrun

/-! ### The calls of the writing side -/

/-- The operation of the transport that a call is about. -/
def Call.operation : Call → Operation
  | wrote _ => .write
  | flushed => .flush
  | shut => .shutdown
  | notReady operation => operation
  | failed operation => operation

/-- What one call can do: the phase before it, the call, and the phase after it. -/
inductive Transition : Phase → Call → Phase → Prop
  | wroteSome (piece rest : Bytes) (hpiece : piece ≠ []) (hrest : rest ≠ []) :
      Transition (.sending (piece ++ rest)) (.wrote piece) (.sending rest)
  | wroteAll (piece : Bytes) (hpiece : piece ≠ []) : Transition (.sending piece) (.wrote piece) .flushing
  | wroteNothing (unsent : Bytes) :
      Transition (.sending unsent) (.wrote []) (.finished (some (.write .noProgress)))
  | writeNotReady (unsent : Bytes) : Transition (.sending unsent) (.notReady .write) (.sending unsent)
  | writeFailed (unsent : Bytes) (fault : Fault) :
      Transition (.sending unsent) (.failed .write) (.finished (some (.write fault)))
  | flushed : Transition .flushing .flushed .closing
  | flushNotReady : Transition .flushing (.notReady .flush) .flushing
  | flushFailed (fault : Fault) : Transition .flushing (.failed .flush) (.finished (some (.write fault)))
  | flushedAgain : Transition .closing .flushed .shutting
  | closingNotReady : Transition .closing (.notReady .flush) .closing
  | closingFailed (fault : Fault) : Transition .closing (.failed .flush) (.finished (some (.write fault)))
  | shut : Transition .shutting .shut (.finished none)
  | shutNotReady : Transition .shutting (.notReady .shutdown) .closing
  | shutFailed (fault : Fault) : Transition .shutting (.failed .shutdown) (.finished (some (.write fault)))

private theorem write_transition (unsent : Bytes) (a : Acceptance) :
    Transition (.sending unsent) (write unsent a).1 (write unsent a).2 := by
  cases a with
  | upTo limit =>
    simp only [write]
    split
    · rename_i h
      rw [h]
      exact .wroteNothing unsent
    · rename_i hpiece
      split
      · rename_i hrest
        have hall : unsent.take limit = unsent := List.take_of_length_le (List.drop_eq_nil_iff.1 hrest)
        rw [hall] at hpiece ⊢
        exact .wroteAll unsent hpiece
      · rename_i hrest
        have := Transition.wroteSome _ _ hpiece hrest
        rwa [List.take_append_drop] at this
  | notReady => exact .writeNotReady unsent
  | failed fault => exact .writeFailed unsent fault

/-- Past reading and before its end, every step of a connection makes one call, which is a transition. -/
theorem step_transition {c : Connection} (hr : c.phase ≠ .reading) (h : c.outcome? = none) :
    ∃ k, c.step.1 = [.call k] ∧ Transition c.phase k c.step.2.phase := by
  obtain ⟨phase, reader, writes, flushes, shutdowns⟩ := c
  cases phase with
  | reading => exact absurd rfl hr
  | sending unsent => exact ⟨_, rfl, write_transition unsent _⟩
  | flushing =>
    refine ⟨_, rfl, ?_⟩
    simp only [step]
    cases flushes.headD .done with
    | done => exact .flushed
    | notReady => exact .flushNotReady
    | failed fault => exact .flushFailed fault
  | closing =>
    refine ⟨_, rfl, ?_⟩
    simp only [step]
    cases flushes.headD .done with
    | done => exact .flushedAgain
    | notReady => exact .closingNotReady
    | failed fault => exact .closingFailed fault
  | shutting =>
    refine ⟨_, rfl, ?_⟩
    simp only [step]
    cases shutdowns.headD .done with
    | done => exact .shut
    | notReady => exact .shutNotReady
    | failed fault => exact .shutFailed fault
  | finished failure => simp [outcome?] at h

theorem Transition.not_reading {p q : Phase} {k : Call} (h : Transition p k q) : q ≠ .reading := by
  cases h <;> simp

theorem step_not_reading {c : Connection} (hr : c.phase ≠ .reading) : c.step.2.phase ≠ .reading := by
  cases h : c.outcome? with
  | none =>
    obtain ⟨k, -, ht⟩ := step_transition hr h
    exact ht.not_reading
  | some result =>
    obtain ⟨phase, reader, writes, flushes, shutdowns⟩ := c
    cases phase with
    | finished failure => exact hr
    | _ => cases h

/-- Past reading, the reader is neither asked nor changed. -/
theorem run_withReader (c : Connection) (hr : c.phase ≠ .reading) (reader : Reader) :
    { c with reader }.run = (c.run.1, { c.run.2 with reader }) := by
  induction c using run.induct with
  | case1 c result h => rw [run_of_outcome h, run_of_outcome (show outcome? { c with reader } = some result from h)]
  | case2 c h ih =>
    have hstep : step { c with reader } = (c.step.1, { c.step.2 with reader }) := by
      obtain ⟨phase, r, writes, flushes, shutdowns⟩ := c
      cases phase with
      | reading => exact absurd rfl hr
      | _ => rfl
    obtain ⟨k, -, ht⟩ := step_transition hr h
    rw [run_of_step h, run_of_step (show outcome? { c with reader } = none from h), hstep, ih ht.not_reading]

/-! ### Courses -/

/-- The calls that lead from a phase to the end, and the failure there, if any. -/
inductive Course : Phase → List Call → Option Failure → Prop
  | finished (failure : Option Failure) : Course (.finished failure) [] failure
  | call {p q : Phase} {k : Call} {ks : List Call} {result : Option Failure} (first : Transition p k q)
      (rest : Course q ks result) : Course p (k :: ks) result

/-- Past reading, a run is a course, and it comes to an end. -/
theorem run_course (c : Connection) (hr : c.phase ≠ .reading) :
    ∃ ks result, c.run.1 = ks.map .call ∧ c.run.2.outcome? = some result ∧ Course c.phase ks result := by
  induction c using run.induct with
  | case1 c result h =>
    have hphase : c.phase = .finished result := by
      unfold outcome? at h
      split at h <;> simp_all
    rw [run_of_outcome h, hphase]
    exact ⟨[], result, rfl, h, .finished result⟩
  | case2 c h ih =>
    obtain ⟨k, hk, ht⟩ := step_transition hr h
    obtain ⟨ks, result, hks, hresult, hcourse⟩ := ih ht.not_reading
    rw [run_of_step h, hk]
    exact ⟨k :: ks, result, by simp [hks], hresult, .call ht hcourse⟩

end Connection

end RequestEcho
