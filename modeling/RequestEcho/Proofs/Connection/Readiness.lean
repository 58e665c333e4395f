import RequestEcho.Proofs.Connection.Delivery
import RequestEcho.Proofs.Reader.Readiness

/-!
# Waiting leaves no trace in a connection

A connection whose transport is never late does what the connection does that has to wait, without the waiting.

* A call that is not ready is a step of the late connection alone, and every other call is a step of both
  (`step_prompt`), so the runs differ in those calls only (`run_prompt`).
* A late shutdown call is different, because a flush is made again before the next one.  While no flush is refused, the
  two calls together have no effect (`step_settled`), and the runs come to the same (`run_settled`).
-/

namespace RequestEcho

namespace Connection

/-! ### Effects -/

def logs (os : List Occurrence) : List Log.Event := os.filterMap (·.log?)

/-- Two runs come to the same: they have the same outcome, send the same bytes, log the same events, and leave the same
items to be read. -/
structure SameEffect (r s : List Occurrence × Connection) : Prop where
  outcome_eq : r.2.outcome? = s.2.outcome?
  output_eq : output r.1 = output s.1
  logs_eq : logs r.1 = logs s.1
  items_eq : ∀ limit, Reader.items limit r.2.reader = Reader.items limit s.2.reader

namespace SameEffect

variable {r s t : List Occurrence × Connection}

theorem symm (h : SameEffect r s) : SameEffect s r :=
  ⟨h.outcome_eq.symm, h.output_eq.symm, h.logs_eq.symm, fun limit => (h.items_eq limit).symm⟩

theorem trans (h : SameEffect r s) (h' : SameEffect s t) : SameEffect r t :=
  ⟨h.outcome_eq.trans h'.outcome_eq, h.output_eq.trans h'.output_eq, h.logs_eq.trans h'.logs_eq,
    fun limit => (h.items_eq limit).trans (h'.items_eq limit)⟩

theorem append (os : List Occurrence) (h : SameEffect r s) : SameEffect (os ++ r.1, r.2) (os ++ s.1, s.2) := by
  refine ⟨h.outcome_eq, ?_, ?_, h.items_eq⟩
  · simp only [output, List.flatMap_append]
    exact congrArg (_ ++ ·) h.output_eq
  · simp only [logs, List.filterMap_append]
    exact congrArg (_ ++ ·) h.logs_eq

/-- A call other than a write that accepts bytes has no effect of its own. -/
theorem cons {k : Call} (hk : (Occurrence.call k).accepted = []) (r : List Occurrence × Connection) :
    SameEffect (.call k :: r.1, r.2) r := by
  refine ⟨rfl, ?_, rfl, fun _ => rfl⟩
  rw [output_cons, hk]
  rfl

end SameEffect

/-! ### A transport that is never late -/

/-- The calls that are made also when writes and flushes are never late. -/
def Call.stays (k : Call) : Bool := k ≠ .notReady .write ∧ k ≠ .notReady .flush

def Occurrence.stays : Occurrence → Bool
  | call k => k.stays
  | log _ => true

theorem calls_filter_stays (os : List Occurrence) : calls (os.filter (·.stays)) = (calls os).filter (·.stays) := by
  induction os with
  | nil => rfl
  | cons o os ih =>
    cases o with
    | log e => exact ih
    | call k =>
      have hk : (Occurrence.call k).stays = k.stays := rfl
      rw [calls_call, List.filter_cons, List.filter_cons, hk]
      split
      · rw [calls_call, ih]
      · exact ih

/-- The occurrences that do not stay accept no bytes. -/
theorem output_filter_stays (os : List Occurrence) : output (os.filter (·.stays)) = output os := by
  induction os with
  | nil => rfl
  | cons o os ih =>
    rw [List.filter_cons, output_cons]
    split
    · rw [output_cons, ih]
    · have ho : o.accepted = [] := by
        cases o with
        | log e => rfl
        | call k => cases k <;> simp_all [Occurrence.stays, Call.stays, Occurrence.accepted]
      rw [ho, ih]
      rfl

theorem logs_filter_stays (os : List Occurrence) : logs (os.filter (·.stays)) = logs os := by
  unfold logs
  rw [List.filterMap_filter]
  refine congrArg (List.filterMap · os) (funext fun o => ?_)
  cases o with
  | log e => rfl
  | call k => exact ite_self none

theorem filter_stays_logged (es : List Log.Event) :
    (es.map Occurrence.log).filter (·.stays) = es.map Occurrence.log := by
  rw [List.filter_eq_self]
  intro o ho
  obtain ⟨e, -, rfl⟩ := List.mem_map.1 ho
  rfl

/-- The same connection with reads, writes and flushes that are never late. -/
def prompt (c : Connection) : Connection :=
  { c with
    reader := c.reader.prompt
    writes := c.writes.filter (· ≠ .notReady)
    flushes := c.flushes.filter (· ≠ .notReady) }

/-- A step either waits, and then the prompt connection makes none, or is a step of both. -/
theorem step_prompt {c : Connection} (h : c.outcome? = none) :
    (c.step.2.prompt = c.prompt ∧ c.step.1.filter (·.stays) = []) ∨
      (c.prompt.step = (c.step.1, c.step.2.prompt) ∧ c.step.1.filter (·.stays) = c.step.1) := by
  obtain ⟨phase, reader, writes, flushes, shutdowns⟩ := c
  cases phase with
  | reading =>
    by_cases hpoll : reader.poll.1 = .notReady
    · have hreader : reader.poll.2.prompt = reader.prompt := Reader.prompt_of_notReady (by rw [← hpoll])
      refine .inl ⟨?_, ?_⟩
      · simp only [step, prompt, hpoll, hreader, answer]
      · simp only [step, hpoll, answer]
        rfl
    · refine .inr ⟨?_, filter_stays_logged _⟩
      simp only [step, prompt, Reader.poll_prompt hpoll]
  | sending unsent =>
    rcases writes with _ | ⟨_ | _ | fault, writes⟩
    · exact .inr ⟨rfl, rfl⟩
    · exact .inr ⟨rfl, rfl⟩
    · exact .inl ⟨rfl, rfl⟩
    · exact .inr ⟨rfl, rfl⟩
  | flushing | closing =>
    rcases flushes with _ | ⟨_ | _ | fault, flushes⟩
    · exact .inr ⟨rfl, rfl⟩
    · exact .inr ⟨rfl, rfl⟩
    · exact .inl ⟨rfl, rfl⟩
    · exact .inr ⟨rfl, rfl⟩
  | shutting =>
    refine .inr ⟨rfl, ?_⟩
    rcases shutdowns with _ | ⟨_ | _ | fault, shutdowns⟩ <;> rfl
  | finished failure => cases h

theorem run_prompt (c : Connection) : c.prompt.run = (c.run.1.filter (·.stays), c.run.2.prompt) := by
  induction c using run.induct with
  | case1 c result h =>
    rw [run_of_outcome h, run_of_outcome (show c.prompt.outcome? = some result from h)]
    rfl
  | case2 c h ih =>
    rw [run_of_step h, List.filter_append]
    rcases step_prompt h with ⟨hsame, hwaits⟩ | ⟨hstep, hstays⟩
    · rw [hwaits, List.nil_append, ← ih, hsame]
    · rw [run_of_step (show c.prompt.outcome? = none from h), hstep, hstays, ih]

theorem sameEffect_prompt (c : Connection) : SameEffect c.run c.prompt.run := by
  rw [run_prompt]
  exact ⟨rfl, (output_filter_stays _).symm, (logs_filter_stays _).symm,
    fun limit => (Reader.items_prompt limit _).symm⟩

/-! ### Shutdown calls that are never late -/

/-- The same connection with flushes that succeed at once and shutdown calls that are never late. -/
def settled (c : Connection) : Connection :=
  { c with flushes := [], shutdowns := c.shutdowns.filter (· ≠ .notReady) }

theorem mem_flushes_of_step {c : Connection} {f : Completion} (h : f ∈ c.step.2.flushes) : f ∈ c.flushes := by
  obtain ⟨phase, reader, writes, flushes, shutdowns⟩ := c
  cases phase with
  | flushing | closing => exact List.mem_of_mem_tail h
  | _ => exact h

/-- While every flush succeeds, a step is also one of the settled connection, or it is a shutdown call that is not
ready: then the settled connection is where it was, but for another flush. -/
theorem step_settled {c : Connection} (h : c.outcome? = none) (hf : ∀ f ∈ c.flushes, f = .done) :
    c.settled.step = (c.step.1, c.step.2.settled) ∨
      (c.step.1 = [.call (.notReady .shutdown)] ∧ c.step.2.outcome? = none ∧
        c.step.2.settled.step = ([.call .flushed], c.settled)) := by
  obtain ⟨phase, reader, writes, flushes, shutdowns⟩ := c
  cases phase with
  | reading | sending => exact .inl rfl
  | flushing | closing =>
    left
    cases flushes with
    | nil => rfl
    | cons f flushes =>
      obtain rfl := hf f List.mem_cons_self
      rfl
  | shutting =>
    rcases shutdowns with _ | ⟨_ | _ | fault, shutdowns⟩
    · exact .inl rfl
    · exact .inl rfl
    · exact .inr ⟨rfl, rfl, rfl⟩
    · exact .inl rfl
  | finished failure => cases h

theorem run_settled (c : Connection) (hf : ∀ f ∈ c.flushes, f = .done) : SameEffect c.run c.settled.run := by
  induction c using run.induct with
  | case1 c result h =>
    rw [run_of_outcome h, run_of_outcome (show c.settled.outcome? = some result from h)]
    exact ⟨rfl, rfl, rfl, fun _ => rfl⟩
  | case2 c h ih =>
    have hrest := ih fun f hmem => hf f (mem_flushes_of_step hmem)
    rw [run_of_step h]
    rcases step_settled h hf with hstep | ⟨hwaits, hgoes, hflush⟩
    · rw [run_of_step (show c.settled.outcome? = none from h), hstep]
      exact hrest.append c.step.1
    · -- the late shutdown call and the flush after it are two calls without an effect
      rw [run_of_step (show c.step.2.settled.outcome? = none from hgoes), hflush] at hrest
      rw [hwaits]
      exact ((SameEffect.cons rfl _).trans hrest).trans (SameEffect.cons rfl _)

/-- Among connections whose flushes all succeed, those that settle alike come to the same. -/
theorem sameEffect_of_settled_eq {c d : Connection} (hc : ∀ f ∈ c.flushes, f = .done)
    (hd : ∀ f ∈ d.flushes, f = .done) (h : c.settled = d.settled) : SameEffect c.run d.run := by
  have hsettled := run_settled c hc
  rw [h] at hsettled
  exact hsettled.trans (run_settled d hd).symm

/-! ### The scripts without what is late -/

/-- Reads, writes and flushes that are never late come to the same as those that are, by the same calls but for the
waiting.  So do shutdown calls that are never late if no flush is refused.  And the results of polling a reader are, but
for the waiting, the first results of polling it when its stream is never late. -/
theorem run_without_waiting (reads : List Delivery) (writes : List Acceptance)
    (flushes shutdowns : List Completion) :
    let run := (opened reads writes flushes shutdowns).run
    let opened' := opened (reads.filter (· ≠ .notReady)) (writes.filter (· ≠ .notReady))
      (flushes.filter (· ≠ .notReady))
    (SameEffect run (opened' shutdowns).run ∧
      calls (opened' shutdowns).run.1 =
        (calls run.1).filter fun k => k ≠ .notReady .write ∧ k ≠ .notReady .flush) ∧
    ((∀ fault, .failed fault ∉ flushes) →
      SameEffect run (opened' (shutdowns.filter (· ≠ .notReady))).run) ∧
    ∀ n, (Reader.polls n (Reader.ofScript reads)).filter (· ≠ .notReady) <+:
      Reader.polls n (Reader.ofScript (reads.filter (· ≠ .notReady))) := by
  intro run opened'
  have hprompt : opened' shutdowns = (opened reads writes flushes shutdowns).prompt := rfl
  have hsame : SameEffect run (opened' shutdowns).run := hprompt ▸ sameEffect_prompt _
  refine ⟨⟨hsame, ?_⟩, ?_, ?_⟩
  · rw [hprompt, run_prompt]
    exact calls_filter_stays run.1
  · intro hflushes
    have hdone : ∀ f ∈ flushes.filter (· ≠ .notReady), f = .done := by
      intro f hmem
      obtain ⟨hmem, hf⟩ := List.mem_filter.1 hmem
      cases f with
      | done => rfl
      | notReady => simp at hf
      | failed fault => exact absurd hmem (hflushes fault)
    have hsettled : (opened' shutdowns).settled = (opened' (shutdowns.filter (· ≠ .notReady))).settled := by
      simp [settled, opened', opened]
    exact hsame.trans (sameEffect_of_settled_eq hdone hdone hsettled)
  · intro n
    rw [← Reader.prompt_ofScript]
    exact Reader.filter_polls_prefix n _

end Connection

end RequestEcho
