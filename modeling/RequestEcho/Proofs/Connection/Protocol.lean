import RequestEcho.Proofs.Connection.Delivery

/-!
# The protocol of the writing side

The calls that a connection makes to answer a request are a word of a small grammar: the writes (`Writes`), one flush
(`Flush`), and rounds of a flush and a shutdown call, of which the last succeeds (`Closing`).  Where a call faults
instead, the word breaks off with it (`BreaksOff`).

* Every phase has its own language, to which every transition adds one letter in front or breaks it off
  (`Transition.words`).  So a course that succeeds is a word of its first phase, and one that fails is a word broken off
  (`Course.speaks`).
* What comes before a shutdown call, and which calls are last, is read off the transitions in the same way
  (`Course.before_shutdown`, `Course.final`, `Course.exists_last`).
* The failure of a run is the answer to its last call (`run_of_failed`), because every call uses up one answer to its
  own operation (`fault?_step`).
-/

namespace RequestEcho

namespace Connection

/-! ### The grammar -/

/-- Writes, and writes that are not ready, until all the bytes are accepted. -/
inductive Writes : Bytes → List Call → Prop
  | last {piece : Bytes} (h : piece ≠ []) : Writes piece [.wrote piece]
  | wrote {piece rest : Bytes} {ks : List Call} (h : piece ≠ []) (more : Writes rest ks) :
      Writes (piece ++ rest) (.wrote piece :: ks)
  | notReady {unsent : Bytes} {ks : List Call} (more : Writes unsent ks) : Writes unsent (.notReady .write :: ks)

/-- Flushes that are not ready, and one that succeeds. -/
inductive Flush : List Call → Prop
  | done : Flush [.flushed]
  | notReady {ks : List Call} (more : Flush ks) : Flush (.notReady .flush :: ks)

/-- Rounds of a flush and a shutdown call, until a shutdown call is ready and succeeds. -/
inductive Closing : List Call → Prop
  | last {fs : List Call} (flush : Flush fs) : Closing (fs ++ [.shut])
  | again {fs ks : List Call} (flush : Flush fs) (more : Closing ks) : Closing (fs ++ .notReady .shutdown :: ks)

/-- A flush, and the closing rounds. -/
inductive Finishing : List Call → Prop
  | mk {fs ks : List Call} (flush : Flush fs) (closing : Closing ks) : Finishing (fs ++ ks)

/-- All that is done to answer with a response: it is written, and the connection is finished. -/
inductive Complete (response : Bytes) : List Call → Prop
  | mk {ws ks : List Call} (writes : Writes response ws) (finishing : Finishing ks) : Complete response (ws ++ ks)

/-- A call that fails, or a write that accepts none of the bytes offered. -/
def Call.IsFault (k : Call) : Prop := (∃ operation, k = .failed operation) ∨ k = .wrote []

/-- A word that ends with a fault of the operation with which it would have gone on. -/
def BreaksOff (Language : List Call → Prop) (ks : List Call) : Prop :=
  ∃ sofar k meant more,
    ks = sofar ++ [k] ∧ k.IsFault ∧ k.operation = meant.operation ∧ Language (sofar ++ meant :: more)

/-- A word that ends well, or that breaks off with a failure. -/
def Speaks (Language : List Call → Prop) (ks : List Call) : Option Failure → Prop
  | none => Language ks
  | some _ => BreaksOff Language ks

/-! ### The languages of the phases -/

/-- The words that lead from a phase to success. -/
def Phase.Words : Phase → List Call → Prop
  | .sending unsent => Complete unsent
  | .flushing => Finishing
  | .closing => Closing
  | .shutting => fun ks => ks = [.shut] ∨ ∃ more, ks = .notReady .shutdown :: more ∧ Closing more
  | .finished none => (· = [])
  | _ => fun _ => False

theorem Speaks.cons {L L' : List Call → Prop} {k : Call} {ks : List Call} {result : Option Failure}
    (hcons : ∀ ks, L' ks → L (k :: ks)) (h : Speaks L' ks result) : Speaks L (k :: ks) result := by
  cases result with
  | none => exact hcons ks h
  | some failure =>
    obtain ⟨sofar, fault, meant, more, rfl, hfault, hoperation, hword⟩ := h
    exact ⟨k :: sofar, fault, meant, more, rfl, hfault, hoperation, hcons _ hword⟩

theorem Closing.notReady {ks : List Call} (h : Closing ks) : Closing (.notReady .flush :: ks) := by
  cases h with
  | last flush => exact .last (.notReady flush)
  | again flush more => exact .again (.notReady flush) more

theorem Closing.flushed {ks : List Call} (h : Phase.shutting.Words ks) : Closing (.flushed :: ks) := by
  rcases h with rfl | ⟨more, rfl, hmore⟩
  · exact .last .done
  · exact .again .done hmore

theorem Finishing.notReady {ks : List Call} (h : Finishing ks) : Finishing (.notReady .flush :: ks) := by
  cases h with
  | mk flush closing => exact .mk (.notReady flush) closing

theorem Complete.wrote {piece rest : Bytes} {ks : List Call} (hpiece : piece ≠ []) (h : Complete rest ks) :
    Complete (piece ++ rest) (.wrote piece :: ks) := by
  cases h with
  | mk writes finishing => exact .mk (.wrote hpiece writes) finishing

theorem Complete.notReady {unsent : Bytes} {ks : List Call} (h : Complete unsent ks) :
    Complete unsent (.notReady .write :: ks) := by
  cases h with
  | mk writes finishing => exact .mk (.notReady writes) finishing

theorem words_closing : Closing [.flushed, .shut] := .last .done

theorem words_flushing : Finishing [.flushed, .flushed, .shut] := .mk .done words_closing

theorem words_sending {unsent : Bytes} (h : unsent ≠ []) : Complete unsent [.wrote unsent, .flushed, .flushed, .shut] :=
  .mk (.last h) words_flushing

theorem Complete.ne_nil {unsent : Bytes} {ks : List Call} (h : Complete unsent ks) : unsent ≠ [] := by
  obtain ⟨writes, -⟩ := h
  induction writes with
  | last h => exact h
  | wrote h more ih => exact List.append_ne_nil_of_left_ne_nil h _
  | notReady more ih => exact ih

/-- A call in a phase that can end well either begins a word of it or faults. -/
theorem Transition.words {p q : Phase} {k : Call} (h : Transition p k q) (hp : ∃ ks, p.Words ks) :
    ((∃ ks, q.Words ks) ∧ ∀ ks, q.Words ks → p.Words (k :: ks)) ∨
      (k.IsFault ∧ (∃ failure, q = .finished (some failure)) ∧
        ∃ meant more, p.Words (meant :: more) ∧ k.operation = meant.operation) := by
  cases h with
  | wroteSome piece rest hpiece hrest => exact .inl ⟨⟨_, words_sending hrest⟩, fun ks => .wrote hpiece⟩
  | wroteAll piece hpiece => exact .inl ⟨⟨_, words_flushing⟩, fun ks => .mk (.last hpiece)⟩
  | wroteNothing unsent =>
    obtain ⟨ks, hks⟩ := hp
    exact .inr ⟨.inr rfl, ⟨_, rfl⟩, _, _, words_sending hks.ne_nil, rfl⟩
  | writeNotReady unsent => exact .inl ⟨hp, fun ks => .notReady⟩
  | writeFailed unsent fault =>
    obtain ⟨ks, hks⟩ := hp
    exact .inr ⟨.inl ⟨_, rfl⟩, ⟨_, rfl⟩, _, _, words_sending hks.ne_nil, rfl⟩
  | flushed => exact .inl ⟨⟨_, words_closing⟩, fun ks => .mk .done⟩
  | flushNotReady => exact .inl ⟨hp, fun ks => .notReady⟩
  | flushFailed fault => exact .inr ⟨.inl ⟨_, rfl⟩, ⟨_, rfl⟩, _, _, words_flushing, rfl⟩
  | flushedAgain => exact .inl ⟨⟨_, .inl rfl⟩, fun ks => .flushed⟩
  | closingNotReady => exact .inl ⟨hp, fun ks => .notReady⟩
  | closingFailed fault => exact .inr ⟨.inl ⟨_, rfl⟩, ⟨_, rfl⟩, _, _, words_closing, rfl⟩
  | shut => exact .inl ⟨⟨_, rfl⟩, fun ks hks => .inl (by rw [show ks = [] from hks])⟩
  | shutNotReady => exact .inl ⟨⟨_, words_closing⟩, fun ks hks => .inr ⟨ks, rfl, hks⟩⟩
  | shutFailed fault => exact .inr ⟨.inl ⟨_, rfl⟩, ⟨_, rfl⟩, _, _, .inl rfl, rfl⟩

/-- A course from a phase that can end well is a word of it, or breaks one off. -/
theorem Course.speaks {p : Phase} {ks : List Call} {result : Option Failure} (h : Course p ks result)
    (hp : ∃ ks, p.Words ks) : Speaks p.Words ks result := by
  induction h with
  | finished failure =>
    cases failure with
    | none => rfl
    | some failure =>
      obtain ⟨ks, hks⟩ := hp
      cases hks
  | call first rest ih =>
    rcases first.words hp with ⟨hq, hcons⟩ | ⟨hfault, ⟨failure, rfl⟩, meant, more, hword, hoperation⟩
    · exact (ih hq).cons hcons
    · obtain ⟨rfl, rfl⟩ := rest.of_finished
      exact ⟨[], _, meant, more, rfl, hfault, hoperation, hword⟩

/-! ### Order of the calls -/

/-- The operation that is called in a phase. -/
def Phase.operation? : Phase → Option Operation
  | .sending _ => some .write
  | .flushing => some .flush
  | .closing => some .flush
  | .shutting => some .shutdown
  | _ => none

theorem Transition.operation_eq {p q : Phase} {k : Call} (h : Transition p k q) :
    p.operation? = some k.operation := by
  cases h <;> rfl

/-- No write follows a call of another kind. -/
theorem Course.writes_first {p : Phase} {ks : List Call} {result : Option Failure} (h : Course p ks result) :
    ks.Pairwise fun k later => later.operation = .write → k.operation = .write := by
  induction h with
  | finished => exact .nil
  | @call p q k ks result first rest ih =>
    refine .cons ?_ ih
    intro later hlater hwrite
    have hk := first.operation_eq
    cases p with
    | sending unsent => exact (Option.some.inj hk).symm
    | _ => exact absurd hwrite (rest.operation_ne_write (first.operation_ne_write (by simp)).2 later hlater)

/-- How many flushes must succeed before a shutdown call is made. -/
def Phase.flushesOwed : Phase → Nat
  | .sending _ => 2
  | .flushing => 2
  | .closing => 1
  | _ => 0

/-- Only a successful flush pays for what is owed, and only it leads to a shutdown call. -/
theorem Transition.flushesOwed_le {p q : Phase} {k : Call} (h : Transition p k q)
    (hq : ∀ result, q ≠ .finished result) :
    p.flushesOwed ≤ q.flushesOwed + [k].count .flushed ∧ (q = .shutting → k = .flushed) := by
  cases h <;> simp_all [Phase.flushesOwed]

/-- The call before a shutdown call is a successful flush, and all the flushes owed have been made by then. -/
theorem Course.before_shutdown {p : Phase} {ks : List Call} {result : Option Failure} (h : Course p ks result)
    {sofar : List Call} {k : Call} {more : List Call} (hks : ks = sofar ++ k :: more) (hk : k.operation = .shutdown) :
    (sofar.getLast? = some .flushed ∨ (sofar = [] ∧ p = .shutting)) ∧ p.flushesOwed ≤ sofar.count .flushed := by
  induction h generalizing sofar with
  | finished => simp at hks
  | @call p q j ks result first rest ih =>
    cases sofar with
    | nil =>
      -- the shutdown call is the first one, so the phase is the one that makes it
      obtain ⟨rfl, -⟩ := List.cons.inj hks
      have hp : p = .shutting := by
        have hoperation := first.operation_eq
        rw [hk] at hoperation
        cases p <;> simp_all [Phase.operation?]
      rw [hp]
      exact ⟨.inr ⟨rfl, rfl⟩, Nat.le_refl _⟩
    | cons i sofar =>
      obtain ⟨rfl, hrest⟩ := List.cons.inj hks
      have hq : ∀ result, q ≠ .finished result := by
        rintro result rfl
        simp [rest.of_finished.1] at hrest
      obtain ⟨hlast, hcount⟩ := ih hrest
      obtain ⟨howed, hflushed⟩ := first.flushesOwed_le hq
      refine ⟨.inl ?_, ?_⟩
      · rw [List.getLast?_cons]
        rcases hlast with hlast | ⟨rfl, hshutting⟩
        · rw [hlast]
          rfl
        · rw [hflushed hshutting]
          rfl
      · rw [← List.singleton_append, List.count_append]
        omega

/-! ### The last call -/

/-- What a last call is, and how it makes the course end. -/
inductive Call.Ends : Call → Option Failure → Prop
  | shut : Ends .shut none
  | wroteNothing : Ends (.wrote []) (some (.write .noProgress))
  | failed (operation : Operation) (fault : Fault) : Ends (.failed operation) (some (.write fault))

theorem Transition.ends {p : Phase} {k : Call} {result : Option Failure} (h : Transition p k (.finished result)) :
    k.Ends result := by
  cases h with
  | wroteNothing unsent => exact .wroteNothing
  | shut => exact .shut
  | writeFailed _ fault | flushFailed fault | closingFailed fault | shutFailed fault => exact .failed _ fault

/-- A successful shutdown and a fault end the course wherever they occur. -/
theorem Transition.finished_of_final {p q : Phase} {k : Call} (h : Transition p k q) (hk : k.IsFault ∨ k = .shut) :
    ∃ result, q = .finished result := by
  cases h <;> simp_all [Call.IsFault]

theorem Course.final {p : Phase} {ks : List Call} {result : Option Failure} (h : Course p ks result)
    {sofar : List Call} {k : Call} {more : List Call} (hks : ks = sofar ++ k :: more) (hk : k.IsFault ∨ k = .shut) :
    more = [] := by
  induction h generalizing sofar with
  | finished => simp at hks
  | call first rest ih =>
    cases sofar with
    | nil =>
      obtain ⟨rfl, rfl⟩ := List.cons.inj hks
      obtain ⟨result, rfl⟩ := first.finished_of_final hk
      exact rest.of_finished.1
    | cons j sofar => exact ih (List.cons.inj hks).2

theorem Course.exists_last {p : Phase} {ks : List Call} {result : Option Failure} (h : Course p ks result)
    (hp : ∀ result, p ≠ .finished result) : ∃ sofar k, ks = sofar ++ [k] ∧ k.Ends result := by
  induction h with
  | finished failure => exact absurd rfl (hp failure)
  | @call p q k ks result first rest ih =>
    cases q with
    | finished failure =>
      obtain ⟨rfl, rfl⟩ := rest.of_finished
      exact ⟨[], k, rfl, first.ends⟩
    | _ =>
      obtain ⟨sofar, last, rfl, hlast⟩ := ih (by simp)
      exact ⟨k :: sofar, last, rfl, hlast⟩

theorem Course.count_shut_le {p : Phase} {ks : List Call} {result : Option Failure} (h : Course p ks result) :
    ks.count .shut ≤ 1 := by
  by_cases hmem : Call.shut ∈ ks
  · obtain ⟨sofar, more, rfl, hsofar⟩ := List.eq_append_cons_of_mem hmem
    rw [h.final rfl (.inr rfl), List.count_append, List.count_eq_zero.2 hsofar]
    decide
  · rw [List.count_eq_zero.2 hmem]
    decide

end Connection

/-! ### Where a failure comes from -/

/-- The fault that answers a write call, if it is refused. -/
def Acceptance.fault? : Acceptance → Option Fault
  | failed fault => some fault
  | _ => none

/-- The fault that answers a flush or a shutdown call, if it is refused. -/
def Completion.fault? : Completion → Option Fault
  | failed fault => some fault
  | _ => none

namespace Connection

/-- The fault that the transport will answer to the call of an operation that comes after `n` others of its kind. -/
def fault? (c : Connection) (operation : Operation) (n : Nat) : Option Fault :=
  match operation with
  | .write => c.writes[n]?.bind (·.fault?)
  | .flush => c.flushes[n]?.bind (·.fault?)
  | .shutdown => c.shutdowns[n]?.bind (·.fault?)

/-- A call uses up one answer to its operation, and no other answers. -/
theorem fault?_step {c : Connection} {k : Call} (h : Transition c.phase k c.step.2.phase) (operation : Operation)
    (n : Nat) : c.step.2.fault? operation n = c.fault? operation ([k].countP (·.operation = operation) + n) := by
  have hk := h.operation_eq
  clear h
  obtain ⟨phase, reader, writes, flushes, shutdowns⟩ := c
  cases phase with
  | reading | finished => cases hk
  | sending unsent =>
    have hk : k.operation = .write := (Option.some.inj hk).symm
    cases operation <;> simp [step, fault?, hk, Nat.add_comm 1]
  | flushing | closing =>
    have hk : k.operation = .flush := (Option.some.inj hk).symm
    cases operation <;> simp [step, fault?, hk, Nat.add_comm 1]
  | shutting =>
    have hk : k.operation = .shutdown := (Option.some.inj hk).symm
    cases operation <;> simp [step, fault?, hk, Nat.add_comm 1]

/-- A call that fails ends the connection with the fault that answered it. -/
theorem step_of_failed {c : Connection} (hr : c.phase ≠ .reading) {operation : Operation}
    (hk : c.step.1 = [.call (.failed operation)]) :
    ∃ fault, c.fault? operation 0 = some fault ∧ c.step.2.outcome? = some (some (.write fault)) := by
  obtain ⟨phase, reader, writes, flushes, shutdowns⟩ := c
  cases phase with
  | reading => exact absurd rfl hr
  | sending unsent =>
    rcases writes with _ | ⟨_ | _ | fault, writes⟩ <;> simp [step, write] at hk
    subst hk
    exact ⟨fault, rfl, rfl⟩
  | flushing | closing =>
    rcases flushes with _ | ⟨_ | _ | fault, flushes⟩ <;> simp [step, complete] at hk
    subst hk
    exact ⟨fault, rfl, rfl⟩
  | shutting =>
    rcases shutdowns with _ | ⟨_ | _ | fault, shutdowns⟩ <;> simp [step, complete] at hk
    subst hk
    exact ⟨fault, rfl, rfl⟩
  | finished failure => cases hk

/-- The failure of a run that ends with a failed call is the fault that answered this very call. -/
theorem run_of_failed (c : Connection) (hr : c.phase ≠ .reading) {sofar : List Call} {operation : Operation}
    (hks : calls c.run.1 = sofar ++ [.failed operation]) :
    ∃ fault, c.fault? operation (sofar.countP (·.operation = operation)) = some fault ∧
      c.run.2.outcome? = some (some (.write fault)) := by
  induction c using run.induct generalizing sofar with
  | case1 c result h => simp [run_of_outcome h] at hks
  | case2 c h ih =>
    obtain ⟨k, hk, ht⟩ := step_transition hr h
    rw [run_of_step h, hk] at hks
    rw [run_of_step h]
    cases sofar with
    | nil =>
      obtain ⟨rfl, -⟩ := List.cons.inj hks
      obtain ⟨fault, hfault, hresult⟩ := step_of_failed hr hk
      rw [run_of_outcome hresult]
      exact ⟨fault, hfault, hresult⟩
    | cons j sofar =>
      obtain ⟨rfl, hrest⟩ := List.cons.inj hks
      obtain ⟨fault, hfault, hresult⟩ := ih ht.not_reading hrest
      rw [fault?_step ht, ← List.countP_append, List.singleton_append] at hfault
      exact ⟨fault, hfault, hresult⟩

/-! ### The calls that answer a request -/

/-- The conduct of a connection `c` that answers with a response: its calls are a word of the grammar, complete or
broken off; the writes come first; a flush has just succeeded when a shutdown call is made, and another one before; only
one shutdown succeeds; nothing follows a fault; and the run succeeds exactly if the last call is a shutdown that does,
and else has the fault of the last call for its failure, with nothing added. -/
structure Conducts (c : Connection) (response : Bytes) (ks : List Call) (result : Option Failure) : Prop where
  speaks : Speaks (Complete response) ks result
  writes_first : ks.Pairwise fun k later => later.operation = .write → k.operation = .write
  before_shutdown : ∀ sofar k more, ks = sofar ++ k :: more → k.operation = .shutdown →
    sofar.getLast? = some .flushed ∧ 2 ≤ sofar.count .flushed
  count_shut_le : ks.count .shut ≤ 1
  nothing_after_fault : ∀ sofar k more, ks = sofar ++ k :: more → k.IsFault → more = []
  ok_iff : result = none ↔ ks.getLast? = some .shut
  failure_eq : ∀ failure, result = some failure → failure.context? = none ∧ ∃ sofar k, ks = sofar ++ [k] ∧
    ((k = .wrote [] ∧ failure.cause = ⟨.writeZero, "failed to write frame to transport".toList⟩) ∨
      ∃ operation, k = .failed operation ∧
        c.fault? operation (sofar.countP (·.operation = operation)) = some failure.cause)

theorem run_conducts (c : Connection) {response : Bytes} (hphase : c.phase = .sending response)
    (hresponse : response ≠ []) :
    ∃ result, c.run.2.outcome? = some result ∧ Conducts c response (calls c.run.1) result := by
  have hr : c.phase ≠ .reading := by simp [hphase]
  obtain ⟨ks, result, hks, hresult, hcourse⟩ := run_course c hr
  have hcalls : calls c.run.1 = ks := by rw [hks, calls_map_call]
  rw [hphase] at hcourse
  obtain ⟨before, last, hlast, hends⟩ := hcourse.exists_last (by simp)
  refine ⟨result, hresult, ?_⟩
  rw [hcalls]
  refine ⟨hcourse.speaks ⟨_, words_sending hresponse⟩, hcourse.writes_first, ?_, hcourse.count_shut_le,
    fun sofar k more heq hk => hcourse.final heq (.inl hk), ?_, ?_⟩
  · intro sofar k more heq hk
    obtain ⟨hlast, hcount⟩ := hcourse.before_shutdown heq hk
    exact ⟨hlast.resolve_right (by simp), hcount⟩
  · rw [hlast, List.getLast?_concat]
    cases hends <;> simp
  · rintro failure rfl
    cases hends with
    | wroteNothing => exact ⟨rfl, before, _, hlast, .inl ⟨rfl, rfl⟩⟩
    | failed operation fault =>
      obtain ⟨fault', hfault, hresult'⟩ := run_of_failed c hr (hcalls.trans hlast)
      rw [hresult] at hresult'
      simp only [Option.some.injEq, Failure.write.injEq] at hresult'
      exact ⟨rfl, before, _, hlast, .inr ⟨operation, rfl, by rw [hfault, hresult']; rfl⟩⟩

/-- If the first item of its stream is a chunk, a connection makes the calls that the protocol asks for, whatever the
transport answers. -/
theorem calls_of_chunk {reads : List Delivery} {chunk : Chunk} (h : (Reader.ofScript reads).next.1 = .chunk chunk)
    (writes : List Acceptance) (flushes shutdowns : List Completion) :
    let c := opened reads writes flushes shutdowns
    ∃ result, c.run.2.outcome? = some result ∧
      Conducts c (Response.ofPath chunk.request.path).encode (calls c.run.1) result := by
  intro c
  obtain ⟨result, hresult, hconducts⟩ := run_conducts ⟨.sending (Response.ofPath chunk.request.path).encode,
    (Reader.ofScript reads).next.2, writes, flushes, shutdowns⟩ rfl (Response.encode_ne_nil _)
  simp only [c, run_of_chunk h, calls_logged]
  exact ⟨result, hresult, { hconducts with }⟩

theorem calls_of_chunk_refused :
    (Reader.ofScript [.notReady, .data [0x47, 0x20, 0x2F]]).next.1 = .chunk ⟨[0x47, 0x20, 0x2F], by decide⟩ ∧
      let c := opened [.notReady, .data [0x47, 0x20, 0x2F]] [.upTo 5, .notReady] [.notReady, .done]
        [.notReady, .failed (.ofKind .timedOut)]
      ∃ result, c.run.2.outcome? = some result ∧
        Conducts c (Response.ofPath ['/']).encode (calls c.run.1) result := by
  have hnext : (Reader.ofScript [.notReady, .data [0x47, 0x20, 0x2F]]).next.1 =
      .chunk ⟨[0x47, 0x20, 0x2F], by decide⟩ := by
    rw [Reader.next_of_notReady rfl, Reader.next_of_ready (by decide)]
    rfl
  have hpath : (Chunk.mk [0x47, 0x20, 0x2F] (by decide)).request.path = ['/'] := by decide
  have hcalls := calls_of_chunk hnext [.upTo 5, .notReady] [.notReady, .done] [.notReady, .failed (.ofKind .timedOut)]
  rw [hpath] at hcalls
  exact ⟨hnext, hcalls⟩

end Connection

end RequestEcho
