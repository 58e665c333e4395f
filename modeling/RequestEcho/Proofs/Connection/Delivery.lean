import RequestEcho.Proofs.Connection.Course

/-!
# Delivery of the response

However the transport cuts, delays or refuses the writes, the bytes that it accepts are the response from its beginning.

* `Delivers` says what the occurrences of a run make of the bytes to be sent.  It holds of every course
  (`Course.delivers`), by one lemma for an occurrence that leaves the sending phase open (`Delivers.cons`), one for the
  fault that ends it (`Delivers.fault`), and one for the calls after it (`Delivers.sent`).
* While no write is refused, the calls after the last write do not depend on how the writes were cut
  (`run_of_proceeds`).
-/

namespace RequestEcho

namespace Connection

/-- The bytes that the transport has accepted, in order. -/
def output (os : List Occurrence) : Bytes := os.flatMap (·.accepted)

/-- The calls of the writing side, without what is logged. -/
def calls (os : List Occurrence) : List Call := os.filterMap (·.call?)

@[simp] theorem output_nil : output [] = [] := rfl

@[simp] theorem output_cons (o : Occurrence) (os : List Occurrence) : output (o :: os) = o.accepted ++ output os := rfl

@[simp] theorem calls_nil : calls [] = [] := rfl

@[simp] theorem calls_call (k : Call) (os : List Occurrence) : calls (.call k :: os) = k :: calls os := rfl

@[simp] theorem calls_log (e : Log.Event) (os : List Occurrence) : calls (.log e :: os) = calls os := rfl

theorem mem_calls {os : List Occurrence} {k : Call} : k ∈ calls os ↔ .call k ∈ os := by
  induction os with
  | nil => simp
  | cons o os ih => cases o <;> simp [ih]

theorem calls_map_call (ks : List Call) : calls (ks.map .call) = ks := by
  induction ks with
  | nil => rfl
  | cons k ks ih => exact congrArg (k :: ·) ih

theorem calls_append (os os' : List Occurrence) : calls (os ++ os') = calls os ++ calls os' := List.filterMap_append

theorem calls_logged (es : List Log.Event) (os : List Occurrence) : calls (es.map .log ++ os) = calls os := by
  induction es with
  | nil => rfl
  | cons e es ih => exact ih

theorem output_logged (es : List Log.Event) (os : List Occurrence) : output (es.map .log ++ os) = output os := by
  induction es with
  | nil => rfl
  | cons e es ih => exact ih

/-- A write call that fails, or that accepts none of the bytes offered. -/
def Call.IsWriteFault (k : Call) : Prop := k = .failed .write ∨ k = .wrote []

theorem Call.IsWriteFault.operation_eq {k : Call} (h : k.IsWriteFault) : k.operation = .write := by
  rcases h with rfl | rfl <;> rfl

/-- What a run makes of the bytes to be sent: nothing is lost, repeated or reordered at any point; whoever flushes or
shuts down has sent everything, and so has whoever succeeds; only a fault of a write leaves something unsent, it always
does, and it is the last call and the failure of the run. -/
structure Delivers (response : Bytes) (os : List Occurrence) (result : Option Failure) : Prop where
  output_prefix : ∀ sofar, sofar <+: os → output sofar <+: response
  output_eq_of_closing : ∀ sofar k, sofar <+: os → k ∈ calls sofar → k.operation ≠ .write → output sofar = response
  output_eq_of_ok : result = none → output os = response
  output_ne_iff : output os ≠ response ↔ ∃ k, (calls os).getLast? = some k ∧ k.IsWriteFault
  failure_of_ne : output os ≠ response → ∃ fault, result = some (.write fault)

/-- An occurrence that leaves the sending phase open takes the bytes that it accepts from the front. -/
theorem Delivers.cons {rest : Bytes} {os : List Occurrence} {result : Option Failure} {o : Occurrence}
    (h : Delivers rest os result) (ho : ∀ k, o = .call k → k.operation = .write ∧ ¬ k.IsWriteFault) :
    Delivers (o.accepted ++ rest) (o :: os) result := by
  -- the occurrence is no fault, so whether the last call is one depends on the others alone
  have hlast : (∃ k, (calls (o :: os)).getLast? = some k ∧ k.IsWriteFault) ↔
      ∃ k, (calls os).getLast? = some k ∧ k.IsWriteFault := by
    cases o with
    | log e => rfl
    | call j =>
      have hj := (ho j rfl).2
      rcases hl : (calls os).getLast? with _ | k
      · rw [List.getLast?_eq_none_iff] at hl
        simp [hl, hj]
      · simp [List.getLast?_cons, hl]
  refine ⟨?_, ?_, ?_, ?_, ?_⟩
  · intro sofar hsofar
    rcases List.prefix_cons_iff.1 hsofar with rfl | ⟨t, rfl, ht⟩
    · exact List.nil_prefix
    · exact (List.prefix_append_right_inj _).2 (h.output_prefix t ht)
  · intro sofar k hsofar hk hop
    rcases List.prefix_cons_iff.1 hsofar with rfl | ⟨t, rfl, ht⟩
    · simp at hk
    · have hkt : k ∈ calls t := by
        rw [mem_calls, List.mem_cons] at hk
        rcases hk with hk | hk
        · exact absurd (ho k hk.symm).1 hop
        · exact mem_calls.2 hk
      rw [output_cons, h.output_eq_of_closing t k ht hkt hop]
  · intro hr
    rw [output_cons, h.output_eq_of_ok hr]
  · rw [hlast, ← h.output_ne_iff]
    simp
  · intro hne
    exact h.failure_of_ne fun he => hne (by rw [output_cons, he])

/-- The fault of a write leaves everything unsent that it was offered. -/
theorem Delivers.fault {unsent : Bytes} {k : Call} (hk : k.IsWriteFault) (hu : unsent ≠ []) (fault : Fault) :
    Delivers unsent [.call k] (some (.write fault)) := by
  have hout : ∀ sofar, sofar <+: [Occurrence.call k] → output sofar = [] := by
    intro sofar hsofar
    rcases List.prefix_cons_iff.1 hsofar with rfl | ⟨t, rfl, ht⟩
    · rfl
    · rw [List.prefix_nil.1 ht]
      rcases hk with rfl | rfl <;> rfl
  refine ⟨?_, ?_, by simp, ?_, fun _ => ⟨fault, rfl⟩⟩
  · intro sofar hsofar
    rw [hout sofar hsofar]
    exact List.nil_prefix
  · intro sofar j hsofar hj hop
    have hmem := hsofar.subset (mem_calls.1 hj)
    simp only [List.mem_singleton, Occurrence.call.injEq] at hmem
    exact absurd (hmem ▸ hk.operation_eq) hop
  · rw [hout _ (List.prefix_refl _)]
    exact ⟨fun _ => ⟨k, rfl, hk⟩, fun _ => hu.symm⟩

/-- When everything is sent, calls that are not writes change nothing any more. -/
theorem Delivers.sent {ks : List Call} (hks : ∀ k ∈ ks, k.operation ≠ .write) (result : Option Failure) :
    Delivers [] (ks.map .call) result := by
  have hout : ∀ sofar, sofar <+: ks.map Occurrence.call → output sofar = [] := by
    intro sofar hsofar
    simp only [output, List.flatMap_eq_nil_iff]
    intro o ho
    obtain ⟨k, hk, rfl⟩ := List.mem_map.1 (hsofar.subset ho)
    cases k with
    | wrote piece => exact absurd rfl (hks _ hk)
    | _ => rfl
  have hall := hout _ (List.prefix_refl _)
  have hlast : ∀ k, (calls (ks.map .call)).getLast? = some k → ¬ k.IsWriteFault := by
    intro k hlast hk
    have hmem := mem_calls.1 (List.mem_of_getLast? hlast)
    simp only [List.mem_map, Occurrence.call.injEq, exists_eq_right] at hmem
    exact absurd hk.operation_eq (hks k hmem)
  refine ⟨?_, fun sofar _ hsofar _ _ => hout sofar hsofar, fun _ => hall, ?_, fun hne => absurd hall hne⟩
  · intro sofar hsofar
    exact (hout sofar hsofar).symm ▸ List.nil_prefix
  · exact ⟨fun hne => absurd hall hne, fun ⟨k, hk, hfault⟩ => absurd hfault (hlast k hk)⟩

/-- No call after the sending phase is a write, and none leads back. -/
theorem Transition.operation_ne_write {p q : Phase} {k : Call} (h : Transition p k q)
    (hp : ∀ unsent, p ≠ .sending unsent) : k.operation ≠ .write ∧ ∀ unsent, q ≠ .sending unsent := by
  cases h <;> simp_all [Call.operation]

theorem Course.operation_ne_write {p : Phase} {ks : List Call} {result : Option Failure} (h : Course p ks result)
    (hp : ∀ unsent, p ≠ .sending unsent) : ∀ k ∈ ks, k.operation ≠ .write := by
  induction h with
  | finished => simp
  | call first rest ih =>
    obtain ⟨hk, hq⟩ := first.operation_ne_write hp
    intro j hj
    rcases List.mem_cons.1 hj with rfl | hj
    · exact hk
    · exact ih hq j hj

theorem Course.of_finished {failure result : Option Failure} {ks : List Call}
    (h : Course (.finished failure) ks result) : ks = [] ∧ result = failure := by
  cases h with
  | finished => exact ⟨rfl, rfl⟩
  | call first rest => cases first

/-- From the sending phase on, a course delivers what is unsent. -/
theorem Course.delivers {unsent : Bytes} {ks : List Call} {result : Option Failure}
    (h : Course (.sending unsent) ks result) (hu : unsent ≠ []) : Delivers unsent (ks.map .call) result := by
  generalize hp : Phase.sending unsent = p at h
  -- the bytes unsent shrink from call to call, and what is left of them is delivered by the rest of the course
  induction h generalizing unsent with
  | finished => cases hp
  | call first rest ih =>
    subst hp
    cases first with
    | wroteSome piece left hpiece hleft =>
      refine Delivers.cons (o := .call (.wrote piece)) (ih hleft rfl) ?_
      rintro k ⟨⟩
      exact ⟨rfl, by simp [Call.IsWriteFault, hpiece]⟩
    | wroteAll =>
      have hsent := Delivers.sent (rest.operation_ne_write (by simp)) ‹_›
      have hcons : Delivers (unsent ++ []) _ _ := Delivers.cons (o := .call (.wrote unsent)) hsent (by
        rintro k ⟨⟩
        exact ⟨rfl, by simp [Call.IsWriteFault, hu]⟩)
      rwa [List.append_nil] at hcons
    | wroteNothing =>
      obtain ⟨rfl, rfl⟩ := rest.of_finished
      exact Delivers.fault (.inr rfl) hu _
    | writeNotReady =>
      refine Delivers.cons (o := .call (.notReady .write)) (ih hu rfl) ?_
      rintro k ⟨⟩
      exact ⟨rfl, by simp [Call.IsWriteFault]⟩
    | writeFailed _ fault =>
      obtain ⟨rfl, rfl⟩ := rest.of_finished
      exact Delivers.fault (.inl rfl) hu fault

theorem Delivers.logged {response : Bytes} {os : List Occurrence} {result : Option Failure}
    (h : Delivers response os result) (es : List Log.Event) : Delivers response (es.map .log ++ os) result := by
  induction es with
  | nil => exact h
  | cons e es ih => exact Delivers.cons (o := .log e) ih (by simp)

/-! ### Writes that are never refused -/

/-- An answer to a write call that lets the sending go on. -/
def Proceeds (a : Acceptance) : Prop := a ≠ .upTo 0 ∧ ∀ fault, a ≠ .failed fault

/-- After the sending phase the answers to writes are never asked for. -/
theorem run_withWrites (c : Connection) (hr : c.phase ≠ .reading) (hs : ∀ unsent, c.phase ≠ .sending unsent)
    (writes : List Acceptance) : { c with writes }.run = (c.run.1, { c.run.2 with writes }) := by
  induction c using run.induct with
  | case1 c result h => rw [run_of_outcome h, run_of_outcome (show outcome? { c with writes } = some result from h)]
  | case2 c h ih =>
    have hstep : step { c with writes } = (c.step.1, { c.step.2 with writes }) := by
      obtain ⟨phase, reader, w, flushes, shutdowns⟩ := c
      cases phase with
      | reading => exact absurd rfl hr
      | sending unsent => exact absurd rfl (hs unsent)
      | _ => rfl
    obtain ⟨k, -, ht⟩ := step_transition hr h
    rw [run_of_step h, run_of_step (show outcome? { c with writes } = none from h), hstep,
      ih ht.not_reading (ht.operation_ne_write hs).2]

theorem write_of_proceeds {unsent : Bytes} {a : Acceptance} (hu : unsent ≠ []) (ha : Proceeds a) :
    (write unsent a).2 = .flushing ∨ ∃ left, left ≠ [] ∧ (write unsent a).2 = .sending left := by
  cases a with
  | upTo limit =>
    have hlimit : limit ≠ 0 := fun h => ha.1 (by rw [h])
    have hpiece : unsent.take limit ≠ [] := by simp [hlimit, hu]
    by_cases hleft : unsent.drop limit = []
    · left
      simp only [write, hpiece, hleft, if_true, if_false]
    · right
      refine ⟨unsent.drop limit, hleft, ?_⟩
      simp only [write, hpiece, hleft, if_false]
  | notReady => exact .inr ⟨unsent, hu, rfl⟩
  | failed fault => exact absurd rfl (ha.2 fault)

/-- While no write is refused, the run comes to go on as if there were nothing to write. -/
theorem run_of_proceeds (writes : List Acceptance) (hw : ∀ a ∈ writes, Proceeds a) {unsent : Bytes} (hu : unsent ≠ [])
    (reader : Reader) (flushes shutdowns : List Completion) :
    ∃ os, (run ⟨.sending unsent, reader, writes, flushes, shutdowns⟩).1 =
        os ++ (run ⟨.flushing, reader, [], flushes, shutdowns⟩).1 ∧
      (run ⟨.sending unsent, reader, writes, flushes, shutdowns⟩).2.outcome? =
        (run ⟨.flushing, reader, [], flushes, shutdowns⟩).2.outcome? := by
  induction writes generalizing unsent with
  | nil =>
    have hstep : step ⟨.sending unsent, reader, [], flushes, shutdowns⟩ =
        ([.call (.wrote unsent)], ⟨.flushing, reader, [], flushes, shutdowns⟩) := by
      simp [step, write, hu]
    rw [run_of_step rfl, hstep]
    exact ⟨[.call (.wrote unsent)], rfl, rfl⟩
  | cons a ws ih =>
    have hws : ∀ b ∈ ws, Proceeds b := fun b hb => hw b (List.mem_cons_of_mem a hb)
    have hstep : step ⟨.sending unsent, reader, a :: ws, flushes, shutdowns⟩ =
        ([.call (write unsent a).1], ⟨(write unsent a).2, reader, ws, flushes, shutdowns⟩) := rfl
    rw [run_of_step rfl, hstep]
    rcases write_of_proceeds hu (hw a List.mem_cons_self) with hnext | ⟨left, hleft, hnext⟩
    · -- all is sent before the script of the writes is at its end, and the answers left over are never asked for
      rw [hnext]
      have hrun := run_withWrites ⟨.flushing, reader, [], flushes, shutdowns⟩ (by simp) (by simp) ws
      simp only at hrun
      rw [hrun]
      exact ⟨[.call (write unsent a).1], rfl, rfl⟩
    · rw [hnext]
      obtain ⟨os, hos, hout⟩ := ih hws hleft
      refine ⟨.call (write unsent a).1 :: os, ?_, hout⟩
      simp only [hos, List.cons_append, List.nil_append]

/-! ### The response to the first item -/

theorem Course.exists_closing {ks : List Call} {result : Option Failure} (h : Course .flushing ks result) :
    ∃ k ∈ ks, k.operation ≠ .write := by
  cases h with
  | call first rest => exact ⟨_, List.mem_cons_self, (first.operation_ne_write (by simp)).1⟩

/-- A run that begins with everything unsent delivers it. -/
theorem run_delivers {response : Bytes} (hresponse : response ≠ []) (reader : Reader) (writes : List Acceptance)
    (flushes shutdowns : List Completion) :
    ∃ result, (run ⟨.sending response, reader, writes, flushes, shutdowns⟩).2.outcome? = some result ∧
      Delivers response (run ⟨.sending response, reader, writes, flushes, shutdowns⟩).1 result := by
  obtain ⟨ks, result, hks, hresult, hcourse⟩ :=
    run_course ⟨.sending response, reader, writes, flushes, shutdowns⟩ (by simp)
  refine ⟨result, hresult, ?_⟩
  rw [hks]
  exact hcourse.delivers hresponse

/-- While no write is refused, some call after the writes is made, and it finds everything sent. -/
theorem exists_closing_of_proceeds {unsent : Bytes} (hu : unsent ≠ []) {writes : List Acceptance}
    (hw : ∀ a ∈ writes, Proceeds a) (reader : Reader) (flushes shutdowns : List Completion) :
    ∃ k, k ∈ calls (run ⟨.sending unsent, reader, writes, flushes, shutdowns⟩).1 ∧ k.operation ≠ .write := by
  obtain ⟨ks, _, hks, -, hcourse⟩ := run_course ⟨.flushing, reader, [], flushes, shutdowns⟩ (by simp)
  obtain ⟨k, hk, hop⟩ := hcourse.exists_closing
  obtain ⟨os, hos, -⟩ := run_of_proceeds writes hw hu reader flushes shutdowns
  refine ⟨k, ?_, hop⟩
  rw [mem_calls, hos, hks, List.mem_append]
  exact .inr (List.mem_map_of_mem hk)

/-- While no write is refused, the output is the response to the first chunk. -/
theorem output_of_proceeds {reads : List Delivery} {c : Chunk} (h : (Reader.ofScript reads).next.1 = .chunk c)
    {writes : List Acceptance} (hw : ∀ a ∈ writes, Proceeds a) (flushes shutdowns : List Completion) :
    output (opened reads writes flushes shutdowns).run.1 = (Response.ofPath c.request.path).encode := by
  have hresponse := (Response.ofPath c.request.path).encode_ne_nil
  obtain ⟨_, -, hdelivers⟩ := run_delivers hresponse (Reader.ofScript reads).next.2 writes flushes shutdowns
  obtain ⟨k, hk, hop⟩ := exists_closing_of_proceeds hresponse hw (Reader.ofScript reads).next.2 flushes shutdowns
  rw [run_of_chunk h, output_logged]
  exact hdelivers.output_eq_of_closing _ k (List.prefix_refl _) hk hop

/-- What a connection sends is decided by the first item of its stream.  If that is no chunk, the writing side is left
alone.  If it is a chunk, the response to it is delivered, however the transport takes it; and if no write is refused,
all of it is delivered and the run ends as it does when every write accepts everything. -/
theorem delivery_of_first_item (reads : List Delivery) (writes : List Acceptance)
    (flushes shutdowns : List Completion) :
    let run := (opened reads writes flushes shutdowns).run
    ∃ result, run.2.outcome? = some result ∧
      match (Reader.ofScript reads).next.1 with
      | .notReady => False
      | .ended | .failed _ => calls run.1 = [] ∧ output run.1 = []
      | .chunk c =>
        let response := (Response.ofPath c.request.path).encode
        Delivers response run.1 result ∧
          ((∀ a ∈ writes, Proceeds a) →
            output run.1 = response ∧ (opened reads [] flushes shutdowns).run.2.outcome? = some result) := by
  intro run
  have hrun := fun writes => run_of_reading (opened reads writes flushes shutdowns) rfl
  have hready := (Reader.ofScript reads).next_ne_notReady
  simp only [opened] at hrun
  rcases hnext : (Reader.ofScript reads).next with ⟨p, r⟩
  simp only [hnext] at hrun hready
  simp only [run, opened, hrun]
  cases p with
  | notReady => exact absurd rfl hready
  | ended => exact ⟨none, by rw [run_of_outcome rfl]; rfl, by rw [run_of_outcome rfl]; exact ⟨rfl, rfl⟩⟩
  | failed fault => exact ⟨_, by rw [run_of_outcome rfl]; rfl, by rw [run_of_outcome rfl]; exact ⟨rfl, rfl⟩⟩
  | chunk c =>
    have hresponse := (Response.ofPath c.request.path).encode_ne_nil
    obtain ⟨result, hresult, hdelivers⟩ := run_delivers hresponse r writes flushes shutdowns
    have hlogged := hdelivers.logged (answer (.chunk c)).1
    refine ⟨result, hresult, hlogged, fun hw => ⟨?_, ?_⟩⟩
    · obtain ⟨k, hk, hop⟩ := exists_closing_of_proceeds hresponse hw r flushes shutdowns
      exact hlogged.output_eq_of_closing _ k (List.prefix_refl _)
        (mem_calls.2 (List.mem_append_right _ (mem_calls.1 hk))) hop
    · obtain ⟨-, -, hout⟩ := run_of_proceeds writes hw hresponse r flushes shutdowns
      obtain ⟨-, -, hout'⟩ := run_of_proceeds [] (by simp) hresponse r flushes shutdowns
      rw [← hresult, hout]
      exact hout'

end Connection

end RequestEcho
