import RequestEcho.Proofs.Connection.Readiness
import RequestEcho.Proofs.Reader.Items

/-!
# The first item decides

A connection takes exactly one item from its stream.  What it does and what it logs follows from that item, and the
reader that it leaves behind goes on with the next item, whatever becomes of the response (`run_opened`).
-/

namespace RequestEcho

namespace Connection

/-- Past reading, nothing more is logged. -/
theorem logs_run (c : Connection) (hr : c.phase ≠ .reading) : logs c.run.1 = [] := by
  obtain ⟨ks, -, hks, -, -⟩ := run_course c hr
  rw [hks, logs, List.filterMap_eq_nil_iff]
  intro o ho
  obtain ⟨k, -, rfl⟩ := List.mem_map.1 ho
  rfl

theorem logs_logged (es : List Log.Event) (os : List Occurrence) : logs (es.map .log ++ os) = es ++ logs os := by
  induction es with
  | nil => rfl
  | cons e es ih => exact congrArg (e :: ·) ih

theorem phase_answer_ne_reading {p : Poll} (h : p ≠ .notReady) : (answer p).2 ≠ .reading := by
  cases p with
  | notReady => exact absurd rfl h
  | _ => simp [answer]

/-- A run takes the first item of its stream and no other; what happens in it follows from the item alone. -/
theorem run_opened (reads : List Delivery) (writes : List Acceptance) (flushes shutdowns : List Completion) :
    let run := (opened reads writes flushes shutdowns).run
    let item := (Reader.ofScript reads).next.1
    let answering : Connection := ⟨(answer item).2, Reader.ofScript [], writes, flushes, shutdowns⟩
    run.1 = (answer item).1.map .log ++ answering.run.1 ∧ run.2.outcome? = answering.run.2.outcome? ∧
      logs run.1 = (answer item).1 ∧ run.2.reader = (Reader.ofScript reads).next.2 := by
  intro run item answering
  have hphase : answering.phase ≠ .reading := phase_answer_ne_reading (Reader.next_ne_notReady _)
  have hreading : run =
      ((answer item).1.map .log ++ { answering with reader := (Reader.ofScript reads).next.2 }.run.1,
        { answering with reader := (Reader.ofScript reads).next.2 }.run.2) :=
    run_of_reading (opened reads writes flushes shutdowns) rfl
  have hrun : run = ((answer item).1.map .log ++ answering.run.1,
      { answering.run.2 with reader := (Reader.ofScript reads).next.2 }) := by
    rwa [run_withReader answering hphase] at hreading
  rw [hrun]
  refine ⟨rfl, rfl, ?_, rfl⟩
  rw [logs_logged, logs_run answering hphase, List.append_nil]

/-- What is to be told about the first item of a stream, with the level of each message. -/
def account : Poll → List (Level × Text)
  | .notReady => []
  | .failed _ => []
  | .ended => [(.info, "Client closed before sending data".toList)]
  | .chunk c =>
    [(.trace, "Decoding chunk: ".toList ++ Quoted.quote (Utf8.decodeLossy c.bytes)),
      (.info, "Received data".toList),
      (.debug, "Requested path: ".toList ++ c.request.path)]

theorem map_message_answer {p : Poll} (h : p ≠ .notReady) (threshold : Level) :
    (Log.shownAt threshold (answer p).1).map (fun e => (e.level, e.message)) =
      (account p).filter fun line => threshold.shownAt line.1 := by
  have hlines : (answer p).1.map (fun e => (e.level, e.message)) = account p := by
    cases p with
    | notReady => exact absurd rfl h
    | _ => rfl
  rw [← hlines, List.filter_map]
  rfl

/-- What a run makes of a stream whose first item is `item`: it leaves the reader that brings the items after it, tells
what is to be told about the item, as far as the level of the log goes, and says that the client was silent, or that
data was received, in the one case that this is so. -/
structure Takes (reads : List Delivery) (item : Poll) (after : Reader) (run : List Occurrence × Connection) : Prop where
  reader_eq : run.2.reader = after
  items_eq : ∀ limit k, Reader.items limit run.2.reader =
    (((Reader.polls (reads.length + limit + 1 + k) (.ofScript reads)).filter (· ≠ .notReady)).tail.takeWhile
      (· ≠ .ended)).take limit
  shown_eq : ∀ threshold, (Log.shownAt threshold (logs run.1)).map (fun e => (e.level, e.message)) =
    (account item).filter fun line => threshold.shownAt line.1
  silent_iff : .clientSilent ∈ logs run.1 ↔ item = .ended
  received_iff : .dataReceived ∈ logs run.1 ↔ ∃ c, item = .chunk c
  nothing_iff : logs run.1 = [] ↔ ∃ fault, item = .failed fault

theorem takes_next (reads : List Delivery) (writes : List Acceptance) (flushes shutdowns : List Completion) :
    Takes reads (Reader.ofScript reads).next.1 (Reader.ofScript reads).next.2
      (opened reads writes flushes shutdowns).run := by
  obtain ⟨-, -, hlogs, hreader⟩ := run_opened reads writes flushes shutdowns
  have hready := (Reader.ofScript reads).next_ne_notReady
  refine ⟨hreader, ?_, ?_, ?_, ?_, ?_⟩
  · intro limit k
    rw [hreader]
    exact Reader.items_next limit (.ofScript reads) (Nat.le_add_right _ k)
  · intro threshold
    rw [hlogs, map_message_answer hready]
  all_goals
    rw [hlogs]
    cases hitem : (Reader.ofScript reads).next.1 with
    | notReady => exact absurd hitem hready
    | _ => simp [answer]

/-- A connection takes exactly one item from its stream, the first.  It leaves the others to be brought, in their order
and up to the first end, and all that happens in its run follows from the item and from the answers of the writing side:
with the same item and the same answers, another connection does, tells and comes to the same.  The writing side has no
part in what is left to be read and in what is told. -/
theorem takes_one_item (reads : List Delivery) :
    ∃ waits item after, (Reader.ofScript reads).Brings waits item after ∧
      ∀ writes flushes shutdowns,
        let run := (opened reads writes flushes shutdowns).run
        Takes reads item after run ∧
          ∀ reads' waits' after', (Reader.ofScript reads').Brings waits' item after' →
            let run' := (opened reads' writes flushes shutdowns).run
            run'.1 = run.1 ∧ run'.2.outcome? = run.2.outcome? := by
  obtain ⟨waits, hbrings, -⟩ := (Reader.ofScript reads).exists_brings
  refine ⟨waits, _, _, hbrings, ?_⟩
  intro writes flushes shutdowns run
  refine ⟨takes_next reads writes flushes shutdowns, ?_⟩
  intro reads' waits' after' hbrings' run'
  obtain ⟨waits'', hnext, -⟩ := (Reader.ofScript reads').exists_brings
  have hitem := hnext.item_unique hbrings'
  obtain ⟨hoccurrences, houtcome, -, -⟩ := run_opened reads writes flushes shutdowns
  obtain ⟨hoccurrences', houtcome', -, -⟩ := run_opened reads' writes flushes shutdowns
  rw [hitem] at hoccurrences' houtcome'
  exact ⟨hoccurrences'.trans hoccurrences.symm, houtcome'.trans houtcome.symm⟩

end Connection

end RequestEcho
