import Mathlib.Data.List.DropRight
import RequestEcho.Reader

/-!
# What is taken out of a buffer

Taking a chunk empties the buffer, at the end of the stream as well as before (`step_of_takes`).  So what a buffer holds
is what was pushed since a chunk was last taken (`after_nil`), the next chunk is exactly that, and the chunks in their
order, followed by what the buffer holds, are all that was ever pushed (`flatMap_taken`).
-/

namespace RequestEcho

namespace Buffer

/-- The bytes that a step puts into the buffer. -/
def Step.pushed : Step → Bytes
  | push bytes => bytes
  | _ => []

/-- Whether a step takes a chunk out of the buffer. -/
def Step.takes : Step → Bool
  | push _ => false
  | _ => true

/-- The bytes of the chunk that an answer gives. -/
def Answer.bytes : Answer → Bytes
  | taken (some c) => c.bytes
  | _ => []

/-- The bytes pushed since a chunk was last taken. -/
def recent (steps : List Step) : Bytes := (steps.rtakeWhile fun s => !s.takes).flatMap (·.pushed)

/-- What the last of some steps leaves in the buffer. -/
def left (results : List (Answer × Bytes)) : Bytes := (results.getLast?.map Prod.snd).getD []

/-! ### Steps -/

theorem step_of_takes {s : Step} (h : s.takes = true) (buffer : Bytes) :
    step buffer s = (.taken (Chunk.take buffer).1, []) := by
  cases s with
  | push bytes => cases h
  | take => rw [step, Chunk.take_snd]
  | takeLast => rw [step, Chunk.takeLast_eq]

theorem step_of_pushes {s : Step} (h : s.takes = false) (buffer : Bytes) :
    step buffer s = (.pushed, buffer ++ s.pushed) := by
  cases s with
  | push bytes => rfl
  | _ => cases h

theorem bytes_take (buffer : Bytes) : (Answer.taken (Chunk.take buffer).1).bytes = buffer := by
  obtain ⟨hnone, hsome⟩ := Chunk.take_fst buffer
  cases h : (Chunk.take buffer).1 with
  | none => exact (hnone.1 h).symm
  | some c => exact hsome c h

/-- No step loses a byte, or makes one. -/
theorem bytes_step (buffer : Bytes) (s : Step) :
    (step buffer s).1.bytes ++ (step buffer s).2 = buffer ++ s.pushed := by
  cases h : s.takes with
  | false =>
    rw [step_of_pushes h]
    rfl
  | true =>
    have hpushed : s.pushed = [] := by
      cases s with
      | push bytes => cases h
      | _ => rfl
    rw [step_of_takes h, bytes_take, hpushed]

/-! ### Runs -/

/-- What the buffer holds after some steps. -/
def after (buffer : Bytes) (steps : List Step) : Bytes := steps.foldl (fun b s => (step b s).2) buffer

theorem after_concat (buffer : Bytes) (steps : List Step) (s : Step) :
    after buffer (steps ++ [s]) = (step (after buffer steps) s).2 := List.foldl_concat ..

theorem run_append (buffer : Bytes) (before behind : List Step) :
    run buffer (before ++ behind) = run buffer before ++ run (after buffer before) behind := by
  induction before generalizing buffer with
  | nil => rfl
  | cons s before ih => exact congrArg (step buffer s :: ·) (ih (step buffer s).2)

theorem length_run (buffer : Bytes) (steps : List Step) : (run buffer steps).length = steps.length := by
  induction steps generalizing buffer with
  | nil => rfl
  | cons s steps ih => exact congrArg (· + 1) (ih (step buffer s).2)

/-- The result of a step is that of the step with the buffer as the steps before it leave it. -/
theorem getElem?_run (buffer : Bytes) (before : List Step) (s : Step) (behind : List Step) :
    (run buffer (before ++ s :: behind))[before.length]? = some (step (after buffer before) s) := by
  rw [run_append, ← length_run buffer before, List.getElem?_append_right (Nat.le_refl _), Nat.sub_self]
  rfl

theorem take_run (buffer : Bytes) (steps : List Step) (n : Nat) :
    (run buffer steps).take n = run buffer (steps.take n) := by
  induction steps generalizing buffer n with
  | nil => simp [run]
  | cons s steps ih =>
    cases n with
    | zero => rfl
    | succ n => exact congrArg (step buffer s :: ·) (ih (step buffer s).2 n)

theorem left_run (steps : List Step) : left (run [] steps) = after [] steps := by
  induction steps using List.reverseRecOn with
  | nil => rfl
  | append_singleton steps s ih =>
    rw [run_append, after_concat, left]
    simp [run]

/-- The buffer holds what was pushed since a chunk was last taken. -/
theorem after_nil (steps : List Step) : after [] steps = recent steps := by
  induction steps using List.reverseRecOn with
  | nil => rfl
  | append_singleton steps s ih =>
    rw [after_concat, ih, recent, recent]
    cases h : s.takes with
    | false => rw [step_of_pushes h, List.rtakeWhile_concat_pos _ _ _ (by simp [h])]; simp
    | true => rw [step_of_takes h, List.rtakeWhile_concat_neg _ _ _ (by simp [h])]; rfl

/-- The chunks taken, followed by what the buffer holds, are what was pushed. -/
theorem flatMap_taken (buffer : Bytes) (steps : List Step) :
    (run buffer steps).flatMap (·.1.bytes) ++ after buffer steps = buffer ++ steps.flatMap (·.pushed) := by
  induction steps generalizing buffer with
  | nil => simp [run, after]
  | cons s steps ih =>
    have hrest := ih (step buffer s).2
    have hstep := bytes_step buffer s
    rw [run, List.flatMap_cons, List.flatMap_cons, List.append_assoc]
    rw [show after buffer (s :: steps) = after (step buffer s).2 steps from rfl, hrest, ← List.append_assoc, hstep,
      List.append_assoc]

/-- Steps that put in the same bytes and take out a chunk at the same places. -/
def Alike (s t : Step) : Prop := s = t ∨ (s.takes = true ∧ t.takes = true)

theorem step_alike {s t : Step} (h : Alike s t) (buffer : Bytes) : step buffer s = step buffer t := by
  rcases h with rfl | ⟨hs, ht⟩
  · rfl
  · rw [step_of_takes hs, step_of_takes ht]

theorem run_alike {steps steps' : List Step} (h : List.Forall₂ Alike steps steps') (buffer : Bytes) :
    run buffer steps = run buffer steps' := by
  induction h generalizing buffer with
  | nil => rfl
  | cons hstep _ ih => rw [run, run, step_alike hstep, ih]

end Buffer

/-! ### Readers -/

namespace Reader

theorem failed_mem_of_unread {rest : Bytes} {script : List Delivery} {fault : Fault}
    (h : .failed fault ∈ unread rest script) : .failed fault ∈ script := by
  unfold unread at h
  split at h
  · exact h
  · simpa using h

/-- A poll fails only where its stream does, because the last look at a buffer leaves no bytes over. -/
theorem failed_mem_of_poll {r : Reader} {fault : Fault}
    (h : r.poll.1 = .failed fault ∨ .failed fault ∈ r.poll.2.script) : .failed fault ∈ r.script := by
  obtain ⟨script, filled, broken⟩ := r
  cases broken with
  | true => simpa [poll] using h
  | false =>
    cases script with
    | nil =>
      have htake : Chunk.take [] = (none, []) := rfl
      simp [poll, finish_of_take htake] at h
    | cons d script =>
      cases d with
      | notReady => simpa [poll] using h
      | failed other => simpa [poll, eq_comm] using h
      | data bytes =>
        simp only [poll, Bool.false_eq_true, if_false] at h
        split at h
        · rename_i rest htake
          rw [finish_of_take htake] at h
          simpa using h
        · have hscript := h.resolve_left nofun
          exact List.mem_cons_of_mem _ (failed_mem_of_unread hscript)

/-- A reader fails where its stream does, and nowhere else. -/
theorem failed_mem_of_polls {r : Reader} {n : Nat} {fault : Fault} (h : .failed fault ∈ polls n r) :
    .failed fault ∈ r.script := by
  induction n generalizing r with
  | zero => cases h
  | succ n ih =>
    rcases List.mem_cons.1 h with hfirst | hrest
    · exact failed_mem_of_poll (.inl hfirst.symm)
    · exact failed_mem_of_poll (.inr (ih hrest))

end Reader

namespace Buffer

/-- What a step answers and leaves behind, by the steps before it.  It does not fail.  A push puts its bytes behind
those pushed since a chunk was last taken.  A step that takes a chunk empties the buffer; there is no chunk exactly if
no byte was pushed since the last one, and otherwise the chunk is all of these bytes, and asks for what their text asks
for. -/
structure Accounts (before : List Step) (s : Step) (answer : Answer) (rest : Bytes) : Prop where
  ne_failed : ∀ fault, answer ≠ .failed fault
  of_pushes : s.takes = false → answer = .pushed ∧ rest = recent before ++ s.pushed
  of_takes : s.takes = true → rest = [] ∧ ∃ chunk, answer = .taken chunk ∧ (chunk = none ↔ recent before = []) ∧
    ∀ c, chunk = some c → c.bytes = recent before ∧ c.request = Request.ofText (Utf8.decodeLossy (recent before))

theorem accounts_step (before : List Step) (s : Step) :
    Accounts before s (step (recent before) s).1 (step (recent before) s).2 := by
  cases h : s.takes with
  | false =>
    rw [step_of_pushes h]
    exact ⟨fun _ => nofun, fun _ => ⟨rfl, rfl⟩, fun htakes => by simp [h] at htakes⟩
  | true =>
    rw [step_of_takes h]
    obtain ⟨hnone, hsome⟩ := Chunk.take_fst (recent before)
    refine ⟨fun _ => nofun, fun hpushes => by simp [h] at hpushes, fun _ => ⟨rfl, _, rfl, hnone, ?_⟩⟩
    intro c hc
    rw [Chunk.request, Chunk.text, hsome c hc]
    exact ⟨rfl, rfl⟩

/-- Steps on an empty buffer are answered by what was pushed between them, one answer a step and none a failure.  At
every point the chunks taken so far, followed by what is in the buffer, are what was pushed so far, however it was cut.
To take a chunk as the last one of the stream makes no difference at any step.  So a reader has no failures of its own:
each is one of its stream. -/
theorem taken_of_pushes (steps : List Step) :
    (run [] steps).length = steps.length ∧
    (∀ before s behind, steps = before ++ s :: behind →
      ∃ answer rest, (run [] steps)[before.length]? = some (answer, rest) ∧ Accounts before s answer rest) ∧
    (∀ n, ((run [] steps).take n).flatMap (·.1.bytes) ++ left ((run [] steps).take n) =
      (steps.take n).flatMap (·.pushed)) ∧
    (∀ steps', List.Forall₂ Alike steps steps' → run [] steps' = run [] steps) ∧
    ∀ script n fault, .failed fault ∈ Reader.polls n (.ofScript script) → .failed fault ∈ script := by
  refine ⟨length_run [] steps, ?_, ?_, fun steps' h => (run_alike h []).symm, fun _ _ _ => Reader.failed_mem_of_polls⟩
  · rintro before s behind rfl
    refine ⟨_, _, getElem?_run [] before s behind, ?_⟩
    rw [after_nil]
    exact accounts_step before s
  · intro n
    rw [take_run, left_run]
    exact flatMap_taken [] (steps.take n)

end Buffer

end RequestEcho
