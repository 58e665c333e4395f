import RequestEcho.Reader

/-!
# Waiting leaves no trace in a reader

A reader whose stream is never late brings what the reader brings that has to wait, without the waiting.

* A poll that is not ready is a step of the late reader alone (`prompt_of_notReady`), and every other poll is a step of
  both (`poll_prompt`).
* So both bring the same items (`items_prompt`), and the results of `n` polls are, but for those that are not ready, the
  first results of the reader that is never late (`filter_polls_prefix`).
-/

namespace RequestEcho

namespace Reader

/-- The same reader of a stream that is never late. -/
def prompt (r : Reader) : Reader := { r with script := r.script.filter (· ≠ .notReady) }

theorem prompt_ofScript (script : List Delivery) :
    (ofScript script).prompt = ofScript (script.filter (· ≠ .notReady)) := rfl

theorem filter_unread (rest : Bytes) (script : List Delivery) :
    (unread rest script).filter (· ≠ .notReady) = unread rest (script.filter (· ≠ .notReady)) := by
  unfold unread
  split <;> rfl

/-- A poll that is not ready takes the delay off the stream, and nothing else. -/
theorem prompt_of_notReady {r s : Reader} (h : r.poll = (.notReady, s)) : s.prompt = r.prompt := by
  obtain ⟨script, filled, broken⟩ := r
  unfold poll at h
  cases broken with
  | true => cases h
  | false =>
    cases script with
    | nil => cases h
    | cons d script =>
      cases d with
      | notReady =>
        cases h
        rfl
      | failed fault => cases h
      | data bytes =>
        simp only [Bool.false_eq_true, if_false] at h
        split at h
        · exact absurd h finish_ne_notReady
        · cases h

/-- A stream is as long as it is without what is late, and the reads that are late. -/
theorem length_script_eq (r : Reader) : r.script.length = r.prompt.script.length + r.script.count .notReady := by
  have hlength := List.length_eq_countP_add_countP (· ≠ Delivery.notReady) (l := r.script)
  have hlate : r.script.countP (fun d => ¬ decide (d ≠ .notReady) = true) = r.script.count .notReady :=
    List.countP_congr fun d _ => by simp
  rw [hlength, hlate, List.countP_eq_length_filter]
  rfl

/-- A poll that is not ready takes a late read off the stream. -/
theorem count_notReady_lt {r s : Reader} (h : r.poll = (.notReady, s)) :
    s.script.count .notReady < r.script.count .notReady := by
  have hprompt := prompt_of_notReady h
  have hless := length_script_of_notReady h
  rw [length_script_eq s, length_script_eq r, hprompt] at hless
  omega

theorem poll_prompt {r : Reader} (h : r.poll.1 ≠ .notReady) : r.prompt.poll = (r.poll.1, r.poll.2.prompt) := by
  obtain ⟨script, filled, broken⟩ := r
  cases broken with
  | true => rfl
  | false =>
    cases script with
    | nil => rfl
    | cons d script =>
      cases d with
      | notReady => exact absurd rfl h
      | failed fault => rfl
      | data bytes =>
        have hscript : (Delivery.data bytes :: script).filter (· ≠ .notReady) =
            .data bytes :: script.filter (· ≠ .notReady) := rfl
        unfold poll prompt
        simp only [Bool.false_eq_true, if_false, hscript]
        split
        · rename_i rest htake
          rw [finish_of_take htake, finish_of_take htake]
        · simp only [filter_unread]

theorem next_prompt (r : Reader) : r.prompt.next = (r.next.1, r.next.2.prompt) := by
  induction r using next.induct with
  | case1 r s hp ih => rw [next_of_notReady hp, ← prompt_of_notReady hp, ih]
  | case2 r hp =>
    have hready : r.poll.1 ≠ .notReady := fun h => hp r.poll.2 (by rw [← h])
    have hprompt := poll_prompt hready
    rw [next_of_ready hready, next_of_ready (by rwa [hprompt]), hprompt]

/-- What a reader goes on to bring does not depend on how long it has to wait for it. -/
theorem items_prompt (limit : Nat) (r : Reader) : items limit r.prompt = items limit r := by
  induction limit generalizing r with
  | zero => rfl
  | succ limit ih =>
    unfold items
    rw [next_prompt]
    cases r.next with
    | mk p s => cases p <;> simp [ih]

theorem polls_prefix_succ (n : Nat) (r : Reader) : polls n r <+: polls (n + 1) r := by
  induction n generalizing r with
  | zero => exact List.nil_prefix
  | succ n ih => exact List.cons_prefix_cons.2 ⟨rfl, ih r.poll.2⟩

/-- The results of polling, without those that are not ready, are the first results of the stream that is never late. -/
theorem filter_polls_prefix (n : Nat) (r : Reader) : (polls n r).filter (· ≠ .notReady) <+: polls n r.prompt := by
  induction n generalizing r with
  | zero => exact List.nil_prefix
  | succ n ih =>
    by_cases h : r.poll.1 = .notReady
    · have hprompt : r.poll.2.prompt = r.prompt := prompt_of_notReady (by rw [← h])
      rw [polls, h]
      exact (hprompt ▸ ih r.poll.2).trans (polls_prefix_succ n r.prompt)
    · have hprompt := poll_prompt h
      rw [polls, polls, hprompt, List.filter_cons_of_pos (by simpa using h)]
      exact List.cons_prefix_cons.2 ⟨rfl, ih r.poll.2⟩

end Reader

end RequestEcho
