import RequestEcho.Buffer

/-!
# Chunks of a stream

A reader polls a scripted stream through a buffer of `capacity` bytes, one read a poll. The chunk of a read is taken out
at once, but its room is not given back until the buffer is full: then the next read begins at the front again. So the
chunks end where the reads end, and wherever the stream has brought a multiple of `capacity` bytes.
-/

namespace RequestEcho

/-- What one read of a stream brings. No bytes mean the end of the stream, for this read. -/
inductive Delivery
  | data (bytes : Bytes)
  | notReady
  | failed (fault : Fault)
deriving DecidableEq, Repr

/-- What one poll of a reader brings. -/
inductive Poll
  | chunk (c : Chunk)
  | notReady
  | ended
  | failed (fault : Fault)
deriving DecidableEq

/-- `script` holds the reads to come, `filled` counts the used bytes of the buffer, and `broken` says that the last poll
failed. -/
structure Reader where
  script : List Delivery
  filled : Nat
  broken : Bool
deriving DecidableEq

namespace Reader

def capacity : Nat := 8192

def ofScript (script : List Delivery) : Reader := ⟨script, 0, false⟩

/-- The reads left when `rest` was not taken from the front one. -/
def unread (rest : Bytes) (script : List Delivery) : List Delivery :=
  if rest = [] then script else .data rest :: script

/-- The poll that finds the end of the stream, with `rest` in the buffer. It looks at the buffer for the last time. -/
def finish (r : Reader) (rest : Bytes) : Poll × Reader :=
  match (Chunk.takeLast rest).1 with
  | .ok (some c) => (.chunk c, r)
  | .ok none => (.ended, r)
  | .error fault => (.failed fault, { r with broken := true })

/-- The end of the stream brings what can still be taken from the buffer, and no failure. -/
theorem finish_eq (r : Reader) (rest : Bytes) : r.finish rest = ((Chunk.take rest).1.elim .ended .chunk, r) := by
  rw [finish, Chunk.takeLast_eq]
  cases (Chunk.take rest).1 <;> rfl

/-- A buffer that has no chunk to give has none at the end. -/
theorem finish_of_take {buffer rest : Bytes} (h : Chunk.take buffer = (none, rest)) (r : Reader) :
    r.finish rest = (.ended, r) := by
  obtain rfl : [] = rest := by rw [← Chunk.take_snd buffer, h]
  rw [finish_eq]
  rfl

theorem finish_snd (r : Reader) (rest : Bytes) : (r.finish rest).2 = r := by rw [finish_eq]

theorem finish_ne_notReady {r s : Reader} {rest : Bytes} : r.finish rest ≠ (.notReady, s) := by
  rw [finish_eq]
  cases (Chunk.take rest).1 <;> simp

/-- A poll after a failure reports the end and reads nothing; any other poll is one read. A script that is used up reads
as the end of the stream. The buffer was emptied when its last chunk was taken. -/
def poll (r : Reader) : Poll × Reader :=
  if r.broken then (.ended, { r with broken := false })
  else match r.script with
  | [] => r.finish []
  | .notReady :: script => (.notReady, { r with script })
  | .failed fault :: script => (.failed fault, { r with script, broken := true })
  | .data bytes :: script =>
    let start := if r.filled = capacity then 0 else r.filled
    let room := capacity - start
    match Chunk.take (bytes.take room) with
    | (none, rest) => finish { r with script } rest
    | (some c, _) =>
      (.chunk c, { r with script := unread (bytes.drop room) script, filled := start + c.bytes.length })

/-- The results of the first `n` polls. -/
def polls : Nat → Reader → List Poll
  | 0, _ => []
  | n + 1, r => r.poll.1 :: polls n r.poll.2

theorem length_script_poll_le (r : Reader) : r.poll.2.script.length ≤ r.script.length := by
  unfold poll unread
  grind [finish_snd]

/-- A poll that is not ready takes one read from the script. -/
theorem length_script_of_notReady {r s : Reader} (h : r.poll = (.notReady, s)) :
    s.script.length < r.script.length := by
  unfold poll at h
  grind [finish_ne_notReady]

/-- The first result that is not `notReady`, and the reader after it. -/
def next (r : Reader) : Poll × Reader :=
  match _h : r.poll with
  | (.notReady, s) => next s
  | result => result
termination_by r.script.length
decreasing_by exact length_script_of_notReady (by assumption)

theorem next_of_notReady {r s : Reader} (h : r.poll = (.notReady, s)) : r.next = s.next := by
  rw [next]
  split <;> simp_all

theorem next_of_ready {r : Reader} (h : r.poll.1 ≠ .notReady) : r.next = r.poll := by
  rw [next]
  split
  · simp_all
  · rfl

theorem next_ne_notReady (r : Reader) : r.next.1 ≠ .notReady := by
  induction r using next.induct with
  | case1 r s hp ih => rwa [next_of_notReady hp]
  | case2 r hp =>
    have hready : r.poll.1 ≠ .notReady := fun h => hp r.poll.2 (by rw [← h])
    rwa [next_of_ready hready]

/-- The results up to the first end, at most `limit` of them, waiting where a poll is not ready. -/
def items : (limit : Nat) → Reader → List Poll
  | 0, _ => []
  | n + 1, r =>
    match r.next with
    | (.ended, _) => []
    | (p, s) => p :: items n s

end Reader

end RequestEcho
