import RequestEcho.Fault
import RequestEcho.Http

/-!
# Chunks and buffers

A chunk is what a connection had to give at one time; it is read as a text and the text as a request. `Chunk.take`
empties a buffer into a chunk, so an empty buffer has none and no chunk is empty. At the end of the stream `takeLast`
does the same, and there is nothing that it could find left over (`takeLast_eq`).

Bytes arrive in a buffer in pieces of any size, and chunks are taken out of it. Every step has an answer and leaves a
buffer behind.
-/

namespace RequestEcho

structure Chunk where
  bytes : Bytes
  nonempty : bytes ≠ []
deriving DecidableEq

namespace Chunk

def text (c : Chunk) : Text := Utf8.decodeLossy c.bytes

def request (c : Chunk) : Request := Request.ofText c.text

/-- The chunk that a buffer makes, and what stays in the buffer. -/
def take (buffer : Bytes) : Option Chunk × Bytes :=
  if h : buffer = [] then (none, []) else (some ⟨buffer, h⟩, [])

/-- As `take`, at the end of the stream: bytes that make no chunk now never will. -/
def takeLast (buffer : Bytes) : Except Fault (Option Chunk) × Bytes :=
  match take buffer with
  | (some c, rest) => (.ok (some c), rest)
  | (none, rest) => (if rest = [] then .ok none else .error .bytesRemaining, rest)

theorem take_of_ne_nil {buffer : Bytes} (h : buffer ≠ []) : take buffer = (some ⟨buffer, h⟩, []) := dif_neg h

theorem take_snd (buffer : Bytes) : (take buffer).2 = [] := by
  unfold take
  split <;> rfl

/-- There is no chunk exactly if there are no bytes, and otherwise the chunk is all of them. -/
theorem take_fst (buffer : Bytes) :
    ((take buffer).1 = none ↔ buffer = []) ∧ ∀ c, (take buffer).1 = some c → c.bytes = buffer := by
  by_cases h : buffer = []
  · subst h
    exact ⟨by simp [take], fun c hc => by cases hc⟩
  · rw [take_of_ne_nil h]
    exact ⟨by simp [h], fun c hc => by cases hc; rfl⟩

/-- At the end of the stream no bytes are left over that make no chunk. -/
theorem takeLast_eq (buffer : Bytes) : takeLast buffer = (.ok (take buffer).1, []) := by
  by_cases h : buffer = []
  · subst h
    rfl
  · rw [takeLast, take_of_ne_nil h]

end Chunk

namespace Buffer

inductive Step
  | push (bytes : Bytes)
  | take
  | takeLast
deriving DecidableEq, Repr

inductive Answer
  | pushed
  | taken (chunk : Option Chunk)
  | failed (fault : Fault)
deriving DecidableEq

def step (buffer : Bytes) : Step → Answer × Bytes
  | .push bytes => (.pushed, buffer ++ bytes)
  | .take => (.taken (Chunk.take buffer).1, (Chunk.take buffer).2)
  | .takeLast =>
    match Chunk.takeLast buffer with
    | (.ok chunk, rest) => (.taken chunk, rest)
    | (.error fault, rest) => (.failed fault, rest)

/-- The answers of the steps, each with the buffer that its step leaves. -/
def run : (buffer : Bytes) → List Step → List (Answer × Bytes)
  | _, [] => []
  | buffer, s :: steps => step buffer s :: run (step buffer s).2 steps

end Buffer

end RequestEcho
