import Mathlib.Data.List.SplitBy
import RequestEcho.Reader

/-!
# The expansion of a script

What a reader brings can be read off its script without running it: `expand` turns every read into results of its own,
knowing no more of the reads before it than how many bytes they have brought.

* The data of a read is cut where the stream has brought a multiple of `capacity` bytes (`pieces`), and nowhere else.
* A reader whose buffer stands at a position follows an offset with the same remainder (`Follows`).  Every poll brings
  the first result of what lies ahead and leaves the rest ahead (`poll_follows`), so `n` polls bring the first `n`
  results of the expansion.
* Hence the frames are the reads, cut at the multiples of `capacity` (`mem_ends_frames`).
-/

namespace RequestEcho

namespace Reader

/-! ### Pieces of a read -/

/-- The pieces of the bytes that a stream brings from `offset` on: a new piece begins with the byte at each multiple of
the capacity. -/
def pieces (offset : Nat) (bytes : Bytes) : List Bytes :=
  ((bytes.zipIdx offset).splitBy fun _ b => b.2 % capacity ≠ 0).map (·.map Prod.fst)

/-- How many bytes there are from `offset` to the next multiple of the capacity. -/
def room (offset : Nat) : Nat := capacity - offset % capacity

theorem room_pos (offset : Nat) : 0 < room offset := by
  unfold room capacity
  omega

theorem room_le (offset : Nat) : room offset ≤ capacity := Nat.sub_le _ _

theorem capacity_dvd_add_room (offset : Nat) : capacity ∣ offset + room offset := by
  unfold room capacity
  omega

@[simp] theorem pieces_nil (offset : Nat) : pieces offset [] = [] := rfl

theorem flatten_pieces (offset : Nat) (bytes : Bytes) : (pieces offset bytes).flatten = bytes := by
  rw [pieces, ← List.map_flatten, List.flatten_splitBy, List.zipIdx_map_fst]

/-- A stretch of bytes with no multiple of the capacity behind its first one is not cut. -/
private theorem isChain_zipIdx (bytes : Bytes) (offset : Nat)
    (h : ∀ i, offset < i → i < offset + bytes.length → i % capacity ≠ 0) :
    (bytes.zipIdx offset).IsChain fun _ b => (decide (b.2 % capacity ≠ 0)) = true := by
  induction bytes generalizing offset with
  | nil => exact List.isChain_nil
  | cons a bytes ih =>
    cases bytes with
    | nil => exact List.isChain_singleton _
    | cons b bytes =>
      rw [List.zipIdx_cons, List.zipIdx_cons, List.isChain_cons_cons, ← List.zipIdx_cons]
      simp only [List.length_cons] at h
      refine ⟨by simpa using h (offset + 1) (by omega) (by omega), ih (offset + 1) ?_⟩
      intro i hi hlt
      simp only [List.length_cons] at hlt
      exact h i (by omega) (by omega)

/-- The first piece of a read reaches to the next multiple of the capacity. -/
theorem pieces_of_ne_nil (offset : Nat) {bytes : Bytes} (h : bytes ≠ []) :
    pieces offset bytes =
      bytes.take (room offset) :: pieces (offset + room offset) (bytes.drop (room offset)) := by
  have hfirst : ((bytes.take (room offset)).zipIdx offset).splitBy (fun _ b => b.2 % capacity ≠ 0) =
      [(bytes.take (room offset)).zipIdx offset] := by
    apply List.splitBy_of_isChain
    · have := room_pos offset
      simp [h]
      omega
    · apply isChain_zipIdx
      intro i hi hlt
      have := List.length_take_le (room offset) bytes
      simp only [room, capacity] at *
      omega
  have hsplit : (bytes.zipIdx offset).splitBy (fun _ b => b.2 % capacity ≠ 0) =
      (bytes.take (room offset)).zipIdx offset ::
        ((bytes.drop (room offset)).zipIdx (offset + room offset)).splitBy (fun _ b => b.2 % capacity ≠ 0) := by
    by_cases hrest : bytes.drop (room offset) = []
    · have hall : bytes.take (room offset) = bytes := List.take_of_length_le (List.drop_eq_nil_iff.1 hrest)
      rw [hall] at hfirst ⊢
      rw [hfirst, hrest]
      rfl
    · have hlen : (bytes.take (room offset)).length = room offset :=
        List.length_take_of_le (Nat.le_of_lt (List.length_lt_of_drop_ne_nil hrest))
      -- the rest begins at a multiple of the capacity, so the cut before it is one that `splitBy` makes
      conv => lhs; rw [← List.take_append_drop (room offset) bytes]
      rw [List.zipIdx_append, hlen, List.splitBy_append, hfirst]
      · rfl
      · intro x _ y hy
        obtain ⟨b, rest, hb⟩ := List.exists_cons_of_ne_nil hrest
        rw [hb, List.zipIdx_cons] at hy
        obtain rfl : (b, offset + room offset) = y := by simpa using hy
        simpa using Nat.mod_eq_zero_of_dvd (capacity_dvd_add_room offset)
  rw [pieces, hsplit, List.map_cons, List.zipIdx_map_fst]
  rfl

/-- What holds of no bytes, and of all bytes when it holds of those behind the first piece, holds of every read. -/
theorem pieces_induct {motive : Nat → Bytes → Prop} (nil : ∀ offset, motive offset [])
    (cut : ∀ offset bytes, bytes ≠ [] → motive (offset + room offset) (bytes.drop (room offset)) → motive offset bytes)
    (offset : Nat) (bytes : Bytes) : motive offset bytes := by
  by_cases h : bytes = []
  · rw [h]
    exact nil offset
  · exact cut offset bytes h (pieces_induct nil cut _ _)
termination_by bytes.length
decreasing_by
  have := room_pos offset
  have := List.length_pos_iff.2 h
  simp
  omega

theorem ne_nil_of_mem_pieces {offset : Nat} {bytes piece : Bytes} (h : piece ∈ pieces offset bytes) : piece ≠ [] := by
  obtain ⟨part, hpart, rfl⟩ := List.mem_map.1 h
  simpa using List.ne_nil_of_mem_splitBy hpart

theorem length_le_of_mem_pieces {offset : Nat} {bytes piece : Bytes} (h : piece ∈ pieces offset bytes) :
    piece.length ≤ capacity := by
  induction offset, bytes using pieces_induct with
  | nil offset => simp at h
  | cut offset bytes hne ih =>
    rw [pieces_of_ne_nil offset hne] at h
    rcases List.mem_cons.1 h with rfl | h
    · exact (List.length_take_le _ _).trans (room_le offset)
    · exact ih h

/-- The offsets at which the given stretches of a stream end, of which the first begins at `offset`. -/
def ends : (offset : Nat) → List Bytes → List Nat
  | _, [] => []
  | offset, bytes :: more => (offset + bytes.length) :: ends (offset + bytes.length) more

theorem le_of_mem_ends {offset k : Nat} {stretches : List Bytes} (h : k ∈ ends offset stretches) : offset ≤ k := by
  induction stretches generalizing offset with
  | nil => simp [ends] at h
  | cons bytes more ih =>
    rcases List.mem_cons.1 h with rfl | h
    · exact Nat.le_add_right _ _
    · exact (Nat.le_add_right _ _).trans (ih h)

theorem ends_append (offset : Nat) (first more : List Bytes) :
    ends offset (first ++ more) = ends offset first ++ ends (offset + first.flatten.length) more := by
  induction first generalizing offset with
  | nil => simp [ends]
  | cons bytes first ih => simp [ends, ih, Nat.add_assoc]

/-- The pieces of a read end where the read ends and at the multiples of the capacity. -/
theorem mem_ends_pieces (offset k : Nat) (bytes : Bytes) :
    k ∈ ends offset (pieces offset bytes) ↔
      (bytes ≠ [] ∧ k = offset + bytes.length) ∨ (offset < k ∧ k ≤ offset + bytes.length ∧ capacity ∣ k) := by
  induction offset, bytes using pieces_induct with
  | nil offset =>
    simp [ends]
    omega
  | cut offset bytes hne ih =>
    rw [pieces_of_ne_nil offset hne, ends, List.mem_cons]
    have hlen := List.length_take (i := room offset) (l := bytes)
    by_cases hrest : bytes.drop (room offset) = []
    · have hle : bytes.length ≤ room offset := by simpa using hrest
      rw [hrest, pieces_nil, hlen]
      simp only [ends, hne, ne_eq, not_false_eq_true, true_and, List.not_mem_nil, or_false]
      simp only [room, capacity] at hle ⊢
      omega
    · have hlt : room offset < bytes.length := by simpa using hrest
      rw [show (bytes.take (room offset)).length = room offset by omega, ih]
      simp only [hne, hrest, ne_eq, not_false_eq_true, true_and, List.length_drop]
      simp only [room, capacity] at hlt ⊢
      omega

/-! ### The results that a script holds -/

/-- What a poll brings that takes exactly these bytes out of the buffer. -/
def result (bytes : Bytes) : Poll :=
  if h : bytes = [] then .ended else .chunk ⟨bytes, h⟩

theorem result_of_ne_nil {bytes : Bytes} (h : bytes ≠ []) : result bytes = .chunk ⟨bytes, h⟩ := dif_neg h

/-- The results of all the reads of a script that begins at `offset` of its stream. -/
def expand : (offset : Nat) → List Delivery → List Poll
  | _, [] => []
  | offset, .notReady :: script => .notReady :: expand offset script
  | offset, .failed fault :: script => .failed fault :: .ended :: expand offset script
  | offset, .data bytes :: script =>
    (if bytes = [] then [.ended] else (pieces offset bytes).map result) ++ expand (offset + bytes.length) script

/-- The first result of a read is its first piece; the rest of the read is as good as a read of its own. -/
theorem expand_data (offset : Nat) {bytes : Bytes} (hne : bytes ≠ []) (script : List Delivery) :
    expand offset (.data bytes :: script) = result (bytes.take (room offset)) ::
      expand (offset + (bytes.take (room offset)).length) (unread (bytes.drop (room offset)) script) := by
  have hpieces := pieces_of_ne_nil offset hne
  by_cases hrest : bytes.drop (room offset) = []
  · have hall : bytes.take (room offset) = bytes := List.take_of_length_le (List.drop_eq_nil_iff.1 hrest)
    rw [hrest, pieces_nil] at hpieces
    rw [expand, if_neg hne, hpieces, hrest, hall]
    rfl
  · -- what is left begins a read of its own, at the offset where the first piece ends
    have hlt := List.length_lt_of_drop_ne_nil hrest
    have hlen : (bytes.take (room offset)).length = room offset := List.length_take_of_le (Nat.le_of_lt hlt)
    have hcount : offset + room offset + (bytes.drop (room offset)).length = offset + bytes.length := by
      rw [List.length_drop]
      omega
    rw [expand, if_neg hne, hpieces, hlen, unread, if_neg hrest, expand, if_neg hrest, hcount]
    rfl

/-- The results that lie ahead of a reader that has taken `offset` bytes from its stream. -/
def ahead (r : Reader) (offset : Nat) : List Poll :=
  if r.broken then .ended :: expand offset r.script else expand offset r.script

/-- The buffer of a reader stands where `offset` bytes leave it. -/
structure Follows (r : Reader) (offset : Nat) : Prop where
  filled_le : r.filled ≤ capacity
  filled_mod : r.filled % capacity = offset % capacity

theorem follows_ofScript (script : List Delivery) : Follows (ofScript script) 0 := ⟨Nat.zero_le _, rfl⟩

/-- Where a read begins to fill the buffer. -/
theorem Follows.start_eq {r : Reader} {offset : Nat} (h : Follows r offset) :
    (if r.filled = capacity then 0 else r.filled) = offset % capacity := by
  have hle := h.filled_le
  have hmod := h.filled_mod
  unfold capacity at *
  split <;> omega

theorem poll_data {r : Reader} {offset : Nat} (h : Follows r offset) (hb : r.broken = false) {bytes : Bytes}
    {script : List Delivery} (hs : r.script = .data bytes :: script) (hne : bytes ≠ []) :
    r.poll = (result (bytes.take (room offset)),
      { r with script := unread (bytes.drop (room offset)) script,
               filled := offset % capacity + (bytes.take (room offset)).length }) := by
  have hpos := room_pos offset
  have hpiece : bytes.take (room offset) ≠ [] := by
    simp [hne]
    omega
  have htake : Chunk.take (bytes.take (room offset)) = (some ⟨_, hpiece⟩, []) := dif_neg hpiece
  unfold poll
  simp only [hb, hs, h.start_eq, Bool.false_eq_true, if_false]
  rw [show capacity - offset % capacity = room offset from rfl, htake, result_of_ne_nil hpiece]

/-- A poll brings the first result of those ahead and leaves the others ahead; when there are none, it brings an end. -/
theorem poll_follows {r : Reader} {offset : Nat} (h : Follows r offset) :
    (∃ offset', Follows r.poll.2 offset' ∧ r.ahead offset = r.poll.1 :: r.poll.2.ahead offset') ∨
      (r.ahead offset = [] ∧ r.poll = (.ended, r)) := by
  obtain ⟨script, filled, broken⟩ := r
  cases broken with
  | true => exact .inl ⟨offset, ⟨h.filled_le, h.filled_mod⟩, rfl⟩
  | false =>
    cases script with
    | nil => exact .inr ⟨rfl, rfl⟩
    | cons d script =>
      left
      cases d with
      | notReady => exact ⟨offset, ⟨h.filled_le, h.filled_mod⟩, rfl⟩
      | failed fault => exact ⟨offset, ⟨h.filled_le, h.filled_mod⟩, rfl⟩
      | data bytes =>
        by_cases hne : bytes = []
        · subst hne
          have hpoll : poll ⟨.data [] :: script, filled, false⟩ = (.ended, ⟨script, filled, false⟩) := by
            simp [poll, finish_eq, Chunk.take]
          rw [hpoll]
          exact ⟨offset, ⟨h.filled_le, h.filled_mod⟩, rfl⟩
        · -- the buffer has room up to the next multiple of the capacity, which is one piece
          rw [poll_data h rfl rfl hne]
          refine ⟨offset + (bytes.take (room offset)).length, ⟨?_, ?_⟩, expand_data offset hne script⟩
          · have hmod := Nat.mod_lt offset (show 0 < capacity by decide)
            have hlen := List.length_take_le (room offset) bytes
            simp only [room] at hlen ⊢
            omega
          · exact Nat.mod_add_mod offset capacity _

/-- The results of polling are those that lie ahead, in order, and after them nothing but ends. -/
theorem polls_follows {r : Reader} {offset : Nat} (h : Follows r offset) (n : Nat) :
    polls n r = (r.ahead offset ++ List.replicate n Poll.ended).take n := by
  induction n generalizing r offset with
  | zero => rfl
  | succ n ih =>
    rcases poll_follows h with ⟨offset', hnext, hahead⟩ | ⟨hahead, hpoll⟩
    · rw [polls, ih hnext, hahead]
      simp [List.take_append, List.take_replicate]
      omega
    · rw [polls, hpoll, ih h, hahead]
      simp [List.replicate_succ]

/-! ### Frames -/

end Reader

/-- The frame that a result holds. -/
def Poll.bytes? : Poll → Option Bytes
  | chunk c => some c.bytes
  | _ => none

/-- The data that a read brings. -/
def Delivery.bytes? : Delivery → Option Bytes
  | data bytes => some bytes
  | _ => none

/-- A read after which the stream is reported to have ended. -/
def Delivery.isEnd : Delivery → Bool
  | data bytes => bytes.isEmpty
  | notReady => false
  | failed _ => true

namespace Reader

def frames (ps : List Poll) : List Bytes := ps.filterMap (·.bytes?)

/-- The data of the reads of a script. -/
def brought (script : List Delivery) : List Bytes := script.filterMap (·.bytes?)

theorem frames_append (ps qs : List Poll) : frames (ps ++ qs) = frames ps ++ frames qs := List.filterMap_append

theorem frames_map_result {pieces : List Bytes} (h : ∀ piece ∈ pieces, piece ≠ []) :
    frames (pieces.map result) = pieces := by
  induction pieces with
  | nil => rfl
  | cons piece pieces ih =>
    have hpiece := h piece List.mem_cons_self
    have hrest := ih fun p hp => h p (List.mem_cons_of_mem _ hp)
    rw [List.map_cons, result_of_ne_nil hpiece]
    exact congrArg (piece :: ·) hrest

/-- The frames of a read are its pieces. -/
theorem frames_expand_data (offset : Nat) (bytes : Bytes) (script : List Delivery) :
    frames (expand offset (.data bytes :: script)) =
      pieces offset bytes ++ frames (expand (offset + bytes.length) script) := by
  rw [expand, frames_append]
  by_cases h : bytes = []
  · rw [if_pos h, h]
    rfl
  · rw [if_neg h, frames_map_result fun piece => ne_nil_of_mem_pieces]

theorem length_of_mem_frames {offset : Nat} {script : List Delivery} {frame : Bytes}
    (h : frame ∈ frames (expand offset script)) : 1 ≤ frame.length ∧ frame.length ≤ capacity := by
  induction script generalizing offset with
  | nil => simp [expand, frames] at h
  | cons d script ih =>
    cases d with
    | notReady => exact ih h
    | failed fault => exact ih h
    | data bytes =>
      rw [frames_expand_data, List.mem_append] at h
      rcases h with h | h
      · exact ⟨List.length_pos_iff.2 (ne_nil_of_mem_pieces h), length_le_of_mem_pieces h⟩
      · exact ih h

theorem flatten_frames (offset : Nat) (script : List Delivery) :
    (frames (expand offset script)).flatten = (brought script).flatten := by
  induction script generalizing offset with
  | nil => rfl
  | cons d script ih =>
    cases d with
    | notReady => exact ih offset
    | failed fault => exact ih offset
    | data bytes =>
      rw [frames_expand_data, List.flatten_append, flatten_pieces, ih]
      rfl

/-- Frames end where reads end and at the multiples of the capacity, and nowhere else. -/
theorem mem_ends_frames {offset k : Nat} (script : List Delivery) (hk : offset < k) :
    k ∈ ends offset (frames (expand offset script)) ↔
      k ∈ ends offset (brought script) ∨ (capacity ∣ k ∧ k ≤ offset + (brought script).flatten.length) := by
  induction script generalizing offset with
  | nil =>
    simp [expand, frames, brought, ends]
    omega
  | cons d script ih =>
    cases d with
    | notReady => exact ih hk
    | failed fault => exact ih hk
    | data bytes =>
      have hbrought : brought (.data bytes :: script) = bytes :: brought script := rfl
      rw [frames_expand_data, ends_append, List.mem_append, flatten_pieces, mem_ends_pieces, hbrought, ends,
        List.mem_cons, List.flatten_cons, List.length_append, ← Nat.add_assoc]
      by_cases hlt : offset + bytes.length < k
      · have hne : k ≠ offset + bytes.length := by omega
        have hnot : ¬ k ≤ offset + bytes.length := by omega
        rw [ih hlt]
        simp [hne, hnot]
      · -- what follows this read ends no earlier than the read itself
        have hlater : ∀ stretches, k ∈ ends (offset + bytes.length) stretches → k = offset + bytes.length := by
          intro stretches h
          have := le_of_mem_ends h
          omega
        have hbytes : k = offset + bytes.length → bytes ≠ [] := by
          rintro rfl rfl
          simp at hk
        constructor
        · rintro ((⟨-, h⟩ | ⟨-, h, hdvd⟩) | h)
          · exact .inl (.inl h)
          · exact .inr ⟨hdvd, by omega⟩
          · exact .inl (.inl (hlater _ h))
        · rintro ((h | h) | ⟨hdvd, -⟩)
          · exact .inl (.inl ⟨hbytes h, h⟩)
          · exact .inl (.inl ⟨hbytes (hlater _ h), hlater _ h⟩)
          · exact .inl (.inr ⟨hk, by omega, hdvd⟩)

/-- The end is reported for reads that bring nothing and after failures, and for no other read. -/
theorem count_ended_expand (offset : Nat) (script : List Delivery) :
    (expand offset script).count .ended = script.countP (·.isEnd) := by
  induction script generalizing offset with
  | nil => rfl
  | cons d script ih =>
    cases d with
    | notReady => simpa [expand, Delivery.isEnd] using ih offset
    | failed fault => simpa [expand, Delivery.isEnd] using ih offset
    | data bytes =>
      by_cases h : bytes = []
      · simpa [expand, Delivery.isEnd, h] using ih offset
      · have hpieces : ((pieces offset bytes).map result).count .ended = 0 := by
          rw [List.count_eq_zero, List.mem_map]
          rintro ⟨piece, hpiece, hresult⟩
          rw [result_of_ne_nil (ne_nil_of_mem_pieces hpiece)] at hresult
          cases hresult
        simp [expand, Delivery.isEnd, h, hpieces, ih]

/-- The results of polling a reader are the expansion of its script, followed by ends for ever.  The frames among them
have from one byte to the capacity of the buffer, hold all the data in order, and end exactly where a read ends or the
stream has brought a multiple of the capacity; and the end is reported no more often than the script says. -/
theorem polls_eq_expansion (script : List Delivery) :
    (∀ n, polls n (ofScript script) = (expand 0 script ++ List.replicate n Poll.ended).take n) ∧
    (∀ frame ∈ frames (expand 0 script), 1 ≤ frame.length ∧ frame.length ≤ capacity) ∧
    (frames (expand 0 script)).flatten = (brought script).flatten ∧
    (∀ k, 0 < k → (k ∈ ends 0 (frames (expand 0 script)) ↔
      k ∈ ends 0 (brought script) ∨ (capacity ∣ k ∧ k ≤ (brought script).flatten.length))) ∧
    (expand 0 script).count .ended = script.countP (·.isEnd) := by
  refine ⟨fun n => polls_follows (follows_ofScript script) n, fun _ => length_of_mem_frames,
    flatten_frames 0 script, fun k hk => ?_, count_ended_expand 0 script⟩
  have hends := mem_ends_frames script hk
  rwa [Nat.zero_add] at hends

end Reader

end RequestEcho
