import RequestEcho.Proofs.Chunk.Decided
import RequestEcho.Proofs.Connection.Delivery
import RequestEcho.Proofs.Reader.Expansion

/-!
# Segmentation of the stream

How the transport cuts the bytes of a client is of no consequence once the first frame decides the request.

* The first item of a stream is the first frame of its first read (`Reader.next_of_firstFrame`), and all that a
  connection does on the writing side follows from the path in it (`run_of_path_eq`).
* Two frames at the beginning of one stream that both decide their request ask for the same (`request_eq_of_prefix`), so
  the connections cannot be told apart by what they send (`same_conduct_of_decided`).
-/

namespace RequestEcho

/-- The first read that is ready brings data, of which the buffer takes `frame`. -/
def Reader.FirstFrame (reads : List Delivery) (frame : Bytes) : Prop :=
  ∃ bytes, reads.find? (· ≠ .notReady) = some (.data bytes) ∧ frame = bytes.take Reader.capacity

theorem Reader.next_of_firstFrame {reads : List Delivery} {frame : Bytes} (h : FirstFrame reads frame)
    (hne : frame ≠ []) : (ofScript reads).next.1 = .chunk ⟨frame, hne⟩ := by
  obtain ⟨bytes, hfind, rfl⟩ := h
  induction reads with
  | nil => cases hfind
  | cons d reads ih =>
    by_cases hd : d = .notReady
    · subst hd
      have hpoll : (ofScript (.notReady :: reads)).poll = (.notReady, ofScript reads) := rfl
      rw [next_of_notReady hpoll]
      exact ih (by simpa using hfind)
    · rw [List.find?_cons_of_pos (by simpa using hd)] at hfind
      obtain rfl := Option.some.inj hfind
      have hbytes : bytes ≠ [] := fun hnil => hne (by rw [hnil]; rfl)
      have hpoll := poll_data (follows_ofScript (.data bytes :: reads)) rfl rfl hbytes
      have hroom : room 0 = capacity := rfl
      rw [hroom, result_of_ne_nil hne] at hpoll
      rw [next_of_ready (by simp [hpoll]), hpoll]

/-- Of two beginnings of one stream the longer one adds nothing to what the shorter one decides. -/
theorem Chunk.request_eq_of_prefix {frame₁ frame₂ stream : Bytes} (h₁ : frame₁ <+: stream) (h₂ : frame₂ <+: stream)
    (hdecided₁ : Decided frame₁) (hdecided₂ : Decided frame₂) :
    (Chunk.mk frame₁ hdecided₁.ne_nil).request.path = (Chunk.mk frame₂ hdecided₂.ne_nil).request.path := by
  have htoken : token? frame₁ = token? frame₂ := by
    rcases List.prefix_or_prefix_of_prefix h₁ h₂ with ⟨more, rfl⟩ | ⟨more, rfl⟩
    · exact (token?_append hdecided₁ more).symm
    · exact token?_append hdecided₂ more
  rw [request_path, request_path, htoken]

namespace Connection

/-- What happens on the writing side, and how the run ends, follows from the path in the first item of the stream. -/
theorem run_of_path_eq {reads₁ reads₂ : List Delivery} {c₁ c₂ : Chunk}
    (h₁ : (Reader.ofScript reads₁).next.1 = .chunk c₁) (h₂ : (Reader.ofScript reads₂).next.1 = .chunk c₂)
    (hpath : c₁.request.path = c₂.request.path) (writes : List Acceptance) (flushes shutdowns : List Completion) :
    let run₁ := (opened reads₁ writes flushes shutdowns).run
    let run₂ := (opened reads₂ writes flushes shutdowns).run
    run₁.2.outcome? = run₂.2.outcome? ∧ calls run₁.1 = calls run₂.1 ∧ output run₁.1 = output run₂.1 := by
  -- the runs differ in the reader alone, which the sending connection leaves as it is
  have hreader := run_withReader ⟨.sending (Response.ofPath c₂.request.path).encode, (Reader.ofScript reads₂).next.2,
    writes, flushes, shutdowns⟩ (by simp) (Reader.ofScript reads₁).next.2
  simp only at hreader
  intro run₁ run₂
  simp only [run₁, run₂, run_of_chunk h₁, run_of_chunk h₂, hpath, hreader, calls_logged, output_logged, and_true]
  rfl

/-- The bytes in a buffer decide the request exactly if they hold a line end or two spaces: then nothing that is put
behind them changes it, and otherwise something does.  So two connections whose first frames are beginnings of one
stream and decide the request have the same outcome, make the same calls and send the same bytes while the writing side
is answered alike, whatever else either of them reads. -/
theorem same_conduct_of_decided :
    (∀ bytes, (∀ more, (Chunk.take (bytes ++ more)).1.map Chunk.request = (Chunk.take bytes).1.map Chunk.request) ↔
      Chunk.Decided bytes) ∧
    ∀ reads₁ reads₂ frame₁ frame₂ stream writes flushes shutdowns,
      Reader.FirstFrame reads₁ frame₁ → Reader.FirstFrame reads₂ frame₂ →
      frame₁ <+: stream → frame₂ <+: stream → Chunk.Decided frame₁ → Chunk.Decided frame₂ →
      let run₁ := (opened reads₁ writes flushes shutdowns).run
      let run₂ := (opened reads₂ writes flushes shutdowns).run
      run₁.2.outcome? = run₂.2.outcome? ∧ calls run₁.1 = calls run₂.1 ∧ output run₁.1 = output run₂.1 := by
  refine ⟨Chunk.request_append_eq_iff, ?_⟩
  intro reads₁ reads₂ frame₁ frame₂ stream writes flushes shutdowns hfirst₁ hfirst₂ h₁ h₂ hdecided₁ hdecided₂
  have hpath := Chunk.request_eq_of_prefix h₁ h₂ hdecided₁ hdecided₂
  exact run_of_path_eq (Reader.next_of_firstFrame hfirst₁ hdecided₁.ne_nil)
    (Reader.next_of_firstFrame hfirst₂ hdecided₂.ne_nil) hpath writes flushes shutdowns

/-- A cut in the middle of a character, with more to come, and no cut. -/
theorem same_conduct_of_cut_in_character :
    let run₁ := (opened [.notReady, .data [0x47, 0x20, 0x2F, 0x20, 0xC3], .data [0xA9]] [] [] []).run
    let run₂ := (opened [.data [0x47, 0x20, 0x2F, 0x20, 0xC3, 0xA9, 0x0D, 0x0A]] [] [] []).run
    run₁.2.outcome? = run₂.2.outcome? ∧ calls run₁.1 = calls run₂.1 ∧ output run₁.1 = output run₂.1 :=
  same_conduct_of_decided.2 [.notReady, .data [0x47, 0x20, 0x2F, 0x20, 0xC3], .data [0xA9]]
    [.data [0x47, 0x20, 0x2F, 0x20, 0xC3, 0xA9, 0x0D, 0x0A]] [0x47, 0x20, 0x2F, 0x20, 0xC3]
    [0x47, 0x20, 0x2F, 0x20, 0xC3, 0xA9, 0x0D, 0x0A] [0x47, 0x20, 0x2F, 0x20, 0xC3, 0xA9, 0x0D, 0x0A] [] [] []
    ⟨_, rfl, rfl⟩ ⟨_, rfl, rfl⟩ (by decide) (by decide) (by decide) (by decide)

end Connection

end RequestEcho
