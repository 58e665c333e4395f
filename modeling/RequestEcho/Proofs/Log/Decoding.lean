import RequestEcho.Log.Event
import RequestEcho.Proofs.Connection.FirstItem
import RequestEcho.Proofs.Text.Quoted

/-!
# What is logged about a chunk

A client decides what its chunk is read as, and the text is logged.  As it is quoted, no text breaks the message or
takes on the look of another (`decoding_faithful`).
-/

namespace RequestEcho

namespace Log

open Quoted (IsControl Bare isHidden quoteBy unquote?)

def decodingHeading : Text := "Decoding chunk: ".toList

/-- The message about a chunk that is read as `t`, where `hidden` are the characters to be written by code points. -/
def decoding (hidden : Char → Bool) (t : Text) : Text := decodingHeading ++ quoteBy hidden t

variable {hidden : Char → Bool} {t before after : Text} {e : Event}

theorem visible_of_not_isControl {c : Char} (h : ¬ IsControl c) : visible c = [c] := by
  unfold IsControl at h
  unfold visible
  have hhigh : ('\u0080' ≤ c ∧ c ≤ '\u009f') ↔ (0x80 ≤ c.toNat ∧ c.toNat ≤ 0x9F) := Iff.rfl
  split_ifs with hescape hbell hback hfeed hdelete hcontrol
  · exact absurd (.inl (by rw [hescape]; decide)) h
  · exact absurd (.inl (by rw [hbell]; decide)) h
  · exact absurd (.inl (by rw [hback]; decide)) h
  · exact absurd (.inl (by rw [hfeed]; decide)) h
  · exact absurd (.inr (by rw [hdelete]; decide)) h
  · have hrange := hhigh.1 hcontrol
    exact absurd (.inr (by omega)) h
  · rfl

theorem flatMap_visible (h : ∀ c ∈ t, ¬ IsControl c) : t.flatMap visible = t := by
  induction t with
  | nil => rfl
  | cons c t ih =>
    rw [List.flatMap_cons, visible_of_not_isControl (h c List.mem_cons_self),
      ih fun d hd => h d (List.mem_cons_of_mem c hd), List.singleton_append]

theorem not_isControl_of_mem_decoding (h : ∀ c, IsControl c → hidden c = true) (t : Text) :
    ∀ d ∈ decoding hidden t, ¬ IsControl d := by
  intro d hd
  rcases List.mem_append.1 hd with hheading | hquoted
  · -- a statement about all characters in a list would be decided character by character, through all of them
    have hletters : (decodingHeading.all fun d => decide ¬ IsControl d) = true := by decide
    exact of_decide_eq_true (List.all_eq_true.1 hletters d hheading)
  · exact Quoted.not_isControl_of_mem_quoteBy h t d hquoted

theorem bare_iff_of_decoding (h : ∀ c, IsControl c → hidden c = true)
    (heq : decoding hidden t = before ++ '"' :: after) :
    Bare before ↔ before = decodingHeading ∨ after = [] := by
  have hquote : '"' ∉ decodingHeading := by decide
  have hbare : Bare decodingHeading := ⟨0, rfl⟩
  exact Quoted.bare_iff_of_eq h hquote hbare heq

theorem unquote?_decoding (h : ∀ c, IsControl c → hidden c = true) (t rest : Text) :
    unquote? ((decoding hidden t ++ rest).drop decodingHeading.length) = some (t, rest) := by
  rw [decoding, List.append_assoc, List.drop_left]
  exact Quoted.unquote?_quoteBy h t rest

theorem decoding_injective (h : ∀ c, IsControl c → hidden c = true) {t t' : Text}
    (heq : decoding hidden t = decoding hidden t') : t = t' := by
  have ht := unquote?_decoding h t []
  rw [heq, unquote?_decoding h t' []] at ht
  cases ht
  rfl

/-- The message about a chunk is written to the log as it is. -/
theorem line_chunkDecoded (t : Text) :
    (Event.chunkDecoded t).line = "TRACE path_echo::request: ".toList ++ decoding isHidden t ++ ['\n'] := by
  have hclean := not_isControl_of_mem_decoding (fun _ => Quoted.isHidden_of_isControl) t
  have hmessage : (Event.chunkDecoded t).message.flatMap visible = decoding isHidden t := flatMap_visible hclean
  rw [Event.line, hmessage]
  rfl

/-- At the lowest level, a connection tells about its chunk and about nothing else. -/
theorem trace_iff {reads : List Delivery} {writes : List Acceptance} {flushes shutdowns : List Completion} :
    e ∈ Connection.logs (Connection.opened reads writes flushes shutdowns).run.1 ∧ e.level = .trace ↔
      ∃ c : Chunk, (Reader.ofScript reads).next.1 = .chunk c ∧ e = .chunkDecoded c.text := by
  obtain ⟨-, -, hlogs, -⟩ := Connection.run_opened reads writes flushes shutdowns
  rw [hlogs]
  constructor
  · rintro ⟨he, hlevel⟩
    cases hitem : (Reader.ofScript reads).next.1 with
    | notReady => simp [hitem, Connection.answer] at he
    | failed fault => simp [hitem, Connection.answer] at he
    | ended =>
      simp only [hitem, Connection.answer, List.mem_singleton] at he
      rw [he] at hlevel
      cases hlevel
    | chunk c =>
      simp only [hitem, Connection.answer, List.mem_cons, List.not_mem_nil, or_false] at he
      rcases he with rfl | rfl | rfl
      · exact ⟨c, rfl, rfl⟩
      · cases hlevel
      · cases hlevel
  · rintro ⟨c, hitem, rfl⟩
    rw [hitem]
    exact ⟨List.mem_cons_self, rfl⟩

/-- The trace message of a connection is about its chunk, and in the log it is the rest of a line.  Whatever characters
are written by their code points, if the control characters are among them, the message has no control character in it,
two of its quotes are bare, the one behind the heading and the one at the end, and undoing the escapes between them
gives the text of the chunk, also if more follows.  So chunks that are read as different texts have different messages.
-/
theorem decoding_faithful :
    (∀ reads writes flushes shutdowns (e : Event),
      e ∈ Connection.logs (Connection.opened reads writes flushes shutdowns).run.1 ∧ e.level = .trace ↔
        ∃ c : Chunk, (Reader.ofScript reads).next.1 = .chunk c ∧ e = .chunkDecoded c.text) ∧
      (∀ t, (Event.chunkDecoded t).message = decoding isHidden t ∧
        (Event.chunkDecoded t).line = "TRACE path_echo::request: ".toList ++ decoding isHidden t ++ ['\n']) ∧
      (∀ c, IsControl c → isHidden c = true) ∧
      ∀ hidden : Char → Bool, (∀ c, IsControl c → hidden c = true) → ∀ c : Chunk,
        let message := decoding hidden c.text
        (∀ d ∈ message, ¬ IsControl d) ∧
          (∃ body, message = decodingHeading ++ '"' :: (body ++ ['"'])) ∧
          (∀ before after, message = before ++ '"' :: after → (Bare before ↔ before = decodingHeading ∨ after = [])) ∧
          (∀ rest, unquote? ((message ++ rest).drop decodingHeading.length) = some (c.text, rest)) ∧
          ∀ c' : Chunk, decoding hidden c'.text = message → c'.text = c.text := by
  refine ⟨?_, fun t => ⟨rfl, line_chunkDecoded t⟩, fun _ => Quoted.isHidden_of_isControl, ?_⟩
  · intro reads writes flushes shutdowns e
    exact trace_iff
  · intro hidden hcontrol c message
    refine ⟨not_isControl_of_mem_decoding hcontrol c.text, ?_, ?_, unquote?_decoding hcontrol c.text, ?_⟩
    · exact ⟨c.text.flatMap (Quoted.escapeBy hidden), rfl⟩
    · intro before after
      exact bare_iff_of_decoding hcontrol
    · intro c' heq
      exact decoding_injective hcontrol heq

/-- A client that sends the escapes of a text instead of the text has them escaped in turn. -/
theorem decoding_of_imitation :
    let hidden : Char → Bool := fun c => decide (IsControl c)
    let chunk : Chunk := ⟨Utf8.encode ['"', '\n', '\x07', '1'], by decide⟩
    let imitation : Chunk := ⟨Utf8.encode "\\\"\\n\\u\x7b7\x7d1".toList, by decide⟩
    decoding hidden chunk.text = "Decoding chunk: \"\\\"\\n\\u\x7b7\x7d1\"".toList ∧
      (∀ d ∈ decoding hidden chunk.text, ¬ IsControl d) ∧
      (∀ rest, unquote? ((decoding hidden chunk.text ++ rest).drop decodingHeading.length) =
        some (['"', '\n', '\x07', '1'], rest)) ∧
      decoding hidden imitation.text ≠ decoding hidden chunk.text := by
  intro hidden chunk imitation
  obtain ⟨-, -, -, hmessages⟩ := decoding_faithful
  obtain ⟨hclean, -, -, hread, hinjective⟩ := hmessages hidden (fun _ h => decide_eq_true h) chunk
  refine ⟨by decide, hclean, hread, ?_⟩
  intro heq
  have hdiffers : imitation.text ≠ chunk.text := by decide
  exact hdiffers (hinjective imitation heq)

end Log

end RequestEcho
