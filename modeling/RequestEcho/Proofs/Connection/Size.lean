import RequestEcho.Proofs.Chunk.Token
import RequestEcho.Proofs.Connection.Delivery
import RequestEcho.Proofs.Numeral.RoundTrip
import RequestEcho.Proofs.Reader.Expansion
import RequestEcho.Proofs.Utf8.Substitution

/-!
# The size of the output

However long the stream of a client is, what it is answered is short.

* A path is read off fewer bytes than its chunk has (`length_token_lt`), and a byte is written as three at most, so the
  path of a chunk of `n` bytes has at most `3 * (n - 1)` bytes, or the seven of the path that stands for none
  (`Chunk.length_encode_path_le`).
* The first chunk fits into the buffer of the reader (`Reader.length_le_of_next`), and the length of a body is declared
  in as many digits as it has (`Response.length_encode_head`).
* The largest output is the answer to a space and as many bytes that are replaced as the buffer has room for behind it
  (`length_response_costliest`).
-/

namespace RequestEcho

/-! ### Paths -/

namespace Chunk

/-- A space stands before the path. -/
theorem length_token_lt {bytes token : Bytes} (h : token? bytes = some token) : token.length < bytes.length := by
  obtain ⟨hsecond, -⟩ := Option.filter_eq_some_iff.1 h
  obtain ⟨first, rest, hline, -⟩ := Line.secondPiece?_eq_some_iff.1 hsecond
  have hle := (Line.upTo_prefix 0x0D 0x0A bytes).length_le
  rw [hline] at hle
  simp at hle
  omega

theorem length_encode_path_le (c : Chunk) :
    (Utf8.encode c.request.path).length ≤ max 7 (3 * (c.bytes.length - 1)) := by
  rw [request_path]
  cases htoken : token? c.bytes with
  | none =>
    have hinvalid : (Utf8.encode Request.invalidPath).length = 7 := by decide
    rw [Option.map_none, Option.getD_none, hinvalid]
    exact Nat.le_max_left _ _
  | some token =>
    have hlt := length_token_lt htoken
    have hle := (Utf8.substitutes_iff.2 (Eq.refl (Utf8.decodeLossy token))).length_encode_le
    rw [Option.map_some, Option.getD_some]
    omega

end Chunk

/-! ### The first chunk -/

namespace Reader

theorem length_le_of_poll {r : Reader} {c : Chunk} (h : r.poll.1 = .chunk c) : c.bytes.length ≤ capacity := by
  obtain ⟨script, filled, broken⟩ := r
  unfold poll at h
  cases broken with
  | true => cases h
  | false =>
    rcases script with _ | ⟨bytes | _ | fault, script⟩
    · cases h
    · simp only [Bool.false_eq_true, if_false] at h
      split at h
      · rename_i rest htake
        rw [finish_of_take htake] at h
        cases h
      · rename_i d rest htake
        obtain rfl := Poll.chunk.inj h
        rw [(Chunk.take_fst _).2 d (congrArg Prod.fst htake)]
        exact (List.length_take_le _ _).trans (Nat.sub_le _ _)
    · cases h
    · cases h

theorem length_le_of_next {r : Reader} {c : Chunk} (h : r.next.1 = .chunk c) : c.bytes.length ≤ capacity := by
  induction r using next.induct with
  | case1 r s hp ih =>
    rw [next_of_notReady hp] at h
    exact ih h
  | case2 r hp =>
    have hready : r.poll.1 ≠ .notReady := fun h => hp r.poll.2 (by rw [← h])
    rw [next_of_ready hready] at h
    exact length_le_of_poll h

end Reader

/-! ### Responses -/

theorem Utf8.length_encode_of_ascii {t : Text} (h : ∀ c ∈ t, c.toNat < 0x80) : (encode t).length = t.length := by
  induction t with
  | nil => rfl
  | cons c t ih =>
    have hrest := ih fun d hd => h d (List.mem_cons_of_mem c hd)
    rw [encode_cons, encodeChar_of_lt_128 (h c List.mem_cons_self), List.singleton_append, List.length_cons,
      List.length_cons, hrest]

theorem Utf8.length_encode_enclosed (before t behind : Text) :
    (encode (before ++ t ++ behind)).length = (encode before).length + (encode t).length + (encode behind).length := by
  rw [encode_append, encode_append, List.length_append, List.length_append]

theorem Numeral.length_encode_decimal (n : Nat) : (Utf8.encode (decimal n)).length = (decimal n).length := by
  refine Utf8.length_encode_of_ascii fun c hc => ?_
  have hdigit := isDigit_of_mem_decimal hc
  rw [Char.isDigit, Bool.and_eq_true, decide_eq_true_eq, decide_eq_true_eq] at hdigit
  have hle := UInt32.le_iff_toNat_le.1 hdigit.2
  exact Nat.lt_of_le_of_lt hle (by decide)

namespace Response

-- the fixed words are measured by evaluation, which must not meet the text between them

theorem length_encode_head (length : Nat) : (Utf8.encode (head length)).length = 81 + (decimal length).length := by
  have hbefore : (Utf8.encode "HTTP/1.1 200 OK\r\nContent-Length: ".toList).length = 33 := by decide
  have hbehind : (Utf8.encode
      "\r\nContent-Type: text/html\r\nConnection: close\r\n\r\n".toList).length = 48 := by decide
  calc (Utf8.encode (head length)).length
      = _ + (Utf8.encode (decimal length)).length + _ := Utf8.length_encode_enclosed _ _ _
    _ = 33 + (Utf8.encode (decimal length)).length + 48 :=
        congrArg₂ (· + (Utf8.encode (decimal length)).length + ·) hbefore hbehind
    _ = 81 + (decimal length).length := by rw [Numeral.length_encode_decimal]; omega

theorem length_encode_body (path : Text) :
    (Utf8.encode (ofPath path).body).length = 15 + (Utf8.encode path).length := by
  have hbefore : (Utf8.encode "<h1>Path: ".toList).length = 10 := by decide
  have hbehind : (Utf8.encode "</h1>".toList).length = 5 := by decide
  calc (Utf8.encode (ofPath path).body).length
      = _ + (Utf8.encode path).length + _ := Utf8.length_encode_enclosed _ _ _
    _ = 10 + (Utf8.encode path).length + 5 := congrArg₂ (· + (Utf8.encode path).length + ·) hbefore hbehind
    _ = 15 + (Utf8.encode path).length := by omega

end Response

theorem length_decimal_le {n k : Nat} (hk : 0 < k) (h : n < 10 ^ k) : (decimal n).length ≤ k :=
  (Nat.length_toDigits_le_iff (by decide) hk).2 h

/-! ### Outputs -/

namespace Connection

/-- The output is a beginning of the response to the first chunk, if there is one. -/
theorem output_prefix_of_first (reads : List Delivery) (writes : List Acceptance)
    (flushes shutdowns : List Completion) :
    output (opened reads writes flushes shutdowns).run.1 = [] ∨
      ∃ c, (Reader.ofScript reads).next.1 = .chunk c ∧
        output (opened reads writes flushes shutdowns).run.1 <+: (Response.ofPath c.request.path).encode := by
  have hrun := run_of_reading (opened reads writes flushes shutdowns) rfl
  have hready := (Reader.ofScript reads).next_ne_notReady
  cases hnext : (Reader.ofScript reads).next.1 with
  | notReady => exact absurd hnext hready
  | ended =>
    left
    simp only [opened, received, hnext] at hrun
    rw [opened, hrun, output_logged, run_of_outcome rfl]
    rfl
  | failed fault =>
    left
    simp only [opened, received, hnext] at hrun
    rw [opened, hrun, output_logged, run_of_outcome rfl]
    rfl
  | chunk c =>
    right
    have hrun' := run_of_chunk hnext writes flushes shutdowns
    obtain ⟨_, -, hdelivers⟩ := run_delivers (Response.ofPath c.request.path).encode_ne_nil
      (Reader.ofScript reads).next.2 writes flushes shutdowns
    refine ⟨c, rfl, ?_⟩
    rw [hrun', output_logged]
    exact hdelivers.output_prefix _ (List.prefix_refl _)

/-- The answer to a first chunk fits into a head of 86 bytes and a body of 24588 bytes. -/
theorem length_response_le {reads : List Delivery} {c : Chunk} (h : (Reader.ofScript reads).next.1 = .chunk c) :
    (Utf8.encode (Response.ofPath c.request.path).body).length ≤ 24588 ∧
      (Utf8.encode (Response.head (Utf8.encode (Response.ofPath c.request.path).body).length)).length ≤ 86 := by
  have hpath := c.length_encode_path_le
  have hchunk : c.bytes.length ≤ 8192 := Reader.length_le_of_next h
  have hbody : (Utf8.encode (Response.ofPath c.request.path).body).length ≤ 24588 := by
    rw [Response.length_encode_body]
    omega
  have hdigits := length_decimal_le (show 0 < 5 by decide) (Nat.lt_of_le_of_lt hbody (by decide))
  refine ⟨hbody, ?_⟩
  rw [Response.length_encode_head]
  omega

/-! ### The largest output -/

/-- A space, and behind it as many bytes as the buffer has room for that begin no character. -/
def costliest : Bytes := 0x20 :: List.replicate 8191 0xFF

theorem decodeLossy_replicate (n : Nat) :
    Utf8.decodeLossy (List.replicate n 0xFF) = List.replicate n Utf8.replacement := by
  have hbyte : Utf8.start 0xFF = ([Utf8.replacement], .idle) := by decide
  induction n with
  | zero => rfl
  | succ n ih =>
    rw [List.replicate_succ, List.replicate_succ, ← ih, Utf8.decodeLossy, Utf8.decodeFrom_cons, Utf8.step_idle, hbyte]
    rfl

theorem length_encode_replicate (n : Nat) : (Utf8.encode (List.replicate n Utf8.replacement)).length = 3 * n := by
  have hthree : (String.utf8EncodeChar Utf8.replacement).length = 3 := by decide
  induction n with
  | zero => rfl
  | succ n ih =>
    rw [List.replicate_succ, Utf8.encode_cons, List.length_append, ih, hthree]
    omega

theorem token?_costliest : Chunk.token? costliest = some (List.replicate 8191 0xFF) := by
  have hbytes : ∀ b ∈ List.replicate 8191 (0xFF : UInt8), b = 0xFF := fun b hb => List.eq_of_mem_replicate hb
  have hspace : (0x20 : UInt8) ∉ List.replicate 8191 0xFF := fun h => absurd (hbytes _ h) (by decide)
  have hline : ¬ [0x0D, 0x0A] <:+: costliest := by
    refine Line.not_pair_infix_of_not_mem fun h => ?_
    rcases List.mem_cons.1 h with h | h
    · exact absurd h (by decide)
    · exact absurd (hbytes _ h) (by decide)
  have hsecond := Chunk.secondPiece?_upTo_eq List.not_mem_nil hspace hline (.inl rfl)
  rw [List.nil_append, List.append_nil] at hsecond
  refine Chunk.token?_eq_some (List.ne_nil_of_length_pos ?_) hsecond
  rw [List.length_replicate]
  decide

/-- The answer to the costliest chunk is as large as an answer can be. -/
theorem length_response_costliest {c : Chunk} (hc : c.bytes = costliest) :
    (Utf8.encode (Response.ofPath c.request.path).body).length = 24588 ∧
      (Utf8.encode (Response.head (Utf8.encode (Response.ofPath c.request.path).body).length)).length = 86 := by
  have hpath : c.request.path = List.replicate 8191 Utf8.replacement := by
    rw [Chunk.request_path, hc, token?_costliest, Option.map_some, decodeLossy_replicate]
    rfl
  have hbody : (Utf8.encode (Response.ofPath c.request.path).body).length = 24588 := by
    rw [Response.length_encode_body, hpath, length_encode_replicate]
  have hdigits : (decimal 24588).length = 5 := by decide
  refine ⟨hbody, ?_⟩
  rw [hbody, Response.length_encode_head, hdigits]

theorem next_costliest : ∃ c, (Reader.ofScript [.data costliest]).next.1 = .chunk c ∧ c.bytes = costliest := by
  have hne : costliest ≠ [] := List.cons_ne_nil _ _
  have hpoll := Reader.poll_data (Reader.follows_ofScript [.data costliest]) rfl rfl hne
  have hall : costliest.take (Reader.room 0) = costliest := by
    refine List.take_of_length_le ?_
    rw [costliest, List.length_cons, List.length_replicate]
    decide
  rw [hall, Reader.result_of_ne_nil hne] at hpoll
  refine ⟨⟨costliest, hne⟩, ?_, rfl⟩
  rw [Reader.next_of_ready (by simp [hpoll]), hpoll]

/-- The path of a chunk of `n` bytes has at most `3 * (n - 1)` bytes, or the seven of the path that stands for none.  So
no output has more than 24674 bytes, in a head of 86 and a body of 24588, however long the scripts are; and there is one
of this size. -/
theorem length_output_le :
    (∀ c : Chunk, (Utf8.encode c.request.path).length ≤ max 7 (3 * (c.bytes.length - 1))) ∧
      (∀ reads writes flushes shutdowns,
        (output (opened reads writes flushes shutdowns).run.1).length ≤ 24674 ∧
          (output (opened reads writes flushes shutdowns).run.1 = [] ∨
            ∃ response : Response, output (opened reads writes flushes shutdowns).run.1 <+: response.encode ∧
              (Utf8.encode (Response.head (Utf8.encode response.body).length)).length ≤ 86 ∧
              (Utf8.encode response.body).length ≤ 24588)) ∧
      ∃ reads writes flushes shutdowns, ∃ response : Response,
        output (opened reads writes flushes shutdowns).run.1 = response.encode ∧ response.encode.length = 24674 ∧
          (Utf8.encode (Response.head (Utf8.encode response.body).length)).length = 86 ∧
          (Utf8.encode response.body).length = 24588 := by
  refine ⟨Chunk.length_encode_path_le, ?_, ?_⟩
  · intro reads writes flushes shutdowns
    rcases output_prefix_of_first reads writes flushes shutdowns with hnone | ⟨c, hc, hprefix⟩
    · exact ⟨by rw [hnone]; decide, .inl hnone⟩
    · obtain ⟨hbody, hhead⟩ := length_response_le hc
      have hlength := hprefix.length_le
      rw [Response.encode, List.length_append] at hlength
      exact ⟨by omega, .inr ⟨_, hprefix, hhead, hbody⟩⟩
  · obtain ⟨c, hc, hbytes⟩ := next_costliest
    obtain ⟨hbody, hhead⟩ := length_response_costliest hbytes
    refine ⟨[.data costliest], [], [], [], Response.ofPath c.request.path, ?_, ?_, hhead, hbody⟩
    · exact output_of_proceeds hc (by simp) [] []
    · rw [Response.encode, List.length_append, hhead, hbody]

end Connection

end RequestEcho
