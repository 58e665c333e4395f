import RequestEcho.Utf8

/-!
# Reading back what was written

`decodeLossy` gives back every text from its encoding.  The bytes of a character lead the machine from `idle` over the
bits gathered so far back to `idle`: `first?` and the narrowed second bytes are tabulated for every first byte
(`first?_two`, `first?_three`, `first?_four`), and every further byte adds its six bits (`step_partway`).
-/

namespace RequestEcho

namespace Utf8

theorem decodeFrom_cons (p : Progress) (b : UInt8) (bs : Bytes) :
    decodeFrom p (b :: bs) = (step p b).1 ++ decodeFrom (step p b).2 bs := by
  cases p <;> rfl

theorem step_idle (b : UInt8) : step .idle b = start b := rfl

/-! ### First bytes -/

theorem start_ascii {n : Nat} (h : n < 128) : start (UInt8.ofNat n) = ([Char.ofNat n], .idle) := by
  have hn : (UInt8.ofNat n).toNat = n := by
    simp
    omega
  rw [start, if_pos (by rw [UInt8.lt_iff_toNat_lt, hn]; exact h), hn]

theorem start_two : ∀ a < 32, 2 ≤ a → start (UInt8.ofNat (a + 192)) = ([], .partway a 0x80 0xBF 0) := by
  decide

theorem start_three : ∀ a < 16, start (UInt8.ofNat (a + 224)) =
    ([], .partway a (if a = 0 then 0xA0 else 0x80) (if a = 13 then 0x9F else 0xBF) 1) := by
  decide

theorem start_four : ∀ a < 5, start (UInt8.ofNat (a + 240)) =
    ([], .partway a (if a = 0 then 0x90 else 0x80) (if a = 4 then 0x8F else 0xBF) 2) := by
  decide

/-! ### Further bytes -/

theorem continuation_bounds : ∀ d < 64, 0x80 ≤ UInt8.ofNat (d + 128) ∧ UInt8.ofNat (d + 128) ≤ 0xBF := by
  decide

theorem continuation_bits {d : Nat} (hd : d < 64) : (UInt8.ofNat (d + 128)).toNat - 0x80 = d := by
  simp
  omega

/-- The second bytes that exclude overlong forms and surrogates. -/
theorem second_bounds_three {a d : Nat} (hd : d < 64) (h0 : a = 0 → 32 ≤ d) (h13 : a = 13 → d < 32) :
    (if a = 0 then 0xA0 else 0x80) ≤ UInt8.ofNat (d + 128) ∧
      UInt8.ofNat (d + 128) ≤ (if a = 13 then 0x9F else 0xBF) := by
  constructor <;> split <;> simp [UInt8.le_iff_toNat_le] <;> omega

/-- The second bytes that exclude overlong forms and values past the last code point. -/
theorem second_bounds_four {a d : Nat} (hd : d < 64) (h0 : a = 0 → 16 ≤ d) (h4 : a = 4 → d < 16) :
    (if a = 0 then 0x90 else 0x80) ≤ UInt8.ofNat (d + 128) ∧
      UInt8.ofNat (d + 128) ≤ (if a = 4 then 0x8F else 0xBF) := by
  constructor <;> split <;> simp [UInt8.le_iff_toNat_le] <;> omega

/-- A byte within the bounds adds its six bits to those gathered. -/
theorem step_more {acc d n : Nat} {low high : UInt8} (hd : d < 64)
    (hb : low ≤ UInt8.ofNat (d + 128) ∧ UInt8.ofNat (d + 128) ≤ high) :
    step (.partway acc low high (n + 1)) (UInt8.ofNat (d + 128)) = ([], .partway (acc * 64 + d) 0x80 0xBF n) := by
  simp only [step, hb, and_self, if_true, continuation_bits hd]

/-- The last byte of a sequence gives its character. -/
theorem step_last {acc d : Nat} {low high : UInt8} (hd : d < 64)
    (hb : low ≤ UInt8.ofNat (d + 128) ∧ UInt8.ofNat (d + 128) ≤ high) :
    step (.partway acc low high 0) (UInt8.ofNat (d + 128)) = ([Char.ofNat (acc * 64 + d)], .idle) := by
  simp only [step, hb, and_self, if_true, continuation_bits hd]

/-! ### Characters and texts -/

/-- The bytes of a character give the character and leave no sequence open. -/
theorem decodeFrom_encodeChar (c : Char) (bs : Bytes) :
    decodeFrom .idle (String.utf8EncodeChar c ++ bs) = c :: decodeFrom .idle bs := by
  have hchar : Char.ofNat c.val.toNat = c := Char.ofNat_toNat c
  have hvalid : c.val.toNat < 0xD800 ∨ (0xDFFF < c.val.toNat ∧ c.val.toNat < 0x110000) := c.valid
  rw [String.utf8EncodeChar]
  generalize c.val.toNat = v at hchar hvalid ⊢
  split
  · -- one byte
    rename_i h
    rw [List.singleton_append, decodeFrom_cons, step_idle, start_ascii (by omega), hchar]
    rfl
  split
  · -- two bytes
    rename_i h1 h2
    have hv : v / 64 % 32 * 64 + v % 64 = v := by omega
    simp only [List.cons_append, List.nil_append, decodeFrom_cons, step_idle]
    rw [start_two (v / 64 % 32) (by omega) (by omega)]
    dsimp only
    rw [step_last (by omega) (continuation_bounds _ (by omega)), hv, hchar]
    rfl
  split
  · -- three bytes
    rename_i h1 h2 h3
    have hv : (v / 4096 % 16 * 64 + v / 64 % 64) * 64 + v % 64 = v := by omega
    simp only [List.cons_append, List.nil_append, decodeFrom_cons, step_idle]
    rw [start_three (v / 4096 % 16) (by omega)]
    dsimp only
    rw [step_more (by omega) (second_bounds_three (by omega) (by omega) (by omega)),
      step_last (by omega) (continuation_bounds _ (by omega)), hv, hchar]
    rfl
  · -- four bytes
    rename_i h1 h2 h3
    have hv : ((v / 262144 % 8 * 64 + v / 4096 % 64) * 64 + v / 64 % 64) * 64 + v % 64 = v := by omega
    simp only [List.cons_append, List.nil_append, decodeFrom_cons, step_idle]
    rw [start_four (v / 262144 % 8) (by omega)]
    dsimp only
    rw [step_more (by omega) (second_bounds_four (by omega) (by omega) (by omega)),
      step_more (by omega) (continuation_bounds _ (by omega)),
      step_last (by omega) (continuation_bounds _ (by omega)), hv, hchar]
    rfl

theorem decodeFrom_encode (t : Text) (bs : Bytes) : decodeFrom .idle (encode t ++ bs) = t ++ decodeFrom .idle bs := by
  induction t with
  | nil => rfl
  | cons c t ih => rw [encode_cons, List.append_assoc, decodeFrom_encodeChar, ih, List.cons_append]

/-- A text is read back from its encoding. -/
theorem decodeLossy_encode (t : Text) : decodeLossy (encode t) = t := by
  have h := decodeFrom_encode t []
  rw [List.append_nil] at h
  rw [decodeLossy, h]
  exact List.append_nil t

theorem decode?_encode (t : Text) : decode? (encode t) = some t := by
  rw [decode?, decodeLossy_encode, if_pos rfl]

theorem decode?_eq_some_iff {bs : Bytes} {t : Text} : decode? bs = some t ↔ bs = encode t := by
  constructor
  · intro h
    rw [decode?] at h
    split at h
    · rename_i hbytes
      rw [← Option.some.inj h, hbytes]
    · cases h
  · rintro rfl
    exact decode?_encode t

theorem encode_injective {s t : Text} (h : encode s = encode t) : s = t := by
  rw [← decodeLossy_encode s, h, decodeLossy_encode]

end Utf8

end RequestEcho
