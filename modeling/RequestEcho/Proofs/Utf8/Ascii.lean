import RequestEcho.Utf8

/-!
# ASCII characters in encoded texts

An ASCII character is one byte of its own value, and no other character has such a byte among its bytes.  So the ASCII
bytes of an encoded text are the ASCII characters of the text (`mem_encode_of_lt_128`).
-/

namespace RequestEcho

namespace Utf8

theorem encodeChar_of_lt_128 {c : Char} (h : c.toNat < 0x80) : String.utf8EncodeChar c = [UInt8.ofNat c.toNat] := by
  have hle : c.val.toNat ≤ 127 := Nat.le_of_lt_succ h
  simp only [String.utf8EncodeChar, hle, if_true]
  rfl

/-- A character with an ASCII byte among its bytes is the character of that value. -/
theorem toNat_of_mem_encodeChar {c : Char} {b : UInt8} (h : b ∈ String.utf8EncodeChar c) (hb : b.toNat < 0x80) :
    c.toNat = b.toNat := by
  change c.val.toNat = b.toNat
  rw [String.utf8EncodeChar] at h
  generalize c.val.toNat = v at h ⊢
  split at h
  · rename_i hv
    rw [List.mem_singleton.1 h]
    simp
    omega
  -- every byte of a longer sequence has its high bit set
  split at h
  · simp only [List.mem_cons, List.not_mem_nil, or_false] at h
    rcases h with rfl | rfl <;> simp at hb <;> omega
  split at h
  · simp only [List.mem_cons, List.not_mem_nil, or_false] at h
    rcases h with rfl | rfl | rfl <;> simp at hb <;> omega
  · simp only [List.mem_cons, List.not_mem_nil, or_false] at h
    rcases h with rfl | rfl | rfl | rfl <;> simp at hb <;> omega

/-- An ASCII byte of an encoded text is an ASCII character of the text. -/
theorem mem_encode_of_lt_128 {t : Text} {c : Char} (hc : c.toNat < 0x80) : UInt8.ofNat c.toNat ∈ encode t ↔ c ∈ t := by
  have hbyte : (UInt8.ofNat c.toNat).toNat = c.toNat := by
    simp
    omega
  rw [encode, List.mem_flatMap]
  constructor
  · rintro ⟨d, hd, hmem⟩
    have htoNat := toNat_of_mem_encodeChar hmem (by omega)
    rw [hbyte] at htoNat
    rwa [← Char.toNat_inj.1 htoNat]
  · intro h
    exact ⟨c, h, by simp [encodeChar_of_lt_128 hc]⟩

/-- A text that begins with another character than an ASCII one has another first byte. -/
theorem head?_encode_cons_ne {c d : Char} (hd : d.toNat < 0x80) (hne : c ≠ d) (t : Text) :
    (encode (c :: t)).head? ≠ some (UInt8.ofNat d.toNat) := by
  have hbyte : (UInt8.ofNat d.toNat).toNat = d.toNat := by
    simp
    omega
  have hchar : encode [c] ≠ [] := by simp [encode_eq_nil_iff, -encode_cons]
  rw [encode_cons, encode_nil, List.append_nil] at hchar
  obtain ⟨b, bs, hbytes⟩ := List.exists_cons_of_ne_nil hchar
  rw [encode_cons, hbytes, List.cons_append, List.head?_cons]
  intro hhead
  have hmem : UInt8.ofNat d.toNat ∈ String.utf8EncodeChar c := by simp [hbytes, ← Option.some.inj hhead]
  have htoNat := toNat_of_mem_encodeChar hmem (by omega)
  rw [hbyte] at htoNat
  exact hne (Char.toNat_inj.1 htoNat)

end Utf8

end RequestEcho
