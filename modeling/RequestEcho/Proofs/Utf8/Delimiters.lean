import Mathlib.Algebra.Group.Nat.Defs
import RequestEcho.Proofs.Utf8.RoundTrip

/-!
# Delimiters in bytes of any kind

An ASCII byte is its own character wherever it stands: it closes what is left open before it and opens nothing.  So the
text of any bytes can be cut at their ASCII bytes (`decodeLossy_append_ascii`), and every ASCII character of the text is
such a byte (`exists_of_decodeLossy_eq`): replacing what is no text neither makes nor swallows a delimiter.

The reason is that a sequence left open goes on with continuation bytes only, and can only be completed to a character
past ASCII (`Progress.Sound`).
-/

namespace RequestEcho

namespace Utf8

/-! ### Open sequences -/

/-- The least value that the open sequence can be completed to. -/
def least (acc : Nat) (low : UInt8) (further : Nat) : Nat := (acc * 64 + (low.toNat - 0x80)) * 64 ^ further

/-- The end of the values that the open sequence can be completed to. -/
def bound (acc : Nat) (high : UInt8) (further : Nat) : Nat := (acc * 64 + (high.toNat - 0x80) + 1) * 64 ^ further

/-- The bytes that go on with the open sequence are continuation bytes, and the values that it can be completed to are
those of characters past ASCII. -/
def Progress.Sound : Progress → Prop
  | .idle => True
  | .partway acc low high further =>
    0x80 ≤ low.toNat ∧ high.toNat ≤ 0xBF ∧ 0x80 ≤ least acc low further ∧
      (bound acc high further ≤ 0xD800 ∨ (0xE000 ≤ least acc low further ∧ bound acc high further ≤ 0x110000))

instance : DecidablePred Progress.Sound
  | .idle => inferInstanceAs (Decidable True)
  | .partway acc low high further => inferInstanceAs (Decidable
    (0x80 ≤ low.toNat ∧ high.toNat ≤ 0xBF ∧ 0x80 ≤ least acc low further ∧
      (bound acc high further ≤ 0xD800 ∨ (0xE000 ≤ least acc low further ∧ bound acc high further ≤ 0x110000))))

theorem sound_idle : Progress.idle.Sound := trivial

private theorem first?_table : ∀ n < 256, ∀ p ∈ first? (UInt8.ofNat n), p.Sound ∧ p ≠ .idle := by
  decide +kernel

theorem sound_of_first? {b : UInt8} {p : Progress} (h : first? b = some p) : p.Sound ∧ p ≠ .idle := by
  have hb : UInt8.ofNat b.toNat = b := UInt8.ofNat_toNat
  exact first?_table b.toNat b.toNat_lt p (by rw [hb, h]; rfl)

/-- A further byte narrows the values that the sequence can be completed to. -/
theorem sound_continue {acc n : Nat} {low high b : UInt8} (h : (Progress.partway acc low high (n + 1)).Sound)
    (hlow : low ≤ b) (hhigh : b ≤ high) : (Progress.partway (acc * 64 + (b.toNat - 0x80)) 0x80 0xBF n).Sound := by
  rw [UInt8.le_iff_toNat_le] at hlow hhigh
  have hleast : least acc low (n + 1) ≤ least (acc * 64 + (b.toNat - 0x80)) 0x80 n := by
    unfold least
    rw [Nat.pow_succ', ← Nat.mul_assoc]
    exact Nat.mul_le_mul_right _ (by simp; omega)
  have hbound : bound (acc * 64 + (b.toNat - 0x80)) 0xBF n ≤ bound acc high (n + 1) := by
    unfold bound
    rw [Nat.pow_succ', ← Nat.mul_assoc]
    exact Nat.mul_le_mul_right _ (by simp; omega)
  obtain ⟨-, -, hascii, hscalar⟩ := h
  refine ⟨by decide, by decide, by omega, by omega⟩

theorem toNat_ofNat {n : Nat} (h : n.isValidChar) : (Char.ofNat n).toNat = n := by
  unfold Char.ofNat
  rw [dif_pos h]
  exact UInt32.toNat_ofNatLT ..

theorem exists_ascii_char {b : UInt8} (hb : b.toNat < 0x80) : ∃ c : Char, c.toNat < 0x80 ∧ b = UInt8.ofNat c.toNat := by
  have hvalid : b.toNat.isValidChar := .inl (by omega)
  have hc : (Char.ofNat b.toNat).toNat = b.toNat := toNat_ofNat hvalid
  exact ⟨Char.ofNat b.toNat, by omega, by rw [hc, UInt8.ofNat_toNat]⟩

/-- The last byte completes the sequence to a character past ASCII. -/
theorem le_toNat_of_sound {acc : Nat} {low high b : UInt8} (h : (Progress.partway acc low high 0).Sound)
    (hlow : low ≤ b) (hhigh : b ≤ high) : 0x80 ≤ (Char.ofNat (acc * 64 + (b.toNat - 0x80))).toNat := by
  rw [UInt8.le_iff_toNat_le] at hlow hhigh
  obtain ⟨-, -, hascii, hscalar⟩ := h
  simp only [least, bound, Nat.pow_zero, Nat.mul_one] at hascii hscalar
  have hvalid : (acc * 64 + (b.toNat - 0x80)).isValidChar := by
    unfold Nat.isValidChar
    omega
  rw [toNat_ofNat hvalid]
  omega

/-! ### Steps -/

section

variable {acc further : Nat} {low high b : UInt8}

theorem step_of_continues (h : low ≤ b ∧ b ≤ high) :
    step (.partway acc low high further) b = match further with
      | 0 => ([Char.ofNat (acc * 64 + (b.toNat - 0x80))], .idle)
      | n + 1 => ([], .partway (acc * 64 + (b.toNat - 0x80)) 0x80 0xBF n) :=
  if_pos h

theorem step_of_breaks (h : ¬ (low ≤ b ∧ b ≤ high)) :
    step (.partway acc low high further) b = (replacement :: (start b).1, (start b).2) :=
  if_neg h

end

theorem le_toNat_of_mem_decodeFrom_nil {p : Progress} {c : Char} (h : c ∈ decodeFrom p []) : 0x80 ≤ c.toNat := by
  cases p with
  | idle => cases h
  | partway acc low high further =>
    obtain rfl := List.mem_singleton.1 h
    decide

/-- An ASCII byte closes what is open and gives its character. -/
theorem step_ascii {p : Progress} (hp : p.Sound) {c : Char} (hc : c.toNat < 0x80) :
    step p (UInt8.ofNat c.toNat) = (decodeFrom p [] ++ [c], .idle) := by
  have hstart : start (UInt8.ofNat c.toNat) = ([c], .idle) := by rw [start_ascii hc, Char.ofNat_toNat]
  cases p with
  | idle => exact hstart
  | partway acc low high further =>
    have hout : ¬ (low ≤ UInt8.ofNat c.toNat ∧ UInt8.ofNat c.toNat ≤ high) := by
      rintro ⟨hlow, -⟩
      rw [UInt8.le_iff_toNat_le] at hlow
      have hlow128 := hp.1
      simp at hlow
      omega
    rw [step_of_breaks hout, hstart]
    rfl

/-- Any other byte gives no ASCII character. -/
theorem le_toNat_of_mem_start {b : UInt8} (hb : 0x80 ≤ b.toNat) {c : Char} (h : c ∈ (start b).1) :
    0x80 ≤ c.toNat := by
  have hlt : ¬ b < 0x80 := by
    rw [UInt8.lt_iff_toNat_lt]
    exact Nat.not_lt.2 hb
  unfold start at h
  rw [if_neg hlt] at h
  split at h
  · cases h
  · obtain rfl := List.mem_singleton.1 h
    decide

theorem le_toNat_of_mem_step {p : Progress} (hp : p.Sound) {b : UInt8} (hb : 0x80 ≤ b.toNat) {c : Char}
    (h : c ∈ (step p b).1) : 0x80 ≤ c.toNat := by
  cases p with
  | idle => exact le_toNat_of_mem_start hb h
  | partway acc low high further =>
    by_cases hin : low ≤ b ∧ b ≤ high
    · rw [step_of_continues hin] at h
      cases further with
      | zero =>
        rw [List.mem_singleton.1 h]
        exact le_toNat_of_sound hp hin.1 hin.2
      | succ n => cases h
    · rw [step_of_breaks hin] at h
      rcases List.mem_cons.1 h with rfl | h
      · decide
      · exact le_toNat_of_mem_start hb h

theorem sound_start (b : UInt8) : (start b).2.Sound := by
  unfold start
  split
  · exact sound_idle
  · split
    · rename_i p h
      exact (sound_of_first? h).1
    · exact sound_idle

theorem sound_step {p : Progress} (hp : p.Sound) (b : UInt8) : (step p b).2.Sound := by
  cases p with
  | idle => exact sound_start b
  | partway acc low high further =>
    by_cases hin : low ≤ b ∧ b ≤ high
    · rw [step_of_continues hin]
      cases further with
      | zero => exact sound_idle
      | succ n => exact sound_continue hp hin.1 hin.2
    · rw [step_of_breaks hin]
      exact sound_start b

/-! ### Cuts at ASCII bytes -/

theorem decodeFrom_append_ascii {p : Progress} (hp : p.Sound) (before behind : Bytes) {c : Char} (hc : c.toNat < 0x80) :
    decodeFrom p (before ++ UInt8.ofNat c.toNat :: behind) = decodeFrom p before ++ c :: decodeLossy behind := by
  induction before generalizing p with
  | nil =>
    rw [List.nil_append, decodeFrom_cons, step_ascii hp hc, List.append_assoc]
    rfl
  | cons b before ih =>
    rw [List.cons_append, decodeFrom_cons, decodeFrom_cons, ih (sound_step hp b), List.append_assoc]

/-- The text of bytes can be cut at every ASCII byte. -/
theorem decodeLossy_append_ascii (before behind : Bytes) {c : Char} (hc : c.toNat < 0x80) :
    decodeLossy (before ++ UInt8.ofNat c.toNat :: behind) = decodeLossy before ++ c :: decodeLossy behind :=
  decodeFrom_append_ascii sound_idle before behind hc

/-- Two ASCII bytes are adjacent in an encoded text only where their characters are. -/
theorem pair_infix_of_encode {x y : Char} (hx : x.toNat < 0x80) (hy : y.toNat < 0x80) {t : Text}
    (h : [UInt8.ofNat x.toNat, UInt8.ofNat y.toNat] <:+: encode t) : [x, y] <:+: t := by
  obtain ⟨before, behind, h⟩ := h
  have hread : decodeLossy (before ++ UInt8.ofNat x.toNat :: UInt8.ofNat y.toNat :: behind) = t := by
    rw [← decodeLossy_encode t, ← h, List.append_assoc]
    rfl
  have hpair : decodeLossy (UInt8.ofNat y.toNat :: behind) = y :: decodeLossy behind :=
    decodeLossy_append_ascii [] behind hy
  rw [decodeLossy_append_ascii before _ hx, hpair] at hread
  exact ⟨decodeLossy before, decodeLossy behind, by rw [← hread]; simp⟩

/-- What stands before an ASCII character in a text begins with all that is no ASCII character. -/
private theorem exists_append_of_le {out s t text : Text} {c : Char} (hc : c.toNat < 0x80)
    (hout : ∀ d ∈ out, 0x80 ≤ d.toNat) (h : out ++ text = s ++ c :: t) : ∃ s', s = out ++ s' ∧ text = s' ++ c :: t := by
  rcases List.append_eq_append_iff.1 h with ⟨s', hs, htext⟩ | ⟨rest, hrest, htext⟩
  · exact ⟨s', hs, htext⟩
  · cases rest with
    | nil => exact ⟨[], by simpa using hrest.symm, by simpa using htext.symm⟩
    | cons d rest =>
      simp only [List.cons_append, List.cons.injEq] at htext
      have hd := hout d (by simp [hrest])
      rw [← htext.1] at hd
      omega

theorem exists_of_decodeFrom_eq {p : Progress} (hp : p.Sound) {bs : Bytes} {s t : Text} {c : Char} (hc : c.toNat < 0x80)
    (h : decodeFrom p bs = s ++ c :: t) : ∃ before behind, bs = before ++ UInt8.ofNat c.toNat :: behind ∧
      decodeFrom p before = s ∧ decodeLossy behind = t := by
  induction bs generalizing p s with
  | nil =>
    have hmem : c ∈ decodeFrom p [] := by simp [h]
    have := le_toNat_of_mem_decodeFrom_nil hmem
    omega
  | cons b bs ih =>
    by_cases hb : b.toNat < 0x80
    · -- the byte is a character of its own, and either it is the one looked for or the cut is behind it
      obtain ⟨d, hd, rfl⟩ := exists_ascii_char hb
      have hstep := step_ascii hp hd
      rw [decodeFrom_cons, hstep, List.append_assoc] at h
      obtain ⟨s', rfl, hrest⟩ := exists_append_of_le hc (fun _ => le_toNat_of_mem_decodeFrom_nil) h
      rw [List.singleton_append] at hrest
      cases s' with
      | nil =>
        obtain ⟨rfl, ht⟩ := List.cons.inj hrest
        exact ⟨[], bs, rfl, by rw [List.append_nil], ht⟩
      | cons e s' =>
        obtain ⟨rfl, htail⟩ := List.cons.inj hrest
        obtain ⟨before, behind, rfl, hs, ht⟩ := ih sound_idle htail
        refine ⟨UInt8.ofNat d.toNat :: before, behind, rfl, ?_, ht⟩
        rw [decodeFrom_cons, hstep, List.append_assoc, hs]
        rfl
    · rw [decodeFrom_cons] at h
      obtain ⟨s', rfl, hrest⟩ :=
        exists_append_of_le hc (fun _ => le_toNat_of_mem_step hp (Nat.le_of_not_lt hb)) h
      obtain ⟨before, behind, rfl, hs, ht⟩ := ih (sound_step hp b) hrest
      exact ⟨b :: before, behind, rfl, by rw [decodeFrom_cons, hs], ht⟩

/-- An ASCII character of the text of bytes is an ASCII byte, at which both are cut alike. -/
theorem exists_of_decodeLossy_eq {bs : Bytes} {s t : Text} {c : Char} (hc : c.toNat < 0x80)
    (h : decodeLossy bs = s ++ c :: t) : ∃ before behind, bs = before ++ UInt8.ofNat c.toNat :: behind ∧
      decodeLossy before = s ∧ decodeLossy behind = t :=
  exists_of_decodeFrom_eq sound_idle hc h

theorem mem_decodeLossy {bs : Bytes} {c : Char} (hc : c.toNat < 0x80) :
    c ∈ decodeLossy bs ↔ UInt8.ofNat c.toNat ∈ bs := by
  constructor
  · intro h
    obtain ⟨s, t, h⟩ := List.append_of_mem h
    obtain ⟨before, behind, rfl, -, -⟩ := exists_of_decodeLossy_eq hc h
    simp
  · intro h
    obtain ⟨before, behind, rfl⟩ := List.append_of_mem h
    simp [decodeLossy_append_ascii before behind hc]

/-! ### No text -/

/-- A byte that gives no character leaves a sequence open. -/
theorem ne_idle_of_step_eq_nil {p : Progress} {b : UInt8} (h : (step p b).1 = []) : (step p b).2 ≠ .idle := by
  cases p with
  | idle =>
    rw [step_idle] at h ⊢
    unfold start at h ⊢
    split
    · rename_i hb
      rw [if_pos hb] at h
      cases h
    · rename_i hb
      rw [if_neg hb] at h
      cases hfirst : first? b with
      | none =>
        rw [hfirst] at h
        cases h
      | some p => exact (sound_of_first? hfirst).2
  | partway acc low high further =>
    by_cases hin : low ≤ b ∧ b ≤ high
    · rw [step_of_continues hin] at h ⊢
      cases further with
      | zero => cases h
      | succ n => simp
    · rw [step_of_breaks hin] at h
      cases h

theorem decodeFrom_ne_nil {p : Progress} (hp : p ≠ .idle) (bs : Bytes) : decodeFrom p bs ≠ [] := by
  induction bs generalizing p with
  | nil =>
    cases p with
    | idle => exact absurd rfl hp
    | partway acc low high further => simp [decodeFrom]
  | cons b bs ih =>
    rw [decodeFrom_cons]
    by_cases h : (step p b).1 = []
    · exact List.append_ne_nil_of_right_ne_nil _ (ih (ne_idle_of_step_eq_nil h))
    · exact List.append_ne_nil_of_left_ne_nil h _

/-- Only no bytes are read as no text. -/
theorem decodeLossy_eq_nil_iff {bs : Bytes} : decodeLossy bs = [] ↔ bs = [] := by
  constructor
  · intro h
    cases bs with
    | nil => rfl
    | cons b bs =>
      unfold decodeLossy at h
      rw [decodeFrom_cons, List.append_eq_nil_iff] at h
      exact absurd h.2 (decodeFrom_ne_nil (ne_idle_of_step_eq_nil h.1) bs)
  · rintro rfl
    rfl

end Utf8

end RequestEcho
