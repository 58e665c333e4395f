import RequestEcho.Proofs.Utf8.Ascii
import RequestEcho.Proofs.Utf8.Delimiters

/-!
# Substitution of maximal subparts

The text of any bytes, said by the encodings of characters alone (`Substitutes`): where a whole encoding stands, its
character is read; where none does, one replacement character is read for the longest beginning of an encoding, or for a
single byte if not even that stands there.

* A sequence that is open has a part behind it which begins the encodings of exactly the values that the sequence can be
  completed to (`Open`).  So a byte that completes it makes an encoding (`Open.encodeChar_eq_concat`), and a byte that
  breaks it goes on with none (`Open.not_begins_concat`).
* Hence the machine reads a substituted text (`substitutes_decodeFrom`), and there is no other
  (`substitutes_iff`).
-/

namespace RequestEcho

namespace Utf8

/-! ### The substituted text -/

/-- The bytes begin the encoding of a character. -/
def Begins (part : Bytes) : Prop := ∃ c, part <+: String.utf8EncodeChar c

/-- The part of `bytes` that one replacement character stands for: the longest beginning of an encoding, or a single
byte if the bytes begin with none. -/
def MaximalSubpart (part bytes : Bytes) : Prop :=
  part <+: bytes ∧
    ((part ≠ [] ∧ Begins part ∧ ∀ run, run <+: bytes → Begins run → run.length ≤ part.length) ∨
      (part.length = 1 ∧ ∀ run, run <+: bytes → run ≠ [] → ¬ Begins run))

theorem MaximalSubpart.ne_nil {part bytes : Bytes} (h : MaximalSubpart part bytes) : part ≠ [] := by
  obtain ⟨-, ⟨hne, -⟩ | ⟨hone, -⟩⟩ := h
  · exact hne
  · exact List.ne_nil_of_length_eq_add_one hone

theorem MaximalSubpart.eq {part part' bytes : Bytes} (h : MaximalSubpart part bytes) (h' : MaximalSubpart part' bytes) :
    part = part' := by
  have hlength : part.length = part'.length := by
    obtain ⟨hpart, ⟨hne, hbegins, hmax⟩ | ⟨hone, hnone⟩⟩ := h <;>
      obtain ⟨hpart', ⟨hne', hbegins', hmax'⟩ | ⟨hone', hnone'⟩⟩ := h'
    · exact Nat.le_antisymm (hmax' part hpart hbegins) (hmax part' hpart' hbegins')
    · exact absurd hbegins (hnone' part hpart hne)
    · exact absurd hbegins' (hnone part' hpart' hne')
    · rw [hone, hone']
  exact (List.prefix_of_prefix_length_le h.1 h'.1 (Nat.le_of_eq hlength)).eq_of_length hlength

/-- The text that is read from the bytes, from the left to the right. -/
inductive Substitutes : Bytes → Text → Prop
  | nil : Substitutes [] []
  | char (c : Char) {bytes : Bytes} {text : Text} (rest : Substitutes bytes text) :
    Substitutes (String.utf8EncodeChar c ++ bytes) (c :: text)
  | replaced {part bytes : Bytes} {text : Text} (hnone : ∀ c, ¬ String.utf8EncodeChar c <+: part ++ bytes)
      (hpart : MaximalSubpart part (part ++ bytes)) (rest : Substitutes bytes text) :
    Substitutes (part ++ bytes) (replacement :: text)

/-! ### Encodings -/

theorem encodeChar_ne_nil (c : Char) : String.utf8EncodeChar c ≠ [] := by
  have hlength : 0 < (String.utf8EncodeChar c).length := by
    rw [String.length_utf8EncodeChar]
    exact c.utf8Size_pos
  exact List.ne_nil_of_length_pos hlength

theorem decodeLossy_encodeChar_append (c : Char) (bs : Bytes) :
    decodeLossy (String.utf8EncodeChar c ++ bs) = c :: decodeLossy bs :=
  decodeFrom_encodeChar c bs

/-- No encoding begins another one. -/
theorem eq_of_encodeChar_append {c d : Char} {more : Bytes}
    (h : String.utf8EncodeChar c ++ more = String.utf8EncodeChar d) : c = d ∧ more = [] := by
  have hread := decodeLossy_encodeChar_append d []
  rw [List.append_nil, ← h, decodeLossy_encodeChar_append] at hread
  obtain ⟨hc, hmore⟩ := List.cons.inj hread
  exact ⟨hc, decodeLossy_eq_nil_iff.1 hmore⟩

/-- The last bytes of the encoding of the value `v`, six bits each. -/
def continuation (v : Nat) : Nat → Bytes
  | 0 => [UInt8.ofNat (v % 64 + 128)]
  | n + 1 => UInt8.ofNat (v / 64 ^ (n + 1) % 64 + 128) :: continuation v n

theorem continuation_ne_nil (v n : Nat) : continuation v n ≠ [] := by
  cases n <;> simp [continuation]

/-- A continuation byte from its six bits. -/
theorem ofNat_bits {b : UInt8} (hlow : 0x80 ≤ b.toNat) : UInt8.ofNat (b.toNat - 0x80 + 128) = b := by
  have h : b.toNat - 0x80 + 128 = b.toNat := by omega
  rw [h, UInt8.ofNat_toNat]

/-! ### Open sequences -/

/-- The sequence that `part` has opened: the machine has read `part` and given nothing yet, and `part` begins the
encodings of the values that the sequence can be completed to. -/
structure Open (part : Bytes) (acc : Nat) (low high : UInt8) (further : Nat) : Prop where
  sound : (Progress.partway acc low high further).Sound
  low_le_high : low ≤ high
  encodeChar_eq : ∀ v, least acc low further ≤ v → v < bound acc high further →
    String.utf8EncodeChar (Char.ofNat v) = part ++ continuation v further
  decode_eq : ∀ bs, decodeLossy (part ++ bs) = decodeFrom (.partway acc low high further) bs

/-- How many bytes a first byte leads, and how it holds the highest bits. -/
private def Leads (n : Nat) : Progress → Prop
  | .idle => False
  | .partway acc low high further => low ≤ high ∧
    ((further = 0 ∧ n = acc + 192 ∧ 0x80 ≤ least acc low 0 ∧ bound acc high 0 ≤ 0x800) ∨
      (further = 1 ∧ n = acc + 224 ∧ 0x800 ≤ least acc low 1 ∧ bound acc high 1 ≤ 0x10000) ∨
      (further = 2 ∧ n = acc + 240 ∧ 0x10000 ≤ least acc low 2 ∧ bound acc high 2 ≤ 0x110000))

private instance (n : Nat) : DecidablePred (Leads n)
  | .idle => inferInstanceAs (Decidable False)
  | .partway acc low high further => inferInstanceAs (Decidable (low ≤ high ∧
    ((further = 0 ∧ n = acc + 192 ∧ 0x80 ≤ least acc low 0 ∧ bound acc high 0 ≤ 0x800) ∨
      (further = 1 ∧ n = acc + 224 ∧ 0x800 ≤ least acc low 1 ∧ bound acc high 1 ≤ 0x10000) ∨
      (further = 2 ∧ n = acc + 240 ∧ 0x10000 ≤ least acc low 2 ∧ bound acc high 2 ≤ 0x110000))))

private theorem leads_table : ∀ n < 256, ∀ p ∈ first? (UInt8.ofNat n), Leads n p := by
  decide +kernel

/-- The values that a sequence can be completed to have the bits that it has gathered. -/
theorem div_of_bounds {acc further v : Nat} {low high : UInt8} (hhigh : high.toNat ≤ 0xBF)
    (hv : least acc low further ≤ v) (hv' : v < bound acc high further) : v / 64 ^ (further + 1) = acc := by
  have hstart : acc * 64 ^ (further + 1) ≤ least acc low further := by
    rw [Nat.pow_succ', ← Nat.mul_assoc]
    exact Nat.mul_le_mul_right _ (by omega)
  have hend : bound acc high further ≤ (acc + 1) * 64 ^ (further + 1) := by
    rw [Nat.pow_succ', ← Nat.mul_assoc]
    exact Nat.mul_le_mul_right _ (by omega)
  exact Nat.div_eq_of_lt_le (by omega) (by omega)

/-- The bits of a character behind its first byte, by the length of its encoding. -/
private theorem encodeChar_of_lead {n v further : Nat} (hv : v.isValidChar)
    (h : (further = 0 ∧ n = v / 64 + 192 ∧ 0x80 ≤ v ∧ v < 0x800) ∨
      (further = 1 ∧ n = v / 4096 + 224 ∧ 0x800 ≤ v ∧ v < 0x10000) ∨
      (further = 2 ∧ n = v / 262144 + 240 ∧ 0x10000 ≤ v ∧ v < 0x110000)) :
    String.utf8EncodeChar (Char.ofNat v) = UInt8.ofNat n :: continuation v further := by
  have htoNat : (Char.ofNat v).val.toNat = v := toNat_ofNat hv
  rw [String.utf8EncodeChar, htoNat]
  rcases h with ⟨rfl, rfl, hlow, hhigh⟩ | ⟨rfl, rfl, hlow, hhigh⟩ | ⟨rfl, rfl, hlow, hhigh⟩
  · have hbits : v / 64 % 32 = v / 64 := by omega
    simp only [continuation]
    rw [if_neg (by omega), if_pos (by omega), hbits]
  · have hbits : v / 4096 % 16 = v / 4096 := by omega
    simp only [continuation]
    rw [if_neg (by omega), if_neg (by omega), if_pos (by omega), hbits, Nat.pow_one]
  · have hbits : v / 262144 % 8 = v / 262144 := by omega
    simp only [continuation]
    rw [if_neg (by omega), if_neg (by omega), if_neg (by omega), hbits]
    rfl

theorem open_first {b : UInt8} {acc further : Nat} {low high : UInt8} (hb : ¬ b < 0x80)
    (h : first? b = some (.partway acc low high further)) : Open [b] acc low high further := by
  have hlead : Leads b.toNat (.partway acc low high further) := by
    refine leads_table b.toNat b.toNat_lt _ ?_
    rw [UInt8.ofNat_toNat, h]
    rfl
  obtain ⟨hle, hlead⟩ := hlead
  have hsound := (sound_of_first? h).1
  refine ⟨hsound, hle, ?_, ?_⟩
  · intro v hlow hhigh
    obtain ⟨hlow128, hhigh192, -, hscalar⟩ := hsound
    have hvalid : v.isValidChar := by
      unfold Nat.isValidChar
      omega
    have hbits := div_of_bounds (by omega) hlow hhigh
    have hchar : String.utf8EncodeChar (Char.ofNat v) = UInt8.ofNat b.toNat :: continuation v further := by
      refine encodeChar_of_lead hvalid ?_
      rcases hlead with ⟨rfl, hn, hleast, hbound⟩ | ⟨rfl, hn, hleast, hbound⟩ | ⟨rfl, hn, hleast, hbound⟩
      · exact .inl ⟨rfl, by omega, by omega, by omega⟩
      · exact .inr (.inl ⟨rfl, by omega, by omega, by omega⟩)
      · exact .inr (.inr ⟨rfl, by omega, by omega, by omega⟩)
    rw [hchar, UInt8.ofNat_toNat]
    rfl
  · intro bs
    have hstart : start b = ([], .partway acc low high further) := by rw [start, if_neg hb, h]
    rw [List.singleton_append, decodeLossy, decodeFrom_cons, step_idle, hstart]
    rfl

section

variable {part : Bytes} {acc further n : Nat} {low high b : UInt8}

theorem Open.more (h : Open part acc low high (n + 1)) (hb : low ≤ b ∧ b ≤ high) :
    Open (part ++ [b]) (acc * 64 + (b.toNat - 0x80)) 0x80 0xBF n := by
  have hsound := sound_continue h.sound hb.1 hb.2
  have hlow := UInt8.le_iff_toNat_le.1 hb.1
  have hhigh := UInt8.le_iff_toNat_le.1 hb.2
  obtain ⟨hlow128, hhigh192, -, -⟩ := h.sound
  refine ⟨hsound, by decide, ?_, ?_⟩
  · intro v hv hv'
    -- the next six bits of `v` are those of `b`, so `v` lies between the bounds of the shorter part too
    have hbits := div_of_bounds (by decide) hv hv'
    have hpow : 0 < 64 ^ (n + 1) := Nat.pow_pos (by decide)
    have hvalue : acc * 64 + (b.toNat - 0x80) = v / 64 ^ (n + 1) := hbits.symm
    have hleast : least acc low (n + 1) ≤ v := by
      refine Nat.le_trans (Nat.mul_le_mul_right _ ?_) (Nat.div_mul_le_self v (64 ^ (n + 1)))
      omega
    have hbound : v < bound acc high (n + 1) := by
      refine (Nat.div_lt_iff_lt_mul hpow).1 ?_
      omega
    have hmod : v / 64 ^ (n + 1) % 64 = b.toNat - 0x80 := by omega
    rw [h.encodeChar_eq v hleast hbound, continuation, hmod, ofNat_bits (by omega), List.append_assoc]
    rfl
  · intro bs
    rw [List.append_assoc, List.singleton_append, h.decode_eq, decodeFrom_cons, step_of_continues hb]
    rfl

/-- A byte that completes the sequence makes an encoding. -/
theorem Open.encodeChar_eq_concat (h : Open part acc low high 0) (hb : low ≤ b ∧ b ≤ high) :
    String.utf8EncodeChar (Char.ofNat (acc * 64 + (b.toNat - 0x80))) = part ++ [b] := by
  have hlow := UInt8.le_iff_toNat_le.1 hb.1
  have hhigh := UInt8.le_iff_toNat_le.1 hb.2
  obtain ⟨hlow128, hhigh192, -, -⟩ := h.sound
  have hmod : (acc * 64 + (b.toNat - 0x80)) % 64 = b.toNat - 0x80 := by omega
  have hchar := h.encodeChar_eq (acc * 64 + (b.toNat - 0x80)) (by simp only [least, Nat.pow_zero]; omega)
    (by simp only [bound, Nat.pow_zero]; omega)
  rw [hchar, continuation, hmod, ofNat_bits (by omega)]

/-- Something is missing to an encoding that the part begins. -/
theorem Open.exists_char (h : Open part acc low high further) :
    ∃ c more, more ≠ [] ∧ String.utf8EncodeChar c = part ++ more := by
  have hle := UInt8.le_iff_toNat_le.1 h.low_le_high
  have hpow : 0 < 64 ^ further := Nat.pow_pos (by decide)
  have hlt : least acc low further < bound acc high further := Nat.mul_lt_mul_of_pos_right (by omega) hpow
  exact ⟨_, _, continuation_ne_nil _ _, h.encodeChar_eq _ (Nat.le_refl _) hlt⟩

/-- A byte that breaks the sequence goes on with no encoding. -/
theorem Open.not_begins_concat (h : Open part acc low high further) (hb : ¬ (low ≤ b ∧ b ≤ high)) :
    ¬ Begins (part ++ [b]) := by
  rintro ⟨c, more, hc⟩
  have hread := decodeLossy_encodeChar_append c []
  rw [List.append_nil, ← hc, List.append_assoc, List.singleton_append, h.decode_eq, decodeFrom_cons,
    step_of_breaks hb] at hread
  -- the replacement character is all of the text, although the byte `b` is still to be read
  obtain ⟨-, hrest⟩ := List.cons.inj hread
  exact absurd (decodeLossy_eq_nil_iff.1 (show decodeLossy (b :: more) = [] from hrest)) (by simp)

/-- No encoding stands where a sequence is broken. -/
theorem Open.not_encodeChar_prefix (h : Open part acc low high further) {bs : Bytes}
    (hbs : ∀ b, bs.head? = some b → ¬ (low ≤ b ∧ b ≤ high)) (c : Char) : ¬ String.utf8EncodeChar c <+: part ++ bs := by
  rintro ⟨more, hc⟩
  rcases List.append_eq_append_iff.1 hc with ⟨rest, hpart, -⟩ | ⟨rest, hchar, hbs'⟩
  · -- the encoding of `c` would begin another one
    obtain ⟨d, more', hne, hd⟩ := h.exists_char
    rw [hpart, List.append_assoc] at hd
    have hnil := (eq_of_encodeChar_append hd.symm).2
    exact hne (List.append_eq_nil_iff.1 hnil).2
  · cases rest with
    | nil =>
      obtain ⟨d, more', hne, hd⟩ := h.exists_char
      rw [List.append_nil] at hchar
      rw [← hchar] at hd
      exact hne (eq_of_encodeChar_append hd.symm).2
    | cons b rest =>
      refine h.not_begins_concat (hbs b (by rw [hbs']; rfl)) ⟨c, rest, ?_⟩
      rw [hchar, List.append_assoc]
      rfl

end

/-! ### The text that the machine reads -/

/-- Where an open sequence is broken, its part is what the replacement character stands for. -/
theorem Open.substitutes {part : Bytes} {acc further : Nat} {low high : UInt8} (h : Open part acc low high further)
    {bs : Bytes} {text : Text} (hbs : ∀ b, bs.head? = some b → ¬ (low ≤ b ∧ b ≤ high)) (hrest : Substitutes bs text) :
    Substitutes (part ++ bs) (replacement :: text) := by
  obtain ⟨c, more, hne, hc⟩ := h.exists_char
  have hpart : part ≠ [] := by
    rintro rfl
    have hread := h.decode_eq []
    cases hread
  refine .replaced (h.not_encodeChar_prefix hbs) ⟨List.prefix_append _ _, .inl ⟨hpart, ⟨c, more, hc.symm⟩, ?_⟩⟩ hrest
  intro run hrun hbegins
  refine Nat.le_of_not_lt fun hlong => ?_
  -- a longer beginning would go on with the byte that breaks the sequence
  obtain ⟨rest, rfl⟩ := List.prefix_of_prefix_length_le (List.prefix_append part bs) hrun (by omega)
  have hrest := (List.prefix_append_right_inj part).1 hrun
  cases rest with
  | nil => simp at hlong
  | cons b rest =>
    obtain ⟨bs', rfl⟩ := hrest
    refine h.not_begins_concat (hbs b rfl) ?_
    obtain ⟨d, hd⟩ := hbegins
    refine ⟨d, List.IsPrefix.trans ?_ hd⟩
    exact (List.prefix_append_right_inj part).2 (List.cons_prefix_cons.2 ⟨rfl, List.nil_prefix⟩)

/-- A byte that begins no encoding is replaced alone. -/
theorem substitutes_of_first?_eq_none {b : UInt8} (hb : ¬ b < 0x80) (h : first? b = none) {bs : Bytes} {text : Text}
    (hrest : Substitutes bs text) : Substitutes (b :: bs) (replacement :: text) := by
  have hbegins : ∀ run, run <+: b :: bs → run ≠ [] → ¬ Begins run := by
    rintro run hrun hne ⟨c, more, hc⟩
    obtain ⟨a, run, rfl⟩ := List.exists_cons_of_ne_nil hne
    obtain ⟨rfl, -⟩ := List.cons_prefix_cons.1 hrun
    have hstart : start a = ([replacement], .idle) := by rw [start, if_neg hb, h]
    have hread := decodeLossy_encodeChar_append c []
    rw [List.append_nil, ← hc, List.cons_append, decodeLossy, decodeFrom_cons, step_idle, hstart] at hread
    -- so it would be the only byte of the replacement character
    obtain ⟨rfl, hnil⟩ := List.cons.inj hread
    have hshort := decodeLossy_eq_nil_iff.1 (show decodeLossy (run ++ more) = [] from hnil)
    have hlength := congrArg List.length hc
    rw [List.cons_append, hshort] at hlength
    cases hlength
  have hnone : ∀ c, ¬ String.utf8EncodeChar c <+: [b] ++ bs :=
    fun c hc => hbegins _ hc (encodeChar_ne_nil c) ⟨c, List.prefix_refl _⟩
  exact .replaced hnone ⟨List.prefix_append _ _, .inr ⟨rfl, hbegins⟩⟩ hrest

/-- The induction is on the bytes to come, for both states of the machine at once: a byte that breaks an open sequence
is read again as a first byte. -/
theorem substitutes_decodeFrom (bs : Bytes) :
    Substitutes bs (decodeLossy bs) ∧
      ∀ part acc low high further, Open part acc low high further →
        Substitutes (part ++ bs) (decodeFrom (.partway acc low high further) bs) := by
  induction bs with
  | nil =>
    refine ⟨.nil, ?_⟩
    intro part acc low high further h
    exact h.substitutes (by simp) .nil
  | cons b bs ih =>
    obtain ⟨hidle, hopen⟩ := ih
    have hfirst : Substitutes (b :: bs) (decodeLossy (b :: bs)) := by
      rw [decodeLossy, decodeFrom_cons, step_idle]
      by_cases hb : b < 0x80
      · obtain ⟨c, hc, rfl⟩ := exists_ascii_char (UInt8.lt_iff_toNat_lt.1 hb)
        have hchar := Substitutes.char c hidle
        rw [encodeChar_of_lt_128 hc] at hchar
        rw [start_ascii hc, Char.ofNat_toNat]
        exact hchar
      · cases hlead : first? b with
        | none =>
          rw [start, if_neg hb, hlead]
          exact substitutes_of_first?_eq_none hb hlead hidle
        | some p =>
          cases p with
          | idle => exact absurd rfl (sound_of_first? hlead).2
          | partway acc low high further =>
            rw [start, if_neg hb, hlead]
            exact hopen [b] acc low high further (open_first hb hlead)
    refine ⟨hfirst, ?_⟩
    intro part acc low high further h
    rw [decodeFrom_cons]
    by_cases hb : low ≤ b ∧ b ≤ high
    · rw [step_of_continues hb]
      cases further with
      | zero =>
        have hchar := Substitutes.char (Char.ofNat (acc * 64 + (b.toNat - 0x80))) hidle
        rw [h.encodeChar_eq_concat hb, List.append_assoc] at hchar
        exact hchar
      | succ n =>
        have hmore := hopen _ _ _ _ _ (h.more hb)
        rw [List.append_assoc] at hmore
        exact hmore
    · rw [step_of_breaks hb]
      refine h.substitutes ?_ hfirst
      rintro a ⟨⟩
      exact hb

/-- There is no choice in the substitution. -/
theorem Substitutes.unique {bytes : Bytes} {text text' : Text} (h : Substitutes bytes text)
    (h' : Substitutes bytes text') : text = text' := by
  induction h generalizing text' with
  | nil =>
    generalize hbytes : ([] : Bytes) = bytes at h'
    cases h' with
    | nil => rfl
    | char c => exact absurd (List.append_eq_nil_iff.1 hbytes.symm).1 (encodeChar_ne_nil c)
    | replaced _ hpart => exact absurd (List.append_eq_nil_iff.1 hbytes.symm).1 hpart.ne_nil
  | @char c bytes text _ ih =>
    generalize hbytes : String.utf8EncodeChar c ++ bytes = whole at h'
    cases h' with
    | nil => exact absurd (List.append_eq_nil_iff.1 hbytes).1 (encodeChar_ne_nil c)
    | @char d bytes' _ rest' =>
      have hread := congrArg decodeLossy hbytes
      rw [decodeLossy_encodeChar_append, decodeLossy_encodeChar_append] at hread
      obtain ⟨rfl, -⟩ := List.cons.inj hread
      obtain rfl := List.append_cancel_left hbytes
      rw [ih rest']
    | replaced hnone => exact absurd ⟨bytes, hbytes⟩ (hnone c)
  | @replaced part bytes text hnone hpart _ ih =>
    generalize hbytes : part ++ bytes = whole at h' hnone hpart
    cases h' with
    | nil => exact absurd (List.append_eq_nil_iff.1 hbytes).1 hpart.ne_nil
    | char c => exact absurd (List.prefix_append _ _) (hnone c)
    | @replaced part' bytes' _ _ hpart' rest' =>
      obtain rfl := hpart.eq hpart'
      obtain rfl := List.append_cancel_left hbytes
      rw [ih rest']

/-- A byte is written as three bytes at most, whether it is a character, part of one, or replaced. -/
theorem Substitutes.length_encode_le {bytes : Bytes} {text : Text} (h : Substitutes bytes text) :
    (encode text).length ≤ 3 * bytes.length := by
  induction h with
  | nil => exact Nat.le_refl 0
  | char c _ ih =>
    rw [encode_cons, List.length_append, List.length_append]
    omega
  | replaced _ hpart _ ih =>
    have hpart := List.length_pos_iff.2 hpart.ne_nil
    have hthree : (String.utf8EncodeChar replacement).length = 3 := by decide
    rw [encode_cons, List.length_append, List.length_append, hthree]
    omega

/-- The machine reads the substituted text. -/
theorem substitutes_iff {bytes : Bytes} {text : Text} : Substitutes bytes text ↔ text = decodeLossy bytes := by
  have hread := (substitutes_decodeFrom bytes).1
  constructor
  · intro h
    exact h.unique hread
  · rintro rfl
    exact hread

end Utf8

end RequestEcho
