import RequestEcho.Address.Parser
import RequestEcho.Proofs.Address.Grammar

/-!
# Reading the pieces of an address

A reading in sequence succeeds exactly if its parts do, one behind the other (`bind_eq_some_iff`), and a choice takes
the first alternative that succeeds (`orElse_eq_some_iff`).  So each piece is read from exactly the texts that denote
it:

* a number is read if it goes on with no further digit (`number_eq_some_iff`);
* the same holds of octets and groups, IPv4 addresses, scopes and ports (`octet_eq_some_iff`, `group_eq_some_iff`,
  `ipv4_eq_some_iff`, `scope_eq_some_iff`, `port_eq_some_iff`).
-/

namespace RequestEcho

open Numeral

namespace Reading

variable {α β : Type} {p q : Reading α} {f : α → Reading β} {t rest : Text} {a a' : α} {b : β}

/-! ### Readings in sequence -/

theorem pure_eq_some_iff : (pure a : Reading α) t = some (a', rest) ↔ a = a' ∧ t = rest := by
  change some (a, t) = some (a', rest) ↔ _
  simp

theorem bind_eq_some_iff :
    (p >>= f) t = some (b, rest) ↔ ∃ a r, p t = some (a, r) ∧ f a r = some (b, rest) := by
  cases hp : p t with
  | none => simp [bind, StateT.bind, hp]
  | some r =>
    obtain ⟨a, r⟩ := r
    simp [bind, StateT.bind, hp]

theorem orElse_eq_some_iff {r : α × Text} : (p <|> q) t = some r ↔ p t = some r ∨ p t = none ∧ q t = some r := by
  change (p t <|> q t) = some r ↔ _
  cases hp : p t <;> simp

theorem char_eq_some_iff {c : Char} {u : Unit} : char c t = some (u, rest) ↔ t = c :: rest := by
  cases t with
  | nil => simp [char]
  | cons d t => by_cases hd : d = c <;> simp [char, hd]

theorem char_bind_eq_some_iff {c : Char} :
    (char c >>= fun _ => p) t = some (a, rest) ↔ ∃ r, t = c :: r ∧ p r = some (a, rest) := by
  simp only [bind_eq_some_iff, char_eq_some_iff, exists_const]

/-! ### Numbers -/

section

variable {base bound n : Nat} {admits : Text → Bool}

/-- A run of digits is read to its end. -/
theorem number_eq_some_iff (hbase : base ≤ 16) :
    number base admits bound t = some (n, rest) ↔
      ∃ s, t = s ++ rest ∧ (Numeral.Spelled base n s ∧ admits s = true ∧ n < bound) ∧ Ends base rest := by
  constructor
  · intro h
    have hsplit : t.takeWhile (isDigit base) ++ t.dropWhile (isDigit base) = t := List.takeWhile_append_dropWhile
    have hdrop : t.drop (t.takeWhile (isDigit base)).length = t.dropWhile (isDigit base) := by
      have hleft : (t.takeWhile (isDigit base) ++ t.dropWhile (isDigit base)).drop (t.takeWhile (isDigit base)).length =
          t.dropWhile (isDigit base) := List.drop_left
      rwa [hsplit] at hleft
    simp only [number, Option.bind_eq_bind, Option.bind_eq_some_iff, valueBelow?_eq_some_iff,
      value?_eq_some_iff hbase] at h
    obtain ⟨m, ⟨hspelled, hlt⟩, h⟩ := h
    rw [hdrop] at h
    split_ifs at h with hadmits
    cases h
    exact ⟨_, hsplit.symm, ⟨hspelled, hadmits, hlt⟩, ends_dropWhile t⟩
  · rintro ⟨s, rfl, ⟨hs, hadmits, hbound⟩, hrest⟩
    have htake : (s ++ rest).takeWhile (isDigit base) = s :=
      takeWhile_append_of_ends (fun c hc => hs.isDigit_of_mem hbase hc) hrest
    have hvalue : valueBelow? base bound s = some n :=
      valueBelow?_eq_some_iff.2 ⟨(value?_eq_some_iff hbase).2 hs, hbound⟩
    simp [number, htake, hvalue, hadmits]

/-- A number is read as a word if all values below the bound fit into the word and no others. -/
theorem word_eq_some_iff (word : Nat → α) (toNat : α → Nat) (hbase : base ≤ 16)
    (htoNat : ∀ n < bound, toNat (word n) = n) (hword : ∀ a, word (toNat a) = a) (hbound : ∀ a, toNat a < bound) :
    (number base admits bound >>= fun n => pure (word n)) t = some (a, rest) ↔
      ∃ s, t = s ++ rest ∧ (Numeral.Spelled base (toNat a) s ∧ admits s = true) ∧ Ends base rest := by
  simp only [bind_eq_some_iff, number_eq_some_iff hbase, pure_eq_some_iff]
  constructor
  · rintro ⟨n, _, ⟨s, rfl, ⟨hs, hadmits, hn⟩, hrest⟩, rfl, rfl⟩
    rw [← htoNat n hn] at hs
    exact ⟨s, rfl, ⟨hs, hadmits⟩, hrest⟩
  · rintro ⟨s, rfl, ⟨hs, hadmits⟩, hrest⟩
    exact ⟨toNat a, rest, ⟨s, rfl, ⟨hs, hadmits, hbound a⟩, hrest⟩, hword a, rfl⟩

end

/-! ### Octets and groups -/

theorem octet_eq_some_iff {x : UInt8} :
    octet t = some (x, rest) ↔ ∃ s, t = s ++ rest ∧ Ipv4.IsOctet x s ∧ Ends 10 rest := by
  have hoctet (s : Text) : Numeral.Spelled 10 x.toNat s ∧
      (s.length ≤ 3 && (s.length == 1 || s.head? != some '0')) = true ↔ Ipv4.IsOctet x s := by
    simp only [Bool.and_eq_true, Bool.or_eq_true, decide_eq_true_eq, beq_iff_eq, bne_iff_ne]
    constructor
    · rintro ⟨hvalue, hlength, hpadding⟩
      exact ⟨hvalue, hlength, fun hzero => hpadding.resolve_right fun hne => hne hzero⟩
    · rintro ⟨hvalue, hlength, hpadding⟩
      refine ⟨hvalue, hlength, ?_⟩
      by_cases hzero : s.head? = some '0'
      · exact .inl (hpadding hzero)
      · exact .inr hzero
  rw [octet, word_eq_some_iff Nat.toUInt8 UInt8.toNat (by omega) (fun n hn => UInt8.toNat_ofNat_of_lt' hn)
    (fun _ => UInt8.ofNat_toNat) UInt8.toNat_lt]
  simp only [hoctet]

theorem group_eq_some_iff {g : UInt16} :
    group t = some (g, rest) ↔ ∃ s, t = s ++ rest ∧ Ipv6.IsGroup g s ∧ Ends 16 rest := by
  have hgroup (s : Text) : Numeral.Spelled 16 g.toNat s ∧ decide (s.length ≤ 4) = true ↔ Ipv6.IsGroup g s := by
    rw [decide_eq_true_eq]
    exact ⟨fun h => ⟨h.1, h.2⟩, fun h => ⟨h.value, h.length_le⟩⟩
  rw [group, word_eq_some_iff Nat.toUInt16 UInt16.toNat (by omega) (fun n hn => UInt16.toNat_ofNat_of_lt' hn)
    (fun _ => UInt16.ofNat_toNat) UInt16.toNat_lt]
  simp only [hgroup]

/-! ### IPv4 addresses -/

theorem ipv4_eq_some_iff {ip : Ipv4} :
    ipv4 t = some (ip, rest) ↔ ∃ s, t = s ++ rest ∧ ip.Spelled s ∧ Ends 10 rest := by
  have hdot (r : Text) : Ends 10 ('.' :: r) := ends_cons (by decide) r
  simp only [ipv4, bind_eq_some_iff, octet_eq_some_iff, char_eq_some_iff, pure_eq_some_iff]
  constructor
  · rintro ⟨a, _, ⟨s₁, rfl, ha, -⟩, _, _, rfl, b, _, ⟨s₂, rfl, hb, -⟩, _, _, rfl, c, _, ⟨s₃, rfl, hc, -⟩, _, _, rfl,
      d, _, ⟨s₄, rfl, hd, hrest⟩, rfl, rfl⟩
    exact ⟨_, by simp, .octets ha hb hc hd, hrest⟩
  · rintro ⟨_, rfl, ⟨ha, hb, hc, hd⟩, hrest⟩
    simp only [List.append_assoc, List.cons_append]
    exact ⟨_, _, ⟨_, rfl, ha, hdot _⟩, (), _, rfl, _, _, ⟨_, rfl, hb, hdot _⟩, (), _, rfl,
      _, _, ⟨_, rfl, hc, hdot _⟩, (), _, rfl, _, _, ⟨_, rfl, hd, hrest⟩, rfl, rfl⟩

/-! ### Scopes and ports -/

/-- A decimal numeral of any length behind a mark. -/
theorem marked_eq_some_iff {bound : Nat} (mark : Char) (word : Nat → α) (toNat : α → Nat)
    (htoNat : ∀ n < bound, toNat (word n) = n) (hword : ∀ a, word (toNat a) = a) (hbound : ∀ a, toNat a < bound) :
    (char mark >>= fun _ => number 10 (fun _ => true) bound >>= fun n => pure (word n)) t = some (a, rest) ↔
      ∃ s, t = mark :: (s ++ rest) ∧ Numeral.Spelled 10 (toNat a) s ∧ Ends 10 rest := by
  simp only [char_bind_eq_some_iff, word_eq_some_iff word toNat (by omega : 10 ≤ 16) htoNat hword hbound, and_true]
  constructor
  · rintro ⟨_, rfl, s, rfl, hs, hrest⟩
    exact ⟨s, rfl, hs, hrest⟩
  · rintro ⟨s, rfl, hs, hrest⟩
    exact ⟨_, rfl, s, rfl, hs, hrest⟩

theorem scope_eq_some_iff {n : UInt32} :
    scope t = some (n, rest) ↔ ∃ s, t = '%' :: (s ++ rest) ∧ Numeral.Spelled 10 n.toNat s ∧ Ends 10 rest :=
  marked_eq_some_iff '%' Nat.toUInt32 UInt32.toNat (fun _ hn => UInt32.toNat_ofNat_of_lt' hn)
    (fun _ => UInt32.ofNat_toNat) UInt32.toNat_lt

theorem port_eq_some_iff {n : UInt16} :
    port t = some (n, rest) ↔ ∃ s, t = ':' :: (s ++ rest) ∧ Numeral.Spelled 10 n.toNat s ∧ Ends 10 rest :=
  marked_eq_some_iff ':' Nat.toUInt16 UInt16.toNat (fun _ hn => UInt16.toNat_ofNat_of_lt' hn)
    (fun _ => UInt16.ofNat_toNat) UInt16.toNat_lt

end Reading

end RequestEcho
