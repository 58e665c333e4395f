import RequestEcho.Address.Printer

/-!
# The printed form of an address

The printed form of an IPv6 address is described without a search for the run that is left out (`Ipv6.Written`): the
run has two groups or more, none is longer, and none of its length comes before it (`Compresses`).  Every address has
exactly one form of this kind, and that is how it is printed (`Ipv6.written_iff`, `SocketAddress.written_iff`).

The search keeps the first of the longest runs that begin before the place it has come to (`FirstLongest`), and a run of
`m` zeros at a place is what `m` does not exceed there (`replicate_prefix_iff`).
-/

namespace RequestEcho

/-! ### Mapped addresses -/

namespace Ipv4

private theorem high_octet (a b : UInt8) : ((a.toUInt16 * 256 + b.toUInt16) / 256).toUInt8 = a := by
  have ha := a.toNat_lt
  have hb := b.toNat_lt
  refine UInt8.toNat_inj.1 ?_
  simp only [UInt16.toNat_toUInt8, UInt16.toNat_div, UInt16.toNat_add, UInt16.toNat_mul, UInt8.toNat_toUInt16,
    UInt16.reduceToNat]
  omega

private theorem low_octet (a b : UInt8) : (a.toUInt16 * 256 + b.toUInt16).toUInt8 = b := by
  have ha := a.toNat_lt
  have hb := b.toNat_lt
  refine UInt8.toNat_inj.1 ?_
  simp only [UInt16.toNat_toUInt8, UInt16.toNat_add, UInt16.toNat_mul, UInt8.toNat_toUInt16, UInt16.reduceToNat]
  omega

private theorem octets_eq (g : UInt16) : (g / 256).toUInt8.toUInt16 * 256 + g.toUInt8.toUInt16 = g := by
  have hg := g.toNat_lt
  refine UInt16.toNat_inj.1 ?_
  simp only [UInt16.toNat_toUInt8, UInt16.toNat_div, UInt16.toNat_add, UInt16.toNat_mul, UInt8.toNat_toUInt16,
    UInt16.reduceToNat]
  omega

/-- Two groups hold the same as four octets. -/
theorem toGroups_eq_iff {ip : Ipv4} {g h : UInt16} : ip.toGroups = [g, h] ↔ ofGroups g h = ip := by
  constructor
  · intro hgroups
    obtain ⟨rfl, hrest⟩ := List.cons.inj hgroups
    obtain ⟨rfl, -⟩ := List.cons.inj hrest
    simp only [ofGroups, high_octet, low_octet]
  · rintro rfl
    simp only [toGroups, ofGroups, octets_eq]

end Ipv4

namespace Ipv6

/-- `v4` is the IPv4 address mapped into `ip`. -/
def Maps (ip : Ipv6) (v4 : Ipv4) : Prop := ip.groups = [0, 0, 0, 0, 0, 0xFFFF] ++ v4.toGroups

theorem mapped?_eq_some_iff {ip : Ipv6} {v4 : Ipv4} : ip.mapped? = some v4 ↔ ip.Maps v4 := by
  unfold mapped? Maps
  split
  · rename_i g h hgroups
    rw [hgroups, Option.some.injEq, ← Ipv4.toGroups_eq_iff]
    simp [eq_comm]
  · rename_i hother
    constructor
    · intro hnone
      cases hnone
    · intro hgroups
      exact absurd hgroups (hother _ _)

theorem Maps.unique {ip : Ipv6} {v4 v4' : Ipv4} (h : ip.Maps v4) (h' : ip.Maps v4') : v4 = v4' :=
  Option.some.inj ((mapped?_eq_some_iff.2 h).symm.trans (mapped?_eq_some_iff.2 h'))

/-! ### Runs of zeros -/

variable {groups before after : List UInt16} {m n k : Nat} {best : Nat × Nat}

/-- The length of the run of zeros from place `i` on. -/
def zerosAt (groups : List UInt16) (i : Nat) : Nat := ((groups.drop i).takeWhile (· = 0)).length

theorem replicate_prefix_iff : List.replicate m 0 <+: groups ↔ m ≤ (groups.takeWhile (· = 0)).length := by
  induction m generalizing groups with
  | zero => simp
  | succ m ih =>
    cases groups with
    | nil => simp
    | cons g groups =>
      rw [List.replicate_succ, List.cons_prefix_cons, ih, List.takeWhile_cons]
      by_cases hg : g = 0
      · simp [hg]
      · simp [hg, Ne.symm hg]

theorem le_zerosAt_of_append (h : groups = before ++ List.replicate m 0 ++ after) :
    m ≤ zerosAt groups before.length := by
  rw [zerosAt, ← replicate_prefix_iff, h, List.append_assoc, List.drop_left]
  exact List.prefix_append _ _

/-- `best` is the first of the longest runs that begin before place `k`. -/
structure FirstLongest (groups : List UInt16) (k : Nat) (best : Nat × Nat) : Prop where
  le : best.2 ≤ zerosAt groups best.1
  longest : ∀ i < k, zerosAt groups i ≤ best.2
  first : ∀ i < best.1, zerosAt groups i < best.2

/-- A run takes the place of the best one only if it is longer. -/
theorem FirstLongest.step (h : FirstLongest groups k best) :
    FirstLongest groups (k + 1) (if best.2 < zerosAt groups k then (k, zerosAt groups k) else best) := by
  by_cases hlonger : best.2 < zerosAt groups k
  · rw [if_pos hlonger]
    have hbefore (i : Nat) (hi : i < k) : zerosAt groups i < zerosAt groups k :=
      Nat.lt_of_le_of_lt (h.longest i hi) hlonger
    refine ⟨Nat.le_refl _, ?_, hbefore⟩
    intro i hi
    rcases Nat.lt_succ_iff_lt_or_eq.1 hi with hi | rfl
    · exact Nat.le_of_lt (hbefore i hi)
    · exact Nat.le_refl _
  · rw [if_neg hlonger]
    refine ⟨h.le, ?_, h.first⟩
    intro i hi
    rcases Nat.lt_succ_iff_lt_or_eq.1 hi with hi | rfl
    · exact h.longest i hi
    · exact Nat.le_of_not_lt hlonger

theorem firstLongest_foldl (groups : List UInt16) (k : Nat) :
    FirstLongest groups k (((List.range k).map fun i => (i, zerosAt groups i)).foldl
      (fun best run => if best.2 < run.2 then run else best) (0, 0)) := by
  induction k with
  | zero => exact ⟨Nat.zero_le _, by simp, by simp⟩
  | succ k ih =>
    rw [List.range_succ, List.map_append, List.foldl_append]
    exact ih.step

theorem firstLongest_longestZeros (groups : List UInt16) :
    FirstLongest groups groups.length (longestZeros groups) := firstLongest_foldl groups groups.length

theorem FirstLongest.le_of_infix (h : FirstLongest groups groups.length best)
    (hzeros : List.replicate m 0 <:+: groups) : m ≤ best.2 := by
  obtain ⟨before, after, heq⟩ := hzeros
  by_cases hm : m = 0
  · omega
  · have hplace : before.length < groups.length := by
      rw [← heq]
      simp
      omega
    exact Nat.le_trans (le_zerosAt_of_append heq.symm) (h.longest _ hplace)

/-! ### The run that is left out -/

/-- `n` zeros stand between `before` and `after`, two or more; no run is longer, and none as long comes earlier. -/
structure Compresses (groups before : List UInt16) (n : Nat) (after : List UInt16) : Prop where
  groups_eq : groups = before ++ List.replicate n 0 ++ after
  two_le : 2 ≤ n
  longest : ∀ m, List.replicate m 0 <:+: groups → m ≤ n
  first : ∀ before' after', groups = before' ++ List.replicate n 0 ++ after' → before.length ≤ before'.length

theorem Compresses.isInfix (h : Compresses groups before n after) : List.replicate n 0 <:+: groups :=
  ⟨before, after, h.groups_eq.symm⟩

theorem Compresses.unique {before' after' : List UInt16} {n' : Nat} (h : Compresses groups before n after)
    (h' : Compresses groups before' n' after') : before = before' ∧ after = after' := by
  have hn : n = n' := Nat.le_antisymm (h'.longest n h.isInfix) (h.longest n' h'.isInfix)
  subst hn
  have hlength : before.length = before'.length :=
    Nat.le_antisymm (h.first _ _ h'.groups_eq) (h'.first _ _ h.groups_eq)
  have heq := h.groups_eq.symm.trans h'.groups_eq
  rw [List.append_assoc, List.append_assoc] at heq
  obtain ⟨hbefore, hrest⟩ := List.append_inj heq hlength
  exact ⟨hbefore, List.append_cancel_left hrest⟩

theorem FirstLongest.compresses (h : FirstLongest groups groups.length best) (htwo : 2 ≤ best.2) :
    Compresses groups (groups.take best.1) best.2 (groups.drop (best.1 + best.2)) where
  groups_eq := by
    obtain ⟨rest, hrest⟩ := replicate_prefix_iff.2 h.le
    have hafter : groups.drop (best.1 + best.2) = rest := by
      rw [← List.drop_drop, ← hrest]
      exact List.drop_left' List.length_replicate
    rw [hafter, List.append_assoc, hrest, List.take_append_drop]
  two_le := htwo
  longest m hzeros := h.le_of_infix hzeros
  first before' after' heq := by
    have hplace : best.1 ≤ before'.length := by
      refine Nat.le_of_not_lt fun hlt => ?_
      have hshorter := h.first _ hlt
      have hlong := le_zerosAt_of_append heq
      omega
    rw [List.length_take]
    omega

/-! ### The text -/

/-- The forms in which an address may be written, by what its groups are. -/
inductive Written (ip : Ipv6) : Text → Prop
  | mapped {v4 : Ipv4} (h : ip.Maps v4) : Written ip ("::ffff:".toList ++ v4.text)
  | plain (hmapped : ∀ v4, ¬ ip.Maps v4) (h : ¬ [0, 0] <:+: ip.groups) : Written ip (groupsText ip.groups)
  | compressed {before after : List UInt16} {n : Nat} (hmapped : ∀ v4, ¬ ip.Maps v4)
    (h : Compresses ip.groups before n after) : Written ip (groupsText before ++ "::".toList ++ groupsText after)

theorem written_text (ip : Ipv6) : ip.Written ip.text := by
  have hsearch := firstLongest_longestZeros ip.groups
  unfold text
  cases hmapped : ip.mapped? with
  | some v4 => exact .mapped (mapped?_eq_some_iff.1 hmapped)
  | none =>
    have hnone (v4 : Ipv4) : ¬ ip.Maps v4 := by
      rw [← mapped?_eq_some_iff, hmapped]
      exact nofun
    dsimp only
    split
    · rename_i hshort
      refine .plain hnone fun hzeros => ?_
      have htwo := hsearch.le_of_infix (m := 2) hzeros
      omega
    · rename_i hlong
      exact .compressed hnone (hsearch.compresses (Nat.le_of_not_lt hlong))

theorem Compresses.isInfix_pair (h : Compresses groups before n after) : [0, 0] <:+: groups := by
  have hpair : [0, 0] <+: List.replicate n (0 : UInt16) := by
    obtain ⟨k, rfl⟩ : ∃ k, n = k + 2 := ⟨n - 2, by have htwo := h.two_le; omega⟩
    exact ⟨List.replicate k 0, rfl⟩
  exact hpair.isInfix.trans h.isInfix

theorem Written.unique {ip : Ipv6} {t t' : Text} (h : ip.Written t) (h' : ip.Written t') : t = t' := by
  cases h with
  | mapped hmaps =>
    cases h' with
    | mapped hmaps' => rw [hmaps.unique hmaps']
    | plain hnone' _ => exact absurd hmaps (hnone' _)
    | compressed hnone' _ => exact absurd hmaps (hnone' _)
  | plain hnone hshort =>
    cases h' with
    | mapped hmaps' => exact absurd hmaps' (hnone _)
    | plain _ _ => rfl
    | compressed _ hrun' => exact absurd hrun'.isInfix_pair hshort
  | compressed hnone hrun =>
    cases h' with
    | mapped hmaps' => exact absurd hmaps' (hnone _)
    | plain _ hshort' => exact absurd hrun.isInfix_pair hshort'
    | compressed _ hrun' =>
      obtain ⟨hbefore, hafter⟩ := hrun.unique hrun'
      rw [hbefore, hafter]

theorem written_iff {ip : Ipv6} {t : Text} : ip.Written t ↔ t = ip.text := by
  constructor
  · intro h
    exact h.unique ip.written_text
  · rintro rfl
    exact ip.written_text

end Ipv6

/-! ### Socket addresses -/

namespace SocketAddress

/-- The form in which a socket address may be written: the scope stands in it only if it is not 0. -/
inductive Written : SocketAddress → Text → Prop
  | v4 (ip : Ipv4) (port : UInt16) : Written (.v4 ip port) (ip.text ++ ':' :: decimal port.toNat)
  | v6 {ip : Ipv6} {t : Text} (h : ip.Written t) (port : UInt16) :
    Written (.v6 ip 0 port) ('[' :: t ++ ']' :: ':' :: decimal port.toNat)
  | withScope {ip : Ipv6} {t : Text} (h : ip.Written t) {scope : UInt32} (hscope : scope ≠ 0) (port : UInt16) :
    Written (.v6 ip scope port) ('[' :: t ++ '%' :: decimal scope.toNat ++ ']' :: ':' :: decimal port.toNat)

theorem text_v6 (ip : Ipv6) (port : UInt16) :
    text (.v6 ip 0 port) = '[' :: ip.text ++ ']' :: ':' :: decimal port.toNat := by
  simp [text, hostText, SocketAddress.port]

theorem text_v6_of_scope (ip : Ipv6) {scope : UInt32} (hscope : scope ≠ 0) (port : UInt16) :
    text (.v6 ip scope port) = '[' :: ip.text ++ '%' :: decimal scope.toNat ++ ']' :: ':' :: decimal port.toNat := by
  simp [text, hostText, hscope, SocketAddress.port]

theorem written_text (address : SocketAddress) : address.Written address.text := by
  cases address with
  | v4 ip port => exact .v4 ip port
  | v6 ip scope port =>
    by_cases hscope : scope = 0
    · rw [hscope, text_v6]
      exact .v6 ip.written_text port
    · rw [text_v6_of_scope ip hscope]
      exact .withScope ip.written_text hscope port

theorem written_iff {address : SocketAddress} {t : Text} : address.Written t ↔ t = address.text := by
  constructor
  · intro h
    cases h with
    | v4 ip port => rfl
    | v6 h port => rw [text_v6, Ipv6.written_iff.1 h]
    | withScope h hscope port => rw [text_v6_of_scope _ hscope, Ipv6.written_iff.1 h]
  · rintro rfl
    exact address.written_text

end SocketAddress

end RequestEcho
