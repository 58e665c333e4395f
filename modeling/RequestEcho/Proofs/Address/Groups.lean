import RequestEcho.Proofs.Address.Pieces

/-!
# Reading the groups of an IPv6 address

A row of groups is read as far as it goes, by one alternative after the other: the dotted form (`dottedGroups`), one
more group (`groupThen`), the end.

* What is read is a row (`row_of_groups`).
* Every row is read, in front of a rest that goes on with no group (`groups_of_row`, `EndsGroups`): no group in front of
  a colon is taken for the beginning of a dotted form, and the row does not end before the rest.
* So what is read as an IPv6 address is what denotes it (`spelled_of_ipv6`, `ipv6_of_spelled`).
-/

namespace RequestEcho

open Numeral Ipv6

/-- An IPv4 address begins with an octet and a dot. -/
theorem Ipv4.Spelled.exists_octet {ip : Ipv4} {t : Text} (h : ip.Spelled t) :
    ∃ n octet rest, t = octet ++ '.' :: rest ∧ Numeral.Spelled 10 n octet := by
  cases h with
  | octets ha _ _ _ => exact ⟨_, _, _, rfl, ha.value⟩

namespace Reading

variable {p : Reading Unit} {sep t rest : Text} {limit : Nat} {gs : List UInt16} {dotted : Bool}

/-! ### One alternative after the other -/

/-- The last two groups as an IPv4 address, if so many are still allowed. -/
def dottedGroups (sep : Reading Unit) (limit : Nat) : Reading (List UInt16 × Bool) := do
  guard (0 < limit)
  sep
  let ip ← ipv4
  pure (ip.toGroups, true)

/-- One group and those that follow it. -/
def groupThen (sep : Reading Unit) (limit : Nat) : Reading (List UInt16 × Bool) := do
  sep
  let g ← group
  let (gs, dotted) ← groups (char ':') limit
  pure (g :: gs, dotted)

theorem groups_succ (sep : Reading Unit) (limit : Nat) :
    groups sep (limit + 1) = (dottedGroups sep limit <|> groupThen sep limit <|> pure ([], false)) := rfl

/-- `p` reads the text `sep` and nothing else. -/
def Takes (p : Reading Unit) (sep : Text) : Prop := ∀ t rest, p t = some ((), rest) ↔ t = sep ++ rest

theorem takes_nil : Takes (pure ()) [] := by
  intro t rest
  simp [pure_eq_some_iff]

theorem takes_char (c : Char) : Takes (char c) [c] := by
  intro t rest
  exact char_eq_some_iff

theorem dottedGroups_zero (sep : Reading Unit) (t : Text) : dottedGroups sep 0 t = none := rfl

theorem dottedGroups_succ (sep : Reading Unit) (limit : Nat) :
    dottedGroups sep (limit + 1) = (do
      sep
      let ip ← ipv4
      pure (ip.toGroups, true)) := rfl

theorem dottedGroups_eq_some_iff (hsep : Takes p sep) :
    dottedGroups p limit t = some ((gs, dotted), rest) ↔
      0 < limit ∧ ∃ (ip : Ipv4) (s : Text), t = sep ++ (s ++ rest) ∧ ip.Spelled s ∧ Ends 10 rest ∧
        ip.toGroups = gs ∧ true = dotted := by
  cases limit with
  | zero => simp [dottedGroups_zero]
  | succ limit =>
    simp only [dottedGroups_succ, bind_eq_some_iff, pure_eq_some_iff, hsep _ _, ipv4_eq_some_iff, Prod.mk.injEq]
    constructor
    · rintro ⟨-, _, rfl, ip, _, ⟨s, rfl, hip, hrest⟩, ⟨hgs, hdotted⟩, rfl⟩
      exact ⟨Nat.succ_pos limit, ip, s, rfl, hip, hrest, hgs, hdotted⟩
    · rintro ⟨-, ip, s, rfl, hip, hrest, hgs, hdotted⟩
      exact ⟨(), _, rfl, ip, rest, ⟨s, rfl, hip, hrest⟩, ⟨hgs, hdotted⟩, rfl⟩

theorem groupThen_eq_some_iff (hsep : Takes p sep) :
    groupThen p limit t = some ((gs, dotted), rest) ↔
      ∃ g s u gs', t = sep ++ (s ++ u) ∧ IsGroup g s ∧ Ends 16 u ∧
        groups (char ':') limit u = some ((gs', dotted), rest) ∧ g :: gs' = gs := by
  simp only [groupThen, bind_eq_some_iff, pure_eq_some_iff, hsep _ _, group_eq_some_iff]
  constructor
  · rintro ⟨-, _, rfl, g, u, ⟨s, rfl, hg, hu⟩, ⟨gs', dotted'⟩, _, hgroups, heq, rfl⟩
    obtain ⟨rfl, rfl⟩ := Prod.mk.inj heq
    exact ⟨g, s, u, gs', rfl, hg, hu, hgroups, rfl⟩
  · rintro ⟨g, s, u, gs', rfl, hg, hu, hgroups, rfl⟩
    exact ⟨(), _, rfl, g, u, ⟨s, rfl, hg, hu⟩, (gs', dotted), rest, hgroups, rfl, rfl⟩

/-! ### What is read is a row -/

theorem row_of_end (sep : Text) (limit : Nat)
    (h : (pure ([], false) : Reading (List UInt16 × Bool)) t = some ((gs, dotted), rest)) :
    ∃ s, t = s ++ rest ∧ Row sep gs dotted s ∧ gs.length ≤ limit := by
  obtain ⟨heq, rfl⟩ := pure_eq_some_iff.1 h
  obtain ⟨rfl, rfl⟩ := Prod.mk.inj heq
  exact ⟨[], rfl, .nil sep, Nat.zero_le limit⟩

theorem row_of_groups (hsep : Takes p sep) (h : groups p limit t = some ((gs, dotted), rest)) :
    ∃ s, t = s ++ rest ∧ Row sep gs dotted s ∧ gs.length ≤ limit := by
  induction limit generalizing p sep t gs with
  | zero => exact row_of_end sep 0 h
  | succ limit ih =>
    rw [groups_succ, orElse_eq_some_iff, orElse_eq_some_iff] at h
    rcases h with hdotted | ⟨-, hgroup | ⟨-, hpure⟩⟩
    · obtain ⟨hlimit, ip, s, rfl, hip, -, rfl, rfl⟩ := (dottedGroups_eq_some_iff hsep).1 hdotted
      have hlength : ip.toGroups.length = 2 := rfl
      exact ⟨sep ++ s, by simp, .ipv4 sep hip, by omega⟩
    · obtain ⟨g, s, u, gs', rfl, hg, -, hgroups, rfl⟩ := (groupThen_eq_some_iff hsep).1 hgroup
      obtain ⟨v, rfl, hrow, hlength⟩ := ih (takes_char ':') hgroups
      exact ⟨sep ++ (s ++ v), by simp, .cons sep hg hrow, Nat.succ_le_succ hlength⟩
    · exact row_of_end sep (limit + 1) hpure

/-! ### Every row is read -/

/-- A rest before which a row of groups ends. -/
structure EndsGroups (rest : Text) : Prop where
  ends : Ends 16 rest
  noDot : rest.head? ≠ some '.'
  ends_of_colon : ∀ t, rest = ':' :: t → Ends 16 t

/-- Behind a group comes the colon of the next one, or what ends the row. -/
theorem EndsGroups.append_row (h : EndsGroups rest) (hrow : Row [':'] gs dotted t) :
    Ends 16 (t ++ rest) ∧ (t ++ rest).head? ≠ some '.' := by
  have hcolon (u : Text) : Ends 16 (':' :: u) ∧ (':' :: u).head? ≠ some '.' := ⟨ends_cons (by decide) u, by simp⟩
  cases hrow with
  | nil => exact ⟨h.ends, h.noDot⟩
  | ipv4 _ _ => exact hcolon _
  | cons _ _ _ => exact hcolon _

/-- Where no digit comes behind the separator, the row of groups is empty. -/
theorem groups_nil (hsep : Takes p sep) (h : ∀ r, rest = sep ++ r → Ends 16 r) :
    groups p limit rest = some (([], false), rest) := by
  cases limit with
  | zero => rfl
  | succ limit =>
    have hdotted : dottedGroups p limit rest = none := by
      rw [Option.eq_none_iff_forall_ne_some]
      rintro ⟨⟨gs, dotted⟩, u⟩ hsome
      obtain ⟨-, ip, s, hrest, hip, -⟩ := (dottedGroups_eq_some_iff hsep).1 hsome
      obtain ⟨n, octet, tail, rfl, hoctet⟩ := hip.exists_octet
      have hends : Ends 10 (octet ++ '.' :: tail ++ u) := (h _ hrest).of_le (by omega)
      rw [List.append_assoc] at hends
      exact hoctet.not_ends (by omega) _ hends
    have hgroup : groupThen p limit rest = none := by
      rw [Option.eq_none_iff_forall_ne_some]
      rintro ⟨⟨gs, dotted⟩, u⟩ hsome
      obtain ⟨g, s, v, _, hrest, hg, -⟩ := (groupThen_eq_some_iff hsep).1 hsome
      exact hg.value.not_ends (by omega) _ (h _ hrest)
    rw [groups_succ, orElse_eq_some_iff, orElse_eq_some_iff]
    exact .inr ⟨hdotted, .inr ⟨hgroup, rfl⟩⟩

/-- A group in front of another, or of the end of the row, is not taken for the beginning of a dotted form. -/
theorem dottedGroups_eq_none (hsep : Takes p sep) {g : UInt16} {s : Text} (hg : IsGroup g s) (hends : Ends 16 t)
    (hdot : t.head? ≠ some '.') : dottedGroups p limit (sep ++ (s ++ t)) = none := by
  rw [Option.eq_none_iff_forall_ne_some]
  rintro ⟨⟨gs, dotted⟩, u⟩ hsome
  obtain ⟨-, ip, s', heq, hip, -⟩ := (dottedGroups_eq_some_iff hsep).1 hsome
  obtain ⟨n, octet, tail, rfl, hoctet⟩ := hip.exists_octet
  have hcut : s ++ t = octet ++ '.' :: (tail ++ u) := by simpa using List.append_cancel_left heq
  have hs (c : Char) (hc : c ∈ s) : isDigit 16 c = true := hg.value.isDigit_of_mem (by omega) hc
  have hoctets (c : Char) (hc : c ∈ octet) : isDigit 16 c = true :=
    isDigit_of_le (by omega) (hoctet.isDigit_of_mem (by omega) hc)
  obtain ⟨-, rfl⟩ := append_inj_of_ends hs hoctets hends (ends_cons (by decide) _) hcut
  exact hdot rfl

/-- Induction on the row; the limit on the groups still allowed goes down with it. -/
theorem groups_of_row (hsep : Takes p sep) (h : Row sep gs dotted t) (hlength : gs.length ≤ limit)
    (hstop : ∀ r, rest = sep ++ r → Ends 16 r) (hrest : EndsGroups rest) :
    groups p limit (t ++ rest) = some ((gs, dotted), rest) := by
  induction h generalizing p limit with
  | nil sep => exact groups_nil hsep hstop
  | @ipv4 sep ip t h =>
    have htwo : ip.toGroups.length = 2 := rfl
    obtain ⟨limit, rfl⟩ : ∃ k, limit = k + 1 := ⟨limit - 1, by omega⟩
    rw [groups_succ, orElse_eq_some_iff, dottedGroups_eq_some_iff hsep]
    exact .inl ⟨by omega, ip, t, by simp, h, hrest.ends.of_le (by omega), rfl, rfl⟩
  | @cons sep g gs dotted s t hgroup hrow ih =>
    obtain ⟨limit, rfl⟩ : ∃ k, limit = k + 1 := ⟨limit - 1, by simp at hlength; omega⟩
    obtain ⟨hends, hdot⟩ := hrest.append_row hrow
    have htail : groups (char ':') limit (t ++ rest) = some ((gs, dotted), rest) :=
      ih (takes_char ':') (by simpa using hlength) hrest.ends_of_colon
    have htext : sep ++ (s ++ t) ++ rest = sep ++ (s ++ (t ++ rest)) := by simp
    rw [htext, groups_succ, orElse_eq_some_iff, orElse_eq_some_iff]
    refine .inr ⟨dottedGroups_eq_none hsep hgroup hends hdot, .inl ?_⟩
    exact (groupThen_eq_some_iff hsep).2 ⟨g, s, t ++ rest, gs, rfl, hgroup, hends, htail, rfl⟩

/-! ### IPv6 addresses -/

variable {ip : Ipv6}

theorem ofGroups?_eq_some_iff {all : List UInt16} : Ipv6.ofGroups? all = some ip ↔ ip.groups = all := by
  unfold Ipv6.ofGroups?
  constructor
  · intro h
    split at h
    · cases h
      rfl
    · cases h
  · rintro rfl
    rw [dif_pos ip.length_groups]

/-- The zeros that a `::` stands for between `before` and `after` are as many as are missing. -/
theorem eq_of_gap {before after : List UInt16} {n : Nat}
    (h : ip.groups = before ++ List.replicate n 0 ++ after) : n = 8 - before.length - after.length := by
  have hlength := ip.length_groups
  rw [h, List.length_append, List.length_append, List.length_replicate] at hlength
  omega

theorem lift_ofGroups?_eq_some_iff {all : List UInt16} :
    (StateT.lift (Ipv6.ofGroups? all) : Reading Ipv6) t = some (ip, rest) ↔ ip.groups = all ∧ t = rest := by
  rw [← ofGroups?_eq_some_iff]
  cases Ipv6.ofGroups? all <;> simp [StateT.lift]

/-- The first row has all groups, or a `::` and a second row follow it. -/
theorem ipv6_eq_some_iff :
    ipv6 t = some (ip, rest) ↔
      ∃ before dotted u, groups (pure ()) 8 t = some ((before, dotted), u) ∧
        (before.length = 8 ∧ ip.groups = before ∧ u = rest ∨
          before.length ≠ 8 ∧ dotted = false ∧ ∃ after dotted' v, u = ':' :: ':' :: v ∧
            groups (pure ()) (7 - before.length) v = some ((after, dotted'), rest) ∧
            ip.groups = before ++ List.replicate (8 - before.length - after.length) 0 ++ after) := by
  simp only [ipv6, bind_eq_some_iff, Prod.exists]
  refine exists_congr fun before => exists_congr fun dotted => exists_congr fun u => and_congr_right fun _ => ?_
  by_cases hlength : before.length = 8
  · simp only [hlength, if_true, bind_eq_some_iff, pure_eq_some_iff, lift_ofGroups?_eq_some_iff]
    simp
  · cases dotted with
    | true =>
      have hfailure : (failure >>= fun all => StateT.lift (Ipv6.ofGroups? all) : Reading Ipv6) u = none := rfl
      simp [hlength, hfailure]
    | false =>
      simp only [hlength, if_false, Bool.false_eq_true, bind_eq_some_iff, char_eq_some_iff, pure_eq_some_iff,
        lift_ofGroups?_eq_some_iff, Prod.exists]
      constructor
      · rintro ⟨_, _, rfl, _, v, rfl, after, dotted', _, hafter, _, _, ⟨rfl, rfl⟩, hgroups, rfl⟩
        exact .inr ⟨hlength, trivial, after, dotted', v, rfl, hafter, hgroups⟩
      · rintro (⟨hfalse, -⟩ | ⟨-, -, after, dotted', v, rfl, hafter, hgroups⟩)
        · exact hfalse.elim
        · exact ⟨(), _, rfl, (), v, rfl, after, dotted', rest, hafter, _, _, ⟨rfl, rfl⟩, hgroups, rfl⟩

theorem spelled_of_ipv6 (h : ipv6 t = some (ip, rest)) : ∃ s, t = s ++ rest ∧ ip.Spelled s := by
  obtain ⟨before, dotted, u, hbefore, hall⟩ := ipv6_eq_some_iff.1 h
  obtain ⟨s, rfl, hrow, hle⟩ := row_of_groups takes_nil hbefore
  rcases hall with ⟨-, rfl, rfl⟩ | ⟨hne, rfl, after, dotted', v, rfl, hafter, hgroups⟩
  · exact ⟨s, rfl, .row hrow⟩
  · obtain ⟨s', rfl, hrow', hlength⟩ := row_of_groups takes_nil hafter
    have hsize := ip.length_groups
    rw [hgroups, List.length_append, List.length_append, List.length_replicate] at hsize
    exact ⟨s ++ ':' :: ':' :: s', by simp, .gap (by omega) hgroups hrow hrow'⟩

theorem endsGroups_gap (rest : Text) : EndsGroups (':' :: ':' :: rest) where
  ends := ends_cons (by decide) _
  noDot := by simp
  ends_of_colon t h := by
    obtain ⟨-, rfl⟩ := List.cons.inj h
    exact ends_cons (by decide) rest

theorem ipv6_of_spelled (h : ip.Spelled t) (hrest : EndsGroups rest) : ipv6 (t ++ rest) = some (ip, rest) := by
  have hread {gs : List UInt16} {dotted : Bool} {s r : Text} (limit : Nat) (hrow : Row [] gs dotted s)
      (hlimit : gs.length ≤ limit) (hr : EndsGroups r) :
      groups (pure ()) limit (s ++ r) = some ((gs, dotted), r) :=
    groups_of_row takes_nil hrow hlimit (fun r' (heq : r = r') => heq ▸ hr.ends) hr
  have hsize := ip.length_groups
  cases h with
  | @row dotted t hrow =>
    exact ipv6_eq_some_iff.2 ⟨ip.groups, dotted, rest, hread 8 hrow (by omega) hrest, .inl ⟨hsize, rfl, rfl⟩⟩
  | @gap before after n dotted s t hpos hgroups hbefore hafter =>
    obtain rfl := eq_of_gap hgroups
    have hfirst := hread 8 hbefore (by omega) (endsGroups_gap (t ++ rest))
    have hsecond := hread (7 - before.length) hafter (by omega) hrest
    rw [List.append_assoc]
    exact ipv6_eq_some_iff.2 ⟨before, false, _, hfirst,
      .inr ⟨by omega, rfl, after, dotted, t ++ rest, rfl, hsecond, hgroups⟩⟩

end Reading

end RequestEcho
