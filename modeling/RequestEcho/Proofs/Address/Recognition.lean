import RequestEcho.Proofs.Address.Groups

/-!
# The accepted addresses

A text is read as a socket address exactly if it denotes the address (`SocketAddress.ofText?_eq_some_iff`).  So it
denotes one address only (`SocketAddress.Spelled.unique`), although a relation with several forms does not say so by
itself.
-/

namespace RequestEcho

open Numeral SocketAddress

namespace Reading

variable {t rest : Text} {address : SocketAddress}

/-! ### Both families -/

theorem socketV4_eq_some_iff :
    socketV4 t = some (address, rest) ↔
      ∃ (ip : Ipv4) (n : UInt16) (s digits : Text), t = s ++ ':' :: (digits ++ rest) ∧ ip.Spelled s ∧
        Numeral.Spelled 10 n.toNat digits ∧ Ends 10 rest ∧ .v4 ip n = address := by
  simp only [socketV4, bind_eq_some_iff, ipv4_eq_some_iff, port_eq_some_iff, pure_eq_some_iff]
  constructor
  · rintro ⟨ip, _, ⟨s, rfl, hip, -⟩, n, _, ⟨digits, rfl, hdigits, hrest⟩, rfl, rfl⟩
    exact ⟨ip, n, s, digits, rfl, hip, hdigits, hrest, rfl⟩
  · rintro ⟨ip, n, s, digits, rfl, hip, hdigits, hrest, rfl⟩
    exact ⟨ip, _, ⟨s, rfl, hip, ends_cons (by decide) _⟩, n, rest, ⟨digits, rfl, hdigits, hrest⟩, rfl, rfl⟩

theorem socketV4_eq_none (h : Ends 10 t) : socketV4 t = none := by
  rw [Option.eq_none_iff_forall_ne_some]
  rintro ⟨address, rest⟩ hsome
  obtain ⟨ip, n, s, digits, rfl, hip, -⟩ := socketV4_eq_some_iff.1 hsome
  obtain ⟨n, octet, tail, rfl, hoctet⟩ := hip.exists_octet
  rw [List.append_assoc] at h
  exact hoctet.not_ends (by omega) _ h

theorem isScope_of_read {n : UInt32} (h : (scope <|> pure 0) t = some (n, rest)) :
    ∃ s, t = s ++ rest ∧ IsScope n s := by
  rcases orElse_eq_some_iff.1 h with hscope | ⟨-, hpure⟩
  · obtain ⟨s, rfl, hs, -⟩ := scope_eq_some_iff.1 hscope
    exact ⟨'%' :: s, rfl, .present hs⟩
  · obtain ⟨rfl, rfl⟩ := pure_eq_some_iff.1 hpure
    exact ⟨[], rfl, .absent⟩

theorem read_of_isScope {n : UInt32} {s : Text} (h : IsScope n s) (rest : Text) :
    (scope <|> pure 0) (s ++ ']' :: rest) = some (n, ']' :: rest) := by
  rw [orElse_eq_some_iff]
  cases h with
  | absent =>
    have hscope : scope (']' :: rest) = none := by
      rw [Option.eq_none_iff_forall_ne_some]
      rintro ⟨n, r⟩ hsome
      obtain ⟨s, heq, -⟩ := scope_eq_some_iff.1 hsome
      simp at heq
    exact .inr ⟨hscope, rfl⟩
  | present hs => exact .inl (scope_eq_some_iff.2 ⟨_, rfl, hs, ends_cons (by decide) rest⟩)

/-- A character that belongs to no group ends a row of groups. -/
theorem endsGroups_cons {c : Char} (hdigit : isDigit 16 c = false) (hdot : c ≠ '.') (hcolon : c ≠ ':') (rest : Text) :
    EndsGroups (c :: rest) where
  ends := ends_cons hdigit rest
  noDot := by simpa using hdot
  ends_of_colon t h := absurd (List.cons.inj h).1 hcolon

theorem endsGroups_scope {n : UInt32} {s : Text} (h : IsScope n s) (rest : Text) : EndsGroups (s ++ ']' :: rest) := by
  cases h with
  | absent => exact endsGroups_cons (by decide) (by decide) (by decide) rest
  | present _ => exact endsGroups_cons (by decide) (by decide) (by decide) _

theorem spelled_of_socketV6 (h : socketV6 t = some (address, rest)) : ∃ s, t = s ++ rest ∧ address.Spelled s := by
  simp only [socketV6, bind_eq_some_iff, char_eq_some_iff, port_eq_some_iff, pure_eq_some_iff] at h
  obtain ⟨-, _, rfl, ip, u, hread, n, v, hread', -, _, rfl, m, _, ⟨digits, rfl, hport, -⟩, rfl, rfl⟩ := h
  obtain ⟨s, rfl, hip⟩ := spelled_of_ipv6 hread
  obtain ⟨s', rfl, hscope⟩ := isScope_of_read hread'
  exact ⟨'[' :: (s ++ (s' ++ ']' :: ':' :: digits)), by simp, .v6 hip hscope hport⟩

end Reading

open Reading

namespace SocketAddress

variable {t : Text} {address other : SocketAddress}

theorem ofText?_eq_some_iff_read :
    ofText? t = some address ↔ (socketV4 <|> socketV6) t = some (address, []) := by
  unfold ofText? StateT.run
  split
  · rename_i a heq
    simp [heq]
  · rename_i hother
    constructor
    · intro h
      cases h
    · intro h
      exact absurd h (hother address)

/-- A text is read as an address exactly if it denotes it. -/
theorem ofText?_eq_some_iff : ofText? t = some address ↔ address.Spelled t := by
  rw [ofText?_eq_some_iff_read, orElse_eq_some_iff]
  constructor
  · rintro (hv4 | ⟨-, hv6⟩)
    · obtain ⟨ip, n, s, digits, rfl, hip, hdigits, -, rfl⟩ := socketV4_eq_some_iff.1 hv4
      rw [List.append_nil]
      exact .v4 hip hdigits
    · obtain ⟨s, rfl, h⟩ := spelled_of_socketV6 hv6
      rwa [List.append_nil]
  · intro h
    cases h with
    | @v4 ip n s digits hip hport =>
      exact .inl (socketV4_eq_some_iff.2 ⟨ip, n, s, digits, by simp, hip, hport, ends_nil 10, rfl⟩)
    | @v6 ip scope n s s' digits hip hscope hport =>
      refine .inr ⟨socketV4_eq_none (ends_cons (by decide) _), ?_⟩
      have hread := ipv6_of_spelled hip (endsGroups_scope hscope (':' :: digits))
      have hscoped := read_of_isScope hscope (':' :: digits)
      simp only [socketV6, bind_eq_some_iff, char_eq_some_iff, port_eq_some_iff, pure_eq_some_iff]
      exact ⟨(), _, rfl, ip, _, hread, scope, _, hscoped, (), _, rfl, n, [], ⟨digits, by simp, hport, ends_nil 10⟩,
        rfl, rfl⟩

theorem Spelled.unique (h : address.Spelled t) (h' : other.Spelled t) : address = other := by
  rw [← ofText?_eq_some_iff] at h h'
  exact Option.some.inj (h.symm.trans h')

end SocketAddress

end RequestEcho
