import RequestEcho.Proofs.Address.Printed
import RequestEcho.Proofs.Address.Recognition

/-!
# Reading back addresses

A printed address is one of the texts that denote it (`SocketAddress.spelled_of_written`), so it is read back as the
address (`SocketAddress.ofText?_text`), and no two addresses are printed alike (`SocketAddress.text_injective`).
-/

namespace RequestEcho

open Numeral

/-! ### IPv4 addresses -/

namespace Ipv4

private theorem octet_table : ∀ n < 256,
    (decimal n).length ≤ 3 ∧ ((decimal n).head? = some '0' → (decimal n).length = 1) := by
  decide +kernel

theorem isOctet_decimal (x : UInt8) : IsOctet x (decimal x.toNat) := by
  obtain ⟨hlength, hzero⟩ := octet_table x.toNat x.toNat_lt
  exact ⟨spelled_toDigits (by omega) (by omega) _, hlength, hzero⟩

theorem spelled_text (ip : Ipv4) : ip.Spelled ip.text := by
  have htext : ip.text = decimal ip.a.toNat ++ '.' :: (decimal ip.b.toNat ++ '.' :: (decimal ip.c.toNat ++
      '.' :: decimal ip.d.toNat)) := by
    simp [text, List.intercalate, List.intersperse]
  rw [htext]
  exact .octets (isOctet_decimal ip.a) (isOctet_decimal ip.b) (isOctet_decimal ip.c) (isOctet_decimal ip.d)

end Ipv4

/-! ### IPv6 addresses -/

namespace Ipv6

theorem isGroup_toDigits (g : UInt16) : IsGroup g (Nat.toDigits 16 g.toNat) where
  value := spelled_toDigits (by omega) (by omega) _
  length_le := (Nat.length_toDigits_le_iff (by omega) (by omega)).2 g.toNat_lt

/-- The groups, each with a colon in front. -/
def colonsText (groups : List UInt16) : Text := groups.flatMap fun g => ':' :: Nat.toDigits 16 g.toNat

theorem groupsText_cons (g : UInt16) (groups : List UInt16) :
    groupsText (g :: groups) = Nat.toDigits 16 g.toNat ++ colonsText groups := by
  induction groups generalizing g with
  | nil => simp [groupsText, colonsText]
  | cons h groups ih =>
    have htail := ih h
    rw [groupsText, List.map_cons] at htail ⊢
    rw [List.map_cons, List.intercalate_cons_cons, htail]
    simp [colonsText]

theorem row_colonsText (gs : List UInt16) : Row [':'] gs false (colonsText gs) := by
  induction gs with
  | nil => exact .nil _
  | cons g gs ih =>
    exact .cons [':'] (isGroup_toDigits g) ih

theorem row_groupsText (gs : List UInt16) : Row [] gs false (groupsText gs) := by
  cases gs with
  | nil => exact .nil _
  | cons g gs =>
    rw [groupsText_cons]
    exact .cons [] (isGroup_toDigits g) (row_colonsText gs)

variable {ip : Ipv6} {t : Text}

/-- A mapped IPv4 address is the last two of three groups behind a `::`. -/
theorem spelled_of_maps {v4 : Ipv4} (h : ip.Maps v4) : ip.Spelled ("::ffff:".toList ++ v4.text) := by
  have hgroups : ip.groups = [] ++ List.replicate 5 0 ++ (0xFFFF :: v4.toGroups) := by
    rw [h]
    rfl
  have hdigits : Nat.toDigits 16 (0xFFFF : UInt16).toNat = "ffff".toList := by decide
  have hafter := Row.cons [] (isGroup_toDigits 0xFFFF) (Row.ipv4 [':'] v4.spelled_text)
  rw [hdigits] at hafter
  exact .gap (by omega) hgroups (.nil []) hafter

theorem spelled_of_written (h : ip.Written t) : ip.Spelled t := by
  cases h with
  | mapped hmaps => exact spelled_of_maps hmaps
  | plain _ _ => exact .row (row_groupsText ip.groups)
  | @compressed before after _ _ hrun =>
    have htwo := hrun.two_le
    have hgap := Spelled.gap (by omega) hrun.groups_eq (row_groupsText before) (row_groupsText after)
    simpa using hgap

end Ipv6

/-! ### Socket addresses -/

namespace SocketAddress

theorem spelled_of_written {address : SocketAddress} {t : Text} (h : address.Written t) : address.Spelled t := by
  have hnumeral (n : Nat) : Numeral.Spelled 10 n (decimal n) := spelled_toDigits (by omega) (by omega) n
  cases h with
  | v4 ip port => exact .v4 ip.spelled_text (hnumeral _)
  | v6 h port =>
    have hspelled := Spelled.v6 (Ipv6.spelled_of_written h) .absent (hnumeral port.toNat)
    simpa using hspelled
  | @withScope ip t h scope _ port =>
    have hspelled := Spelled.v6 (Ipv6.spelled_of_written h) (.present (hnumeral scope.toNat)) (hnumeral port.toNat)
    simpa using hspelled

theorem ofText?_text (address : SocketAddress) : ofText? address.text = some address :=
  ofText?_eq_some_iff.2 (spelled_of_written address.written_text)

theorem text_injective {address other : SocketAddress} (h : address.text = other.text) : address = other := by
  have hread := ofText?_text other
  rw [← h, ofText?_text] at hread
  exact Option.some.inj hread

end SocketAddress

end RequestEcho
