import RequestEcho.Address.Basic
import RequestEcho.Proofs.Numeral.Value

/-!
# The texts that denote an address

The grammar of socket addresses, as a relation between an address and the texts that denote it.  No order of reading and
no choice between alternatives is in it; that a text denotes one address only is a theorem about the reader.

An IPv6 address is a row of eight groups, or fewer around a `::`.  A row with `sep` in front of its first group and a
colon in front of the others (`Ipv6.Row`) may end with an IPv4 address, which stands for two groups.
-/

namespace RequestEcho

namespace Ipv4

/-- One to three decimal digits, without zeros in front. -/
structure IsOctet (x : UInt8) (t : Text) : Prop where
  value : Numeral.Spelled 10 x.toNat t
  length_le : t.length ≤ 3
  unpadded : t.head? = some '0' → t.length = 1

/-- Four octets with dots between them. -/
inductive Spelled : Ipv4 → Text → Prop
  | octets {a b c d : UInt8} {s t u v : Text} (ha : IsOctet a s) (hb : IsOctet b t) (hc : IsOctet c u)
    (hd : IsOctet d v) : Spelled ⟨a, b, c, d⟩ (s ++ '.' :: (t ++ '.' :: (u ++ '.' :: v)))

end Ipv4

namespace Ipv6

/-- One to four hexadecimal digits of either case. -/
structure IsGroup (g : UInt16) (t : Text) : Prop where
  value : Numeral.Spelled 16 g.toNat t
  length_le : t.length ≤ 4

/-- The text of a row of groups, and whether the last two of them are written as an IPv4 address. -/
inductive Row : (sep : Text) → List UInt16 → (dotted : Bool) → Text → Prop
  | nil (sep : Text) : Row sep [] false []
  | ipv4 (sep : Text) {ip : Ipv4} {t : Text} (h : ip.Spelled t) : Row sep ip.toGroups true (sep ++ t)
  | cons (sep : Text) {g : UInt16} {gs : List UInt16} {dotted : Bool} {s t : Text} (hgroup : IsGroup g s)
    (hrow : Row [':'] gs dotted t) : Row sep (g :: gs) dotted (sep ++ (s ++ t))

/-- Eight groups, or fewer around a `::` for one zero group or more.  Only a row at the very end may be dotted. -/
inductive Spelled (ip : Ipv6) : Text → Prop
  | row {dotted : Bool} {t : Text} (h : Row [] ip.groups dotted t) : Spelled ip t
  | gap {before after : List UInt16} {n : Nat} {dotted : Bool} {s t : Text} (hpos : 0 < n)
    (hgroups : ip.groups = before ++ List.replicate n 0 ++ after) (hbefore : Row [] before false s)
    (hafter : Row [] after dotted t) : Spelled ip (s ++ ':' :: ':' :: t)

end Ipv6

namespace SocketAddress

/-- A percent sign and a decimal numeral, or nothing for the scope 0. -/
inductive IsScope : UInt32 → Text → Prop
  | absent : IsScope 0 []
  | present {n : UInt32} {t : Text} (h : Numeral.Spelled 10 n.toNat t) : IsScope n ('%' :: t)

/-- An IPv4 address, or an IPv6 address and a scope in brackets; then a colon and the port, a decimal numeral. -/
inductive Spelled : SocketAddress → Text → Prop
  | v4 {ip : Ipv4} {port : UInt16} {t digits : Text} (hip : ip.Spelled t)
    (hport : Numeral.Spelled 10 port.toNat digits) : Spelled (.v4 ip port) (t ++ ':' :: digits)
  | v6 {ip : Ipv6} {scope : UInt32} {port : UInt16} {t s digits : Text} (hip : ip.Spelled t) (hscope : IsScope scope s)
    (hport : Numeral.Spelled 10 port.toNat digits) :
    Spelled (.v6 ip scope port) ('[' :: (t ++ (s ++ ']' :: ':' :: digits)))

end SocketAddress

end RequestEcho
