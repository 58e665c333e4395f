import RequestEcho.Address.Basic
import RequestEcho.Numeral

/-!
# Printed addresses

Each address has one printed form. In an IPv6 address the first of the longest runs of zero groups is written `::` if it
has two groups or more, and a mapped IPv4 address is written with dots.
-/

namespace RequestEcho

namespace Ipv4

def text (ip : Ipv4) : Text :=
  List.intercalate ['.'] ([ip.a, ip.b, ip.c, ip.d].map fun octet => decimal octet.toNat)

end Ipv4

namespace Ipv6

/-- Start and length of the first of the longest runs of zeros. -/
def longestZeros (groups : List UInt16) : Nat × Nat :=
  let runs := (List.range groups.length).map fun i => (i, ((groups.drop i).takeWhile (· = 0)).length)
  runs.foldl (fun best run => if best.2 < run.2 then run else best) (0, 0)

def groupsText (groups : List UInt16) : Text :=
  List.intercalate [':'] (groups.map fun g => Nat.toDigits 16 g.toNat)

def text (ip : Ipv6) : Text :=
  match ip.mapped? with
  | some v4 => "::ffff:".toList ++ v4.text
  | none =>
    let (start, length) := longestZeros ip.groups
    if length < 2 then groupsText ip.groups
    else groupsText (ip.groups.take start) ++ "::".toList ++ groupsText (ip.groups.drop (start + length))

end Ipv6

namespace SocketAddress

/-- The address without its port. -/
def hostText : SocketAddress → Text
  | v4 ip _ => ip.text
  | v6 ip scope _ =>
    ['['] ++ ip.text ++ (if scope = 0 then [] else '%' :: decimal scope.toNat) ++ [']']

def port : SocketAddress → UInt16
  | v4 _ port => port
  | v6 _ _ port => port

def text (address : SocketAddress) : Text := address.hostText ++ ':' :: decimal address.port.toNat

end SocketAddress

end RequestEcho
