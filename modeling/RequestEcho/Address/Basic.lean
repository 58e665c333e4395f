import RequestEcho.Utf8

/-!
# Socket addresses

An address of either family with a port. A scope tells apart the links on which an IPv6 address may stand; 0 means none.
-/

namespace RequestEcho

structure Ipv4 where
  a : UInt8
  b : UInt8
  c : UInt8
  d : UInt8
deriving DecidableEq, Repr

structure Ipv6 where
  groups : List UInt16
  length_groups : groups.length = 8
deriving DecidableEq, Repr

namespace Ipv4

/-- The two groups that stand for an IPv4 address at the end of an IPv6 address. -/
def toGroups (ip : Ipv4) : List UInt16 :=
  [ip.a.toUInt16 * 256 + ip.b.toUInt16, ip.c.toUInt16 * 256 + ip.d.toUInt16]

def ofGroups (g h : UInt16) : Ipv4 := ⟨(g / 256).toUInt8, g.toUInt8, (h / 256).toUInt8, h.toUInt8⟩

def unspecified : Ipv4 := ⟨0, 0, 0, 0⟩

/-- Whether every machine has this address for itself. -/
def isOwn (ip : Ipv4) : Bool := ip == unspecified || ip.a == 127

end Ipv4

namespace Ipv6

def ofGroups? (groups : List UInt16) : Option Ipv6 :=
  if h : groups.length = 8 then some ⟨groups, h⟩ else none

/-- The IPv4 address mapped into `ip`, which then begins with `::ffff:`. -/
def mapped? (ip : Ipv6) : Option Ipv4 :=
  match ip.groups with
  | [0, 0, 0, 0, 0, 0xFFFF, g, h] => some (Ipv4.ofGroups g h)
  | _ => none

end Ipv6

inductive SocketAddress
  | v4 (ip : Ipv4) (port : UInt16)
  | v6 (ip : Ipv6) (scope : UInt32) (port : UInt16)
deriving DecidableEq, Repr

/-- Whether every machine has this address for itself: the loopback addresses and the unspecified ones, of both families
and mapped from one into the other. -/
def SocketAddress.isOwn : SocketAddress → Bool
  | v4 ip _ => ip.isOwn
  | v6 ip _ _ =>
    match ip.mapped? with
    | some mapped => mapped.isOwn
    | none => ip.groups.dropLast.all (· == 0) && ip.groups.getLast?.all (· ≤ 1)

end RequestEcho
