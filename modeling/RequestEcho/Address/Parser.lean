import RequestEcho.Address.Basic
import RequestEcho.Numeral

/-!
# Reading addresses

The pieces are read from the front of a text. Every run of digits is read whole before it is judged, so a number that is
too long or too large is no shorter number followed by digits.
-/

namespace RequestEcho

/-- Reads a piece from the front of a text and leaves the rest. -/
abbrev Reading (α : Type) := StateT Text Option α

namespace Reading

def char (c : Char) : Reading Unit
  | [] => none
  | d :: rest => if d = c then some ((), rest) else none

/-- A run of digits that `admits` accepts, with a value below `bound`. -/
def number (base : Nat) (admits : Text → Bool) (bound : Nat) : Reading Nat := fun t => do
  let digits := t.takeWhile (Numeral.isDigit base)
  let n ← Numeral.valueBelow? base bound digits
  if admits digits then some (n, t.drop digits.length) else none

/-- One to three decimal digits, up to 255, without leading zeros. -/
def octet : Reading UInt8 := do
  let n ← number 10 (fun digits => digits.length ≤ 3 && (digits.length == 1 || digits.head? != some '0')) 256
  pure n.toUInt8

/-- One to four hexadecimal digits. -/
def group : Reading UInt16 := do
  let n ← number 16 (fun digits => digits.length ≤ 4) 65536
  pure n.toUInt16

def ipv4 : Reading Ipv4 := do
  let a ← octet
  char '.'
  let b ← octet
  char '.'
  let c ← octet
  char '.'
  let d ← octet
  pure ⟨a, b, c, d⟩

/-- Up to `limit` groups with a colon between any two, and whether the last two were written as an IPv4 address; `sep`
comes before the first group. Where two groups are still allowed the dotted form is tried first. -/
def groups (sep : Reading Unit) : (limit : Nat) → Reading (List UInt16 × Bool)
  | 0 => pure ([], false)
  | limit + 1 =>
    (do
      guard (0 < limit)
      sep
      let ip ← ipv4
      pure (ip.toGroups, true)) <|>
    (do
      sep
      let g ← group
      let (gs, dotted) ← groups (char ':') limit
      pure (g :: gs, dotted)) <|>
    pure ([], false)

/-- Eight groups, or fewer around a `::` that stands for at least one zero group. The dotted form comes only at the
very end, so never before a `::`. -/
def ipv6 : Reading Ipv6 := do
  let (head, dotted) ← groups (pure ()) 8
  let all ←
    if head.length = 8 then pure head
    else if dotted then failure
    else do
      char ':'
      char ':'
      let (tail, _) ← groups (pure ()) (7 - head.length)
      pure (head ++ List.replicate (8 - head.length - tail.length) 0 ++ tail)
  StateT.lift (Ipv6.ofGroups? all)

def scope : Reading UInt32 := do
  char '%'
  let n ← number 10 (fun _ => true) 4294967296
  pure n.toUInt32

def port : Reading UInt16 := do
  char ':'
  let n ← number 10 (fun _ => true) 65536
  pure n.toUInt16

def socketV4 : Reading SocketAddress := do
  let ip ← ipv4
  let p ← port
  pure (.v4 ip p)

def socketV6 : Reading SocketAddress := do
  char '['
  let ip ← ipv6
  let s ← scope <|> pure 0
  char ']'
  let p ← port
  pure (.v6 ip s p)

end Reading

/-- The address that a whole text denotes. -/
def SocketAddress.ofText? (t : Text) : Option SocketAddress :=
  match (Reading.socketV4 <|> Reading.socketV6).run t with
  | some (address, []) => some address
  | _ => none

end RequestEcho
