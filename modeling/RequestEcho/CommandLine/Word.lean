import RequestEcho.CommandLine.Settings

/-!
# Words of a command line

A word is a string of bytes, not necessarily a text. What it is does not depend on its neighbours:

* `--name` and `--name=value` are long forms; the name ends at the first equals sign;
* a dash with anything else behind it is a cluster of short forms, of which the first letter decides: a parameter takes
  the rest of the word as its value, less one equals sign in front, and any other letter ends the reading;
* `--` alone separates, and every other word, the single dash among them, is plain.
-/

namespace RequestEcho

namespace CommandLine

inductive Word
  | separator
  | plain
  | parameter (p : Parameter) (attached : Option Bytes)
  | notice (n : Notice) (attached : Option Bytes)
  | unknownLong (name : Text)
  | unknownShort (letter : Text)
deriving DecidableEq, Repr

namespace Parameter

def ofLong? (name : Bytes) : Option Parameter := all.find? fun p => Utf8.encode p.long = name

def ofShort? (letter : UInt8) : Option Parameter := all.find? fun p => Utf8.encode [p.short] = [letter]

end Parameter

namespace Notice

def ofLong? (name : Bytes) : Option Notice := all.find? fun n => Utf8.encode n.long = name

def ofShort? (letter : UInt8) : Option Notice := all.find? fun n => Utf8.encode [n.short] = [letter]

end Notice

namespace Word

def dash : UInt8 := 0x2D

def equals : UInt8 := 0x3D

/-- A long form, by what follows the two dashes. -/
def ofLong (body : Bytes) : Word :=
  let name := body.takeWhile (· ≠ equals)
  let attached :=
    match body.dropWhile (· ≠ equals) with
    | [] => none
    | _ :: value => some value
  match Parameter.ofLong? name, Notice.ofLong? name with
  | some p, _ => .parameter p attached
  | none, some n => .notice n attached
  | none, none => .unknownLong (Utf8.decodeLossy name)

/-- The value of a parameter in a cluster, by what follows its letter. -/
def clusterValue? : Bytes → Option Bytes
  | [] => none
  | b :: value => some (if b = equals then value else b :: value)

/-- A cluster of short forms, by its first byte and the rest. -/
def ofCluster (letter : UInt8) (rest : Bytes) : Word :=
  match Parameter.ofShort? letter, Notice.ofShort? letter with
  | some p, _ => .parameter p (clusterValue? rest)
  | none, some n => .notice n none
  | none, none =>
    match Utf8.firstChar? (letter :: rest) with
    | some c => .unknownShort ['-', c]
    | none => .unknownShort ('-' :: Utf8.decodeLossy (letter :: rest))

def ofBytes : Bytes → Word
  | [] => .plain
  | [_] => .plain
  | a :: b :: rest =>
    if a ≠ dash then .plain
    else if b ≠ dash then ofCluster b rest
    else if rest = [] then .separator
    else ofLong rest

end Word

end CommandLine

end RequestEcho
