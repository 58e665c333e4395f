/-!
# Text and its bytes

* `encode` writes a text as UTF-8.
* `decodeLossy` reads any bytes: well-formed sequences give their characters, and every maximal part that begins a
  sequence but does not complete it gives one replacement character, as does a byte that begins none.
* `decode?` accepts exactly the well-formed byte strings.

Reading is a machine with one step per byte. Its state is what the sequence begun so far still needs, so an ASCII
byte always leads back to `idle`: damage never spreads over a delimiter.
-/

namespace RequestEcho

abbrev Bytes := List UInt8

abbrev Text := List Char

namespace Utf8

/-- The character shown for what is no text. -/
def replacement : Char := '\uFFFD'

def encode (t : Text) : Bytes := t.flatMap String.utf8EncodeChar

@[simp] theorem encode_nil : encode [] = [] := rfl

@[simp] theorem encode_cons (c : Char) (t : Text) : encode (c :: t) = String.utf8EncodeChar c ++ encode t := rfl

@[simp] theorem encode_append (s t : Text) : encode (s ++ t) = encode s ++ encode t := List.flatMap_append

theorem encode_eq_nil_iff {t : Text} : encode t = [] ↔ t = [] := by
  cases t with
  | nil => simp
  | cons c t =>
    have hc : 0 < (String.utf8EncodeChar c).length := by
      rw [String.length_utf8EncodeChar]
      exact c.utf8Size_pos
    simp [List.length_pos_iff.1 hc]

/-- What the sequence being read still needs: `partway acc low high further` has gathered the bits `acc`, admits
next only a byte from `low` to `high`, and wants `further` continuation bytes after it. -/
inductive Progress
  | idle
  | partway (acc : Nat) (low high : UInt8) (further : Nat)
deriving DecidableEq, Repr

/-- Where a first byte leads. The narrowed second bytes exclude overlong forms (`E0`, `F0`), surrogates (`ED`) and
values past the last code point (`F4`). A byte that begins no sequence gives `none`. -/
def first? (b : UInt8) : Option Progress :=
  if b < 0xC2 then none
  else if b < 0xE0 then some (.partway (b.toNat - 0xC0) 0x80 0xBF 0)
  else if b = 0xE0 then some (.partway 0x0 0xA0 0xBF 1)
  else if b = 0xED then some (.partway 0xD 0x80 0x9F 1)
  else if b < 0xF0 then some (.partway (b.toNat - 0xE0) 0x80 0xBF 1)
  else if b = 0xF0 then some (.partway 0x0 0x90 0xBF 2)
  else if b < 0xF4 then some (.partway (b.toNat - 0xF0) 0x80 0xBF 2)
  else if b = 0xF4 then some (.partway 0x4 0x80 0x8F 2)
  else none

/-- A byte read with no sequence open: the text it gives at once, and where it leads. -/
def start (b : UInt8) : Text × Progress :=
  if b < 0x80 then ([Char.ofNat b.toNat], .idle)
  else match first? b with
    | some p => ([], p)
    | none => ([replacement], .idle)

/-- A byte read after `p`. One that does not continue the open sequence closes it with a replacement character and
is read afresh. -/
def step (p : Progress) (b : UInt8) : Text × Progress :=
  match p with
  | .idle => start b
  | .partway acc low high further =>
    if low ≤ b ∧ b ≤ high then
      match further with
      | 0 => ([Char.ofNat (acc * 64 + (b.toNat - 0x80))], .idle)
      | n + 1 => ([], .partway (acc * 64 + (b.toNat - 0x80)) 0x80 0xBF n)
    else (replacement :: (start b).1, (start b).2)

/-- The text of the bytes that follow `p`. -/
def decodeFrom : Progress → Bytes → Text
  | .idle, [] => []
  | .partway .., [] => [replacement]
  | p, b :: bs => (step p b).1 ++ decodeFrom (step p b).2 bs

def decodeLossy (bs : Bytes) : Text := decodeFrom .idle bs

/-- The text whose encoding is `bs`, if there is one. -/
def decode? (bs : Bytes) : Option Text :=
  if encode (decodeLossy bs) = bs then some (decodeLossy bs) else none

/-- The character that `bs` begins with, unless it begins with no well-formed sequence. -/
def firstChar? (bs : Bytes) : Option Char :=
  (decodeLossy bs).head?.filter fun c => (encode [c]).isPrefixOf bs

end Utf8

end RequestEcho
