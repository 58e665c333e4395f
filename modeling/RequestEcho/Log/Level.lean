import RequestEcho.Numeral

/-!
# Log levels

Levels run from `error`, the most severe, to `trace`. A level is written by its name and read from its name in any ASCII
case or from its rank.
-/

namespace RequestEcho

inductive Level
  | error
  | warn
  | info
  | debug
  | trace
deriving DecidableEq, Repr

namespace Level

def all : List Level := [error, warn, info, debug, trace]

/-- 1 for the most severe. -/
def rank : Level → Nat
  | error => 1
  | warn => 2
  | info => 3
  | debug => 4
  | trace => 5

def name : Level → Text
  | error => "ERROR".toList
  | warn => "WARN".toList
  | info => "INFO".toList
  | debug => "DEBUG".toList
  | trace => "TRACE".toList

/-- Whether a log kept at `threshold` shows an event of level `l`. -/
def shownAt (threshold l : Level) : Bool := l.rank ≤ threshold.rank

def ofRank? (n : Nat) : Option Level := all.find? (·.rank == n)

/-- A level by its name, in any ASCII case. -/
def ofName? (t : Text) : Option Level := all.find? fun l => l.name.map Char.toLower == t.map Char.toLower

/-- The number written by digits behind an optional plus sign, if a machine word holds it. -/
def number? : Text → Option Nat
  | '+' :: digits => Numeral.valueBelow? 10 Numeral.wordBound digits
  | digits => Numeral.valueBelow? 10 Numeral.wordBound digits

def ofText? (t : Text) : Option Level := ((number? t).bind ofRank?).or (ofName? t)

end Level

end RequestEcho
