import RequestEcho.CommandLine.Word

/-!
# Reading the arguments

The words are read from left to right, and the first one that cannot stand ends the reading. A value that is a word of
its own is checked only when the next option that is known begins, or at the end; an attached value is checked at once.
-/

namespace RequestEcho

namespace CommandLine

/-- A value where none belongs, and the parameters that had a checked value when it came. -/
structure Surplus where
  value : Text
  given : List Parameter
deriving DecidableEq, Repr

/-- Why the reading ended before the end of the words. -/
inductive Stop
  | notice (n : Notice)
  | missingValue (p : Parameter)
  | badValue (p : Parameter) (value : Text)
  | notText
  | repeated (p : Parameter)
  | needlessValue (n : Notice) (surplus : Surplus)
  | unexpected (word : Text)
  | unknownOption (name : Text) (given : List Parameter)
deriving DecidableEq, Repr

/-- A parameter that still lacks its value, or a value that is still unchecked. -/
inductive Pending
  | wanting (p : Parameter)
  | holding (p : Parameter) (value : Bytes)
deriving DecidableEq, Repr

/-- The words read so far: the checked assignments in their order, what is pending, and whether the separator has been
passed. -/
structure Progress where
  given : List Assignment
  pending : Option Pending
  separated : Bool
deriving DecidableEq, Repr

namespace Progress

def initial : Progress := ⟨[], none, false⟩

/-- A parameter gets at most one value. -/
def assign (s : Progress) (p : Parameter) (value : Bytes) : Except Stop Progress :=
  if p ∈ s.given.map Assignment.parameter then .error (.repeated p)
  else
    match Utf8.decode? value with
    | none => .error .notText
    | some text =>
      match Assignment.ofText? p text with
      | none => .error (.badValue p text)
      | some a => .ok { s with given := s.given ++ [a] }

/-- Checks what is pending. -/
def settle (s : Progress) : Except Stop Progress :=
  match s.pending with
  | none => .ok s
  | some (.wanting p) => .error (.missingValue p)
  | some (.holding p value) => assign { s with pending := none } p value

/-- The parameters that have a value, checked or not. One that has two counts as having none. -/
def parametersGiven (s : Progress) : List Parameter :=
  let given := s.given.map Assignment.parameter
  match s.pending with
  | some (.holding p _) => if p ∈ given then given.erase p else given ++ [p]
  | _ => given

/-- Reads one more word. Nothing may follow the separator, not even a value. -/
def read (s : Progress) (word : Bytes) : Except Stop Progress :=
  if s.separated then .error (.unexpected (Utf8.decodeLossy word))
  else
    match Word.ofBytes word with
    | .separator => .ok { s with separated := true }
    | .plain =>
      match s.pending with
      | some (.wanting p) => .ok { s with pending := some (.holding p word) }
      | _ => .error (.unexpected (Utf8.decodeLossy word))
    | .parameter p none => do
      let s ← s.settle
      pure { s with pending := some (.wanting p) }
    | .parameter p (some value) => do
      let s ← s.settle
      s.assign p value
    | .notice n none => do
      let _ ← s.settle
      .error (.notice n)
    | .notice n (some value) =>
      .error (.needlessValue n ⟨Utf8.decodeLossy value, s.given.map Assignment.parameter⟩)
    | .unknownLong name => .error (.unknownOption name s.parametersGiven)
    | .unknownShort letter => .error (.unexpected letter)

end Progress

/-- The settings that the words after the program name ask for. -/
def settings (words : List Bytes) : Except Stop Settings := do
  let s ← words.foldlM Progress.read .initial
  let s ← s.settle
  pure (Settings.ofAssignments s.given)

/-- The settings that a command line asks for. It may lack even the program name. -/
def parse (argv : List Bytes) : Except Stop Settings := settings argv.tail

end CommandLine

end RequestEcho
