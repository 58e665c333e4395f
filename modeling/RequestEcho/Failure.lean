import RequestEcho.Address.Printer
import RequestEcho.Fault

/-!
# Failures of the server

A failure says which activity a fault of the transport has ended. A fault of the writing side speaks for itself; all
others are put into context.
-/

namespace RequestEcho

inductive Failure
  | bind (address : SocketAddress) (cause : Fault)
  | accept (cause : Fault)
  | read (cause : Fault)
  | write (cause : Fault)
deriving DecidableEq, Repr

namespace Failure

def cause : Failure → Fault
  | bind _ cause => cause
  | accept cause => cause
  | read cause => cause
  | write cause => cause

def context? : Failure → Option Text
  | bind address _ => some ("Failed to bind to ".toList ++ address.text)
  | accept _ => some "Failed to accept connection".toList
  | read _ => some "Failed to read request".toList
  | write _ => none

/-- The failure on one line, its context first. -/
def message (f : Failure) : Text :=
  match f.context? with
  | some context => context ++ ": ".toList ++ f.cause.text
  | none => f.cause.text

/-- The failure as the last words of a program. -/
def report (f : Failure) : Text :=
  match f.context? with
  | some context => "Error: ".toList ++ context ++ "\n\nCaused by:\n    ".toList ++ f.cause.text ++ ['\n']
  | none => "Error: ".toList ++ f.cause.text ++ ['\n']

end Failure

end RequestEcho
