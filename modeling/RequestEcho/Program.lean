import RequestEcho.CommandLine.Message
import RequestEcho.Log.Event
import RequestEcho.Session

/-!
# The whole program

The program reads its command line, listens, and serves one client after the other until its listening socket fails. If
it cannot listen, or is not asked to, no client is served.
-/

namespace RequestEcho

namespace Program

/-- How a run of the program ends and what it leaves behind. -/
structure Result where
  exitCode : Nat
  output : Text
  errors : Text
  received : List Bytes
deriving DecidableEq, Repr

/-- The name of a client in the log, by its number. -/
def clientName (i : Nat) : Text := "<client".toList ++ decimal i ++ ">".toList

/-- The actions of clients that connect one after the other, send a request or, for `none`, close at once. -/
def actions (requests : List (Option Bytes)) : List Session.Action :=
  requests.zipIdx.flatMap fun p =>
    [.connect (clientName p.2), p.1.elim (.close (clientName p.2)) (.request (clientName p.2))]

/-- What the clients receive, each by its last action. -/
def replies : List Session.Effect → List Bytes
  | _ :: served :: effects => served.received :: replies effects
  | _ => []

/-- A run of the program that ends only because its listening socket fails. -/
def serve (settings : Settings) (requests : List (Option Bytes)) : Result :=
  let (effects, failure) := Session.run (actions requests)
  let start : Log.Event := .listening (settings.socket.hostText ++ ":<port>".toList)
  { exitCode := 1
    output := Log.output settings.logLevel (start :: effects.flatMap (·.events))
    errors := failure.elim [] Failure.report
    received := replies effects }

def run (argv : List Bytes) (requests : List (Option Bytes)) : Result :=
  match CommandLine.parse argv with
  | .error stop =>
    let message := stop.message (CommandLine.programName argv)
    if stop.isNotice then ⟨stop.exitCode, message, [], []⟩ else ⟨stop.exitCode, [], message, []⟩
  | .ok settings =>
    if settings.socket.isOwn then serve settings requests
    else ⟨1, [], (Failure.bind settings.socket .cannotAssignAddress).report, []⟩

end Program

end RequestEcho
