import Std.Async.TCP
import RequestEcho.Program

/-!
# The command

`main` reads the command line, listens, and accepts clients until the listening socket fails. Each client is served by a
task of its own, which reads once; what the connection then logs and sends is what `Connection.run` says of that read.
-/

namespace RequestEcho

namespace Command

open Std.Async

def toNet : SocketAddress → Std.Net.SocketAddress
  | .v4 ip port => .v4 ⟨.ofParts ip.a ip.b ip.c ip.d, port⟩
  | .v6 ip _ port => .v6 ⟨⟨⟨ip.groups.toArray, by simp [ip.length_groups]⟩⟩, port⟩

def ofNet : Std.Net.SocketAddress → SocketAddress
  | .v4 ⟨⟨octets⟩, port⟩ => .v4 ⟨octets[0], octets[1], octets[2], octets[3]⟩ port
  | .v6 ⟨⟨segments⟩, port⟩ => .v6 ⟨segments.toList, by simp⟩ 0 port

def faultOf (e : IO.Error) : Fault := ⟨.other, e.toString.toList⟩

def printText (stream : IO.FS.Stream) (t : Text) : IO Unit := do
  stream.putStr (String.ofList t)
  stream.flush

def report (threshold : Level) (events : List Log.Event) : IO Unit := do
  printText (← IO.getStdout) (Log.output threshold events)

/-- What one read of the client brings. -/
def receive (client : TCP.Socket.Client) : Async Delivery := do
  try
    match ← client.recv? Reader.capacity.toUInt64 with
    | some bytes => return .data bytes.toList
    | none => return .data []
  catch e => return .failed (faultOf e)

/-- Sends what the connection sends after that read, and shuts the stream down. -/
def serveClient (threshold : Level) (peer : Text) (client : TCP.Socket.Client) : Async Unit := do
  let read ← receive client
  let (occurrences, after) := (Connection.opened [read] [] [] []).run
  report threshold (occurrences.filterMap (·.log?))
  match after.outcome? with
  | some (some failure) => report threshold [.connectionFailed peer failure]
  | _ =>
    if occurrences.any (·.call?.isSome) then
      try
        client.send ⟨(occurrences.flatMap (·.accepted)).toArray⟩
        client.shutdown
      catch e => report threshold [.connectionFailed peer (.write (faultOf e))]

/-- Accepts clients until that fails. -/
partial def acceptClients (threshold : Level) (server : TCP.Socket.Server) : Async Failure := do
  let arrival : Except IO.Error TCP.Socket.Client ←
    try
      pure (.ok (← server.accept))
    catch e => pure (.error e)
  match arrival with
  | .error e => return .accept (faultOf e)
  | .ok client =>
    let peer := (ofNet (← client.getPeerName)).text
    report threshold [.clientConnected peer]
    let _ ← Async.toIO (serveClient threshold peer client)
    acceptClients threshold server

/-- Listens at the address of the settings, unless that fails at once. -/
def listen (settings : Settings) : IO (Except Failure TCP.Socket.Server) := do
  try
    let server ← TCP.Socket.Server.mk
    server.bind (toNet settings.socket)
    server.listen 1024
    return .ok server
  catch e => return .error (.bind settings.socket (faultOf e))

def serve (settings : Settings) : IO Failure := do
  match ← listen settings with
  | .error failure => return failure
  | .ok server =>
    report settings.logLevel [.listening (ofNet (← server.getSockName)).text]
    (acceptClients settings.logLevel server).block

end Command

end RequestEcho

open RequestEcho in
def main (arguments : List String) : IO UInt32 := do
  let argv := ((← IO.appPath).toString :: arguments).map fun word => Utf8.encode word.toList
  match CommandLine.parse argv with
  | .error stop =>
    let stream ← if stop.isNotice then IO.getStdout else IO.getStderr
    Command.printText stream (stop.message (CommandLine.programName argv))
    return stop.exitCode.toUInt32
  | .ok settings =>
    let failure ← Command.serve settings
    Command.printText (← IO.getStderr) failure.report
    return 1
