import RequestEcho.Connection

/-!
# The server

The accept loop and one task for each accepted connection take turns in any order. A turn of the loop takes the next
arrival; a turn of a task makes one call of its connection's transport. Everything that happens is recorded with the
task that it concerns. Only a failed accept ends the loop; the failure of a connection is no more than logged.
-/

namespace RequestEcho

namespace Server

/-- What the listening socket brings. -/
inductive Arrival
  | client (peer : Text) (connection : Connection)
  | failed (fault : Fault)
deriving DecidableEq

/-- The service of one connection. -/
structure Task where
  peer : Text
  connection : Connection
deriving DecidableEq

inductive Turn
  | accept
  | task (index : Nat)
deriving DecidableEq, Repr

structure Record where
  task : Nat
  occurrence : Connection.Occurrence
deriving DecidableEq, Repr

end Server

/-- Tasks keep their places, so a task is known by its index. `failure` is set when the accept loop has ended. -/
structure Server where
  arrivals : List Server.Arrival
  tasks : List Server.Task
  failure : Option Failure
deriving DecidableEq

namespace Server

def listening (arrivals : List Arrival) : Server := ⟨arrivals, [], none⟩

/-- A turn of the accept loop. Nothing happens after its end, or while no one arrives. -/
def accept (s : Server) : List Record × Server :=
  match s.failure, s.arrivals with
  | none, .client peer connection :: arrivals =>
    ([⟨s.tasks.length, .log (.clientConnected peer)⟩],
      { s with arrivals, tasks := s.tasks ++ [⟨peer, connection⟩] })
  | none, .failed fault :: arrivals => ([], { s with arrivals, failure := some (.accept fault) })
  | _, _ => ([], s)

/-- One step of a task. The step that ends its connection also reports the failure, if there is one. -/
def Task.step (t : Task) : List Connection.Occurrence × Task :=
  let result := t.connection.step
  let report : List Connection.Occurrence :=
    match t.connection.outcome?, result.2.outcome? with
    | none, some (some failure) => [.log (.connectionFailed t.peer failure)]
    | _, _ => []
  (result.1 ++ report, { t with connection := result.2 })

def turn (s : Server) : Turn → List Record × Server
  | .accept => s.accept
  | .task i =>
    match s.tasks[i]? with
    | none => ([], s)
    | some t => (t.step.1.map (⟨i, ·⟩), { s with tasks := s.tasks.set i t.step.2 })

/-- The records of a schedule of turns, and the server after it. -/
def run : Server → List Turn → List Record × Server
  | s, [] => ([], s)
  | s, t :: turns => ((s.turn t).1 ++ (run (s.turn t).2 turns).1, (run (s.turn t).2 turns).2)

end Server

end RequestEcho
