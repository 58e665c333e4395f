import RequestEcho.Server

/-!
# Sessions

A session is a list of things that clients do, one at a time. After each of them the server has time to do all that
follows from it. When no client has anything left to do, the listening socket fails.
-/

namespace RequestEcho

namespace Session

inductive Action
  | connect (client : Text)
  | request (client : Text) (bytes : Bytes)
  | close (client : Text)
  | reset (client : Text)
deriving DecidableEq, Repr

/-- What an action lets the client receive and the server log. -/
structure Effect where
  received : Bytes
  events : List Log.Event
deriving DecidableEq, Repr

namespace Action

def client : Action → Text
  | connect client => client
  | request client _ => client
  | close client => client
  | reset client => client

/-- What the server reads because of an action. -/
def delivery? : Action → Option Delivery
  | connect _ => none
  | request _ bytes => some (.data bytes)
  | close _ => some (.data [])
  | reset _ => some (.failed .resetByPeer)

end Action

/-- What the server reads from a client that has just connected and goes on to the given actions. -/
def reads (client : Text) (actions : List Action) : List Delivery :=
  ((actions.find? (·.client == client)).bind Action.delivery?).toList

/-- The arrivals at the listening socket. -/
def arrivals : List Action → List Server.Arrival
  | [] => [.failed .invalidArgument]
  | .connect client :: actions => .client client (.opened (reads client actions) [] [] []) :: arrivals actions
  | _ :: actions => arrivals actions

/-- The task that serves a client, by its latest connection. -/
def task? (client : Text) (s : Server) : Option (Nat × Server.Task) :=
  ((s.tasks.zipIdx.reverse.find? fun p => p.1.peer == client)).map fun p => (p.2, p.1)

/-- The turns that the server takes after an action: it accepts a new client, and serves any other to the end. -/
def turns (s : Server) : Action → List Server.Turn
  | .connect _ => [.accept]
  | action =>
    match task? action.client s with
    | some (i, t) => List.replicate t.connection.remaining (.task i)
    | none => []

def Effect.ofRecords (records : List Server.Record) : Effect :=
  ⟨records.flatMap (·.occurrence.accepted), records.filterMap (·.occurrence.log?)⟩

/-- The effects of the actions, one by one, and the server after them. -/
def perform : Server → List Action → List Effect × Server
  | s, [] => ([], s)
  | s, action :: actions =>
    let result := s.run (turns s action)
    let rest := perform result.2 actions
    (.ofRecords result.1 :: rest.1, rest.2)

/-- The effects of the actions, and the failure that ends the server after them. -/
def run (actions : List Action) : List Effect × Option Failure :=
  let result := perform (.listening (arrivals actions)) actions
  (result.1, (result.2.turn .accept).2.failure)

end Session

end RequestEcho
