import RequestEcho.Log.Event
import RequestEcho.Reader
import RequestEcho.Http

/-!
# One connection

A connection waits for the first chunk of its stream, sends the response to it, flushes, flushes again and shuts the
stream down. Every step makes one call of the transport, whose answers are scripted:

* a call that is not ready is made again in the next step, except that a flush comes before each shutdown call;
* a fault of any call ends the connection, and so does a write that accepts nothing;
* `remaining` falls with every step, so every run ends.
-/

namespace RequestEcho

/-- The answer to a write call: how many of the offered bytes are accepted at most. -/
inductive Acceptance
  | upTo (limit : Nat)
  | notReady
  | failed (fault : Fault)
deriving DecidableEq, Repr

/-- The answer to a flush or a shutdown call. -/
inductive Completion
  | done
  | notReady
  | failed (fault : Fault)
deriving DecidableEq, Repr

namespace Connection

inductive Operation
  | write
  | flush
  | shutdown
deriving DecidableEq, Repr

/-- What one call of the writing side came to. -/
inductive Call
  | wrote (accepted : Bytes)
  | flushed
  | shut
  | notReady (operation : Operation)
  | failed (operation : Operation)
deriving DecidableEq, Repr

/-- A call or a log event, in the order in which they happen. -/
inductive Occurrence
  | call (c : Call)
  | log (e : Log.Event)
deriving DecidableEq, Repr

/-- `closing` is the flush that precedes a shutdown call. -/
inductive Phase
  | reading
  | sending (unsent : Bytes)
  | flushing
  | closing
  | shutting
  | finished (failure : Option Failure)
deriving DecidableEq, Repr

end Connection

/-- A connection and the answers that its transport will give. When a script is used up, writes accept everything and
flush and shutdown calls succeed. -/
structure Connection where
  phase : Connection.Phase
  reader : Reader
  writes : List Acceptance
  flushes : List Completion
  shutdowns : List Completion
deriving DecidableEq

namespace Connection

def opened (reads : List Delivery) (writes : List Acceptance) (flushes shutdowns : List Completion) : Connection :=
  ⟨.reading, Reader.ofScript reads, writes, flushes, shutdowns⟩

/-- What to log about the first item of the stream, and what to do next. -/
def answer : Poll → List Log.Event × Phase
  | .notReady => ([], .reading)
  | .ended => ([.clientSilent], .finished none)
  | .failed fault => ([], .finished (some (.read fault)))
  | .chunk c =>
    ([.chunkDecoded c.text, .dataReceived, .pathRequested c.request.path],
      .sending (Response.ofPath c.request.path).encode)

/-- What a write call that offers `unsent` and gets the given answer comes to. -/
def write (unsent : Bytes) : Acceptance → Call × Phase
  | .upTo limit =>
    (.wrote (unsent.take limit),
      if unsent.take limit = [] then .finished (some (.write .noProgress))
      else if unsent.drop limit = [] then .flushing
      else .sending (unsent.drop limit))
  | .notReady => (.notReady .write, .sending unsent)
  | .failed fault => (.failed .write, .finished (some (.write fault)))

/-- What a flush or a shutdown call with the given answer comes to: on success `success` and the phase `next`, if it is
not ready the phase `again`. -/
def complete (operation : Operation) (success : Call) (next again : Phase) : Completion → Call × Phase
  | .done => (success, next)
  | .notReady => (.notReady operation, again)
  | .failed fault => (.failed operation, .finished (some (.write fault)))

/-- One call of the transport. -/
def step (c : Connection) : List Occurrence × Connection :=
  match c.phase with
  | .reading =>
    ((answer c.reader.poll.1).1.map .log, { c with phase := (answer c.reader.poll.1).2, reader := c.reader.poll.2 })
  | .sending unsent =>
    let result := write unsent (c.writes.headD (.upTo unsent.length))
    ([.call result.1], { c with phase := result.2, writes := c.writes.tail })
  | .flushing =>
    let result := complete .flush .flushed .closing .flushing (c.flushes.headD .done)
    ([.call result.1], { c with phase := result.2, flushes := c.flushes.tail })
  | .closing =>
    let result := complete .flush .flushed .shutting .closing (c.flushes.headD .done)
    ([.call result.1], { c with phase := result.2, flushes := c.flushes.tail })
  | .shutting =>
    let result := complete .shutdown .shut (.finished none) .closing (c.shutdowns.headD .done)
    ([.call result.1], { c with phase := result.2, shutdowns := c.shutdowns.tail })
  | .finished _ => ([], c)

/-- The outcome of a connection that has ended: its failure, if any. -/
def outcome? (c : Connection) : Option (Option Failure) :=
  match c.phase with
  | .finished failure => some failure
  | _ => none

/-- How far a phase is from the end. -/
def Phase.distance : Phase → Nat
  | reading => 5
  | sending _ => 4
  | flushing => 3
  | closing => 2
  | shutting => 1
  | finished _ => 0

/-- A bound on the steps to come. A shutdown call that is not ready costs two: another flush, and itself again. -/
def remaining (c : Connection) : Nat :=
  c.phase.distance + c.reader.script.length + c.writes.length + c.flushes.length + 2 * c.shutdowns.length

/-- Every step brings a connection nearer to its end. -/
theorem remaining_step_lt {c : Connection} (h : c.outcome? = none) : c.step.2.remaining < c.remaining := by
  obtain ⟨phase, reader, writes, flushes, shutdowns⟩ := c
  cases phase with
  | reading =>
    have hl := reader.length_script_poll_le
    cases hp : reader.poll.1 with
    | notReady =>
      have := Reader.length_script_of_notReady (r := reader) (s := reader.poll.2) (by rw [← hp])
      simp [step, remaining, answer, hp, Phase.distance]; omega
    | _ => simp [step, remaining, answer, hp, Phase.distance]; omega
  | sending unsent =>
    cases writes with
    | nil => by_cases hu : unsent = [] <;> simp [step, remaining, write, hu, Phase.distance]
    | cons a writes =>
      cases a with
      | upTo limit => simp only [step, remaining, write, List.headD_cons, List.tail_cons]; grind [Phase.distance]
      | notReady => simp [step, remaining, write, Phase.distance]
      | failed fault => simp [step, remaining, write, Phase.distance]; omega
  | flushing =>
    rcases flushes with _ | ⟨_ | _ | _, _⟩ <;> simp [step, remaining, complete, Phase.distance] <;> omega
  | closing =>
    rcases flushes with _ | ⟨_ | _ | _, _⟩ <;> simp [step, remaining, complete, Phase.distance] <;> omega
  | shutting =>
    rcases shutdowns with _ | ⟨_ | _ | _, _⟩ <;> simp [step, remaining, complete, Phase.distance] <;> omega
  | finished failure => simp [outcome?] at h

/-- What happens until the connection has ended, and the connection then. -/
def run (c : Connection) : List Occurrence × Connection :=
  match _h : c.outcome? with
  | some _ => ([], c)
  | none =>
    let rest := run c.step.2
    (c.step.1 ++ rest.1, rest.2)
termination_by c.remaining
decreasing_by exact remaining_step_lt (by assumption)

end Connection

namespace Connection.Occurrence

def call? : Occurrence → Option Call
  | call c => some c
  | log _ => none

def log? : Occurrence → Option Log.Event
  | call _ => none
  | log e => some e

/-- The bytes that the transport accepted. -/
def accepted : Occurrence → Bytes
  | call (.wrote bytes) => bytes
  | _ => []

end Connection.Occurrence

end RequestEcho
