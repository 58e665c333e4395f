import RequestEcho.Failure
import RequestEcho.Log.Level
import RequestEcho.Text.Quoted

/-!
# The log

What the server tells about its work, and the lines it is told in. Peers and the listening socket are named by their
addresses as texts.

A line has no time: it is the level, where the event comes from, and the message. The controls with which a message
could steer a terminal are made visible; line breaks in it stay as they are.
-/

namespace RequestEcho

inductive Log.Event
  | listening (address : Text)
  | clientConnected (peer : Text)
  | connectionFailed (peer : Text) (failure : Failure)
  | clientSilent
  | dataReceived
  | pathRequested (path : Text)
  | chunkDecoded (text : Text)
deriving DecidableEq, Repr

namespace Log.Event

def level : Event → Level
  | listening _ => .info
  | clientConnected _ => .info
  | connectionFailed _ _ => .warn
  | clientSilent => .info
  | dataReceived => .info
  | pathRequested _ => .debug
  | chunkDecoded _ => .trace

def message : Event → Text
  | listening address => "Listening on ".toList ++ address
  | clientConnected peer => "Client connected: ".toList ++ peer
  | connectionFailed peer failure => "Connection to ".toList ++ peer ++ " failed: ".toList ++ failure.message
  | clientSilent => "Client closed before sending data".toList
  | dataReceived => "Received data".toList
  | pathRequested path => "Requested path: ".toList ++ path
  | chunkDecoded text => "Decoding chunk: ".toList ++ Quoted.quote text

/-- The part of the program that speaks. -/
def source : Event → Text
  | chunkDecoded _ => "path_echo::request".toList
  | _ => "path_echo".toList

end Log.Event

namespace Log

/-- The events that a log kept at `threshold` shows. -/
def shownAt (threshold : Level) (events : List Event) : List Event := events.filter fun e => threshold.shownAt e.level

/-- Escape, bell, backspace, form feed, delete and the controls above ASCII are spelled out, all else is itself. -/
def visible (c : Char) : Text :=
  if c = '\x1b' then "\\x1b".toList
  else if c = '\x07' then "\\x07".toList
  else if c = '\x08' then "\\x08".toList
  else if c = '\x0c' then "\\x0c".toList
  else if c = '\x7f' then "\\x7f".toList
  else if '\u0080' ≤ c ∧ c ≤ '\u009f' then Quoted.codePoint c
  else [c]

/-- The level is right-aligned in five columns. -/
def Event.line (e : Event) : Text :=
  List.replicate (5 - e.level.name.length) ' ' ++ e.level.name ++ ' ' :: e.source ++ ": ".toList ++
    e.message.flatMap visible ++ ['\n']

/-- The log of a program at a threshold. -/
def output (threshold : Level) (events : List Event) : Text := (shownAt threshold events).flatMap Event.line

end Log

end RequestEcho
