import RequestEcho.Utf8

/-!
# Faults of a transport

A fault has a kind, by which it can be told apart, and a text. A fault without a text of its own is described by its
kind.
-/

namespace RequestEcho

inductive FaultKind
  | notFound
  | permissionDenied
  | connectionRefused
  | connectionReset
  | connectionAborted
  | notConnected
  | addrInUse
  | addrNotAvailable
  | brokenPipe
  | alreadyExists
  | wouldBlock
  | invalidInput
  | invalidData
  | timedOut
  | writeZero
  | interrupted
  | unsupported
  | unexpectedEof
  | outOfMemory
  | other
deriving DecidableEq, Repr

def FaultKind.description : FaultKind → Text
  | notFound => "entity not found".toList
  | permissionDenied => "permission denied".toList
  | connectionRefused => "connection refused".toList
  | connectionReset => "connection reset".toList
  | connectionAborted => "connection aborted".toList
  | notConnected => "not connected".toList
  | addrInUse => "address in use".toList
  | addrNotAvailable => "address not available".toList
  | brokenPipe => "broken pipe".toList
  | alreadyExists => "entity already exists".toList
  | wouldBlock => "operation would block".toList
  | invalidInput => "invalid input parameter".toList
  | invalidData => "invalid data".toList
  | timedOut => "timed out".toList
  | writeZero => "write zero".toList
  | interrupted => "operation interrupted".toList
  | unsupported => "unsupported".toList
  | unexpectedEof => "unexpected end of file".toList
  | outOfMemory => "out of memory".toList
  | other => "other error".toList

structure Fault where
  kind : FaultKind
  text : Text
deriving DecidableEq, Repr

namespace Fault

def ofKind (kind : FaultKind) : Fault := ⟨kind, kind.description⟩

/-- The peer has dropped the connection. -/
def resetByPeer : Fault := ⟨.connectionReset, "Connection reset by peer (os error 104)".toList⟩

/-- The listening socket is no longer usable. -/
def invalidArgument : Fault := ⟨.invalidInput, "Invalid argument (os error 22)".toList⟩

/-- The address to listen on belongs to another machine. -/
def cannotAssignAddress : Fault :=
  ⟨.addrNotAvailable, "Cannot assign requested address (os error 99)".toList⟩

/-- The transport accepted no byte of those offered. -/
def noProgress : Fault := ⟨.writeZero, "failed to write frame to transport".toList⟩

/-- A stream ended while its last bytes made no chunk. -/
def bytesRemaining : Fault := ⟨.other, "bytes remaining on stream".toList⟩

end Fault

end RequestEcho
