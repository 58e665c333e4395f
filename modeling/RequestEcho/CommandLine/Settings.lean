import RequestEcho.Address.Parser
import RequestEcho.Address.Printer
import RequestEcho.Log.Level

/-!
# Settings

What can be set on the command line, by which parameter, and what holds if it is not.
-/

namespace RequestEcho

structure Settings where
  socket : SocketAddress
  logLevel : Level
deriving DecidableEq, Repr

def Settings.standard : Settings := ⟨.v4 .unspecified 8000, .info⟩

namespace CommandLine

/-- An option that takes a value. -/
inductive Parameter
  | socket
  | logLevel
deriving DecidableEq, Repr

/-- An option that takes no value and ends the reading of the command line. -/
inductive Notice
  | help
  | version
deriving DecidableEq, Repr

/-- A parameter with its value. -/
inductive Assignment
  | socket (address : SocketAddress)
  | logLevel (level : Level)
deriving DecidableEq, Repr

namespace Parameter

def all : List Parameter := [socket, logLevel]

def long : Parameter → Text
  | socket => "socket".toList
  | logLevel => "log-level".toList

def short : Parameter → Char
  | socket => 's'
  | logLevel => 'l'

def valueName : Parameter → Text
  | socket => "SOCKET".toList
  | logLevel => "LOG_LEVEL".toList

/-- How the parameter is written in a usage line. -/
def usage (p : Parameter) : Text := "--".toList ++ p.long ++ " <".toList ++ p.valueName ++ ">".toList

/-- How a usage line says that any of the parameters has been given. -/
def anyUsage : Text := ['<'] ++ List.intercalate ['|'] (all.map usage) ++ ['>']

end Parameter

namespace Notice

def all : List Notice := [help, version]

def long : Notice → Text
  | help => "help".toList
  | version => "version".toList

def short : Notice → Char
  | help => 'h'
  | version => 'V'

def usage (n : Notice) : Text := "--".toList ++ n.long

end Notice

namespace Assignment

def parameter : Assignment → Parameter
  | socket _ => .socket
  | logLevel _ => .logLevel

def ofText? : Parameter → Text → Option Assignment
  | .socket, t => (SocketAddress.ofText? t).map socket
  | .logLevel, t => (Level.ofText? t).map logLevel

def apply (settings : Settings) : Assignment → Settings
  | socket address => { settings with socket := address }
  | logLevel level => { settings with logLevel := level }

end Assignment

end CommandLine

/-- The standard settings changed by the given assignments. -/
def Settings.ofAssignments (given : List CommandLine.Assignment) : Settings :=
  given.foldl CommandLine.Assignment.apply standard

end RequestEcho
