import RequestEcho.CommandLine.Arguments
import RequestEcho.Text.Similarity

/-!
# What the command line answers

Help, version and the errors, as texts. An error names the fault, then, unless the fault is in a value alone, a usage
line, and points to the help.
-/

namespace RequestEcho

namespace CommandLine

/-- An option of either sort. -/
inductive Flag
  | parameter (p : Parameter)
  | notice (n : Notice)
deriving DecidableEq, Repr

namespace Flag

def all : List Flag := Parameter.all.map parameter ++ Notice.all.map notice

def long : Flag → Text
  | parameter p => p.long
  | notice n => n.long

def short : Flag → Char
  | parameter p => p.short
  | notice n => n.short

def usage : Flag → Text
  | parameter p => p.usage
  | notice n => n.usage

def description : Flag → Text
  | parameter .socket => "Socket to bind on [default: ".toList ++ Settings.standard.socket.text ++ "]".toList
  | parameter .logLevel =>
    "Maximum log level (trace, debug, info, warn, error) [default: ".toList ++ Settings.standard.logLevel.name ++
      "]".toList
  | notice .help => "Print help".toList
  | notice .version => "Print version".toList

/-- The higher scored of two flags, the second if their scores are equal. -/
def better (a b : Flag × Float) : Flag × Float := if a.2 > b.2 then a else b

/-- The flag whose name is most like `name`, if it is like enough; of equally similar ones the last. -/
def similar? (name : Text) : Option Flag :=
  let alike := (all.map fun f => (f, similarity name f.long)).filter (·.2 > 0.7)
  (alike.foldl (fun best f => some (best.elim f (better · f))) none).map (·.1)

/-- Short and long form, as the help lists them. -/
def forms (f : Flag) : Text := "  -".toList ++ [f.short] ++ ", ".toList ++ f.usage

def helpLine (f : Flag) : Text :=
  let width := (all.map fun g => g.forms.length).foldl max 0
  f.forms ++ List.replicate (width - f.forms.length + 2) ' ' ++ f.description ++ ['\n']

end Flag

def standardName : Text := "path_echo".toList

def slash : UInt8 := 0x2F

def dot : UInt8 := 0x2E

/-- The pieces of a path, without those that stand for no name. -/
def components (path : Bytes) : List Bytes :=
  (path.splitBy fun a b => a ≠ slash && b ≠ slash).filter fun piece => piece ≠ [slash] ∧ piece ≠ [dot]

/-- The name under which the program was called: the last component of the first word, unless that leads upwards or is
no text. -/
def programName (argv : List Bytes) : Text :=
  match argv.head?.bind fun path => (components path).getLast? with
  | none => standardName
  | some name => if name = [dot, dot] then standardName else (Utf8.decode? name).getD standardName

def usageLine (program : Text) (pieces : List Text) : Text :=
  "Usage: ".toList ++ List.intercalate [' '] (program :: if pieces = [] then ["[OPTIONS]".toList] else pieces)

def help (program : Text) : Text :=
  usageLine program [] ++ "\n\nOptions:\n".toList ++ Flag.all.flatMap Flag.helpLine

def version : Text := standardName ++ " 0.1.0\n".toList

def quoted (t : Text) : Text := ['\''] ++ t ++ ['\'']

/-- Why a text is no value of a parameter. -/
def Parameter.complaint : Parameter → Text
  | .socket => "invalid socket address syntax".toList
  | .logLevel =>
    "error parsing level: expected one of ".toList ++
      "\"error\", \"warn\", \"info\", \"debug\", \"trace\", or a number 1-5".toList

/-- An error message around what is wrong and, where one helps, the pieces of a usage line. -/
def errorMessage (program what : Text) (usage : Option (List Text)) : Text :=
  "error: ".toList ++ what ++ (usage.elim [] fun pieces => "\n\n".toList ++ usageLine program pieces) ++
    "\n\nFor more information, try '--help'.\n".toList

namespace Stop

def message (program : Text) : Stop → Text
  | notice .help => help program
  | notice .version => version
  | missingValue p =>
    errorMessage program ("a value is required for ".toList ++ quoted p.usage ++ " but none was supplied".toList) none
  | badValue p value =>
    errorMessage program
      ("invalid value ".toList ++ quoted value ++ " for ".toList ++ quoted p.usage ++ ": ".toList ++ p.complaint) none
  | notText => errorMessage program "invalid UTF-8 was detected in one or more arguments".toList (some [])
  | repeated p =>
    errorMessage program ("the argument ".toList ++ quoted p.usage ++ " cannot be used multiple times".toList) (some [])
  | needlessValue n surplus =>
    errorMessage program
      ("unexpected value ".toList ++ quoted surplus.value ++ " for ".toList ++ quoted n.usage ++
        " found; no more were expected".toList)
      (some (n.usage :: if surplus.given = [] then [] else [Parameter.anyUsage]))
  | unexpected word =>
    errorMessage program ("unexpected argument ".toList ++ quoted word ++ " found".toList) (some [])
  | unknownOption name given =>
    let found := "unexpected argument ".toList ++ quoted ("--".toList ++ name) ++ " found".toList
    let pieces := given.map Parameter.usage
    match Flag.similar? name with
    | none => errorMessage program found (some pieces)
    | some f =>
      errorMessage program
        (found ++ "\n\n  tip: a similar argument exists: ".toList ++ quoted ("--".toList ++ f.long))
        (some (if f.usage ∈ pieces then pieces else pieces ++ [f.usage]))

/-- Whether the program was asked to stop here, which is no error. -/
def isNotice : Stop → Bool
  | notice _ => true
  | _ => false

def exitCode (s : Stop) : Nat := if s.isNotice then 0 else 2

end Stop

end CommandLine

end RequestEcho
