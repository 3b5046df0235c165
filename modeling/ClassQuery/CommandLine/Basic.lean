import ClassQuery.Settings
import ClassQuery.Text.Screen

/-!
Command lines: what they ask for, and why one asks for nothing.

An argument is told by its looks. Two hyphens alone end the options. A word that begins with two
hyphens is a long option, with a value after the first equals sign; one that begins with one hyphen
is a cluster of short options. All else, a single hyphen included, is a positional argument.
-/

set_option autoImplicit false
set_option relaxedAutoImplicit false

/-! ### Requests -/

namespace ClassQuery

inductive Command where
  /-- Put out the pattern of an abbreviation, which is read from the input if it is not given. -/
  | pattern (abbreviation : Option Text) (json : Bool)
  /-- Put out the lines below some paths that match an abbreviation. -/
  | search (abbreviation : Text) (paths : List Bytes) (json : Bool)
deriving DecidableEq

namespace CommandLine

structure Request where
  command : Command
  level : Option Level
deriving DecidableEq

inductive CommandName where
  | pattern
  | search
deriving DecidableEq

def currentDirectory : Bytes := [46]

end CommandLine

end ClassQuery

/-! ### Usage -/

namespace ClassQuery.CommandLine

inductive Switch where
  | logLevel
  | json
  | help
  | version
deriving DecidableEq

def Switch.shown : Switch → Text
  | .logLevel => "--log-level <LOG_LEVEL>".toList
  | .json => "--json".toList
  | .help => "--help".toList
  | .version => "--version".toList

inductive Usage where
  | help
  /-- Nothing was asked for, so help is given. -/
  | nothing
  | version
  | unknownArgument (shown : Text)
  | unknownCommand (shown : Text)
  | noCommand
  | noAbbreviation
  | repeated (switch : Switch)
  /-- An option was given a value that it does not take. -/
  | surplusValue (switch : Switch) (value : Text)
  | noLevel
  | emptyPath
  /-- The level of the log was to be set to no level. -/
  | badLevel (value : Text) (fault : HostFault)
  | noText
deriving DecidableEq

namespace Usage

/-- The exit status. Only answers that were asked for count as success. -/
def exit : Usage → Nat
  | .help | .version => 0
  | _ => 2

def quoted (word : Text) : Text := '\'' :: Screen.setOff word ++ ['\'']

/-- A mistake in words, with the mark of a mistake in front and a hint behind. -/
def mistake (text : Text) : Text :=
  Screen.setOff "error:".toList ++ ' ' :: text ++
    "\n\nFor more information, try ".toList ++ quoted "--help".toList ++ ".\n".toList

/-- What is said on a screen, over one or more lines; nothing where help is given. -/
def screen? : Usage → Option Text
  | .help | .nothing => none
  | .version => some "search-tags 0.1.0\n".toList
  | .unknownArgument shown =>
    some (mistake ("unexpected argument ".toList ++ quoted shown ++ " found".toList))
  | .unknownCommand shown =>
    some (mistake ("unrecognized subcommand ".toList ++ quoted shown))
  | .noCommand =>
    some (mistake (quoted "search-tags".toList ++
      " requires a subcommand but one was not provided".toList))
  | .noAbbreviation =>
    some (mistake "the following required arguments were not provided:".toList)
  | .repeated switch =>
    some (mistake ("the argument ".toList ++ quoted switch.shown ++
      " cannot be used multiple times".toList))
  | .surplusValue switch value =>
    some (mistake ("unexpected value ".toList ++ quoted value ++ " for ".toList ++
      quoted switch.shown ++ " found; no more were expected".toList))
  | .noLevel =>
    some (mistake ("a value is required for ".toList ++ quoted Switch.logLevel.shown ++
      " but none was supplied".toList))
  | .emptyPath =>
    some (mistake ("a value is required for ".toList ++ quoted "[PATHS]...".toList ++
      " but none was supplied".toList))
  | .badLevel value fault =>
    some (mistake ("invalid value ".toList ++ quoted value ++ " for ".toList ++
      quoted Switch.logLevel.shown ++ ": ".toList ++ fault.message))
  | .noText =>
    some (mistake "invalid UTF-8 was detected in one or more arguments".toList)

def message? (u : Usage) : Option Text := u.screen?.map Screen.plain

def headline? (u : Usage) : Option Text :=
  u.message?.map fun text => (Lines.ofText text).headD []

end Usage

/-! ### Words -/

inductive Word where
  | endOfOptions
  /-- A long option by its name, with the value attached to it if there is one. -/
  | long (name : Bytes) (value : Option Bytes)
  /-- Short options by the bytes after the hyphen. -/
  | short (cluster : Bytes)
  | positional (value : Bytes)
deriving DecidableEq

namespace Word

def hyphen : UInt8 := 45

def equals : UInt8 := 61

def ofLong (body : Bytes) : Word :=
  match body.dropWhile (· ≠ equals) with
  | [] => .long body none
  | _ :: value => .long (body.takeWhile (· ≠ equals)) (some value)

def ofArgument (argument : Bytes) : Word :=
  match argument with
  | a :: b :: rest =>
    if a = hyphen then
      if b = hyphen then (if rest.isEmpty then .endOfOptions else ofLong rest)
      else .short (b :: rest)
    else .positional argument
  | _ => .positional argument

def firstOfCluster? (cluster : Bytes) : Option Char := (Utf8.units cluster).head?.join

def longShown (name : Bytes) : Text := "--".toList ++ Utf8.decodeLossy name

/-- The first short option of a cluster as it is shown, or the whole cluster if it begins with no
character. -/
def shortShown (cluster : Bytes) : Text :=
  match firstOfCluster? cluster with
  | some c => ['-', c]
  | none => '-' :: Utf8.decodeLossy cluster

end Word

/-! ### Help -/

def helpText : Text :=
  ("Usage: search-tags [OPTIONS] <COMMAND>\n" ++
    "\n" ++
    "Commands:\n" ++
    "  pattern [ABBREVIATION]           Print the search pattern for an abbreviation\n" ++
    "  search <ABBREVIATION> [PATHS]..  Print lines that carry every class\n" ++
    "  help [COMMAND]                   Print this text\n" ++
    "\n" ++
    "Options:\n" ++
    "      --log-level <LOG_LEVEL>  Log level (trace, debug, info, warn, error)\n" ++
    "      --json                   Emit JSON (after a command)\n" ++
    "  -h, --help                   Print this text\n" ++
    "  -V, --version                Print the version (before a command)\n").toList

end ClassQuery.CommandLine
