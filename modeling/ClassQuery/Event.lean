import ClassQuery.FileTree.Path
import ClassQuery.Record
import ClassQuery.Settings

/-!
Events: what a run notes in its log.
-/

set_option autoImplicit false
set_option relaxedAutoImplicit false

namespace ClassQuery

inductive FileFault where
  | noText
  | unreachable (fault : Path.Fault)
deriving DecidableEq

def FileFault.message : FileFault → Text
  | .noText => "stream did not contain valid UTF-8".toList
  | .unreachable fault => fault.message

inductive Event where
  | badSettings (fault : HostFault)
  | nothingToDo
  | patternMade (abbreviation pattern : Text) (atoms : Nat)
  | searching (pattern : Text)
  /-- A root, or a directory below it, cannot be read and is passed over. -/
  | skippedPlace (root path : Bytes) (fault : Path.Fault)
  | skippedFile (path : Bytes) (fault : FileFault)
  | finished (hits : Nat)
  | failed (report : Report)

namespace Event

def level : Event → Level
  | .badSettings _ => .error
  | .skippedPlace _ _ _ => .warn
  | .nothingToDo | .finished _ => .info
  | .patternMade _ _ _ | .searching _ | .skippedFile _ _ | .failed _ => .debug

def message : Event → Text
  | .badSettings fault => "invalid configuration error=".toList ++ fault.message
  | .nothingToDo => "no abbreviation given; nothing to do".toList
  | .patternMade abbreviation pattern atoms =>
    "translated abbreviation abbreviation=\"".toList ++ abbreviation ++ "\" pattern=".toList ++
      pattern ++ " tokens=".toList ++ Text.decimal atoms
  | .searching pattern => "searching pattern=\"".toList ++ pattern ++ ['"']
  | .skippedPlace root path fault =>
    "skipping unreadable entry root=".toList ++ Utf8.decodeLossy root ++
      " error=IO error for operation on ".toList ++ Utf8.decodeLossy path ++ ": ".toList ++
      fault.message
  | .skippedFile path fault =>
    "skipping file path=".toList ++ Utf8.decodeLossy path ++ " error=".toList ++ fault.message
  | .finished hits => "search finished hits=".toList ++ Text.decimal hits
  | .failed report => "command failed error=".toList ++ report.block

/-- The word for a level in the log, right-aligned in five columns. -/
def levelMark : Level → Text
  | .trace => "TRACE".toList
  | .debug => "DEBUG".toList
  | .info => " INFO".toList
  | .warn => " WARN".toList
  | .error => "ERROR".toList

def line (e : Event) : Text := levelMark e.level ++ ' ' :: e.message ++ ['\n']

/-- The events that a log shows when it is set to a level. -/
def shownAt (threshold : Level) (events : List Event) : List Event :=
  events.filter fun e => threshold.shows e.level

def log (threshold : Level) (events : List Event) : Text := (shownAt threshold events).flatMap line

end Event

end ClassQuery
