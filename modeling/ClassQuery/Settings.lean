import ClassQuery.Text.Lowercase
import ClassQuery.Text.Utf8

/-!
What a run takes from its surroundings: the level of its log and abbreviations from a stream.
-/

set_option autoImplicit false
set_option relaxedAutoImplicit false

namespace ClassQuery

inductive Level where
  | trace
  /-- Detail such as the files that are skipped. -/
  | debug
  | info
  | warn
  | error
deriving DecidableEq

namespace Level

def rank : Level → Nat
  | .trace => 0
  | .debug => 1
  | .info => 2
  | .warn => 3
  | .error => 4

/-- Whether a log that is set to the first level shows events of the second. -/
def shows (threshold event : Level) : Bool := threshold.rank ≤ event.rank

def word : Level → Text
  | .trace => "trace".toList
  | .debug => "debug".toList
  | .info => "info".toList
  | .warn => "warn".toList
  | .error => "error".toList

def words : List (Text × Level) :=
  [("trace".toList, .trace), ("debug".toList, .debug), ("info".toList, .info),
   ("warn".toList, .warn), ("warning".toList, .warn), ("error".toList, .error)]

/-- The level that a text names: one of the words, in small or capital letters, between blanks. -/
def ofText? (text : Text) : Option Level :=
  words.lookup (Lowercase.ofText (Blank.trim text))

def standard : Level := .warn

end Level

/-! ### Settings and what can be wrong with them -/

inductive HostFault where
  /-- A setting has a value that it cannot have. -/
  | setting (detail : Text)
  | input (detail : Text)
deriving DecidableEq

def HostFault.message : HostFault → Text
  | .setting detail => "invalid configuration: ".toList ++ detail
  | .input detail => "I/O error: ".toList ++ detail

/-- The level that a text names, or a fault that quotes the text as it was given. -/
def Level.read (text : Text) : Except HostFault Level :=
  match Level.ofText? text with
  | some level => .ok level
  | none =>
    .error (.setting ("unknown log level '".toList ++ text ++
      "', expected one of: trace, debug, info, warn, error".toList))

structure Settings where
  level : Level
deriving DecidableEq

namespace Settings

def standard : Settings := ⟨.standard⟩

def levelVariable : Text := "SEARCH_TAGS_LOG_LEVEL".toList

def ofVariables (lookup : Text → Option Text) : Except HostFault Settings :=
  match lookup levelVariable with
  | none => .ok standard
  | some text =>
    match Level.read text with
    | .ok level => .ok ⟨level⟩
    | .error fault => .error fault

def override (s : Settings) (level : Option Level) : Settings := ⟨level.getD s.level⟩

end Settings

end ClassQuery

/-! ### Abbreviations from a stream, one a line -/

namespace ClassQuery.Abbreviation

def noText : Text := "stream did not contain valid UTF-8".toList

/-- The text of a line of input, without the breaks at its end. -/
def ofLine (line : Bytes) : Except HostFault Text :=
  match Utf8.decode? line with
  | some text => .ok (Lines.trimBreaks text)
  | none => .error (.input noText)

structure Reading where
  /-- The abbreviation; nothing when the stream was used up, or a fault when the line was no
  text. -/
  result : Except HostFault (Option Text)
  /-- The bytes after the line. A line that is no text is passed over as well. -/
  rest : Bytes

def readLine (stream : Bytes) : Reading :=
  match Lines.takePiece 10 stream with
  | none => ⟨.ok none, stream⟩
  | some (line, rest) => ⟨(ofLine line).map some, rest⟩

def readLines : Nat → Bytes → List Reading
  | 0, _ => []
  | n + 1, stream =>
    let reading := readLine stream
    reading :: readLines n reading.rest

end ClassQuery.Abbreviation
