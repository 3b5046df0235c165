import ClassQuery.CommandLine.Reading
import ClassQuery.Search

/-!
Runs: from the arguments, the variables, the input and the files to the exit status, the output
and the log.
-/

set_option autoImplicit false
set_option relaxedAutoImplicit false

namespace ClassQuery

/-- What a run is given from outside, apart from its arguments. -/
structure Surroundings where
  /-- The variables that are set, with their values. -/
  environment : List (Text × Bytes)
  input : Bytes
  /-- The node that a search finds at a root. -/
  look : Bytes → Except Path.Fault Node
  sink : Sink
  /-- Whether a query for some names is small enough to be compiled. -/
  fits : List Text → Bool := Query.isSmall

structure Ending where
  sink : Sink
  events : List Event
  report : Option Report

structure Outcome where
  exit : Nat
  output : Bytes
  threshold : Level
  /-- All that was noted, in order, whether the log shows it or not. -/
  events : List Event
  report : Option Report

namespace Surroundings

/-- The value of a variable. One that is no text counts as not set. -/
def valueOf? (s : Surroundings) (name : Text) : Option Text :=
  (s.environment.lookup name).bind Utf8.decode?

def settings (s : Surroundings) (level : Option Level) : Except HostFault Settings :=
  (Settings.ofVariables s.valueOf?).map (·.override level)

end Surroundings

def HostFault.causes (fault : HostFault) : List Text :=
  match fault with
  | .setting _ => [fault.message]
  | .input detail => [fault.message, detail]

namespace Command

def idle (sink : Sink) : Ending := ⟨sink, [.nothingToDo], none⟩

def refusal (doing abbreviation : Text) (fault : Abbreviation.Fault) : Report :=
  ⟨"failed to ".toList ++ doing ++ " abbreviation `".toList ++ abbreviation ++ ['`'],
    [fault.message]⟩

def putPattern (format : Format) (abbreviation : Text) (sink : Sink) : Ending :=
  if abbreviation.isEmpty then idle sink
  else match Abbreviation.parse abbreviation with
    | .error fault => ⟨sink, [], some (refusal "translate".toList abbreviation fault)⟩
    | .ok atoms =>
      let pattern := Pattern.ofAtoms atoms
      let written := (Record.ofPattern abbreviation pattern).write format sink
      ⟨written.sink, [.patternMade abbreviation pattern atoms.length], written.report⟩

def putPatternOfInput (format : Format) (input : Bytes) (sink : Sink) : Ending :=
  match (Abbreviation.readLine input).result with
  | .error fault => ⟨sink, [], some ⟨"failed to read abbreviation".toList, fault.causes⟩⟩
  | .ok none => idle sink
  | .ok (some abbreviation) => putPattern format abbreviation sink

def putMatches (format : Format) (abbreviation : Text) (roots : List Bytes)
    (look : Bytes → Except Path.Fault Node) (fits : List Text → Bool) (sink : Sink) : Ending :=
  if abbreviation.isEmpty then idle sink
  else match Query.ofAbbreviation abbreviation fits with
    | .error fault => ⟨sink, [], some (refusal "compile".toList abbreviation fault)⟩
    | .ok q =>
      let search := Search.run format sink (Finding.ofRoots q look roots)
      ⟨search.sink, .searching q.pattern :: search.noted.reverse, search.report⟩

def format (json : Bool) : Format := if json then .json else .plain

def run (s : Surroundings) : Command → Ending
  | .pattern (some abbreviation) json => putPattern (format json) abbreviation s.sink
  | .pattern none json => putPatternOfInput (format json) s.input s.sink
  | .search abbreviation paths json =>
    putMatches (format json) abbreviation paths s.look s.fits s.sink

end Command

namespace Outcome

def ofBadSettings (sink : Sink) (fault : HostFault) : Outcome :=
  ⟨2, sink.output, .standard, [.badSettings fault], none⟩

def ofEnding (threshold : Level) (e : Ending) : Outcome :=
  match e.report with
  | none => ⟨0, e.sink.flush.output, threshold, e.events, none⟩
  | some report =>
    ⟨1, e.sink.flush.output, threshold, e.events ++ [.failed report], some report⟩

def ofRequest (s : Surroundings) (request : CommandLine.Request) : Outcome :=
  match s.settings request.level with
  | .error fault => ofBadSettings s.sink fault
  | .ok settings => ofEnding settings.level (Command.run s request.command)

def failureLine (o : Outcome) : Text :=
  match o.report with
  | none => []
  | some report => "error: ".toList ++ report.line ++ ['\n']

/-- What a run puts out besides its output: the log and the failure. -/
def diagnostics (o : Outcome) : Bytes :=
  Utf8.encode (Event.log o.threshold o.events ++ o.failureLine)

end Outcome

def run (arguments : List Bytes) (s : Surroundings) : Except CommandLine.Usage Outcome :=
  (CommandLine.parse arguments).map (Outcome.ofRequest s)

end ClassQuery
