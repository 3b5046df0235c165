import ClassQuery.Run

/-!
The command line program: reads what a run needs, runs it and puts out what it leaves.
-/

set_option autoImplicit false
set_option relaxedAutoImplicit false

namespace ClassQuery.Main

def bytesOf (block : ByteArray) : Bytes := block.toList

def blockOf (bytes : Bytes) : ByteArray := ⟨bytes.toArray⟩

def systemPath? (path : Bytes) : Option String := (Utf8.decode? path).map String.ofList

def faultOf : IO.Error → Path.Fault
  | .inappropriateType _ _ _ => .notDirectory
  | .invalidArgument _ code _ => if code = 36 then .tooLong else .tooManyLinks
  | _ => .missing

/-- What is below a directory entry of the system. Links and special files are kept as links, which
a search passes over. -/
partial def snapshotEntry (entry : IO.FS.DirEntry) : IO (Bytes × Node) := do
  let name := Utf8.ofString entry.fileName
  match (← entry.path.symlinkMetadata).type with
  | .dir => return (name, .directory (← (← entry.path.readDir).toList.mapM snapshotEntry))
  | .file => return (name, .file (bytesOf (← IO.FS.readBinFile entry.path)))
  | _ => return (name, .link [])

/-- The node that a search finds at a root. A link counts as the directory it leads to. -/
def snapshotRoot (root : String) : IO Node := do
  let path := (← IO.currentDir) / root
  let type := (← path.symlinkMetadata).type
  let directory : IO Node := do
    return .directory (← (← path.readDir).toList.mapM snapshotEntry)
  match type with
  | .dir => directory
  | .file => return .file (bytesOf (← IO.FS.readBinFile path))
  | .symlink =>
    match (← path.metadata).type with
    | .dir => directory
    | _ => return .link []
  | .other => return .link []

def look (root : Bytes) : IO (Except Path.Fault Node) := do
  match systemPath? root with
  | none => return .error .missing
  | some path =>
    if path.isEmpty then return .error .missing
    if !Path.fits root then return .error .tooLong
    match ← (snapshotRoot path).toBaseIO with
    | .ok node => return .ok node
    | .error e => return .error (faultOf e)

/-- The bytes of a stream up to the end of its first line. -/
partial def firstLine (stream : IO.FS.Stream) (before : Bytes) : IO Bytes := do
  let block ← stream.read 1
  match bytesOf block with
  | [] => return before.reverse
  | b :: _ => if b = 10 then return (b :: before).reverse else firstLine stream (b :: before)

def surroundings (command : Command) : IO Surroundings := do
  let environment ← match ← IO.getEnv (String.ofList Settings.levelVariable) with
    | some value => pure [(Settings.levelVariable, Utf8.ofString value)]
    | none => pure []
  let input ← match command with
    | .pattern none _ => firstLine (← IO.getStdin) []
    | _ => pure []
  let found ← match command with
    | .search _ paths _ => paths.mapM fun path => do return (path, ← look path)
    | _ => pure []
  return {
    environment, input
    look := fun root => (found.lookup root).getD (.error .missing)
    sink := Sink.direct none []
    fits := Query.isSmall }

def put (stream : IO.FS.Stream) (bytes : Bytes) : IO Unit := do
  stream.write (blockOf bytes)
  stream.flush

/-- Runs a request. An output that takes nothing is taken to be a full device. -/
def runRequest (request : CommandLine.Request) : IO UInt32 := do
  let s ← surroundings request.command
  let outcome := Outcome.ofRequest s request
  let stdout ← IO.getStdout
  let outcome ← match ← (put stdout outcome.output).toBaseIO with
    | .ok _ => pure outcome
    | .error _ => pure (Outcome.ofRequest { s with sink := Sink.fullDevice } request)
  put (← IO.getStderr) outcome.diagnostics
  return UInt32.ofNat outcome.exit

def explain (usage : CommandLine.Usage) : IO UInt32 := do
  let text := usage.message?.getD CommandLine.helpText
  let stream ← if usage.exit = 0 then IO.getStdout else IO.getStderr
  put stream (Utf8.encode text)
  return UInt32.ofNat usage.exit

end ClassQuery.Main

def main (args : List String) : IO UInt32 :=
  match ClassQuery.CommandLine.parse (args.map ClassQuery.Utf8.ofString) with
  | .ok request => ClassQuery.Main.runRequest request
  | .error usage => ClassQuery.Main.explain usage
