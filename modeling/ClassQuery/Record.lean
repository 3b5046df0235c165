import ClassQuery.Json
import ClassQuery.Query
import ClassQuery.Sink

/-!
Records, the lines that a command puts out, plain or as JSON, and reports, why a command failed.
-/

set_option autoImplicit false
set_option relaxedAutoImplicit false

/-! ### Reports -/

namespace ClassQuery

structure Report where
  message : Text
  /-- The causes, from the nearest to the deepest. -/
  causes : List Text
deriving DecidableEq

namespace Report

/-- The report as one line: what failed and its causes, separated by colons. -/
def line (r : Report) : Text := ": ".toList.intercalate (r.message :: r.causes)

private def numberedCause (cause : Text × Nat) : Text :=
  let number := Text.decimal cause.2
  List.replicate (4 - number.length) ' ' ++ number ++ ": ".toList ++ cause.1

/-- The report as a block: what failed, an empty line, and the causes, which are numbered from
zero when there are several. -/
def block (r : Report) : Text :=
  match r.causes with
  | [] => r.message
  | [cause] => r.message ++ "\n\nCaused by:\n    ".toList ++ cause
  | causes =>
    r.message ++ "\n\nCaused by:".toList ++
      (causes.zipIdx).flatMap fun cause => '\n' :: numberedCause cause

end Report

/-! ### Records -/

inductive Format where
  | plain
  /-- As one JSON object a line. -/
  | json
deriving DecidableEq

structure Record where
  /-- The plain line, in pieces and without its line feed. -/
  plain : List Text
  fields : List (Text × Json.Scalar)
  /-- What failed when the plain line could not be written. -/
  failure : Text

namespace Record

def ofPattern (abbreviation pattern : Text) : Record where
  plain := [pattern]
  fields := [("abbreviation".toList, .text abbreviation), ("pattern".toList, .text pattern)]
  failure := "failed to write pattern".toList

/-- The record of a hit. Its path is shown even where it is no text. -/
def ofHit (h : Hit) : Record :=
  let path := Utf8.decodeLossy h.path
  { plain := [path, [':'], Text.decimal h.line, ": ".toList, h.text]
    fields := [("path".toList, .text path), ("line".toList, .number h.line),
      ("text".toList, .text h.text)]
    failure := "failed to write match at ".toList ++ path ++ [':'] ++ Text.decimal h.line }

def pieces (r : Record) : Format → List Text
  | .plain => r.plain
  | .json => Json.object r.fields

/-- The bytes of a record, with its line feed. -/
def bytes (r : Record) (format : Format) : Bytes :=
  (r.pieces format).flatMap Utf8.encode ++ [10]

/-- What failed when a record could not be written: the line itself or only its line feed. -/
def context (r : Record) : Format → (onlyLineFeed : Bool) → Text
  | .plain, _ => r.failure
  | .json, false => "failed to serialize JSON output".toList
  | .json, true => "failed to terminate JSON output with newline".toList

/-- What a write leaves: the sink, and a report when the sink is broken. -/
structure Written where
  sink : Sink
  report : Option Report

def write (format : Format) (r : Record) (s : Sink) : Written :=
  let body := s.writeAll ((r.pieces format).map Utf8.encode)
  if body.broken then ⟨body, some ⟨r.context format false, [body.complaint]⟩⟩
  else
    let line := body.write [10]
    if line.broken then ⟨line, some ⟨r.context format true, [line.complaint]⟩⟩
    else ⟨line, none⟩

end Record

end ClassQuery
