import ClassQuery.Event

/-!
Searching files for a query.

What a search finds is a list: hits, and the roots, directories and files that it passes over, in
the order in which a walk meets them. A walk goes no deeper than paths may be long. Handing the hits
on is a walk along that list, which ends where a hit cannot be taken.
-/

set_option autoImplicit false
set_option relaxedAutoImplicit false

namespace ClassQuery

inductive Finding where
  | hit (h : Hit)
  /-- A root, or a directory below it, that cannot be read. -/
  | unreadable (root path : Bytes) (fault : Path.Fault)
  | passedOver (path : Bytes) (fault : FileFault)

namespace Finding

def hit? : Finding → Option Hit
  | .hit h => some h
  | .unreadable _ _ _ | .passedOver _ _ => none

def ofFile (q : Query) (path contents : Bytes) : List Finding :=
  if !Path.fits path then [.passedOver path (.unreachable .tooLong)]
  else match Utf8.decode? contents with
    | some text => (Hit.inText q path text).map .hit
    | none => [.passedOver path .noText]

/-- Whether a walk from a root comes to a visit: the path of the directory that it is in must not
be too long. -/
def isReached (root : Bytes) (v : Visit) : Bool := Path.fits (Path.extend root v.way.dropLast)

/-- What is found at a visit of a walk from a root. A directory is passed over if its own path is
too long. -/
def ofVisit (q : Query) (root : Bytes) (v : Visit) : List Finding :=
  let path := Path.extend root v.way
  match v.contents with
  | some contents => ofFile q path contents
  | none => if Path.fits path then [] else [.unreadable root path .tooLong]

def ofRoot (q : Query) (root : Bytes) (found : Except Path.Fault Node) : List Finding :=
  match found with
  | .ok node => (node.visits.filter (isReached root)).flatMap (ofVisit q root)
  | .error fault => [.unreadable root root fault]

def ofRoots (q : Query) (look : Bytes → Except Path.Fault Node) (roots : List Bytes) :
    List Finding :=
  roots.flatMap fun root => ofRoot q root (look root)

def hits (findings : List Finding) : List Hit := findings.filterMap hit?

end Finding

structure Search (σ : Type) where
  count : Nat
  /-- What was noted, newest first. -/
  noted : List Event
  sink : σ
  report : Option Report

namespace Search

variable {σ : Type}

def start (sink : σ) : Search σ := ⟨0, [], sink, none⟩

/-- Goes past one finding and hands a hit on. A search that has failed goes no further. -/
def step (take : σ → Hit → σ × Option Report) (s : Search σ) (f : Finding) : Search σ :=
  if s.report.isSome then s
  else match f with
    | .hit h =>
      match take s.sink h with
      | (sink, none) => { s with count := s.count + 1, sink := sink }
      | (sink, some report) => { s with sink := sink, report := some report }
    | .unreadable root path fault =>
      { s with noted := .skippedPlace root path fault :: s.noted }
    | .passedOver path fault => { s with noted := .skippedFile path fault :: s.noted }

/-- Goes past all findings and notes the number of hits at the end. -/
def through (take : σ → Hit → σ × Option Report) (sink : σ) (findings : List Finding) : Search σ :=
  let s := findings.foldl (step take) (start sink)
  if s.report.isSome then s else { s with noted := .finished s.count :: s.noted }

def put (format : Format) (sink : Sink) (h : Hit) : Sink × Option Report :=
  let written := (Record.ofHit h).write format sink
  (written.sink, written.report)

def run (format : Format) (sink : Sink) (findings : List Finding) : Search Sink :=
  through (put format) sink findings

end Search

end ClassQuery
