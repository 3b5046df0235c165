import ClassQuery.Abbreviation

/-!
Patterns and queries: the classes of an abbreviation, to be looked for in lines of text.

A pattern is a regular expression: the marker of the attribute, one lookahead for each class, so
that their order is free, and the rest of the line. Names are escaped, so that each stands for
itself. A query asks the same question without a regular expression: whether every name occurs on
the line after the first marker.
-/

set_option autoImplicit false
set_option relaxedAutoImplicit false

/-! ### Patterns -/

namespace ClassQuery.Pattern

/-- What a class attribute begins with. -/
def marker : Text := "className=".toList

/-- Whether a character ends a line, which the rest of a pattern does not go beyond. -/
def isBreak (c : Char) : Bool := c = '\n' || c = '\r'

def isMeta (c : Char) : Bool := c ∈ ".*+?^$\x7b\x7d()|[]\\".toList

theorem ne_of_isMeta {c d : Char} (plain : isMeta c = false) (special : isMeta d = true) :
    c ≠ d := by
  intro same
  rw [same, special] at plain
  cases plain

/-- A name as it is written in a pattern: a backslash goes before each character that would
otherwise mean something else. -/
def escape (name : Text) : Text := name.flatMap fun c => if isMeta c then ['\\', c] else [c]

theorem escape_cons (c : Char) (name : Text) :
    escape (c :: name) = (if isMeta c then ['\\', c] else [c]) ++ escape name :=
  List.flatMap_cons

def lookahead (name : Text) : Text := "(?=.*?".toList ++ escape name ++ [')']

theorem lookahead_append (name rest : Text) :
    lookahead name ++ rest = "(?=.*?".toList ++ (escape name ++ ')' :: rest) := by
  have written : lookahead name = "(?=.*?".toList ++ escape name ++ [')'] := rfl
  rw [written, List.append_assoc, List.append_assoc, List.singleton_append]

def ofAtom (a : Atom) : Text :=
  match a.kind with
  | .cls => lookahead a.name
  | .tag | .ident => []

def ofAtoms (atoms : List Atom) : Text := marker ++ atoms.flatMap ofAtom ++ ".*".toList

theorem flatMap_ofAtom (atoms : List Atom) :
    atoms.flatMap ofAtom = (Atom.classNames atoms).flatMap lookahead := by
  induction atoms with
  | nil => rfl
  | cons a atoms ih =>
    obtain ⟨kind, name⟩ := a
    cases kind with
    | tag => exact ih
    | ident => exact ih
    | cls => exact congrArg (lookahead name ++ ·) ih

def ofAbbreviation (abbreviation : Text) : Except Abbreviation.Fault Text :=
  (Abbreviation.parse abbreviation).map ofAtoms

end ClassQuery.Pattern

/-! ### Queries -/

namespace ClassQuery

/-- The classes to look for, and the pattern that says the same. -/
structure Query where
  /-- The names to look for, in order and with repetitions. -/
  names : List Text
  /-- The pattern of the atoms that the names come from. -/
  pattern : Text
deriving DecidableEq

namespace Query

/-- The greatest size of a compiled query, in bytes. -/
def sizeLimit : Nat := 10485760

/-- Whether a query for some names is small enough to be compiled, as far as the program knows: a
name takes 32 bytes for each byte of its own and 36 more, and 200 bytes are always taken. The
theorems hold for any test in its place. -/
def isSmall (names : List Text) : Bool :=
  (names.map fun name => 32 * Utf8.size name + 36).foldl (· + ·) 200 ≤ sizeLimit

/-- The query for the classes among some atoms, if their names pass a size test. -/
def ofAtoms (atoms : List Atom) (fits : List Text → Bool := isSmall) :
    Except Abbreviation.Fault Query :=
  let names := Atom.classNames atoms
  if fits names then .ok ⟨names, Pattern.ofAtoms atoms⟩
  else .error (.uncompiled (.tooLarge sizeLimit))

def ofAbbreviation (abbreviation : Text) (fits : List Text → Bool := isSmall) :
    Except Abbreviation.Fault Query :=
  match Abbreviation.parse abbreviation with
  | .ok atoms => ofAtoms atoms fits
  | .error fault => .error fault

/-- Whether every name occurs after the first marker and before the end of that line. -/
def finds (q : Query) (text : Text) : Bool :=
  match Text.after? Pattern.marker text with
  | none => false
  | some tail =>
    let segment := tail.takeWhile (!Pattern.isBreak ·)
    q.names.all fun name => Text.occursIn name segment

end Query

/-! ### Hits -/

structure Hit where
  /-- The path of the file, as it is shown. -/
  path : Bytes
  /-- The number of the line, counted from one. -/
  line : Nat
  text : Text
deriving DecidableEq

namespace Hit

def inText (q : Query) (path : Bytes) (contents : Text) : List Hit :=
  ((Lines.ofText contents).zipIdx 1).filterMap fun numbered =>
    if q.finds numbered.1 then some ⟨path, numbered.2, numbered.1⟩ else none

end Hit

end ClassQuery
