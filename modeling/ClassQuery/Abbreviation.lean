import ClassQuery.Text.Utf8

/-!
Abbreviations: their atoms, and how they are scanned.

An atom names an element, an identifier or a class; it is written with the mark of its kind in
front of the name. A cursor stands at a byte of the abbreviation and holds the atoms before it. Each
step reads one class, a dot and the longest run of name bytes after it, or stops: at the end, or
stuck at the byte where no class begins. Any atom may come first; later ones are identifiers or
classes.
-/

set_option autoImplicit false
set_option relaxedAutoImplicit false

namespace ClassQuery

inductive Atom.Kind where
  /-- An element, written bare. -/
  | tag
  /-- An identifier, written after a hash. -/
  | ident
  /-- A class, written after a dot. -/
  | cls
deriving DecidableEq

structure Atom where
  kind : Atom.Kind
  /-- The name, without a mark. -/
  name : Text
deriving DecidableEq

namespace Atom

def Kind.mark : Kind → Text
  | .tag => []
  | .ident => ['#']
  | .cls => ['.']

def Kind.mayLead : Kind → Bool
  | .tag | .ident | .cls => true

def Kind.mayFollow : Kind → Bool
  | .tag => false
  | .ident | .cls => true

def ofClass (name : Text) : Atom := ⟨.cls, name⟩

def render (a : Atom) : Text := a.kind.mark ++ a.name

def renderAll (atoms : List Atom) : Text := atoms.flatMap render

def className? (a : Atom) : Option Text :=
  match a.kind with
  | .cls => some a.name
  | .tag | .ident => none

/-- The names of the classes among some atoms, in order and with repetitions. -/
def classNames (atoms : List Atom) : List Text := atoms.filterMap className?

@[simp] theorem render_ofClass (name : Text) : (ofClass name).render = '.' :: name := rfl

end Atom

end ClassQuery

/-! ### Faults -/

namespace ClassQuery.Abbreviation

inductive CompileFault where
  /-- The names take up more room than the given number of bytes. -/
  | tooLarge (limit : Nat)
  /-- The names cannot be read as a search, for the given reason. -/
  | malformed (reason : Text)
deriving DecidableEq

inductive Fault where
  /-- No atom begins at the given byte; without a byte, two atoms stand in an order that no
  abbreviation has. -/
  | invalid (position : Option Nat)
  | empty
  /-- The only atom is one that cannot stand first. -/
  | wrongOrder
  /-- The abbreviation is sound, but its class names cannot be searched for. -/
  | uncompiled (cause : CompileFault)
deriving DecidableEq

def CompileFault.message : CompileFault → Text
  | .tooLarge limit =>
    "Compiled regex exceeds size limit of ".toList ++ Text.decimal limit ++ " bytes.".toList
  | .malformed reason => reason

namespace Fault

def message : Fault → Text
  | .invalid (some position) =>
    "invalid abbreviation at byte ".toList ++ Text.decimal position ++ " (zero-based)".toList
  | .invalid none => "invalid abbreviation".toList
  | .empty => "empty abbreviation".toList
  | .wrongOrder => "tokens are in the wrong order".toList
  | .uncompiled cause => cause.message

def position? : Fault → Option Nat
  | .invalid position => position
  | .empty | .wrongOrder | .uncompiled _ => none

/-- Whether the fault lies in the shape of the abbreviation, and not in the size of the search. -/
def isShape : Fault → Bool
  | .uncompiled _ => false
  | .invalid _ | .empty | .wrongOrder => true

end Fault

/-! ### Scanning -/

/-- Whether a byte may stand in a name: an ASCII letter or digit, a low line or a hyphen. -/
def isNameByte (b : UInt8) : Bool :=
  let n := b.toNat
  (48 ≤ n && n ≤ 57) || (65 ≤ n && n ≤ 90) || (97 ≤ n && n ≤ 122) || n = 95 || n = 45

def dot : UInt8 := 46

structure Cursor where
  position : Nat
  rest : Bytes
  /-- The atoms before the place, last one first. -/
  atoms : List Atom

inductive Step where
  | finished (atoms : List Atom)
  /-- No atom can be read; the fault lies at the given byte. -/
  | stuck (position : Nat)
  | advanced (next : Cursor)

namespace Cursor

def start (bytes : Bytes) : Cursor := ⟨0, bytes, []⟩

/-- Reads one class. A name that were no text would be a fault just after the dot. -/
def step (c : Cursor) : Step :=
  match c.rest with
  | [] => .finished c.atoms.reverse
  | b :: rest =>
    if b = dot then
      let name := rest.takeWhile isNameByte
      if name.isEmpty then .stuck c.position
      else match Utf8.decode? name with
        | none => .stuck (c.position + 1)
        | some text =>
          .advanced ⟨c.position + 1 + name.length, rest.dropWhile isNameByte,
            Atom.ofClass text :: c.atoms⟩
    else .stuck c.position

theorem rest_length_lt_of_step {c next : Cursor} (h : c.step = .advanced next) :
    next.rest.length < c.rest.length := by
  unfold step at h
  split at h
  · cases h
  · next b rest hr =>
    have hd : (rest.dropWhile isNameByte).length ≤ rest.length :=
      (List.dropWhile_suffix _).length_le
    simp only at h
    repeat' split at h
    all_goals cases h
    simp only [hr, List.length_cons]
    omega

def run (c : Cursor) : Except Nat (List Atom) :=
  match _h : c.step with
  | .finished atoms => .ok atoms
  | .stuck position => .error position
  | .advanced next => run next
termination_by c.rest.length
decreasing_by exact rest_length_lt_of_step _h

end Cursor

def scan (abbreviation : Text) : Except Fault (List Atom) :=
  match (Cursor.start (Utf8.encode abbreviation)).run with
  | .ok atoms => .ok atoms
  | .error position => .error (.invalid (some position))

/-! ### Order -/

def ordered (atoms : List Atom) : Except Fault (List Atom) :=
  match atoms with
  | [] => .error .empty
  | first :: rest =>
    if first.kind.mayLead && rest.all (·.kind.mayFollow) then .ok atoms
    else if rest.isEmpty then .error .wrongOrder
    else .error (.invalid none)

def parse (abbreviation : Text) : Except Fault (List Atom) :=
  match scan abbreviation with
  | .ok atoms => ordered atoms
  | .error fault => .error fault

end ClassQuery.Abbreviation
