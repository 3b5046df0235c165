import ClassQuery.FileTree.Basic

/-!
Paths: the names on the way to a node, and the node at the end of the way.

A path is walked name by name. One dot stays in the directory, two dots go to the directory above,
and the topmost directory is above itself. A link is replaced by the path it holds, a limited
number of times. A path that ends in a slash means a directory. Paths and names that are too long
lead nowhere.
-/

set_option autoImplicit false
set_option relaxedAutoImplicit false

namespace ClassQuery.Path

def slash : UInt8 := 47

/-- The name that stays in a directory. -/
def dot : Bytes := [46]

/-- The name that goes to the directory above. -/
def dotDot : Bytes := [46, 46]

inductive Fault where
  | missing
  /-- A name on the way, not the last, stands for a file. -/
  | notDirectory
  | tooManyLinks
  /-- The path or a name on the way has more bytes than allowed. -/
  | tooLong
deriving DecidableEq

def Fault.message : Fault → Text
  | .missing => "No such file or directory (os error 2)".toList
  | .notDirectory => "Not a directory (os error 20)".toList
  | .tooManyLinks => "Too many levels of symbolic links (os error 40)".toList
  | .tooLong => "File name too long (os error 36)".toList

def sizeLimit : Nat := 4095

def nameLimit : Nat := 255

def fits (path : Bytes) : Bool := path.length ≤ sizeLimit

def endsInSlash (path : Bytes) : Bool := path.getLast? = some slash

/-- The names of a path. A slash at the end leaves a dot, so that what is before it must be a
directory. -/
def names (path : Bytes) : List Bytes :=
  let parts := (Lines.pieces slash path).map fun piece => piece.filter (· ≠ slash)
  parts.filter (!·.isEmpty) ++ if endsInSlash path then [dot] else []

/-- A path with a slash at its end, where the names of what is below it are added. -/
def opened (path : Bytes) : Bytes := if endsInSlash path then path else path ++ [slash]

def extend (path : Bytes) (way : List Bytes) : Bytes :=
  if way.isEmpty then path else opened path ++ [slash].intercalate way

/-- A directory of a tree together with the directories above it. -/
structure Place where
  here : Entries
  /-- The entries of the directories above, from the nearest to the topmost. -/
  above : List Entries

namespace Place

/-- A directory of which only the inside is known: no entry is found in the directory above. -/
def alone (entries : Entries) : Place := ⟨entries, [[]]⟩

def up (p : Place) : Place :=
  match p.above with
  | [] => p
  | entries :: rest => ⟨entries, rest⟩

def upmost (p : Place) : Place := ⟨p.above.getLastD p.here, []⟩

def down (p : Place) (entries : Entries) : Place := ⟨entries, p.here :: p.above⟩

/-- The place from which a path is walked: a path that begins with a slash starts at the top. -/
def origin (p : Place) (path : Bytes) : Place :=
  if path.head? = some slash then p.upmost else p

end Place

def linkLimit : Nat := 40

/-- Walks a way of names from a place. A link at the very end is followed only if asked. At most
the given number of links is followed. -/
def walk (followLast : Bool) (links : Nat) (p : Place) (way : List Bytes) : Except Fault Node :=
  match way with
  | [] => .ok (.directory p.here)
  | name :: rest =>
    if name = dot then walk followLast links p rest
    else if name = dotDot then walk followLast links p.up rest
    else if nameLimit < name.length then .error .tooLong
    else match p.here.find? name with
      | none => .error .missing
      | some (.directory entries) => walk followLast links (p.down entries) rest
      | some (.file contents) =>
        if rest.isEmpty then .ok (.file contents) else .error .notDirectory
      | some (.link target) =>
        if rest.isEmpty && !followLast then .ok (.link target)
        else match links with
          | 0 => .error .tooManyLinks
          | links + 1 =>
            if target.isEmpty then .error .missing
            else walk followLast links (p.origin target) (names target ++ rest)
termination_by (links, way.length)

def resolve (followLast : Bool) (p : Place) (path : Bytes) : Except Fault Node :=
  if path.isEmpty then .error .missing
  else if !fits path then .error .tooLong
  else walk followLast linkLimit (p.origin path) (names path)

/-- The node that a search starts from: what the path names, or, if that is a link, the directory
that the link leads to. A link to a file stays a link. -/
def root (p : Place) (path : Bytes) : Except Fault Node :=
  match resolve false p path with
  | .ok (.link target) =>
    match resolve true p path with
    | .ok (.directory entries) => .ok (.directory entries)
    | .ok _ => .ok (.link target)
    | .error fault => .error fault
  | found => found

end ClassQuery.Path
