import ClassQuery.FileTree.Path

/-!
Making trees, node by node.

A node is made at a path, as a file is written there: the directories on the way are made where
there are none, links on the way are followed, and a directory that is there already keeps its
entries. What would be made outside of the tree is not seen.
-/

set_option autoImplicit false
set_option relaxedAutoImplicit false

namespace ClassQuery.Entries

/-- Gives a name a new node, in its place if the name has one already. -/
def assign (entries : Entries) (name : Bytes) (node : Node) : Entries :=
  if (entries.find? name).isSome then
    entries.map fun entry => if entry.1 = name then (name, node) else entry
  else entries ++ [(name, node)]

/-- The entries of the directory of a name; none if the name stands for anything else. -/
def inside (entries : Entries) (name : Bytes) : Entries :=
  match entries.find? name with
  | some (.directory inner) => inner
  | some (.file _) | some (.link _) | none => []

def at? (entries : Entries) : List Bytes → Option Node
  | [] => some (.directory entries)
  | [name] => entries.find? name
  | name :: rest => (entries.inside name).at? rest

/-- Puts a node at the end of a way of names, and directories on the way where there are none. -/
def put (entries : Entries) (way : List Bytes) (node : Node) : Entries :=
  match way with
  | [] => entries
  | [name] => entries.assign name node
  | name :: rest => entries.assign name (.directory ((entries.inside name).put rest node))

/-- Makes a node at the end of a way from a directory, which is given by the names on the way to
it, the last one first. At most the given number of links is followed. -/
def makeFrom (links : Nat) (tree : Entries) (behind way : List Bytes) (node : Node) : Entries :=
  match way with
  | [] => tree
  | name :: rest =>
    if name = Path.dot then makeFrom links tree behind rest node
    else if name = Path.dotDot then
      match behind with
      | [] => tree
      | _ :: above => makeFrom links tree above rest node
    else
      let here := (name :: behind).reverse
      match tree.at? here with
      | some (.directory _) => makeFrom links tree (name :: behind) rest node
      | some (.link target) =>
        match links with
        | 0 => tree
        | links + 1 =>
          if target.head? = some Path.slash then tree
          else makeFrom links tree behind (Path.names target ++ rest) node
      | some (.file _) | none =>
        if rest.isEmpty then tree.put here node
        else makeFrom links (tree.put here (.directory [])) (name :: behind) rest node
termination_by (links, way.length)

def make (tree : Entries) (path : Bytes) (node : Node) : Entries :=
  makeFrom Path.linkLimit tree [] (Path.names path) node

end ClassQuery.Entries
