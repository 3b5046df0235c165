import ClassQuery.Text.Basic

/-!
File trees: directories of files, symbolic links and further directories.

The entries of a directory are listed in any order, and a name stands for the first entry that has
it. A walk goes through a tree in the order of its names: a directory comes before all that is in
it, and its entries come in the order of the bytes of their names, each with all that is in it
before the next. Links are neither files nor followed.
-/

set_option autoImplicit false
set_option relaxedAutoImplicit false

namespace ClassQuery

inductive Node where
  | file (contents : Bytes)
  /-- A symbolic link, with the path that it holds. -/
  | link (target : Bytes)
  /-- A directory, with its entries by name. -/
  | directory (entries : List (Bytes × Node))

abbrev Entries := List (Bytes × Node)

namespace Entries

def find? (entries : Entries) (name : Bytes) : Option Node := entries.lookup name

end Entries

/-! ### Visits -/

structure Visit where
  way : List Bytes
  /-- The bytes of the file; nothing for a directory. -/
  contents : Option Bytes
deriving DecidableEq

namespace Visit

def under (name : Bytes) (v : Visit) : Visit := ⟨name :: v.way, v.contents⟩

def noLater (a b : Bytes × List Visit) : Bool := a.1 ≤ b.1

/-- Groups of visits, each under a name, as one list in the order of the names. -/
def inOrder (groups : List (Bytes × List Visit)) : List Visit :=
  (groups.mergeSort noLater).flatMap fun group => group.2.map (under group.1)

end Visit

namespace Node

mutual

/-- The files and directories of a node, in order. The node itself is at the end of the empty
way. -/
def visits : Node → List Visit
  | .file contents => [⟨[], some contents⟩]
  | .link _ => []
  | .directory entries => ⟨[], none⟩ :: Visit.inOrder (groups entries)

def groups : List (Bytes × Node) → List (Bytes × List Visit)
  | [] => []
  | entry :: rest => group entry :: groups rest

def group : Bytes × Node → Bytes × List Visit
  | (name, node) => (name, visits node)

end

theorem groups_eq_map (entries : Entries) :
    groups entries = entries.map fun entry => (entry.1, entry.2.visits) := by
  induction entries with
  | nil => simp [groups]
  | cons entry rest ih =>
    obtain ⟨name, node⟩ := entry
    simp [groups, group, ih]

theorem visits_directory (entries : Entries) :
    (Node.directory entries).visits =
      ⟨[], none⟩ :: Visit.inOrder (entries.map fun entry => (entry.1, entry.2.visits)) := by
  rw [visits, groups_eq_map]

end Node

end ClassQuery
