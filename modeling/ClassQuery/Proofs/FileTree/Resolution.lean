import ClassQuery.FileTree.Making
import Mathlib.Data.List.Basic
import Mathlib.Data.List.Nodup

/-!
The files below a directory, and the node at a path.

Main statements: a walk lists a file exactly when it lies below the directory along directories
only, and it lists each way once, in the order of the names along the ways; a search starts from a
directory exactly when the path leads to one, through links or not, and from a file exactly when the
path names it; in a tree without names that are given twice, what a path leads to has none either;
and trees are made so.
-/

set_option autoImplicit false
set_option relaxedAutoImplicit false

/-! ### Listing -/

namespace ClassQuery

/-- A directory holds a file at the end of a way on which every name but the last is that of a
directory. -/
inductive Entries.Holds : Entries → List Bytes → Bytes → Prop where
  | file {entries : Entries} {name contents : Bytes}
      (listed : (name, Node.file contents) ∈ entries) : Holds entries [name] contents
  | directory {entries inner : Entries} {name contents : Bytes} {way : List Bytes}
      (listed : (name, Node.directory inner) ∈ entries) (below : Holds inner way contents) :
      Holds entries (name :: way) contents

theorem Entries.Holds.ne_nil {entries : Entries} {way : List Bytes} {contents : Bytes}
    (below : entries.Holds way contents) : way ≠ [] := by
  cases below <;> simp

/-- A node in which no directory has two entries of one name. -/
inductive Node.Proper : Node → Prop where
  | file (contents : Bytes) : Proper (.file contents)
  | link (target : Bytes) : Proper (.link target)
  | directory {entries : Entries} (distinct : (entries.map Prod.fst).Nodup)
      (inner : ∀ entry ∈ entries, Proper entry.2) : Proper (.directory entries)

namespace Visit

def Before (a b : Visit) : Prop := a.way < b.way

theorem mem_inOrder_iff {groups : List (Bytes × List Visit)} {v : Visit} :
    v ∈ inOrder groups ↔
      ∃ name visits, (name, visits) ∈ groups ∧ ∃ u ∈ visits, u.under name = v := by
  simp [inOrder, List.mem_flatMap, List.mem_mergeSort]

private theorem noLater_trans (a b c : Bytes × List Visit) (ab : noLater a b = true)
    (bc : noLater b c = true) : noLater a c = true := by
  simp only [noLater, decide_eq_true_eq] at ab bc ⊢
  exact Std.le_trans ab bc

private theorem noLater_total (a b : Bytes × List Visit) :
    (noLater a b || noLater b a) = true := by
  simp only [noLater, Bool.or_eq_true, decide_eq_true_eq]
  exact Std.le_total

private theorem pairwise_lt_mergeSort {groups : List (Bytes × List Visit)}
    (distinct : (groups.map Prod.fst).Nodup) :
    (groups.mergeSort noLater).Pairwise fun a b => a.1 < b.1 := by
  have sorted := List.pairwise_mergeSort noLater_trans noLater_total groups
  have apart : (groups.mergeSort noLater).Pairwise fun a b => a.1 ≠ b.1 := by
    have same := ((List.mergeSort_perm groups noLater).map Prod.fst).nodup_iff
    exact List.pairwise_map.mp (same.mpr distinct)
  refine sorted.imp₂ ?_ apart
  intro a b notLater differ
  have le : a.1 ≤ b.1 := by simpa [noLater] using notLater
  exact Std.lt_of_le_of_ne le differ

theorem pairwise_inOrder {groups : List (Bytes × List Visit)}
    (distinct : (groups.map Prod.fst).Nodup)
    (each : ∀ group ∈ groups, group.2.Pairwise Before) : (inOrder groups).Pairwise Before := by
  apply List.pairwise_flatMap.mpr
  constructor
  · intro group mem
    have inside := each group (List.mem_mergeSort.mp mem)
    refine List.pairwise_map.mpr (inside.imp ?_)
    intro a b before
    exact List.cons_lt_cons_iff.mpr (Or.inr ⟨rfl, before⟩)
  · refine (pairwise_lt_mergeSort distinct).imp ?_
    intro first second less a memA b memB
    obtain ⟨u, -, rfl⟩ := List.mem_map.mp memA
    obtain ⟨v, -, rfl⟩ := List.mem_map.mp memB
    exact List.cons_lt_cons_iff.mpr (Or.inl less)

end Visit

namespace Node

theorem mem_visits_nil_iff (node : Node) (contents : Bytes) :
    ⟨[], some contents⟩ ∈ node.visits ↔ node = .file contents := by
  cases node with
  | file own => simp [visits, eq_comm]
  | link target => simp [visits]
  | directory entries => simp [visits_directory, Visit.mem_inOrder_iff, Visit.under]

theorem mem_visits_cons_iff (entries : Entries) (name : Bytes) (way : List Bytes)
    (contents : Option Bytes) :
    ⟨name :: way, contents⟩ ∈ (Node.directory entries).visits ↔
      ∃ node, (name, node) ∈ entries ∧ ⟨way, contents⟩ ∈ node.visits := by
  rw [visits_directory, List.mem_cons, Visit.mem_inOrder_iff]
  constructor
  · rintro (other | ⟨first, listed, mem, ⟨rest, inside⟩, inner, same⟩)
    · simp at other
    · obtain ⟨⟨own, node⟩, entry, pair⟩ := List.mem_map.mp mem
      cases same
      cases pair
      exact ⟨node, entry, inner⟩
  · intro ⟨node, entry, inner⟩
    exact Or.inr ⟨name, node.visits, List.mem_map.mpr ⟨(name, node), entry, rfl⟩,
      ⟨way, contents⟩, inner, rfl⟩

/-- A walk lists exactly the files that lie below a directory. -/
theorem mem_visits_iff_holds (entries : Entries) (way : List Bytes) (contents : Bytes) :
    ⟨way, some contents⟩ ∈ (Node.directory entries).visits ↔ entries.Holds way contents := by
  induction way generalizing entries with
  | nil =>
    rw [mem_visits_nil_iff]
    constructor
    · intro other
      cases other
    · intro below
      cases below
  | cons name way ih =>
    rw [mem_visits_cons_iff]
    constructor
    · intro ⟨node, entry, inner⟩
      cases node with
      | file own =>
        rw [visits, List.mem_singleton] at inner
        cases inner
        exact .file entry
      | link target => simp [visits] at inner
      | directory held => exact .directory entry ((ih held).mp inner)
    · intro below
      cases below with
      | file entry => exact ⟨_, entry, (mem_visits_nil_iff _ _).mpr rfl⟩
      | directory entry inner => exact ⟨_, entry, (ih _).mpr inner⟩

theorem way_ne_nil_of_mem_visits {entries : Entries} {v : Visit}
    (listed : v ∈ (Node.directory entries).visits) (isFile : v.contents.isSome = true) :
    v.way ≠ [] := by
  obtain ⟨way, contents⟩ := v
  obtain ⟨own, rfl⟩ := Option.isSome_iff_exists.mp isFile
  exact ((mem_visits_iff_holds entries way own).mp listed).ne_nil

theorem Proper.pairwise_visits {node : Node} (proper : node.Proper) :
    node.visits.Pairwise Visit.Before := by
  induction proper with
  | file contents => simp [visits]
  | link target => simp [visits]
  | @directory entries distinct inner ih =>
    rw [visits_directory]
    refine List.pairwise_cons.mpr ⟨?_, Visit.pairwise_inOrder ?_ ?_⟩
    · intro v mem
      obtain ⟨name, visits, -, u, -, rfl⟩ := Visit.mem_inOrder_iff.mp mem
      exact List.nil_lt_cons name u.way
    · simpa [Function.comp_def] using distinct
    · intro group mem
      obtain ⟨entry, listed, rfl⟩ := List.mem_map.mp mem
      exact ih entry listed

end Node

/-! ### Resolution -/

namespace Entries

theorem mem_of_find? {entries : Entries} {name : Bytes} {node : Node}
    (found : entries.find? name = some node) : (name, node) ∈ entries := by
  obtain ⟨before, after, rfl, -⟩ := List.lookup_eq_some_iff.mp found
  simp

def Proper (entries : Entries) : Prop := (Node.directory entries).Proper

theorem proper_nil : Proper [] := .directory List.nodup_nil (by simp)

theorem Proper.of_find? {entries : Entries} (proper : entries.Proper) {name : Bytes} {node : Node}
    (found : entries.find? name = some node) : node.Proper := by
  cases proper with
  | directory distinct inner => exact inner _ (mem_of_find? found)

theorem Proper.inside {entries : Entries} (proper : entries.Proper) (name : Bytes) :
    (entries.inside name).Proper := by
  unfold Entries.inside
  split
  · next found => exact proper.of_find? found
  · exact proper_nil
  · exact proper_nil
  · exact proper_nil

theorem Proper.assign {entries : Entries} (proper : entries.Proper) (name : Bytes) {node : Node}
    (given : node.Proper) : (entries.assign name node).Proper := by
  cases proper with
  | directory distinct inner =>
    unfold Entries.assign
    split
    · have names : (entries.map fun entry => if entry.1 = name then (name, node) else entry).map
          Prod.fst = entries.map Prod.fst := by
        rw [List.map_map]
        apply List.map_congr_left
        intro entry _
        by_cases same : entry.1 = name <;> simp [same]
      refine .directory (names ▸ distinct) ?_
      intro entry mem
      obtain ⟨old, listed, rfl⟩ := List.mem_map.mp mem
      split
      · exact given
      · exact inner old listed
    · next absent =>
      have fresh : name ∉ entries.map Prod.fst := by
        intro mem
        obtain ⟨entry, listed, rfl⟩ := List.mem_map.mp mem
        apply absent
        rw [Entries.find?, List.lookup_isSome_iff]
        exact ⟨entry, listed, by simp⟩
      refine .directory ?_ ?_
      · rw [List.map_append]
        refine List.nodup_append.mpr ⟨distinct, List.nodup_singleton name, ?_⟩
        intro old mem new last same
        rw [same, List.mem_singleton.mp last] at mem
        exact fresh mem
      · intro entry mem
        rcases List.mem_append.mp mem with old | new
        · exact inner entry old
        · rw [List.mem_singleton.mp new]
          exact given

theorem Proper.put {entries : Entries} (proper : entries.Proper) (way : List Bytes) {node : Node}
    (given : node.Proper) : (entries.put way node).Proper := by
  induction way generalizing entries with
  | nil => exact proper
  | cons name rest ih =>
    cases rest with
    | nil => exact proper.assign name given
    | cons next rest => exact proper.assign name (ih (proper.inside name))

theorem makeFrom_proper (links : Nat) {tree : Entries} (behind way : List Bytes) {node : Node}
    (proper : tree.Proper) (given : node.Proper) :
    (makeFrom links tree behind way node).Proper := by
  fun_induction makeFrom links tree behind way node with
  | case1 | case3 | case6 | case7 => exact proper
  | case2 | case4 | case5 | case8 =>
    next ih => exact ih proper
  | case9 | case11 => exact proper.put _ given
  | case10 | case12 =>
    next ih => exact ih (proper.put _ proper_nil)

theorem Proper.make {tree : Entries} (proper : tree.Proper) (path : Bytes) {node : Node}
    (given : node.Proper) : (tree.make path node).Proper :=
  makeFrom_proper Path.linkLimit [] (Path.names path) proper given

end Entries

namespace Path

namespace Place

def Proper (p : Place) : Prop := ∀ entries ∈ p.here :: p.above, Entries.Proper entries

theorem Proper.up {p : Place} (proper : p.Proper) : p.up.Proper := by
  obtain ⟨here, above⟩ := p
  cases above with
  | nil => exact proper
  | cons entries rest =>
    intro other mem
    exact proper other (List.mem_cons_of_mem here mem)

theorem Proper.down {p : Place} (proper : p.Proper) {entries : Entries}
    (inner : entries.Proper) : (p.down entries).Proper := by
  intro other mem
  rcases List.mem_cons.mp mem with rfl | outer
  · exact inner
  · exact proper other outer

theorem Proper.upmost {p : Place} (proper : p.Proper) : p.upmost.Proper := by
  intro other mem
  obtain rfl := List.mem_singleton.mp mem
  apply proper
  rw [Place.upmost, List.getLastD_eq_getLast?]
  cases last : p.above.getLast? with
  | none => exact List.mem_cons_self
  | some entries => exact List.mem_cons_of_mem p.here (List.mem_of_getLast? last)

theorem Proper.origin {p : Place} (proper : p.Proper) (path : Bytes) : (p.origin path).Proper := by
  unfold Place.origin
  split
  · exact proper.upmost
  · exact proper

theorem Proper.alone {entries : Entries} (proper : entries.Proper) : (alone entries).Proper := by
  intro other mem
  simp only [Place.alone, List.mem_cons, List.not_mem_nil, or_false] at mem
  rcases mem with rfl | rfl
  · exact proper
  · exact Entries.proper_nil

end Place

theorem walk_proper (follow : Bool) (links : Nat) {p : Place} (way : List Bytes) {node : Node}
    (proper : p.Proper) (leads : walk follow links p way = .ok node) : node.Proper := by
  fun_induction walk follow links p way with
  | case1 links p =>
    cases leads
    exact proper p.here List.mem_cons_self
  | case2 links p rest ih => exact ih proper leads
  | case3 links p rest other ih => exact ih proper.up leads
  | case6 links p name rest _ _ _ entries found ih =>
    exact ih (proper.down ((proper p.here List.mem_cons_self).of_find? found)) leads
  | case7 =>
    cases leads
    exact .file _
  | case9 =>
    cases leads
    exact .link _
  | case12 p name rest _ _ _ target found last links empty ih =>
    exact ih (proper.origin target) leads
  | case4 | case5 | case8 | case10 | case11 => cases leads

theorem resolve_proper (follow : Bool) {p : Place} (path : Bytes) {node : Node} (proper : p.Proper)
    (leads : resolve follow p path = .ok node) : node.Proper := by
  unfold resolve at leads
  split at leads
  · cases leads
  · split at leads
    · cases leads
    · exact walk_proper follow linkLimit (names path) (proper.origin path) leads

section Steps

variable {follow : Bool} {links : Nat} {p : Place} {name : Bytes} {rest : List Bytes}

theorem walk_nil : walk follow links p [] = .ok (.directory p.here) := by
  rw [walk]

theorem walk_dot : walk follow links p (dot :: rest) = walk follow links p rest := by
  rw [walk, if_pos rfl]

theorem walk_directory {entries : Entries} (own : name ≠ dot) (up : name ≠ dotDot)
    (short : name.length ≤ nameLimit) (found : p.here.find? name = some (.directory entries)) :
    walk follow links p (name :: rest) = walk follow links (p.down entries) rest := by
  rw [walk, if_neg own, if_neg up, if_neg (by omega), found]

theorem walk_link {target : Bytes} (own : name ≠ dot) (up : name ≠ dotDot)
    (short : name.length ≤ nameLimit) (found : p.here.find? name = some (.link target))
    (followed : rest ≠ [] ∨ follow = true) (filled : target ≠ []) :
    walk follow (links + 1) p (name :: rest) =
      walk follow links (p.origin target) (names target ++ rest) := by
  have goes : (rest.isEmpty && !follow) = false := by
    rcases followed with more | rfl
    · simp [more]
    · simp
  rw [walk, if_neg own, if_neg up, if_neg (by omega), found]
  simp [goes, filled]

theorem resolve_of_fits {path : Bytes} (filled : path ≠ []) (short : fits path = true) :
    resolve follow p path = walk follow linkLimit (p.origin path) (names path) := by
  rw [resolve, if_neg (by simpa using filled), if_neg (by simp [short])]

end Steps

/-- A walk that does not follow the last link differs only where it ends at a link. -/
theorem walk_false_eq_or_link (links : Nat) (p : Place) (way : List Bytes) :
    walk false links p way = walk true links p way ∨
      ∃ target, walk false links p way = .ok (.link target) := by
  -- Both walks take the same step but at a link that ends the way.
  fun_induction walk false links p way with
  | case1 links p => exact Or.inl (by rw [walk])
  | case2 links p rest ih =>
    rw [walk]
    simpa using ih
  | case3 links p rest other ih =>
    rw [walk]
    simpa [other] using ih
  | case4 links p name rest here up long =>
    rw [walk]
    simp [here, up, long]
  | case5 links p name rest here up long absent =>
    rw [walk]
    simp [here, up, long, absent]
  | case6 links p name rest here up long entries found ih =>
    rw [walk]
    simpa [here, up, long, found] using ih
  | case7 links p name rest here up long contents found last =>
    rw [walk]
    simp [here, up, long, found, last]
  | case8 links p name rest here up long contents found more =>
    rw [walk]
    simp [here, up, long, found, more]
  | case9 links p name rest here up long target found last => exact Or.inr ⟨target, rfl⟩
  | case10 p name rest here up long target found more =>
    rw [walk]
    simp [here, up, long, found]
  | case11 p name rest here up long target found more links empty =>
    rw [walk]
    simp [here, up, long, found, empty]
  | case12 p name rest here up long target found more links empty ih =>
    rw [walk]
    simpa [here, up, long, found, empty] using ih

theorem resolve_false_eq_or_link (p : Place) (path : Bytes) :
    resolve false p path = resolve true p path ∨
      ∃ target, resolve false p path = .ok (.link target) := by
  unfold resolve
  split
  · exact Or.inl rfl
  · split
    · exact Or.inl rfl
    · exact walk_false_eq_or_link linkLimit (p.origin path) (names path)

theorem root_eq_directory_iff (p : Place) (path : Bytes) (entries : Entries) :
    root p path = .ok (.directory entries) ↔ resolve true p path = .ok (.directory entries) := by
  unfold root
  rcases resolve_false_eq_or_link p path with same | ⟨target, link⟩
  · rw [same]
    rcases resolve true p path with fault | node
    · simp
    · cases node <;> simp
  · rw [link]
    rcases resolve true p path with fault | node
    · simp
    · cases node <;> simp

theorem root_eq_file_iff (p : Place) (path contents : Bytes) :
    root p path = .ok (.file contents) ↔ resolve false p path = .ok (.file contents) := by
  unfold root
  rcases resolve_false_eq_or_link p path with same | ⟨target, link⟩
  · rw [same]
    rcases resolve true p path with fault | node
    · simp
    · cases node <;> simp
  · rw [link]
    rcases resolve true p path with fault | node
    · simp
    · cases node <;> simp

end Path

end ClassQuery
