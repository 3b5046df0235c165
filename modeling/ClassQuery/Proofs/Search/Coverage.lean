import ClassQuery.Proofs.FileTree.Resolution
import ClassQuery.Proofs.Search.Lines
import ClassQuery.Proofs.Search.Overflow

/-!
Which lines a search hands on, and in which order.

Main statement: whatever takes the hits without failing is handed the matching lines of each root,
one root after the other. Below a directory these are the lines of the texts that lie along
directories only, in the order of the names along the ways and then of the lines, but for files
whose path as it is shown is too long to be opened.
-/

set_option autoImplicit false
set_option relaxedAutoImplicit false

namespace ClassQuery

structure Spot where
  /-- The names on the way to the file. -/
  way : List Bytes
  /-- The number of the line, counted from one. -/
  number : Nat
  line : Text

namespace Spot

/-- The order of the names along the ways and, in one file, of the lines. -/
def Before (a b : Spot) : Prop := a.way < b.way ∨ a.way = b.way ∧ a.number < b.number

/-- The hit that a line is for a search from a root. -/
def hit (root : Bytes) (s : Spot) : Hit :=
  ⟨Path.opened root ++ [Path.slash].intercalate s.way, s.number, s.line⟩

/-- A query finds a line of a text that lies below a directory. -/
def FoundIn (q : Query) (entries : Entries) (s : Spot) : Prop :=
  ∃ text, entries.Holds s.way (Utf8.encode text) ∧ q.FindsLine text s.number s.line

def ofVisit (q : Query) (root : Bytes) (v : Visit) : List Spot :=
  (Finding.hits (Finding.ofVisit q root v)).map fun h => ⟨v.way, h.line, h.text⟩

theorem map_hit_ofVisit {q : Query} {root : Bytes} {v : Visit}
    (long : v.contents.isSome = true → v.way ≠ []) :
    (ofVisit q root v).map (hit root) = Finding.hits (Finding.ofVisit q root v) := by
  obtain ⟨way, contents⟩ := v
  cases contents with
  | none =>
    rw [ofVisit, Finding.hits_ofVisit_directory]
    rfl
  | some contents =>
    rw [ofVisit, List.map_map]
    refine (List.map_congr_left ?_).trans (List.map_id _)
    intro h mem
    obtain ⟨-, path, -⟩ := Finding.mem_hits_ofFile_iff.mp mem
    rw [Path.extend_of_ne_nil root (long rfl)] at path
    simp [hit, ← path]

theorem mem_ofVisit_iff {q : Query} {root : Bytes} {v : Visit} {s : Spot} :
    s ∈ ofVisit q root v ↔ s.way = v.way ∧ Path.fits (Path.extend root v.way) = true ∧
      ∃ text, v.contents = some (Utf8.encode text) ∧ q.FindsLine text s.number s.line := by
  obtain ⟨way, contents⟩ := v
  cases contents with
  | none =>
    rw [ofVisit, Finding.hits_ofVisit_directory]
    simp
  | some contents =>
    rw [ofVisit, List.mem_map]
    constructor
    · intro ⟨h, mem, same⟩
      obtain ⟨fits, -, text, rfl, finds⟩ := Finding.mem_hits_ofFile_iff.mp mem
      cases same
      exact ⟨rfl, fits, text, rfl, finds⟩
    · intro ⟨same, fits, text, given, finds⟩
      cases given
      refine ⟨⟨Path.extend root way, s.number, s.line⟩, ?_, ?_⟩
      · exact Finding.mem_hits_ofFile_iff.mpr ⟨fits, rfl, text, rfl, finds⟩
      · obtain ⟨way', number, line⟩ := s
        cases same
        rfl

theorem pairwise_ofVisit (q : Query) (root : Bytes) (v : Visit) :
    (ofVisit q root v).Pairwise Before := by
  obtain ⟨way, contents⟩ := v
  cases contents with
  | none =>
    rw [ofVisit, Finding.hits_ofVisit_directory]
    exact List.Pairwise.nil
  | some contents =>
    refine List.pairwise_map.mpr ((Finding.pairwise_hits_ofFile q _ contents).imp ?_)
    intro a b less
    exact Or.inr ⟨rfl, less⟩

/-- The lines that are found below a directory, as a walk from a root comes to them. -/
def ofDirectory (q : Query) (root : Bytes) (entries : Entries) : List Spot :=
  ((Node.directory entries).visits.filter (Finding.isReached root)).flatMap (ofVisit q root)

theorem map_hit_ofDirectory (q : Query) (root : Bytes) (entries : Entries) :
    (ofDirectory q root entries).map (hit root) =
      Finding.hits (Finding.ofRoot q root (.ok (.directory entries))) := by
  rw [Finding.hits_ofRoot_directory, ofDirectory, List.map_flatMap]
  refine List.flatMap_congr ?_
  intro v mem
  have listed := (List.mem_filter.mp mem).1
  exact map_hit_ofVisit (Node.way_ne_nil_of_mem_visits listed)

theorem mem_ofDirectory_iff {q : Query} {root : Bytes} {entries : Entries} {s : Spot} :
    s ∈ ofDirectory q root entries ↔
      s.FoundIn q entries ∧ Path.fits (s.hit root).path = true := by
  unfold ofDirectory
  rw [List.mem_flatMap]
  constructor
  · intro ⟨v, mem, found⟩
    obtain ⟨same, fits, text, file, finds⟩ := mem_ofVisit_iff.mp found
    obtain ⟨way, held⟩ := v
    cases file
    cases same
    have below := (Node.mem_visits_iff_holds entries s.way _).mp (List.mem_filter.mp mem).1
    refine ⟨⟨text, below, finds⟩, ?_⟩
    rwa [Path.extend_of_ne_nil root below.ne_nil] at fits
  · intro ⟨⟨text, below, finds⟩, fits⟩
    have short : Path.fits (Path.extend root s.way) = true := by
      rwa [Path.extend_of_ne_nil root below.ne_nil]
    refine ⟨⟨s.way, some (Utf8.encode text)⟩,
      List.mem_filter.mpr ⟨?_, Finding.isReached_of_fits short⟩, ?_⟩
    · exact (Node.mem_visits_iff_holds entries s.way _).mpr below
    · exact mem_ofVisit_iff.mpr ⟨rfl, short, text, rfl, finds⟩

theorem pairwise_ofDirectory (q : Query) (root : Bytes) {entries : Entries}
    (proper : entries.Proper) : (ofDirectory q root entries).Pairwise Before := by
  apply List.pairwise_flatMap.mpr
  constructor
  · intro v _
    exact pairwise_ofVisit q root v
  · refine (proper.pairwise_visits.filter _).imp ?_
    intro u v before a memA b memB
    obtain ⟨wayA, -⟩ := mem_ofVisit_iff.mp memA
    obtain ⟨wayB, -⟩ := mem_ofVisit_iff.mp memB
    refine Or.inl ?_
    rw [wayA, wayB]
    exact before

end Spot

/-- What the hits of one root are. -/
structure Finding.Covers (q : Query) (p : Path.Place) (root : Bytes) (hits : List Hit) : Prop where
  /-- From a directory, also one that a link leads to, they are the lines below it, each once and
  in order, but for files whose path is too long. -/
  ofDirectory : ∀ entries, Path.resolve true p root = .ok (.directory entries) →
    ∃ spots : List Spot, hits = spots.map (Spot.hit root) ∧ spots.Pairwise Spot.Before ∧
      ∀ s : Spot, s ∈ spots ↔ s.FoundIn q entries ∧ Path.fits (s.hit root).path = true
  /-- From a file they are its own lines, each once and in order. -/
  ofFile : ∀ contents, Path.resolve false p root = .ok (.file contents) →
    hits.Pairwise (fun a b => a.line < b.line) ∧
      ∀ h : Hit, h ∈ hits ↔ h.path = root ∧
        ∃ text, Utf8.encode text = contents ∧ q.FindsLine text h.line h.text
  /-- From anything else there are none. -/
  otherwise : (∀ entries, Path.resolve true p root ≠ .ok (.directory entries)) →
    (∀ contents, Path.resolve false p root ≠ .ok (.file contents)) → hits = []

theorem Finding.covers_hits_ofRoot (q : Query) {p : Path.Place} (proper : p.Proper) (root : Bytes) :
    Covers q p root (hits (ofRoot q root (Path.root p root))) where
  ofDirectory := by
    intro entries leads
    have found := (Path.root_eq_directory_iff p root entries).mpr leads
    rw [found]
    exact ⟨Spot.ofDirectory q root entries, (Spot.map_hit_ofDirectory q root entries).symm,
      Spot.pairwise_ofDirectory q root (Path.resolve_proper true root proper leads),
      fun s => Spot.mem_ofDirectory_iff⟩
  ofFile := by
    intro contents leads
    have fits := Path.fits_of_resolve leads
    rw [(Path.root_eq_file_iff p root contents).mpr leads, hits_ofRoot_file q contents fits]
    refine ⟨pairwise_hits_ofFile q root contents, ?_⟩
    intro h
    rw [mem_hits_ofFile_iff]
    exact and_iff_right fits
  otherwise := by
    intro noDirectory noFile
    cases found : Path.root p root with
    | error fault => rfl
    | ok node =>
      cases node with
      | file contents =>
        exact absurd ((Path.root_eq_file_iff p root contents).mp found) (noFile contents)
      | link target => simp [ofRoot, Node.visits, hits]
      | directory entries =>
        exact absurd ((Path.root_eq_directory_iff p root entries).mp found) (noDirectory entries)

/-- A callback that never fails is handed the hits of the roots, one root after the other, and the
count is their number. -/
theorem Search.through_covers {σ : Type} {take : σ → Hit → σ × Option Report}
    (never : ∀ s h, (take s h).2 = none) (q : Query) {p : Path.Place} (proper : p.Proper)
    (roots : List Bytes) (s : σ) :
    ∃ each : Bytes → List Hit, (∀ root, Finding.Covers q p root (each root)) ∧
      (Search.through take s (Finding.ofRoots q (Path.root p) roots)).report = none ∧
      (Search.through take s (Finding.ofRoots q (Path.root p) roots)).count =
        (roots.flatMap each).length ∧
      (Search.through take s (Finding.ofRoots q (Path.root p) roots)).sink =
        (roots.flatMap each).foldl (fun s h => (take s h).1) s := by
  have all := Takes.of_never never s (Finding.hits (Finding.ofRoots q (Path.root p) roots))
  have joined := Finding.hits_ofRoots q (Path.root p) roots
  obtain ⟨report, count, sink⟩ := through_of_takes all
  refine ⟨_, Finding.covers_hits_ofRoot q proper, report, ?_, ?_⟩
  · rw [count, joined]
  · rw [sink, joined]

/-- The tree has a name that is a part of another, a link to a directory and bytes that are no text;
the roots are a link, the whole tree and nothing. -/
theorem Search.through_covers_linked :
    let tree := (((Entries.make [] (Utf8.ofString "a-b") (.file (Utf8.ofString "className=x"))).make
      (Utf8.ofString "a/z") (.file (Utf8.ofString "className=x\n\nclassName=x"))).make
      (Utf8.ofString "a/y") (.file [0xFF])).make (Utf8.ofString "l") (.link (Utf8.ofString "a"))
    let take : List Hit → Hit → List Hit × Option Report := fun s h => (s ++ [h], none)
    let q : Query := ⟨["x".toList], "className=(?=.*?x).*".toList⟩
    let roots := [Utf8.ofString "l", Path.dot, []]
    let found := Search.through take [] (Finding.ofRoots q (Path.root (.alone tree)) roots)
    (∀ s h, (take s h).2 = none) ∧ (Path.Place.alone tree).Proper ∧
      ∃ each : Bytes → List Hit, (∀ root, Finding.Covers q (.alone tree) root (each root)) ∧
        found.report = none ∧ found.count = (roots.flatMap each).length ∧
        found.sink = (roots.flatMap each).foldl (fun s h => (take s h).1) [] := by
  intro tree take q roots found
  have proper : (Path.Place.alone tree).Proper := by
    apply Path.Place.Proper.alone
    refine Entries.Proper.make ?_ _ (.link _)
    exact ((Entries.proper_nil.make _ (.file _)).make _ (.file _)).make _ (.file _)
  exact ⟨fun _ _ => rfl, proper, Search.through_covers (fun _ _ => rfl) q proper roots []⟩

private theorem names_dotted (n : Nat) :
    Path.names (46 :: List.replicate (n + 1) Path.slash) = [Path.dot, Path.dot] := by
  have cut : Lines.pieces Path.slash (List.replicate n Path.slash) =
      List.replicate n [Path.slash] := by
    induction n with
    | zero => rfl
    | succ n ih =>
      rw [List.replicate_succ, Lines.pieces_cons, ih]
      simp [Lines.pushFront, List.replicate_succ]
  have first : Lines.pieces Path.slash (46 :: List.replicate (n + 1) Path.slash) =
      [46, Path.slash] :: List.replicate n [Path.slash] := by
    rw [List.replicate_succ, Lines.pieces_cons, Lines.pieces_cons, cut]
    simp [Lines.pushFront, Path.slash]
  have ends : Path.endsInSlash (46 :: List.replicate (n + 1) Path.slash) = true := by
    simp [Path.endsInSlash, List.getLast?_cons, List.getLast?_replicate]
  unfold Path.names
  rw [first, ends]
  simp [Path.slash, Path.dot]

theorem resolve_dotted (p : Path.Place) {n : Nat} (short : n + 2 ≤ Path.sizeLimit) :
    Path.resolve true p (46 :: List.replicate (n + 1) Path.slash) = .ok (.directory p.here) := by
  have fits : Path.fits (46 :: List.replicate (n + 1) Path.slash) = true := by
    simp only [Path.fits, List.length_cons, List.length_replicate, decide_eq_true_eq]
    omega
  have origin : p.origin (46 :: List.replicate (n + 1) Path.slash) = p := rfl
  rw [Path.resolve_of_fits (by simp) fits, origin, names_dotted, Path.walk_dot, Path.walk_dot,
    Path.walk_nil]

/-- A root may be so long that a file in it is not found, as its path cannot be opened. -/
theorem Search.far_root_hides_file :
    let entries : Entries := [([97], .file (Utf8.ofString "className=x\n"))]
    let p : Path.Place := .alone entries
    let root : Bytes := 46 :: List.replicate 4094 Path.slash
    let q : Query := ⟨["x".toList], "className=(?=.*?x).*".toList⟩
    let take : List Hit → Hit → List Hit × Option Report := fun s h => (s ++ [h], none)
    let found := Search.through take [] (Finding.ofRoots q (Path.root p) [root])
    p.Proper ∧ Path.resolve true p root = .ok (.directory entries) ∧
      Spot.FoundIn q entries ⟨[[97]], 1, "className=x".toList⟩ ∧
      found.count = 0 ∧ found.sink = [] := by
  intro entries p root q take found
  have leads : Path.resolve true p root = .ok (.directory entries) :=
    resolve_dotted p (n := 4093) (by decide)
  have hidden : Spot.ofDirectory q root entries = [] := by
    apply List.eq_nil_iff_forall_not_mem.mpr
    intro ⟨way, number, line⟩ mem
    obtain ⟨⟨text, below, -⟩, fits⟩ := Spot.mem_ofDirectory_iff.mp mem
    generalize Utf8.encode text = contents at below
    cases below with
    | @file _ name _ listed =>
      have own : name = [97] := by
        simp only [entries, List.mem_singleton, Prod.mk.injEq] at listed
        exact listed.1
      have length : root.length = 4095 := by
        rw [List.length_cons, List.length_replicate]
      have opens := Path.length_le_opened root
      have short : (Path.opened root ++ name).length ≤ Path.sizeLimit := by
        simpa [Spot.hit, Path.fits] using fits
      rw [List.length_append, own, List.length_singleton, Path.sizeLimit] at short
      omega
    | directory listed => simp [entries] at listed
  have silent : Finding.hits (Finding.ofRoots q (Path.root p) [root]) = [] := by
    have directory := (Path.root_eq_directory_iff p root entries).mpr leads
    rw [Finding.hits_ofRoots, List.flatMap_singleton, directory, ← Spot.map_hit_ofDirectory, hidden]
    rfl
  have takes : Takes take [] (Finding.hits (Finding.ofRoots q (Path.root p) [root])) [] := by
    rw [silent]
    exact .nil []
  obtain ⟨-, count, sink⟩ := through_of_takes takes
  refine ⟨?_, leads, ?_, ?_, sink⟩
  · apply Path.Place.Proper.alone
    exact .directory (by simp [entries]) (by simp [entries, Node.Proper.file])
  · refine ⟨"className=x\n".toList, .file List.mem_cons_self, Nat.zero_lt_one, ?_, ?_⟩
    · cbv
    · cbv
  · rw [count, silent]
    rfl

end ClassQuery
