import ClassQuery.Proofs.Record.Readback
import ClassQuery.Proofs.Search.Coverage

/-!
Roots that are spelled in different ways.

A directory holds the same lines however one comes to it; a spelling of its path decides only how
the files below are printed and which of them have a path that is too long to be opened. Main
statement: two spellings of one directory make a search report the same lines, each under its own
spelling, but for files whose path is too long with one of them.
-/

set_option autoImplicit false
set_option relaxedAutoImplicit false

namespace ClassQuery

theorem Hit.inText_eq_map (q : Query) (path : Bytes) (text : Text) :
    inText q path text = (inText q [] text).map fun h => { h with path } := by
  unfold inText
  rw [List.map_filterMap]
  apply List.filterMap_congr
  intro numbered _
  split <;> rfl

namespace Spot

variable {q : Query} {root : Bytes} {v : Visit}

/-- Whether a search from a root can open the file of a line. -/
def opens (root : Bytes) (s : Spot) : Bool := Path.fits (s.hit root).path

/-- The path of a line as a search from a root prints it. -/
def printed (root : Bytes) (s : Spot) : Text :=
  Utf8.decodeLossy root ++ (if Path.endsInSlash root then [] else ['/']) ++
    Utf8.decodeLossy ([Path.slash].intercalate s.way)

/-- The lines that match in the file of a visit, whatever its path. -/
def atVisit (q : Query) (v : Visit) : List Spot :=
  match v.contents.bind Utf8.decode? with
  | none => []
  | some text => (Hit.inText q [] text).map fun h => ⟨v.way, h.line, h.text⟩

/-- The lines that match below a directory, whatever its path. -/
def below (q : Query) (entries : Entries) : List Spot :=
  (Node.directory entries).visits.flatMap (atVisit q)

theorem way_of_mem_atVisit {s : Spot} (mem : s ∈ atVisit q v) :
    v.contents.isSome = true ∧ s.way = v.way := by
  obtain ⟨way, contents⟩ := v
  cases contents with
  | none => cases mem
  | some contents =>
    refine ⟨rfl, ?_⟩
    simp only [atVisit, Option.bind_some] at mem
    split at mem
    · cases mem
    · obtain ⟨h, -, rfl⟩ := List.mem_map.mp mem
      rfl

theorem opens_of_mem_atVisit {s : Spot} (long : v.contents.isSome = true → v.way ≠ [])
    (mem : s ∈ atVisit q v) : s.opens root = Path.fits (Path.extend root v.way) := by
  obtain ⟨isFile, same⟩ := way_of_mem_atVisit mem
  rw [opens, hit, same, Path.extend_of_ne_nil root (long isFile)]

theorem ofVisit_eq_filter (long : v.contents.isSome = true → v.way ≠ []) :
    ofVisit q root v = (atVisit q v).filter (opens root) := by
  have all : (atVisit q v).filter (opens root) =
      if Path.fits (Path.extend root v.way) then atVisit q v else [] := by
    have same : (atVisit q v).filter (opens root) =
        (atVisit q v).filter fun _ => Path.fits (Path.extend root v.way) :=
      List.filter_congr fun s mem => opens_of_mem_atVisit long mem
    rw [same]
    cases Path.fits (Path.extend root v.way) <;> simp
  rw [all]
  obtain ⟨way, contents⟩ := v
  cases contents with
  | none =>
    rw [ofVisit, Finding.hits_ofVisit_directory, List.map_nil]
    exact (ite_self []).symm
  | some contents =>
    show (Finding.hits (Finding.ofFile q (Path.extend root way) contents)).map _ = _
    rw [Finding.hits_ofFile]
    split
    · simp only [atVisit, Option.bind_some]
      cases Utf8.decode? contents with
      | none => rfl
      | some text =>
        rw [Option.map_some, Option.getD_some, Hit.inText_eq_map, List.map_map]
        rfl
    · rfl

theorem ofDirectory_eq_filter (q : Query) (root : Bytes) (entries : Entries) :
    ofDirectory q root entries = (below q entries).filter (opens root) := by
  have long : ∀ v ∈ (Node.directory entries).visits, v.contents.isSome = true → v.way ≠ [] :=
    fun v => Node.way_ne_nil_of_mem_visits
  unfold ofDirectory below
  generalize (Node.directory entries).visits = visits at long ⊢
  induction visits with
  | nil => rfl
  | cons v rest ih =>
    rw [List.forall_mem_cons] at long
    rw [List.flatMap_cons, List.filter_append, ← ih long.2, ← ofVisit_eq_filter long.1]
    cases reached : Finding.isReached root v with
    | true => rw [List.filter_cons_of_pos reached, List.flatMap_cons]
    | false =>
      have nothing : ofVisit q root v = [] := by
        rw [ofVisit_eq_filter long.1, List.filter_eq_nil_iff]
        intro s mem fits
        rw [opens_of_mem_atVisit long.1 mem] at fits
        rw [Finding.isReached_of_fits fits] at reached
        cases reached
      rw [List.filter_cons_of_neg (by simp [reached]), nothing, List.nil_append]

theorem decodeLossy_hit (root : Bytes) (s : Spot) :
    Utf8.decodeLossy (s.hit root).path = s.printed root := by
  have slash : Char.ofNat Path.slash.toNat = '/' := rfl
  have low : Path.slash.toNat < 0x80 := by decide
  show Utf8.decodeLossy (Path.opened root ++ _) = _
  unfold Path.opened printed
  cases ended : Path.endsInSlash root with
  | true =>
    obtain ⟨front, rfl⟩ := List.getLast?_eq_some_iff.mp (of_decide_eq_true ended)
    have whole := Utf8.decodeLossy_append_cons front [] low
    have nothing : Utf8.decodeLossy [] = [] := rfl
    rw [if_pos rfl, if_pos rfl, List.append_assoc, List.singleton_append,
      Utf8.decodeLossy_append_cons front _ low, whole, nothing, slash, List.append_nil,
      List.append_assoc, List.singleton_append]
  | false =>
    rw [if_neg (by simp), if_neg (by simp), List.append_assoc, List.singleton_append,
      Utf8.decodeLossy_append_cons root _ low, slash, List.append_assoc, List.singleton_append]

theorem rendered_hit (root : Bytes) (s : Spot) :
    (s.hit root).rendered .plain = Utf8.encode
      (s.printed root ++ ':' :: Text.decimal s.number ++ ": ".toList ++ s.line ++ ['\n']) := by
  rw [Search.rendered_eq_bytes, Record.bytes_eq_encode, ← decodeLossy_hit]
  simp [Record.line, Record.pieces, Record.ofHit, hit]

end Spot

/-- A hit without the root at the beginning of its path and what joins it to the path below. -/
def Hit.without (root : Bytes) (h : Hit) : Hit :=
  { h with path := h.path.drop (Path.opened root).length }

theorem Spot.without_hit (root : Bytes) (s : Spot) :
    (s.hit root).without root = ⟨[Path.slash].intercalate s.way, s.number, s.line⟩ := by
  show (⟨(Path.opened root ++ _).drop _, _, _⟩ : Hit) = _
  rw [List.drop_left]
  rfl

namespace Search

variable {q : Query} {p : Path.Place} {root other : Bytes} {entries : Entries}

/-- The hits that a search from some roots hands on, as something that keeps them is given them. -/
def reported (q : Query) (p : Path.Place) (roots : List Bytes) : List Hit :=
  (through (fun seen h => (seen ++ [h], none)) [] (Finding.ofRoots q (Path.root p) roots)).sink

theorem reported_eq (q : Query) (p : Path.Place) (roots : List Bytes) :
    reported q p roots =
      roots.flatMap fun root => Finding.hits (Finding.ofRoot q root (Path.root p root)) := by
  let keep : List Hit → Hit → List Hit × Option Report := fun seen h => (seen ++ [h], none)
  have all : Takes keep [] (Finding.hits (Finding.ofRoots q (Path.root p) roots)) _ :=
    Takes.of_never (fun _ _ => rfl) [] _
  obtain ⟨-, -, kept⟩ := through_of_takes all
  rw [reported, kept, List.foldl_append_eq_append, List.nil_append, ← List.flatMap_def,
    List.flatMap_singleton', Finding.hits_ofRoots]

theorem reported_directory (leads : Path.resolve true p root = .ok (.directory entries))
    (before after : List Bytes) :
    reported q p (before ++ root :: after) = reported q p before ++
      ((Spot.below q entries).filter (Spot.opens root)).map (Spot.hit root) ++
        reported q p after := by
  have found := (Path.root_eq_directory_iff p root entries).mpr leads
  rw [reported_eq, reported_eq, reported_eq, List.flatMap_append, List.flatMap_cons, found,
    ← Spot.map_hit_ofDirectory, Spot.ofDirectory_eq_filter, List.append_assoc]

theorem reported_singleton (leads : Path.resolve true p root = .ok (.directory entries)) :
    reported q p [root] =
      ((Spot.below q entries).filter (Spot.opens root)).map (Spot.hit root) := by
  have joined := reported_directory (q := q) leads [] []
  rwa [reported_eq q p [], List.flatMap_nil, List.nil_append, List.append_nil] at joined

/-- Two spellings of one directory, each put among the same other roots, make a search report the
same lines in the same order, each under its own spelling, but for files whose path is too long with
one of them. Without such files the hits are the same but for what is printed in front. -/
theorem reported_respelled (q : Query)
    (leads : Path.resolve true p root = .ok (.directory entries))
    (same : Path.resolve true p other = .ok (.directory entries)) :
    ∃ spots : List Spot,
      (∀ given, given = root ∨ given = other →
        (∀ before after, reported q p (before ++ given :: after) = reported q p before ++
          (spots.filter (Spot.opens given)).map (Spot.hit given) ++ reported q p after) ∧
        ∀ s ∈ spots, Utf8.decodeLossy (s.hit given).path = s.printed given ∧
          (s.hit given).rendered .plain = Utf8.encode
            (s.printed given ++ ':' :: Text.decimal s.number ++ ": ".toList ++ s.line ++ ['\n'])) ∧
      ((∀ s ∈ spots, s.opens root = true ∧ s.opens other = true) →
        (reported q p [root]).map (Hit.without root) =
          (reported q p [other]).map (Hit.without other)) := by
  refine ⟨Spot.below q entries, ?_, ?_⟩
  · intro given which
    have leadsAlso : Path.resolve true p given = .ok (.directory entries) := by
      rcases which with rfl | rfl
      · exact leads
      · exact same
    refine ⟨reported_directory leadsAlso, ?_⟩
    intro s _
    exact ⟨Spot.decodeLossy_hit given s, Spot.rendered_hit given s⟩
  · intro short
    have stripped {given : Bytes} (leads : Path.resolve true p given = .ok (.directory entries))
        (all : ∀ s ∈ Spot.below q entries, s.opens given = true) :
        (reported q p [given]).map (Hit.without given) = (Spot.below q entries).map fun s =>
          ⟨[Path.slash].intercalate s.way, s.number, s.line⟩ := by
      rw [reported_singleton leads, List.filter_eq_self.mpr all, List.map_map]
      exact List.map_congr_left fun s _ => Spot.without_hit given s
    rw [stripped leads fun s mem => (short s mem).1, stripped same fun s mem => (short s mem).2]

/-- A directory by its name, and by a link to it with a slash at the end. -/
theorem reported_respelled_linked :
    let q : Query := ⟨["x".toList], "className=(?=.*?x).*".toList⟩
    let inner : Entries := [(Utf8.ofString "a", .file (Utf8.ofString "className=x"))]
    let p : Path.Place := .alone [(Utf8.ofString "d", .directory inner),
      (Utf8.ofString "l", .link (Utf8.ofString "./d"))]
    let root := Utf8.ofString "d"
    let other := Utf8.ofString "l/"
    (Path.resolve true p root = .ok (.directory inner) ∧
      Path.resolve true p other = .ok (.directory inner)) ∧
      ∃ spots : List Spot, ∀ given, given = root ∨ given = other →
        ∀ before after, reported q p (before ++ given :: after) = reported q p before ++
          (spots.filter (Spot.opens given)).map (Spot.hit given) ++ reported q p after := by
  intro q inner p root other
  have name : Path.names root = [root] := by decide
  have leads : Path.resolve true p root = .ok (.directory inner) := by
    rw [Path.resolve_of_fits (by decide) (by decide), name,
      Path.walk_directory (by decide) (by decide) (by decide) rfl, Path.walk_nil]
    rfl
  have same : Path.resolve true p other = .ok (.directory inner) := by
    have names : Path.names other = [Utf8.ofString "l", Path.dot] := by decide
    have target : Path.names (Utf8.ofString "./d") = [Path.dot, root] := by decide
    rw [Path.resolve_of_fits (by decide) (by decide), names, Path.linkLimit,
      Path.walk_link (by decide) (by decide) (by decide) rfl (.inr rfl) (by decide), target]
    show Path.walk true 39 p [Path.dot, root, Path.dot] = _
    rw [Path.walk_dot, Path.walk_directory (by decide) (by decide) (by decide) rfl, Path.walk_dot,
      Path.walk_nil]
    rfl
  obtain ⟨spots, each, -⟩ := reported_respelled q leads same
  exact ⟨⟨leads, same⟩, spots, fun given which => (each given which).1⟩

/-- A directory may be spelled so that its own path can be opened and those of its files cannot. -/
theorem reported_differs_for_far_root :
    let q : Query := ⟨["x".toList], "className=(?=.*?x).*".toList⟩
    let entries : Entries := [(Utf8.ofString "a", .file (Utf8.ofString "className=x\n"))]
    let p : Path.Place := .alone entries
    let far : Bytes := 46 :: List.replicate 4094 Path.slash
    Path.resolve true p Path.dot = .ok (.directory entries) ∧
      Path.resolve true p far = .ok (.directory entries) ∧
      reported q p [Path.dot] = [⟨Utf8.ofString "./a", 1, "className=x".toList⟩] ∧
      reported q p [far] = [] ∧
      (reported q p [Path.dot]).map (Hit.without Path.dot) ≠
        (reported q p [far]).map (Hit.without far) := by
  intro q entries p far
  have leads : Path.resolve true p Path.dot = .ok (.directory entries) := by
    have name : Path.names Path.dot = [Path.dot] := by decide
    rw [Path.resolve_of_fits (by decide) (by decide), name, Path.walk_dot, Path.walk_nil]
    rfl
  have same : Path.resolve true p far = .ok (.directory entries) :=
    resolve_dotted p (n := 4093) (by decide)
  have below : Spot.below q entries = [⟨[Utf8.ofString "a"], 1, "className=x".toList⟩] := by
    have seen : (Node.directory entries).visits =
        [⟨[], none⟩, ⟨[Utf8.ofString "a"], some (Utf8.ofString "className=x\n")⟩] := by
      rw [Node.visits_directory]
      simp [entries, Visit.inOrder, Node.visits, Visit.under]
    rw [Spot.below, seen]
    rfl
  have near : reported q p [Path.dot] = [⟨Utf8.ofString "./a", 1, "className=x".toList⟩] := by
    rw [reported_singleton leads, below]
    rfl
  have none : reported q p [far] = [] := by
    have length : far.length = 4095 := by
      rw [List.length_cons, List.length_replicate]
    have opened := Path.length_le_opened far
    have long (s : Spot) (named : s.way = [Utf8.ofString "a"]) : s.opens far = false := by
      have own : ([Path.slash].intercalate s.way).length = 1 := by
        rw [named]
        rfl
      simp only [Spot.opens, Spot.hit, Path.fits, Path.sizeLimit, decide_eq_false_iff_not,
        List.length_append, own]
      omega
    rw [reported_singleton same, below, List.filter_cons_of_neg (by rw [long _ rfl]; decide)]
    rfl
  refine ⟨leads, same, near, none, ?_⟩
  rw [near, none]
  exact List.cons_ne_nil _ _

end Search

end ClassQuery
