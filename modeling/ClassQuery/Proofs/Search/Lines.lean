import ClassQuery.Proofs.Text.Line
import ClassQuery.Search
import ClassQuery.Text.Utf8.Lemmas

/-!
The hits in a file, and the lines of its text.

Main statements: the hits in a text are the lines of it that match, each under the number of line
feeds that stand before it and one more, in the order of these numbers; a text behind whole lines
keeps its hits, each as many lines further down as line feeds were put in front; carriage returns
before line feeds change no hit of a text that has none elsewhere; and no file whose path is short
enough lies too deep for a walk.
-/

set_option autoImplicit false
set_option relaxedAutoImplicit false

/-! ### Files -/

namespace ClassQuery

/-- A query finds the line of a number, counted from one, in a text. -/
def Query.FindsLine (q : Query) (text : Text) (number : Nat) (line : Text) : Prop :=
  0 < number ∧ (Lines.ofText text)[number - 1]? = some line ∧ q.finds line = true

namespace Hit

theorem mem_inText_iff {q : Query} {path : Bytes} {text : Text} {h : Hit} :
    h ∈ inText q path text ↔ h.path = path ∧ q.FindsLine text h.line h.text := by
  unfold inText Query.FindsLine
  rw [List.mem_filterMap]
  constructor
  · rintro ⟨⟨line, number⟩, numbered, kept⟩
    obtain ⟨positive, found⟩ := List.mem_zipIdx_iff_le_and_getElem?_sub.mp numbered
    simp only at kept positive found
    split at kept
    · next finds =>
      cases kept
      exact ⟨rfl, positive, found, finds⟩
    · cases kept
  · intro ⟨same, positive, found, finds⟩
    refine ⟨(h.text, h.line), List.mem_zipIdx_iff_le_and_getElem?_sub.mpr ⟨positive, found⟩, ?_⟩
    simp [finds, ← same]

theorem pairwise_inText (q : Query) (path : Bytes) (text : Text) :
    (inText q path text).Pairwise fun a b => a.line < b.line := by
  unfold inText
  apply List.pairwise_filterMap.mpr
  have ascending : ((Lines.ofText text).zipIdx 1).Pairwise fun a b => a.2 < b.2 := by
    have numbers := List.pairwise_lt_range' (s := 1) (n := (Lines.ofText text).length)
    rw [← List.zipIdx_map_snd 1] at numbers
    exact List.pairwise_map.mp numbers
  refine ascending.imp ?_
  intro a b less h first h' second
  split at first <;> cases first
  split at second <;> cases second
  exact less

end Hit

namespace Path

theorem extend_of_ne_nil (path : Bytes) {way : List Bytes} (long : way ≠ []) :
    extend path way = opened path ++ [slash].intercalate way := by
  unfold extend
  rw [if_neg (by simpa using long)]

theorem length_le_opened (path : Bytes) : path.length ≤ (opened path).length := by
  unfold opened
  split <;> simp

private theorem length_intercalate_le (front : List Bytes) (last : Bytes) :
    ([slash].intercalate front).length ≤ ([slash].intercalate (front ++ [last])).length := by
  induction front with
  | nil => simp
  | cons name front ih =>
    cases front with
    | nil => simp
    | cons next front =>
      simp only [List.cons_append, List.intercalate_cons_cons, List.length_append] at ih ⊢
      omega

theorem length_extend_dropLast_le (path : Bytes) (way : List Bytes) :
    (extend path way.dropLast).length ≤ (extend path way).length := by
  rcases List.eq_nil_or_concat way with rfl | ⟨front, last, rfl⟩
  · exact Nat.le_refl _
  · have long : front ++ [last] ≠ [] := by simp
    have opens := length_le_opened path
    rw [List.concat_eq_append, List.dropLast_concat, extend_of_ne_nil path long, List.length_append]
    by_cases short : front = []
    · rw [short, extend, if_pos List.isEmpty_nil]
      omega
    · have grows := length_intercalate_le front last
      rw [extend_of_ne_nil path short, List.length_append]
      omega

theorem fits_of_resolve {follow : Bool} {p : Place} {path : Bytes} {node : Node}
    (leads : resolve follow p path = .ok node) : fits path = true := by
  unfold resolve at leads
  split at leads
  · cases leads
  · split at leads
    · cases leads
    · next short => simpa using short

end Path

namespace Finding

theorem isReached_of_fits {root : Bytes} {v : Visit} (fits : Path.fits (Path.extend root v.way)) :
    isReached root v = true := by
  have shorter := Path.length_extend_dropLast_le root v.way
  simp only [isReached, Path.fits, decide_eq_true_eq] at fits ⊢
  omega

theorem hits_ofFile (q : Query) (path contents : Bytes) :
    hits (ofFile q path contents) = if Path.fits path then
      ((Utf8.decode? contents).map (Hit.inText q path)).getD [] else [] := by
  unfold ofFile
  cases Path.fits path with
  | false => rfl
  | true =>
    cases Utf8.decode? contents with
    | none => rfl
    | some text => simp [hits, hit?, List.filterMap_map, Function.comp_def]

theorem mem_hits_ofFile_iff {q : Query} {path contents : Bytes} {h : Hit} :
    h ∈ hits (ofFile q path contents) ↔ Path.fits path = true ∧ h.path = path ∧
      ∃ text, Utf8.encode text = contents ∧ q.FindsLine text h.line h.text := by
  simp only [← Utf8.decode?_eq_some_iff]
  rw [hits_ofFile]
  cases Path.fits path with
  | false => simp
  | true =>
    cases Utf8.decode? contents with
    | none => simp
    | some text => simp [Hit.mem_inText_iff]

theorem pairwise_hits_ofFile (q : Query) (path contents : Bytes) :
    (hits (ofFile q path contents)).Pairwise fun a b => a.line < b.line := by
  rw [hits_ofFile]
  split
  · cases Utf8.decode? contents with
    | none => exact List.Pairwise.nil
    | some text => exact Hit.pairwise_inText q path text
  · exact List.Pairwise.nil

theorem hits_ofVisit_directory (q : Query) (root : Bytes) (way : List Bytes) :
    hits (ofVisit q root ⟨way, none⟩) = [] := by
  unfold ofVisit
  simp only
  split <;> rfl

theorem hits_ofRoot_directory (q : Query) (root : Bytes) (entries : Entries) :
    hits (ofRoot q root (.ok (.directory entries))) =
      ((Node.directory entries).visits.filter (isReached root)).flatMap fun v =>
        hits (ofVisit q root v) := List.filterMap_flatMap

theorem hits_ofRoot_file (q : Query) {root : Bytes} (contents : Bytes)
    (fits : Path.fits root = true) :
    hits (ofRoot q root (.ok (.file contents))) = hits (ofFile q root contents) := by
  have reached : isReached root ⟨[], some contents⟩ = true := fits
  simp [ofRoot, Node.visits, reached, ofVisit, Path.extend]

theorem hits_ofRoots (q : Query) (look : Bytes → Except Path.Fault Node) (roots : List Bytes) :
    hits (ofRoots q look roots) = roots.flatMap fun root => hits (ofRoot q root (look root)) :=
  List.filterMap_flatMap

end Finding

end ClassQuery

/-! ### Lines -/

namespace ClassQuery.Hit

/-- The numbers of hits ascend, and a hit is what matches and stands in the text as a line, behind
one line feed less than its number. -/
theorem inText_placed (q : Query) (path : Bytes) (contents : Text) :
    (inText q path contents).Pairwise (fun a b => a.line < b.line) ∧
    ∀ h, h ∈ inText q path contents ↔ h.path = path ∧
      ∃ before ending after, Lines.Placed contents before h.text ending after ∧
        before.count '\n' + 1 = h.line ∧ q.finds h.text = true := by
  refine ⟨pairwise_inText q path contents, ?_⟩
  intro h
  rw [mem_inText_iff, Query.FindsLine, Lines.getElem?_ofText_iff]
  constructor
  · rintro ⟨same, positive, ⟨before, ending, after, placed, counted⟩, finds⟩
    exact ⟨same, before, ending, after, placed, by omega, finds⟩
  · rintro ⟨same, before, ending, after, placed, counted, finds⟩
    exact ⟨same, by omega, ⟨before, ending, after, placed, by omega⟩, finds⟩

/-- One carriage return before a line feed is no part of a line, and a last one is. -/
example : inText ⟨[], []⟩ [] "\nclassName=\r\r\nclassName=\r".toList =
    [⟨[], 2, "className=\r".toList⟩, ⟨[], 3, "className=\r".toList⟩] := by decide +kernel

end ClassQuery.Hit

/-! ### Ends of lines -/

namespace ClassQuery

namespace Lines

/-- A text with a carriage return put before each of its line feeds whose number, counted from zero,
is chosen. -/
def withReturns (chosen : Nat → Bool) : Text → Text
  | [] => []
  | c :: rest =>
    if c = '\n' then
      (if chosen 0 then ['\r'] else []) ++ '\n' :: withReturns (fun n => chosen (n + 1)) rest
    else c :: withReturns chosen rest

theorem withReturns_of_unbroken (chosen : Nat → Bool) {line : Text} (unbroken : '\n' ∉ line) :
    withReturns chosen line = line := by
  induction line with
  | nil => rfl
  | cons c line ih =>
    rw [List.mem_cons, not_or] at unbroken
    rw [withReturns, if_neg (Ne.symm unbroken.1), ih unbroken.2]

theorem withReturns_append_cons (chosen : Nat → Bool) {line : Text} (unbroken : '\n' ∉ line)
    (rest : Text) :
    withReturns chosen (line ++ '\n' :: rest) = line ++ (if chosen 0 then ['\r'] else []) ++
      '\n' :: withReturns (fun n => chosen (n + 1)) rest := by
  induction line with
  | nil => exact if_pos rfl
  | cons c line ih =>
    rw [List.mem_cons, not_or] at unbroken
    rw [List.cons_append, withReturns, if_neg (Ne.symm unbroken.1), ih unbroken.2]
    rfl

theorem ofText_withReturns (chosen : Nat → Bool) {text : Text} (plain : '\r' ∉ text) :
    ofText (withReturns chosen text) = ofText text := by
  induction text using induction_on_lines generalizing chosen with
  | last line unbroken => rw [withReturns_of_unbroken chosen unbroken]
  | broken line rest unbroken ih =>
    rw [List.mem_append, List.mem_cons, not_or, not_or] at plain
    obtain ⟨own, -, further⟩ := plain
    have kept : line.getLast? ≠ some '\r' := fun last => own (List.mem_of_getLast? last)
    rw [withReturns_append_cons chosen unbroken, ofText_append_cons unbroken, stripEnd_concat kept]
    cases chosen 0 with
    | true =>
      have wider : '\n' ∉ line ++ ['\r'] := by simp [unbroken]
      show ofText (line ++ ['\r'] ++ '\n' :: _) = _
      rw [ofText_append_cons wider, stripEnd_crlf, ih _ further]
    | false =>
      show ofText (line ++ [] ++ '\n' :: _) = _
      rw [List.append_nil, ofText_append_cons unbroken, stripEnd_concat kept, ih _ further]

end Lines

namespace Hit

def lowered (lines : Nat) (h : Hit) : Hit := { h with line := lines + h.line }

theorem inText_append (q : Query) (path : Bytes) {front : Text}
    (whole : front = [] ∨ ∃ lines, front = lines ++ ['\n']) (back : Text) :
    inText q path (front ++ back) =
      inText q path front ++ (inText q path back).map (lowered (front.count '\n')) := by
  have numbered : (Lines.ofText back).zipIdx (1 + front.count '\n') =
      ((Lines.ofText back).zipIdx 1).map (Prod.map id (· + front.count '\n')) := by
    rw [List.map_snd_add_zipIdx_eq_zipIdx, Nat.add_comm]
  unfold inText
  rw [Lines.ofText_append whole, List.zipIdx_append, List.filterMap_append,
    Lines.length_ofText whole, numbered, List.filterMap_map, List.map_filterMap]
  congr 1
  apply List.filterMap_congr
  intro ⟨line, number⟩ _
  cases found : q.finds line with
  | true => simp [found, lowered, Nat.add_comm]
  | false => simp [found]

theorem inText_congr_lines (q : Query) (path : Bytes) {text other : Text}
    (same : Lines.ofText text = Lines.ofText other) :
    inText q path text = inText q path other := by
  unfold inText
  rw [same]

/-- Behind whole lines a text keeps its hits, further down by these lines; and so does a text
without carriage returns when they are put before any of its line feeds. -/
theorem inText_respects_lines (q : Query) (path : Bytes) :
    (∀ front back : Text, (front = [] ∨ ∃ lines, front = lines ++ ['\n']) →
      inText q path (front ++ back) =
        inText q path front ++ (inText q path back).map (lowered (front.count '\n'))) ∧
    ∀ (contents : Text) (chosen : Nat → Bool), '\r' ∉ contents →
      inText q path (Lines.withReturns chosen contents) = inText q path contents := by
  constructor
  · intro front back whole
    exact inText_append q path whole back
  · intro contents chosen plain
    exact inText_congr_lines q path (Lines.ofText_withReturns chosen plain)

/-- The text in front ends in a carriage return and a line feed, and of three line feeds the second
gets a carriage return. -/
theorem inText_respects_lines_mixed :
    let q : Query := ⟨["x".toList], "className=(?=.*?x).*".toList⟩
    let front := "className=x\r\n".toList
    let back := "\nclassName=x\r".toList
    let contents := "className=x\n\nclassName=y x\n".toList
    ((front = [] ∨ ∃ lines, front = lines ++ ['\n']) ∧ '\r' ∉ contents) ∧
      inText q [] (front ++ back) =
        inText q [] front ++ (inText q [] back).map (lowered (front.count '\n')) ∧
      inText q [] "className=x\n\r\nclassName=y x\n".toList = inText q [] contents := by
  intro q front back contents
  have whole : front = [] ∨ ∃ lines, front = lines ++ ['\n'] := .inr ⟨"className=x\r".toList, rfl⟩
  have plain : '\r' ∉ contents := by decide
  have returned :
      Lines.withReturns (· == 1) contents = "className=x\n\r\nclassName=y x\n".toList := by
    decide
  obtain ⟨behind, ended⟩ := inText_respects_lines q []
  exact ⟨⟨whole, plain⟩, behind front back whole, returned ▸ ended contents (· == 1) plain⟩

end Hit

end ClassQuery
