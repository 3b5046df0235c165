import ClassQuery.Proofs.Run.Outcome

/-!
The query of an abbreviation, beside its pattern and beside other queries.

Main statements: a text without a pattern has no query either, for the same fault; a text with a
pattern has a query for names that spell it, unless these fail the size test; and a query finds all
that another finds exactly when each of its names is part of one of the other's. A line that holds
just the names of one query, with blanks between them, shows that nothing less will do.
-/

set_option autoImplicit false
set_option relaxedAutoImplicit false

/-! ### Beside the pattern -/

namespace ClassQuery

namespace Abbreviation

private theorem isShape_of_ordered {atoms : List Atom} {fault : Fault}
    (refused : ordered atoms = .error fault) : fault.isShape = true := by
  unfold ordered at refused
  repeat' split at refused
  all_goals cases refused
  all_goals rfl

theorem isShape_of_parse {text : Text} {fault : Fault} (refused : parse text = .error fault) :
    fault.isShape = true := by
  obtain ⟨names, rest, -, -, scanned⟩ := exists_scan_eq text
  rw [parse, scanned] at refused
  by_cases whole : rest = []
  · rw [if_pos whole] at refused
    exact isShape_of_ordered refused
  · rw [if_neg whole] at refused
    cases refused
    rfl

end Abbreviation

theorem Atom.classNames_filter (atoms : List Atom) :
    classNames (atoms.filter (·.kind = .cls)) = classNames atoms := by
  induction atoms with
  | nil => rfl
  | cons a atoms ih =>
    obtain ⟨kind, name⟩ := a
    cases kind with
    | tag => exact ih
    | ident => exact ih
    | cls => exact congrArg (name :: ·) ih

theorem Pattern.ofAtoms_filter (atoms : List Atom) :
    ofAtoms (atoms.filter (·.kind = .cls)) = ofAtoms atoms := by
  rw [ofAtoms, ofAtoms, flatMap_ofAtom, flatMap_ofAtom, Atom.classNames_filter]

namespace Query

open Abbreviation

/-- Whatever the size test, the pattern and the query of a text have the same faults of shape. Where
there is a pattern, the query asks for names that spell the text, or they fail the size test. A
query depends on no other atoms than classes. -/
theorem ofAbbreviation_agrees (fits : List Text → Bool) (text : Text) :
    (∀ fault, Pattern.ofAbbreviation text = .error fault →
      ofAbbreviation text fits = .error fault ∧ fault.isShape = true) ∧
    (∀ pattern, Pattern.ofAbbreviation text = .ok pattern →
      ∃ names, names.flatMap ('.' :: ·) = text ∧
        ((fits names = true ∧ ofAbbreviation text fits = .ok ⟨names, pattern⟩) ∨
          (fits names = false ∧ ∃ cause,
            ofAbbreviation text fits = .error (.uncompiled cause) ∧
              (Fault.uncompiled cause).isShape = false))) ∧
    ∀ atoms, ofAtoms (atoms.filter (·.kind = .cls)) fits = ofAtoms atoms fits := by
  refine ⟨?_, ?_, ?_⟩
  · intro fault untranslated
    cases parsed : parse text with
    | ok atoms =>
      rw [Pattern.ofAbbreviation_of_parse parsed] at untranslated
      cases untranslated
    | error other =>
      rw [Pattern.ofAbbreviation, parsed] at untranslated
      cases untranslated
      exact ⟨by rw [ofAbbreviation, parsed], isShape_of_parse parsed⟩
  · intro pattern translated
    obtain ⟨names, filled, named, whole⟩ := Pattern.exists_row_of_ofAbbreviation translated
    have spells : Spells names text := ⟨filled, named, whole⟩
    rw [Pattern.ofAbbreviation_of_parse spells.parse_eq] at translated
    obtain rfl := Except.ok.inj translated
    refine ⟨names.map asText, spells.flatMap_eq, ?_⟩
    cases size : fits (names.map asText) with
    | true => exact .inl ⟨rfl, ofAbbreviation_of_spells spells size⟩
    | false => exact .inr ⟨rfl, _, ofAbbreviation_of_large spells size, rfl⟩
  · intro atoms
    rw [ofAtoms, ofAtoms, Atom.classNames_filter, Pattern.ofAtoms_filter]

/-- An identifier behind a class is refused at its mark, and a name that comes twice is asked for
twice. -/
theorem ofAbbreviation_agrees_repeated :
    Pattern.ofAbbreviation ".a#b".toList = .error (.invalid (some 2)) ∧
      ofAbbreviation ".a#b".toList isSmall = .error (.invalid (some 2)) ∧
      (Fault.invalid (some 2)).isShape = true ∧
      Pattern.ofAbbreviation ".b.a.b".toList =
        .ok "className=(?=.*?b)(?=.*?a)(?=.*?b).*".toList ∧
      ∃ names, names.flatMap ('.' :: ·) = ".b.a.b".toList ∧
        ((isSmall names = true ∧ ofAbbreviation ".b.a.b".toList isSmall =
            .ok ⟨names, "className=(?=.*?b)(?=.*?a)(?=.*?b).*".toList⟩) ∨
          (isSmall names = false ∧ ∃ cause,
            ofAbbreviation ".b.a.b".toList isSmall = .error (.uncompiled cause) ∧
              (Fault.uncompiled cause).isShape = false)) := by
  have refused : Pattern.ofAbbreviation ".a#b".toList = .error (.invalid (some 2)) := by
    decide +kernel
  have spells : Spells [Utf8.ofString "b", Utf8.ofString "a", Utf8.ofString "b"] ".b.a.b".toList :=
    ⟨by simp, by decide +kernel, by rfl⟩
  have translated : Pattern.ofAbbreviation ".b.a.b".toList =
      .ok "className=(?=.*?b)(?=.*?a)(?=.*?b).*".toList :=
    Pattern.ofAbbreviation_of_parse spells.parse_eq
  obtain ⟨same, shape⟩ := (ofAbbreviation_agrees isSmall ".a#b".toList).1 _ refused
  exact ⟨refused, same, shape, translated,
    (ofAbbreviation_agrees isSmall ".b.a.b".toList).2.1 _ translated⟩

end Query

/-! ### Beside other queries -/

namespace Query

open Abbreviation
open Pattern (marker isBreak)

def Dominated (p q : Query) : Prop := ∀ name ∈ p.names, ∃ other ∈ q.names, name <:+: other

theorem Dominated.finds {p q : Query} (dominated : p.Dominated q) {text : Text}
    (found : q.finds text = true) : p.finds text = true := by
  obtain ⟨tail, behind, occur⟩ := finds_iff.mp found
  refine finds_iff.mpr ⟨tail, behind, ?_⟩
  intro name mem
  obtain ⟨other, asked, part⟩ := dominated name mem
  exact part.trans (occur other asked)

def spaced (names : List Text) : Text := names.flatMap (' ' :: ·)

theorem infix_spaced {name : Text} {names : List Text} (mem : name ∈ names) :
    name <:+: spaced names := by
  obtain ⟨before, after, rfl⟩ := List.append_of_mem mem
  refine ⟨spaced before ++ [' '], spaced after, ?_⟩
  simp [spaced]

/-- A word without a blank that occurs among spaced names is part of one of them. -/
theorem exists_infix_of_infix_spaced {word : Text} (filled : word ≠ []) (apart : ' ' ∉ word)
    {names : List Text} (h : word <:+: spaced names) : ∃ name ∈ names, word <:+: name := by
  induction names with
  | nil => exact absurd (List.infix_nil.mp h) filled
  | cons name names ih =>
    have blank : ∀ front rest, front <+: ' ' :: rest → (∀ c ∈ front, c ∈ word) → front = [] := by
      intro front rest begins inside
      have begins : front <+: [] ++ ' ' :: rest := begins
      have fresh : ' ' ∉ front := fun mem => apart (inside _ mem)
      exact List.prefix_nil.mp (Text.prefix_of_prefix_append_cons fresh begins)
    have cut : spaced (name :: names) = ' ' :: (name ++ spaced names) := List.flatMap_cons
    rw [cut, List.infix_cons_iff] at h
    rcases h with begins | h
    · exact absurd (blank word _ begins fun _ mem => mem) filled
    rcases List.infix_append_iff.mp h with inside | later | ⟨front, back, rfl, ends, begins⟩
    · exact ⟨name, List.mem_cons_self, inside⟩
    · obtain ⟨other, mem, part⟩ := ih later
      exact ⟨other, List.mem_cons_of_mem _ mem, part⟩
    · have nothing : back = [] := by
        cases names with
        | nil => exact List.prefix_nil.mp begins
        | cons next names =>
          exact blank back _ begins fun c mem => List.mem_append_right _ mem
      refine ⟨name, List.mem_cons_self, ?_⟩
      rw [nothing, List.append_nil]
      exact ends.isInfix

theorem after?_marker_append (tail : Text) : Text.after? marker (marker ++ tail) = some tail := by
  have opened : marker ++ tail = 'c' :: ("lassName=".toList ++ tail) := rfl
  have begins : marker.isPrefixOf (marker ++ tail) = true :=
    List.isPrefixOf_iff_prefix.mpr (List.prefix_append ..)
  rw [opened] at begins ⊢
  rw [Text.after?_cons, if_pos begins]
  rfl

theorem finds_spaced_iff {q : Query} {names : List Text} (letters : Pattern.Unbroken names) :
    q.finds (marker ++ spaced names) = true ↔ ∀ name ∈ q.names, name <:+: spaced names := by
  have unbroken : ∀ c ∈ spaced names, (!isBreak c) = true := by
    intro c mem
    obtain ⟨name, inside, mem⟩ := List.mem_flatMap.mp mem
    rcases List.mem_cons.mp mem with rfl | mem
    · rfl
    · rw [letters name inside c mem, Bool.not_false]
  rw [finds_iff, after?_marker_append]
  simp [List.takeWhile_eq_self_iff.mpr unbroken]

theorem forall_finds_iff_dominated {names others : List Bytes} {p q : Query}
    (named : ∀ name ∈ names, IsName name) (named' : ∀ name ∈ others, IsName name)
    (asked : p.names = names.map asText) (asked' : q.names = others.map asText) :
    (∀ text, q.finds text = true → p.finds text = true) ↔ p.Dominated q := by
  constructor
  · intro more name mem
    have letters : Pattern.Unbroken q.names := by
      rw [asked']
      exact unbroken_of_named named'
    have found : q.finds (marker ++ spaced q.names) = true :=
      (finds_spaced_iff letters).mpr fun other mem => infix_spaced mem
    have occurs := (finds_spaced_iff letters).mp (more _ found) name mem
    rw [asked] at mem
    obtain ⟨bytes, spelled, rfl⟩ := List.mem_map.mp mem
    have apart : ' ' ∉ asText bytes := fun blank => ((named bytes spelled).letter _ blank).1 rfl
    exact exists_infix_of_infix_spaced (named bytes spelled).asText_ne_nil apart occurs
  · intro dominated text found
    exact dominated.finds found

theorem finds_congr {p q : Query} (same : ∀ name, name ∈ p.names ↔ name ∈ q.names) (text : Text) :
    p.finds text = q.finds text := by
  have part : p.Dominated q := fun name mem => ⟨name, (same name).mp mem, List.infix_rfl⟩
  have part' : q.Dominated p := fun name mem => ⟨name, (same name).mpr mem, List.infix_rfl⟩
  rw [Bool.eq_iff_iff]
  exact ⟨part'.finds, part.finds⟩

end Query

theorem Hit.inText_congr {p q : Query} (same : ∀ text, p.finds text = q.finds text) (path : Bytes)
    (contents : Text) : inText p path contents = inText q path contents := by
  simp only [inText, same]

theorem Finding.ofRoots_congr {p q : Query} (same : ∀ text, p.finds text = q.finds text)
    (look : Bytes → Except Path.Fault Node) (roots : List Bytes) :
    ofRoots p look roots = ofRoots q look roots := by
  have inVisit : ∀ root, ofVisit p root = ofVisit q root := by
    intro root
    funext v
    simp only [ofVisit, ofFile, Hit.inText_congr same]
  simp only [ofRoots, ofRoot, inVisit]

theorem Outcome.search_congr {fits : List Text → Bool} {abbreviation other : Text} {p q : Query}
    (compiled : Query.ofAbbreviation abbreviation fits = .ok p)
    (compiled' : Query.ofAbbreviation other fits = .ok q)
    (same : ∀ text, p.finds text = q.finds text) (s : Surroundings) (roots : List Bytes)
    (json : Bool) (level : Option Level) :
    let left := ofRequest { s with fits } ⟨.search abbreviation roots json, level⟩
    let right := ofRequest { s with fits } ⟨.search other roots json, level⟩
    left.exit = right.exit ∧ left.output = right.output := by
  have filled {text : Text} {q : Query} (compiled : Query.ofAbbreviation text fits = .ok q) :
      text ≠ [] := by
    obtain ⟨names, spells, -⟩ := Query.exists_spells_of_ofAbbreviation compiled
    exact spells.ne_nil
  intro left right
  simp only [left, right, ofRequest]
  cases Surroundings.settings { s with fits } level with
  | error fault => exact ⟨rfl, rfl⟩
  | ok settings =>
    simp only [Command.run, Command.putMatches_of_ok (filled compiled) compiled,
      Command.putMatches_of_ok (filled compiled') compiled', Finding.ofRoots_congr same, ofEnding]
    cases (Search.run (Command.format json) s.sink (Finding.ofRoots q s.look roots)).report with
    | none => exact ⟨rfl, rfl⟩
    | some report => exact ⟨rfl, rfl⟩

namespace Query

open Abbreviation

theorem pattern_ne_of_ne {fits : List Text → Bool} {abbreviation other : Text} {p q : Query}
    (compiled : ofAbbreviation abbreviation fits = .ok p)
    (compiled' : ofAbbreviation other fits = .ok q)
    (different : abbreviation ≠ other) : p.pattern ≠ q.pattern := by
  obtain ⟨names, spells, rfl⟩ := exists_spells_of_ofAbbreviation compiled
  obtain ⟨others, spells', rfl⟩ := exists_spells_of_ofAbbreviation compiled'
  intro same
  have classes := Pattern.Regex.classNames_eq_of_ofAtoms_eq same
  rw [classNames_map_classOf, classNames_map_classOf] at classes
  exact different (by rw [← spells.flatMap_eq, classes, spells'.flatMap_eq])

/-- The query of one abbreviation finds all that the query of another finds exactly when each of its
names is part of one of the other's. Abbreviations of the same names put out the same, though their
patterns differ. -/
theorem forall_finds_iff_parts {fits : List Text → Bool} {abbreviation other : Text} {p q : Query}
    (compiled : ofAbbreviation abbreviation fits = .ok p)
    (compiled' : ofAbbreviation other fits = .ok q) :
    ((∀ text, q.finds text = true → p.finds text = true) ↔
      ∀ name ∈ p.names, ∃ wider ∈ q.names, name <:+: wider) ∧
    ((∀ name, name ∈ p.names ↔ name ∈ q.names) →
      (∀ format sink look roots, Search.run format sink (Finding.ofRoots p look roots) =
        Search.run format sink (Finding.ofRoots q look roots)) ∧
      (∀ (s : Surroundings) roots json level,
        let left := Outcome.ofRequest { s with fits } ⟨.search abbreviation roots json, level⟩
        let right := Outcome.ofRequest { s with fits } ⟨.search other roots json, level⟩
        left.exit = right.exit ∧ left.output = right.output) ∧
      (abbreviation ≠ other → p.pattern ≠ q.pattern)) := by
  constructor
  · obtain ⟨names, spells, rfl⟩ := exists_spells_of_ofAbbreviation compiled
    obtain ⟨others, spells', rfl⟩ := exists_spells_of_ofAbbreviation compiled'
    exact forall_finds_iff_dominated spells.named spells'.named rfl rfl
  · intro same
    have agree := finds_congr same
    refine ⟨?_, ?_, pattern_ne_of_ne compiled compiled'⟩
    · intro format sink look roots
      rw [Finding.ofRoots_congr agree]
    · exact Outcome.search_congr compiled compiled' agree

/-- The names of two abbreviations in another order and with a repetition. -/
theorem forall_finds_iff_parts_reordered :
    let p : Query := ⟨["b".toList, "ab".toList], "className=(?=.*?b)(?=.*?ab).*".toList⟩
    let q : Query := ⟨["ab".toList, "b".toList, "ab".toList],
      "className=(?=.*?ab)(?=.*?b)(?=.*?ab).*".toList⟩
    ofAbbreviation ".b.ab".toList isSmall = .ok p ∧
      ofAbbreviation ".ab.b.ab".toList isSmall = .ok q ∧
      ((∀ text, q.finds text = true → p.finds text = true) ↔
        ∀ name ∈ p.names, ∃ wider ∈ q.names, name <:+: wider) ∧
      (∀ name, name ∈ p.names ↔ name ∈ q.names) ∧
      (∀ format sink look roots, Search.run format sink (Finding.ofRoots p look roots) =
        Search.run format sink (Finding.ofRoots q look roots)) ∧
      p.pattern ≠ q.pattern := by
  intro p q
  have spells : Spells [Utf8.ofString "b", Utf8.ofString "ab"] ".b.ab".toList :=
    ⟨by simp, by decide +kernel, by rfl⟩
  have spells' : Spells [Utf8.ofString "ab", Utf8.ofString "b", Utf8.ofString "ab"]
      ".ab.b.ab".toList := ⟨by simp, by decide +kernel, by rfl⟩
  have compiled : ofAbbreviation ".b.ab".toList isSmall = .ok p :=
    ofAbbreviation_of_spells spells (by decide +kernel)
  have compiled' : ofAbbreviation ".ab.b.ab".toList isSmall = .ok q :=
    ofAbbreviation_of_spells spells' (by decide +kernel)
  have same : ∀ name, name ∈ p.names ↔ name ∈ q.names := by
    intro name
    simp only [p, q, List.mem_cons, List.not_mem_nil, or_false]
    tauto
  obtain ⟨included, agree⟩ := forall_finds_iff_parts compiled compiled'
  exact ⟨compiled, compiled', included, same, (agree same).1, (agree same).2.2 (by decide)⟩

end Query

end ClassQuery
