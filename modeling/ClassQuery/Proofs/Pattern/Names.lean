import ClassQuery.Proofs.Abbreviation.Translation

/-!
The names in a pattern.

The reader of names knows no regular expressions. It knows what a lookahead opens with, that the
first closing bracket without a backslash of its own ends it, and that a backslash stands only for
the character behind it. Main statement: a pattern tells the names of the classes that it was built
from, in order and with repetitions, and nothing else about the atoms; the pattern of an
abbreviation tells the abbreviation.
-/

set_option autoImplicit false
set_option relaxedAutoImplicit false

namespace ClassQuery.Pattern

/-- What stands before the first closing bracket that is not escaped, and what stands behind it. -/
def cutAtBracket : Text → Option (Text × Text)
  | [] => none
  | ')' :: rest => some ([], rest)
  | '\\' :: c :: rest => (cutAtBracket rest).map fun cut => ('\\' :: c :: cut.1, cut.2)
  | c :: rest => (cutAtBracket rest).map fun cut => (c :: cut.1, cut.2)

def unescape : Text → Text
  | [] => []
  | '\\' :: c :: rest => c :: unescape rest
  | c :: rest => c :: unescape rest

theorem length_lt_of_cutAtBracket {text field rest : Text}
    (cut : cutAtBracket text = some (field, rest)) : rest.length < text.length := by
  fun_induction cutAtBracket text generalizing field with
  | case1 => cases cut
  | case2 rest =>
    cases cut
    simp
  | case3 c more ih | case4 c more _ _ ih =>
    obtain ⟨parts, found, same⟩ := Option.map_eq_some_iff.mp cut
    cases same
    have shorter := ih found
    simp only [List.length_cons]
    omega

/-- The names in a row of lookaheads and the rest of a line, as patterns end. -/
def namesAhead? (written : Text) : Option (List Text) :=
  match written with
  | '(' :: '?' :: '=' :: '.' :: '*' :: '?' :: inside =>
    match _h : cutAtBracket inside with
    | some (field, rest) => (namesAhead? rest).map (unescape field :: ·)
    | none => none
  | ['.', '*'] => some []
  | _ => none
termination_by written.length
decreasing_by
  have shorter := length_lt_of_cutAtBracket _h
  simp only [List.length_cons]
  omega

def names? (written : Text) : Option (List Text) :=
  if marker.isPrefixOf written then namesAhead? (written.drop marker.length) else none

private theorem cutAtBracket_plain {c : Char} (plain : isMeta c = false) (rest : Text) :
    cutAtBracket (c :: rest) = (cutAtBracket rest).map fun cut => (c :: cut.1, cut.2) := by
  have bracket : c ≠ ')' := ne_of_isMeta plain rfl
  have slash : c ≠ '\\' := ne_of_isMeta plain rfl
  rw [cutAtBracket]
  · exact bracket
  · intro d more same
    exact absurd same slash

theorem cutAtBracket_escape (name rest : Text) :
    cutAtBracket (escape name ++ ')' :: rest) = some (escape name, rest) := by
  induction name with
  | nil => rw [escape, List.flatMap_nil, List.nil_append, cutAtBracket]
  | cons c name ih =>
    rw [escape_cons]
    cases special : isMeta c with
    | true =>
      show cutAtBracket ('\\' :: c :: (escape name ++ ')' :: rest)) = _
      rw [cutAtBracket, ih]
      rfl
    | false =>
      show cutAtBracket (c :: (escape name ++ ')' :: rest)) = _
      rw [cutAtBracket_plain special, ih]
      rfl

theorem unescape_escape (name : Text) : unescape (escape name) = name := by
  induction name with
  | nil => rfl
  | cons c name ih =>
    rw [escape_cons]
    cases special : isMeta c with
    | true =>
      show unescape ('\\' :: c :: escape name) = _
      rw [unescape, ih]
    | false =>
      show unescape (c :: escape name) = _
      rw [unescape, ih]
      intro d more same
      exact absurd same (ne_of_isMeta special rfl)

theorem namesAhead?_lookahead (name rest : Text) :
    namesAhead? (lookahead name ++ rest) = (namesAhead? rest).map (name :: ·) := by
  rw [lookahead_append]
  show namesAhead? ('(' :: '?' :: '=' :: '.' :: '*' :: '?' :: (escape name ++ ')' :: rest)) = _
  rw [namesAhead?]
  split
  · next field left cut =>
    rw [cutAtBracket_escape] at cut
    cases cut
    rw [unescape_escape]
  · next none =>
    rw [cutAtBracket_escape] at none
    cases none

theorem namesAhead?_lookaheads (names : List Text) :
    namesAhead? (names.flatMap lookahead ++ ".*".toList) = some names := by
  induction names with
  | nil =>
    show namesAhead? ['.', '*'] = _
    rw [namesAhead?]
  | cons name names ih =>
    rw [List.flatMap_cons, List.append_assoc, namesAhead?_lookahead, ih]
    rfl

theorem names?_ofAtoms (atoms : List Atom) :
    names? (ofAtoms atoms) = some (Atom.classNames atoms) := by
  have begins : marker.isPrefixOf (ofAtoms atoms) = true := by
    rw [List.isPrefixOf_iff_prefix, ofAtoms, List.append_assoc]
    exact List.prefix_append ..
  rw [names?, if_pos begins, ofAtoms, List.append_assoc, List.drop_left, flatMap_ofAtom,
    namesAhead?_lookaheads]

theorem ofAtoms_eq_iff {atoms others : List Atom} :
    ofAtoms atoms = ofAtoms others ↔ Atom.classNames atoms = Atom.classNames others := by
  constructor
  · exact Regex.classNames_eq_of_ofAtoms_eq
  · intro same
    rw [ofAtoms, ofAtoms, flatMap_ofAtom, flatMap_ofAtom, same]

theorem exists_names?_of_ofAbbreviation {s pattern : Text}
    (translated : ofAbbreviation s = .ok pattern) :
    ∃ names, names? pattern = some names ∧ names.flatMap ('.' :: ·) = s := by
  cases parsed : Abbreviation.parse s with
  | error fault =>
    rw [ofAbbreviation, parsed] at translated
    cases translated
  | ok atoms =>
    rw [ofAbbreviation_of_parse parsed] at translated
    obtain ⟨names, spells, rfl⟩ := Abbreviation.exists_spells_of_parse parsed
    refine ⟨names.map Abbreviation.asText, ?_, spells.flatMap_eq⟩
    rw [← Except.ok.inj translated, names?_ofAtoms, Abbreviation.classNames_map_classOf]

/-- Two patterns are equal exactly when the names of their classes are, which can be read back from
a pattern. Two abbreviations with one pattern are the same. -/
theorem ofAtoms_lossless :
    (∀ atoms others, ofAtoms atoms = ofAtoms others ↔
      Atom.classNames atoms = Atom.classNames others) ∧
    (∀ atoms, names? (ofAtoms atoms) = some (Atom.classNames atoms)) ∧
    ∀ s t p q, ofAbbreviation s = .ok p → ofAbbreviation t = .ok q → (p = q ↔ s = t) := by
  refine ⟨fun _ _ => ofAtoms_eq_iff, names?_ofAtoms, ?_⟩
  intro s t p q translated translated'
  constructor
  · intro same
    obtain ⟨names, read, whole⟩ := exists_names?_of_ofAbbreviation translated
    obtain ⟨others, read', whole'⟩ := exists_names?_of_ofAbbreviation translated'
    rw [same, read'] at read
    cases read
    rw [← whole, whole']
  · intro same
    rw [same, translated'] at translated
    exact (Except.ok.inj translated).symm

/-- A name that looks like the end of one lookahead and the start of the next is read back whole,
and so are an empty name and a lone backslash. The same names in another order make another
pattern. -/
theorem ofAtoms_lossless_of_lookalikes :
    names? (ofAtoms [.ofClass ")(?=.*?".toList, ⟨.ident, "a".toList⟩, .ofClass [],
      .ofClass "\\".toList]) = some [")(?=.*?".toList, [], "\\".toList] ∧
    ∃ p q, ofAbbreviation ".a.b".toList = .ok p ∧ ofAbbreviation ".b.a".toList = .ok q ∧
      (p = q ↔ ".a.b".toList = ".b.a".toList) ∧ p ≠ q := by
  have spells : Abbreviation.Spells [Utf8.ofString "a", Utf8.ofString "b"] ".a.b".toList :=
    ⟨by simp, by decide +kernel, by rfl⟩
  have spells' : Abbreviation.Spells [Utf8.ofString "b", Utf8.ofString "a"] ".b.a".toList :=
    ⟨by simp, by decide +kernel, by rfl⟩
  have translated := ofAbbreviation_of_parse spells.parse_eq
  have translated' := ofAbbreviation_of_parse spells'.parse_eq
  have told := ofAtoms_lossless.2.2 _ _ _ _ translated translated'
  refine ⟨ofAtoms_lossless.2.1 _, _, _, translated, translated', told, ?_⟩
  rw [ne_eq, told]
  decide

end ClassQuery.Pattern
