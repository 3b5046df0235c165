import ClassQuery.Proofs.Abbreviation.Scanning
import ClassQuery.Proofs.Query.Agreement

/-!
What an abbreviation is translated to, and where a text that is none goes wrong.

Main statement: the texts that have a pattern are exactly the rows of at least one name, the
pattern shows the names as they are, and any other text but the empty one is refused just behind
the longest row that it begins with. A query asks for the names of the row, in order and with
repetitions, none of which has a blank or a break in it.
-/

set_option autoImplicit false
set_option relaxedAutoImplicit false

/-! ### Patterns of abbreviations -/

namespace ClassQuery.Pattern

open Abbreviation

/-- The bytes of the pattern of a row of names, in which the names stand as they are. -/
def spelled (names : List Bytes) : Bytes :=
  Utf8.ofString "className=" ++
    names.flatMap (fun name => Utf8.ofString "(?=.*?" ++ name ++ Utf8.ofString ")") ++
    Utf8.ofString ".*"

private theorem isMeta_eq_false {b : UInt8} (h : b ∈ alphabet) :
    isMeta (Char.ofNat b.toNat) = false := by
  revert b
  decide +kernel

theorem escape_asText {name : Bytes} (named : IsName name) :
    escape (asText name) = asText name := by
  have plain : ∀ bytes : Bytes, (∀ b ∈ bytes, b ∈ alphabet) →
      escape (asText bytes) = asText bytes := by
    intro bytes inside
    induction bytes with
    | nil => rfl
    | cons b bytes ih =>
      rw [List.forall_mem_cons] at inside
      have first : asText (b :: bytes) = Char.ofNat b.toNat :: asText bytes := rfl
      rw [first, escape_cons, isMeta_eq_false inside.1, ih inside.2]
      rfl
  exact plain name named.2

theorem encode_lookahead_asText {name : Bytes} (named : IsName name) :
    Utf8.encode (lookahead (asText name)) =
      Utf8.ofString "(?=.*?" ++ name ++ Utf8.ofString ")" := by
  have written : lookahead (asText name) =
      "(?=.*?".toList ++ escape (asText name) ++ ")".toList := rfl
  rw [written, Utf8.encode_append, Utf8.encode_append, escape_asText named, named.encode_asText]

theorem encode_ofAtoms_classOf {names : List Bytes} (named : ∀ name ∈ names, IsName name) :
    Utf8.encode (ofAtoms (names.map classOf)) = spelled names := by
  have middle : Utf8.encode ((names.map classOf).flatMap ofAtom) =
      names.flatMap fun name => Utf8.ofString "(?=.*?" ++ name ++ Utf8.ofString ")" := by
    induction names with
    | nil => rfl
    | cons name names ih =>
      rw [List.forall_mem_cons] at named
      have one : ofAtom (classOf name) = lookahead (asText name) := rfl
      rw [List.map_cons, List.flatMap_cons, List.flatMap_cons, Utf8.encode_append, one,
        encode_lookahead_asText named.1, ih named.2]
  rw [ofAtoms, Utf8.encode_append, Utf8.encode_append, middle]
  rfl

theorem ordered_map_classOf (names : List Bytes) :
    ordered (names.map classOf) =
      if names = [] then .error .empty else .ok (names.map classOf) := by
  cases names with
  | nil => rfl
  | cons name names =>
    have follow : (names.map classOf).all (·.kind.mayFollow) = true := by
      rw [List.all_eq_true]
      intro a member
      obtain ⟨other, -, rfl⟩ := List.mem_map.mp member
      rfl
    rw [if_neg (List.cons_ne_nil _ _), List.map_cons, ordered, follow]
    rfl

/-- The three ways in which a translation ends, by the row that the bytes begin with. -/
theorem exists_ofAbbreviation_eq (abbreviation : Text) : ∃ names rest, EndsBefore names rest ∧
    Utf8.encode abbreviation = row names ++ rest ∧
    ofAbbreviation abbreviation =
      if rest ≠ [] then .error (.invalid (some (row names).length))
      else if names = [] then .error .empty
      else .ok (ofAtoms (names.map classOf)) := by
  obtain ⟨names, rest, ends, parts, scanned⟩ := exists_scan_eq abbreviation
  refine ⟨names, rest, ends, parts, ?_⟩
  rw [ofAbbreviation, parse, scanned]
  by_cases empty : rest = []
  · rw [if_pos empty, if_neg (not_not.mpr empty)]
    simp only [ordered_map_classOf]
    split <;> rfl
  · rw [if_neg empty, if_pos empty]
    rfl

theorem exists_front_of_row {names : List Bytes} {rest : Bytes} {text : Text}
    (named : ∀ name ∈ names, IsName name) (h : Utf8.encode text = row names ++ rest) :
    ∃ front back, text = front ++ back ∧ Utf8.size front = (row names).length := by
  have whole := encode_asText_row named
  have begun : Utf8.encode (asText (row names)) <+: Utf8.encode text := by
    rw [whole, h]
    exact List.prefix_append ..
  obtain ⟨back, joined⟩ := Utf8.prefix_of_encode_prefix begun
  exact ⟨_, back, joined.symm, by rw [Utf8.size, whole]⟩

theorem ofAbbreviation_nil : ofAbbreviation [] = .error .empty := by
  obtain ⟨names, rest, -, parts, translated⟩ := exists_ofAbbreviation_eq []
  obtain ⟨none, rfl⟩ := List.append_eq_nil_iff.mp parts.symm
  obtain rfl : names = [] := by
    cases names with
    | nil => rfl
    | cons _ _ => simp at none
  exact translated

theorem exists_row_of_ofAbbreviation {s pattern : Text} (h : ofAbbreviation s = .ok pattern) :
    ∃ names, names ≠ [] ∧ (∀ name ∈ names, IsName name) ∧ Utf8.encode s = row names := by
  obtain ⟨names, rest, ends, parts, translated⟩ := exists_ofAbbreviation_eq s
  rw [translated] at h
  split at h
  · cases h
  · next empty =>
    split at h
    · cases h
    · next filled =>
      rw [not_not] at empty
      exact ⟨names, filled, ends.named, by rw [parts, empty, List.append_nil]⟩

theorem ofAbbreviation_of_row {s : Text} {names : List Bytes} (filled : names ≠ [])
    (named : ∀ name ∈ names, IsName name) (whole : Utf8.encode s = row names) :
    ∃ pattern, ofAbbreviation s = .ok pattern ∧ Utf8.encode pattern = spelled names := by
  refine ⟨ofAtoms (names.map classOf), ?_, encode_ofAtoms_classOf named⟩
  rw [ofAbbreviation, parse, scan_of_row named whole]
  simp only [ordered_map_classOf, if_neg filled]
  rfl

theorem ofAbbreviation_of_not_isRow {s : Text} (other : ¬ IsRow (Utf8.encode s)) :
    ∃ p, ofAbbreviation s = .error (.invalid (some p)) ∧
      IsGreatest {n | n ≤ Utf8.size s ∧ IsRow ((Utf8.encode s).take n)} p ∧ p < Utf8.size s ∧
      ∃ front back, s = front ++ back ∧ Utf8.size front = p := by
  obtain ⟨names, rest, ends, parts, translated⟩ := exists_ofAbbreviation_eq s
  have more : rest ≠ [] := by
    rintro rfl
    exact other ⟨names, ends.named, by rw [parts, List.append_nil]⟩
  have greatest := ends.isGreatest
  rw [← parts] at greatest
  refine ⟨(row names).length, by rw [translated, if_pos more], greatest, ?_,
    exists_front_of_row ends.named parts⟩
  rw [Utf8.size, parts, List.length_append]
  exact Nat.lt_add_of_pos_right (List.length_pos_iff.mpr more)

theorem ofAbbreviation_ne_error {s : Text} {fault : Fault}
    (h : fault = .wrongOrder ∨ fault = .invalid none) : ofAbbreviation s ≠ .error fault := by
  obtain ⟨names, rest, -, -, translated⟩ := exists_ofAbbreviation_eq s
  rw [translated]
  rcases h with rfl | rfl
  all_goals
    repeat' split
    all_goals simp

/-- The texts that have a pattern are the rows of at least one name, whose pattern shows the names
as they are. The empty text has no atoms; any other is refused at the end of the longest row that
its bytes begin with. -/
theorem ofAbbreviation_exact (s : Text) :
    ((∃ pattern, ofAbbreviation s = .ok pattern) ↔
      ∃ names, names ≠ [] ∧ (∀ name ∈ names, IsName name) ∧ Utf8.encode s = row names) ∧
    (∀ names, names ≠ [] → (∀ name ∈ names, IsName name) → Utf8.encode s = row names →
      ∃ pattern, ofAbbreviation s = .ok pattern ∧ Utf8.encode pattern = spelled names) ∧
    ofAbbreviation [] = .error .empty ∧
    (¬ IsRow (Utf8.encode s) → ∃ p, ofAbbreviation s = .error (.invalid (some p)) ∧
      IsGreatest {n | n ≤ Utf8.size s ∧ IsRow ((Utf8.encode s).take n)} p ∧ p < Utf8.size s ∧
      ∃ front back, s = front ++ back ∧ Utf8.size front = p) ∧
    ofAbbreviation s ≠ .error .wrongOrder ∧ ofAbbreviation s ≠ .error (.invalid none) := by
  refine ⟨⟨?_, ?_⟩, ?_, ofAbbreviation_nil, ofAbbreviation_of_not_isRow,
    ofAbbreviation_ne_error (.inl rfl), ofAbbreviation_ne_error (.inr rfl)⟩
  · rintro ⟨pattern, ok⟩
    exact exists_row_of_ofAbbreviation ok
  · rintro ⟨names, filled, named, whole⟩
    obtain ⟨pattern, ok, -⟩ := ofAbbreviation_of_row filled named whole
    exact ⟨pattern, ok⟩
  · intro names filled named whole
    exact ofAbbreviation_of_row filled named whole

/-- A row in which a name comes twice has a pattern. A letter past ASCII behind a name is refused,
and the row ends before it. -/
theorem ofAbbreviation_exact_repeated :
    (∃ pattern, ofAbbreviation ".b-1.a.b-1".toList = .ok pattern ∧
      Utf8.encode pattern =
        spelled [Utf8.ofString "b-1", Utf8.ofString "a", Utf8.ofString "b-1"]) ∧
    ∃ p, ofAbbreviation ".a.bé".toList = .error (.invalid (some p)) ∧
      IsGreatest {n | n ≤ Utf8.size ".a.bé".toList ∧
        IsRow ((Utf8.encode ".a.bé".toList).take n)} p ∧ p < Utf8.size ".a.bé".toList ∧
      ∃ front back, ".a.bé".toList = front ++ back ∧ Utf8.size front = p := by
  have other : ¬ IsRow (Utf8.encode ".a.bé".toList) := by
    rintro ⟨names, named, whole⟩
    have written : Utf8.encode ".a.bé".toList = [46, 97, 46, 98, 0xC3, 0xA9] := by cbv
    have small := toNat_lt_of_mem_row named 0xC3 (by rw [← whole, written]; simp)
    exact absurd small (by decide)
  have repeated : ∀ name ∈ [Utf8.ofString "b-1", Utf8.ofString "a", Utf8.ofString "b-1"],
      IsName name := by
    simp only [List.forall_mem_cons]
    decide +kernel
  exact ⟨(ofAbbreviation_exact _).2.1 _ (by simp) repeated (by rfl),
    (ofAbbreviation_exact _).2.2.2.1 other⟩

end ClassQuery.Pattern

/-! ### Queries for abbreviations -/

namespace ClassQuery

theorem Pattern.ofAbbreviation_of_parse {text : Text} {atoms : List Atom}
    (parsed : Abbreviation.parse text = .ok atoms) : ofAbbreviation text = .ok (ofAtoms atoms) := by
  rw [ofAbbreviation, parsed]
  rfl

namespace Abbreviation

/-- The names are those of an abbreviation, in order and with repetitions. -/
structure Spells (names : List Bytes) (abbreviation : Text) : Prop where
  filled : names ≠ []
  named : ∀ name ∈ names, IsName name
  whole : Utf8.encode abbreviation = row names

def IsAbbreviation (text : Text) : Prop := ∃ names, Spells names text

theorem Spells.ne_nil {names : List Bytes} {abbreviation : Text}
    (spells : Spells names abbreviation) : abbreviation ≠ [] := by
  rintro rfl
  obtain ⟨name, names, rfl⟩ := List.exists_cons_of_ne_nil spells.filled
  cases spells.whole

theorem Spells.flatMap_eq {names : List Bytes} {abbreviation : Text}
    (spells : Spells names abbreviation) :
    (names.map asText).flatMap ('.' :: ·) = abbreviation := by
  apply Utf8.encode_injective
  rw [← asText_row, encode_asText_row spells.named, spells.whole]

theorem Spells.parse_eq {names : List Bytes} {abbreviation : Text}
    (spells : Spells names abbreviation) : parse abbreviation = .ok (names.map classOf) := by
  rw [parse, scan_of_row spells.named spells.whole]
  simp only [Pattern.ordered_map_classOf, if_neg spells.filled]

theorem exists_spells_of_parse {text : Text} {atoms : List Atom} (parsed : parse text = .ok atoms) :
    ∃ names, Spells names text ∧ atoms = names.map classOf := by
  obtain ⟨names, filled, named, whole⟩ :=
    Pattern.exists_row_of_ofAbbreviation (Pattern.ofAbbreviation_of_parse parsed)
  have spells : Spells names text := ⟨filled, named, whole⟩
  refine ⟨names, spells, ?_⟩
  rw [spells.parse_eq] at parsed
  exact (Except.ok.inj parsed).symm

theorem isAbbreviation_iff_parse (text : Text) :
    IsAbbreviation text ↔ ∃ atoms, parse text = .ok atoms := by
  constructor
  · rintro ⟨names, spells⟩
    exact ⟨_, spells.parse_eq⟩
  · rintro ⟨atoms, parsed⟩
    obtain ⟨names, spells, -⟩ := exists_spells_of_parse parsed
    exact ⟨names, spells⟩

theorem classNames_map_classOf (names : List Bytes) :
    Atom.classNames (names.map classOf) = names.map asText := by
  induction names with
  | nil => rfl
  | cons name names ih =>
    have first : (classOf name).className? = some (asText name) := rfl
    rw [List.map_cons, Atom.classNames, List.filterMap_cons_some first, List.map_cons]
    exact congrArg (asText name :: ·) ih

private theorem letter_of_mem_alphabet {b : UInt8} (h : b ∈ alphabet) :
    Char.ofNat b.toNat ≠ ' ' ∧ Pattern.isBreak (Char.ofNat b.toNat) = false := by
  revert b
  decide +kernel

theorem IsName.letter {name : Bytes} (named : IsName name) :
    ∀ c ∈ asText name, c ≠ ' ' ∧ Pattern.isBreak c = false := by
  intro c mem
  obtain ⟨b, inside, rfl⟩ := List.mem_map.mp mem
  exact letter_of_mem_alphabet (named.2 b inside)

theorem unbroken_of_named {names : List Bytes} (named : ∀ name ∈ names, IsName name) :
    Pattern.Unbroken (names.map asText) := by
  intro name mem c inside
  obtain ⟨bytes, listed, rfl⟩ := List.mem_map.mp mem
  exact ((named bytes listed).letter c inside).2

theorem IsName.asText_ne_nil {name : Bytes} (named : IsName name) : asText name ≠ [] := by
  rw [asText, ne_eq, List.map_eq_nil_iff]
  exact named.1

end Abbreviation

namespace Query

open Abbreviation

variable {fits : List Text → Bool}

theorem ofAbbreviation_of_parse {abbreviation : Text} {atoms : List Atom}
    (parsed : parse abbreviation = .ok atoms) :
    ofAbbreviation abbreviation fits = ofAtoms atoms fits := by
  rw [ofAbbreviation, parsed]

theorem ofAbbreviation_of_spells {names : List Bytes} {abbreviation : Text}
    (spells : Spells names abbreviation) (small : fits (names.map asText) = true) :
    ofAbbreviation abbreviation fits =
      .ok ⟨names.map asText, Pattern.ofAtoms (names.map classOf)⟩ := by
  rw [← classNames_map_classOf] at small ⊢
  rw [ofAbbreviation_of_parse spells.parse_eq, ofAtoms_of_fits small]

theorem ofAbbreviation_of_large {names : List Bytes} {abbreviation : Text}
    (spells : Spells names abbreviation) (large : fits (names.map asText) = false) :
    ofAbbreviation abbreviation fits = .error (.uncompiled (.tooLarge sizeLimit)) := by
  rw [ofAbbreviation_of_parse spells.parse_eq, ofAtoms, classNames_map_classOf]
  exact if_neg (by rw [large]; exact Bool.false_ne_true)

theorem exists_spells_of_ofAbbreviation {abbreviation : Text} {q : Query}
    (compiled : ofAbbreviation abbreviation fits = .ok q) :
    ∃ names, Spells names abbreviation ∧
      q = ⟨names.map asText, Pattern.ofAtoms (names.map classOf)⟩ := by
  unfold ofAbbreviation at compiled
  split at compiled
  · next atoms parsed =>
    obtain ⟨names, spells, rfl⟩ := exists_spells_of_parse parsed
    refine ⟨names, spells, ?_⟩
    rw [ofAtoms_eq_ok compiled, classNames_map_classOf]
  · cases compiled

end Query

end ClassQuery
