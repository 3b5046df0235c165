import ClassQuery.Proofs.Abbreviation.Translation
import ClassQuery.Proofs.Search.Lines

/-!
Hits and the matches of the pattern.

A query looks behind the first marker of a line only, and no further than a carriage return, while
the pattern may match at any marker. Main statement: the hits in a text are the lines on which the
pattern has a match, but for the matches that stand behind a marker and a carriage return on their
line; where carriage returns stand in front of line feeds only, there are none of these.
-/

set_option autoImplicit false
set_option relaxedAutoImplicit false

namespace ClassQuery

open Pattern (Unbroken marker isBreak marker_ne_nil marker_unbroken meaning not_mem_marker
  takeWhile_append_break)
open Pattern.Regex (MatchesAt matchesAt_meaning_iff_occur)

/-- A marker and, behind it, a carriage return stand on the line that a text ends in. -/
def Text.Hides (before : Text) : Prop :=
  ∃ front between, before = front ++ marker ++ between ∧ '\r' ∈ between ∧ '\n' ∉ between

theorem Text.hides_append {lines near : Text}
    (starts : lines = [] ∨ ∃ front, lines = front ++ ['\n']) :
    Hides (lines ++ near) ↔ Hides near := by
  constructor
  · rintro ⟨front, between, joined, inside, sameLine⟩
    rcases starts with rfl | ⟨earlier, rfl⟩
    · exact ⟨front, between, joined, inside, sameLine⟩
    have fresh : '\n' ∉ marker ++ between := by
      rw [List.mem_append, not_or]
      exact ⟨not_mem_marker rfl, sameLine⟩
    rw [List.append_assoc, List.append_assoc, List.singleton_append] at joined
    obtain ⟨more, behind⟩ := Text.suffix_of_suffix_append_cons fresh ⟨front, joined.symm⟩
    exact ⟨more, between, by rw [← behind, List.append_assoc], inside, sameLine⟩
  · rintro ⟨front, between, rfl, inside, sameLine⟩
    exact ⟨lines ++ front, between, by simp, inside, sameLine⟩

theorem Text.not_hides_iff {near : Text} (unbroken : '\n' ∉ near) :
    ¬ Hides near ↔
      ∀ front between, near = front ++ marker ++ between → ∀ c ∈ between, isBreak c = false := by
  constructor
  · rintro clear front between rfl c mem
    have kept : '\n' ∉ between := fun inside => unbroken (List.mem_append_right _ inside)
    rw [Bool.eq_false_iff]
    intro broken
    rcases (by simpa [isBreak] using broken : c = '\n' ∨ c = '\r') with rfl | rfl
    · exact kept mem
    · exact clear ⟨front, between, rfl, mem, kept⟩
  · rintro apart ⟨front, between, cut, inside, -⟩
    cases apart front between cut '\r' inside

namespace Query

variable {q : Query}

/-- A query finds a text where the pattern has a match that no break cuts from a marker before. -/
theorem finds_iff_matchesAt (unbroken : Unbroken q.names) (text : Text) :
    q.finds text = true ↔ ∃ before after, text = before ++ after ∧
      MatchesAt (meaning q.names) after ∧
      ∀ front between, before = front ++ marker ++ between → ∀ c ∈ between, isBreak c = false := by
  rw [finds_iff]
  constructor
  · rintro ⟨tail, found, occur⟩
    obtain ⟨before, joined⟩ := Text.exists_before_of_after? found
    refine ⟨before, marker ++ tail, by rw [joined, List.append_assoc],
      (matchesAt_meaning_iff_occur unbroken).mpr ⟨tail, rfl, occur⟩, ?_⟩
    rintro front between rfl
    obtain ⟨far, first, longer⟩ :=
      Text.exists_suffix_after? marker front (between ++ marker ++ tail)
    have same : front ++ marker ++ (between ++ marker ++ tail) = text := by
      rw [joined]
      simp only [List.append_assoc]
    rw [same, found] at first
    obtain rfl := Option.some.inj first
    have lengths := longer.length_le
    have some : 0 < marker.length := by decide
    simp only [List.length_append] at lengths
    omega
  · rintro ⟨before, after, rfl, matched, near⟩
    obtain ⟨tail, rfl, occur⟩ := (matchesAt_meaning_iff_occur unbroken).mp matched
    rw [← List.append_assoc]
    obtain ⟨far, found, between, rfl⟩ := Text.exists_suffix_after? marker before tail
    refine ⟨_, found, fun name mem => ?_⟩
    have inLine : ∀ c ∈ between, (!isBreak c) = true := by
      obtain ⟨first, joined⟩ := Text.exists_before_of_after? found
      rw [← List.append_assoc] at joined
      rcases List.append_eq_append_iff.mp (List.append_cancel_right joined) with
        ⟨_, -, part⟩ | ⟨more, apart, part⟩
      · intro c mem
        rw [marker_unbroken c (part ▸ List.mem_append_right _ mem), Bool.not_false]
      · intro c mem
        rcases List.mem_append.mp (part ▸ mem) with mem | mem
        · rw [near first more apart c mem, Bool.not_false]
        · rw [marker_unbroken c mem, Bool.not_false]
    rw [List.takeWhile_append_of_pos inLine]
    exact (occur name mem).trans (List.suffix_append ..).isInfix

theorem pattern_of_ofAbbreviation {fits : List Text → Bool} {abbreviation : Text}
    (compiled : ofAbbreviation abbreviation fits = .ok q) :
    Unbroken q.names ∧ Pattern.ofAbbreviation abbreviation = .ok q.pattern ∧
      Pattern.Regex.read? q.pattern = some (meaning q.names) := by
  obtain ⟨names, spells, rfl⟩ := exists_spells_of_ofAbbreviation compiled
  refine ⟨Abbreviation.unbroken_of_named spells.named,
    Pattern.ofAbbreviation_of_parse spells.parse_eq, ?_⟩
  rw [Pattern.Regex.read?_ofAtoms, Abbreviation.classNames_map_classOf]

theorem finds_append_break (line : Text) {b : Char} (broken : isBreak b = true) :
    q.finds (line ++ [b]) = q.finds line := by
  have nothing : Text.after? marker [] = none := by rfl
  unfold finds
  rw [Text.after?_append_cons (not_mem_marker broken) marker_ne_nil, nothing, Option.or_none]
  cases Text.after? marker line with
  | none => rfl
  | some tail => simp only [Option.map_some, takeWhile_append_break tail [] broken]

end Query

theorem matchesAt_append_iff {names : List Text} (unbroken : Unbroken names) {far after : Text}
    (ends : after = [] ∨ ∃ rest, after = '\n' :: rest) :
    MatchesAt (meaning names) (far ++ after) ↔ MatchesAt (meaning names) far := by
  rcases ends with rfl | ⟨rest, rfl⟩
  · rw [List.append_nil]
  rw [matchesAt_meaning_iff_occur unbroken, matchesAt_meaning_iff_occur unbroken]
  constructor
  · rintro ⟨tail, opened, occur⟩
    obtain ⟨near, rfl⟩ :=
      Text.prefix_of_prefix_append_cons (not_mem_marker rfl) ⟨tail, opened.symm⟩
    rw [List.append_assoc] at opened
    obtain rfl := List.append_cancel_left opened
    rw [takeWhile_append_break near rest rfl] at occur
    exact ⟨near, rfl, occur⟩
  · rintro ⟨tail, rfl, occur⟩
    refine ⟨tail ++ '\n' :: rest, List.append_assoc .., ?_⟩
    rwa [takeWhile_append_break tail rest rfl]

namespace Hit

variable {q : Query}

theorem mem_inText_iff_matchesAt (unbroken : Unbroken q.names) (path : Bytes)
    {contents line : Text} {n : Nat} (listed : (Lines.ofText contents)[n]? = some line) :
    ⟨path, n + 1, line⟩ ∈ inText q path contents ↔
      ∃ before after, contents = before ++ after ∧ MatchesAt (meaning q.names) after ∧
        before.count '\n' = n ∧ ¬ before.Hides := by
  obtain ⟨lines, raw, rest, stands, counted, same⟩ := Lines.exists_stands listed
  have found : ⟨path, n + 1, line⟩ ∈ inText q path contents ↔ q.finds raw = true := by
    have finds : q.finds raw = q.finds line := by
      rcases same with rfl | rfl
      · rfl
      · exact Query.finds_append_break line rfl
    rw [mem_inText_iff, finds]
    simp [Query.FindsLine, listed]
  have fresh {near far : Text} (cut : raw = near ++ far) : '\n' ∉ near := fun inside =>
    stands.unbroken (cut ▸ List.mem_append_left _ inside)
  rw [found, Query.finds_iff_matchesAt unbroken]
  constructor
  · rintro ⟨near, far, cut, matched, apart⟩
    refine ⟨lines ++ near, far ++ rest, ?_, (matchesAt_append_iff unbroken stands.ends).mpr matched,
      ?_, ?_⟩
    · rw [stands.whole, cut]
      simp
    · rw [List.count_append, counted, List.count_eq_zero.mpr (fresh cut), Nat.add_zero]
    · rwa [Text.hides_append stands.starts, Text.not_hides_iff (fresh cut)]
  · rintro ⟨before, after, cut, matched, place, clear⟩
    obtain ⟨near, far, rfl, joined, rfl⟩ := stands.exists_inside cut (place.trans counted.symm)
    refine ⟨near, far, joined, (matchesAt_append_iff unbroken stands.ends).mp matched, ?_⟩
    rwa [Text.hides_append stands.starts, Text.not_hides_iff (fresh joined)] at clear

/-- Where carriage returns stand in front of line feeds only, no match of a pattern is hidden. -/
theorem not_hides_of_matchesAt {names : List Text} {before after : Text}
    (unbroken : Unbroken names)
    (paired : ∀ front back, before ++ after = front ++ '\r' :: back → back.head? = some '\n')
    (matched : MatchesAt (meaning names) after) : ¬ before.Hides := by
  obtain ⟨tail, rfl, -⟩ := (matchesAt_meaning_iff_occur unbroken).mp matched
  rintro ⟨front, between, rfl, inside, sameLine⟩
  obtain ⟨start, rest, rfl⟩ := List.append_of_mem inside
  have next := paired (front ++ marker ++ start) (rest ++ (marker ++ tail)) (by simp)
  cases rest with
  | nil => cases next
  | cons c rest =>
    obtain rfl : c = '\n' := by simpa using next
    exact sameLine (by simp)

theorem mem_inText_iff_of_paired (unbroken : Unbroken q.names) (path : Bytes)
    {contents line : Text} {n : Nat} (listed : (Lines.ofText contents)[n]? = some line)
    (paired : ∀ front back, contents = front ++ '\r' :: back → back.head? = some '\n') :
    ⟨path, n + 1, line⟩ ∈ inText q path contents ↔
      ∃ before after, contents = before ++ after ∧ MatchesAt (meaning q.names) after ∧
        before.count '\n' = n := by
  rw [mem_inText_iff_matchesAt unbroken path listed]
  constructor
  · rintro ⟨before, after, cut, matched, place, -⟩
    exact ⟨before, after, cut, matched, place⟩
  · rintro ⟨before, after, cut, matched, place⟩
    exact ⟨before, after, cut, matched, place,
      not_hides_of_matchesAt unbroken (cut ▸ paired) matched⟩

theorem not_foundIn_of_inText_eq_nil (unbroken : Unbroken q.names) {path : Bytes}
    {contents : Text}
    (paired : ∀ front back, contents = front ++ '\r' :: back → back.head? = some '\n')
    (none : inText q path contents = []) : ¬ (meaning q.names).FoundIn contents := by
  rintro ⟨before, after, cut, matched⟩
  have filled : after ≠ [] := by
    obtain ⟨tail, rfl, -⟩ := (matchesAt_meaning_iff_occur unbroken).mp matched
    exact List.append_ne_nil_of_left_ne_nil marker_ne_nil tail
  have listed := List.getElem?_eq_getElem (cut ▸ Lines.count_lt_length_ofText before filled)
  have hit := (mem_inText_iff_of_paired unbroken path listed paired).mpr
    ⟨before, after, cut, matched, rfl⟩
  rw [none] at hit
  cases hit

/-- A line of a text is a hit exactly where the pattern of the abbreviation, read as a regular
expression, has a match that starts on it and is not hidden. Where carriage returns stand in front
of line feeds only, no match is hidden, and without hits the pattern is found nowhere. -/
theorem inText_iff_pattern {fits : List Text → Bool} {abbreviation : Text} {q : Query}
    (compiled : Query.ofAbbreviation abbreviation fits = .ok q) (path : Bytes) (contents : Text) :
    ∃ pattern r, Pattern.ofAbbreviation abbreviation = .ok pattern ∧
      Pattern.Regex.read? pattern = some r ∧
      (∀ n line, (Lines.ofText contents)[n]? = some line →
        (⟨path, n + 1, line⟩ ∈ inText q path contents ↔
          ∃ before after, contents = before ++ after ∧ r.MatchesAt after ∧
            before.count '\n' = n ∧ ¬ before.Hides)) ∧
      ((∀ front back, contents = front ++ '\r' :: back → back.head? = some '\n') →
        (∀ n line, (Lines.ofText contents)[n]? = some line →
          (⟨path, n + 1, line⟩ ∈ inText q path contents ↔
            ∃ before after, contents = before ++ after ∧ r.MatchesAt after ∧
              before.count '\n' = n)) ∧
        (inText q path contents = [] → ¬ r.FoundIn contents)) := by
  obtain ⟨unbroken, translated, read⟩ := Query.pattern_of_ofAbbreviation compiled
  refine ⟨_, _, translated, read, ?_, fun paired => ⟨?_, ?_⟩⟩
  · exact fun n line listed => mem_inText_iff_matchesAt unbroken path listed
  · exact fun n line listed => mem_inText_iff_of_paired unbroken path listed paired
  · exact not_foundIn_of_inText_eq_nil unbroken paired

/-- A line that ends in a carriage return and a line feed, and one behind it. -/
theorem inText_iff_pattern_of_crlf :
    let contents := "className='a b'\r\nclassName=a".toList
    ∃ q, Query.ofAbbreviation ".b.a".toList Query.isSmall = .ok q ∧
      ∃ pattern r, Pattern.ofAbbreviation ".b.a".toList = .ok pattern ∧
        Pattern.Regex.read? pattern = some r ∧ ∀ n line,
          (Lines.ofText contents)[n]? = some line →
          (⟨[], n + 1, line⟩ ∈ inText q [] contents ↔
            ∃ before after, contents = before ++ after ∧ r.MatchesAt after ∧
              before.count '\n' = n) := by
  intro contents
  have spells : Abbreviation.Spells [Utf8.ofString "b", Utf8.ofString "a"] ".b.a".toList :=
    ⟨by simp, by decide +kernel, by rfl⟩
  have compiled := @Query.ofAbbreviation_of_spells Query.isSmall _ _ spells (by decide +kernel)
  have paired : ∀ front back, contents = front ++ '\r' :: back → back.head? = some '\n' := by
    intro front back cut
    have split : contents = "className='a b'".toList ++ '\r' :: "\nclassName=a".toList := rfl
    rw [split, List.append_cons_inj_of_notMem (by decide) (by decide)] at cut
    obtain ⟨-, -, rfl⟩ := cut
    rfl
  obtain ⟨pattern, r, translated, read, -, agree⟩ := inText_iff_pattern compiled [] contents
  exact ⟨_, compiled, pattern, r, translated, read, (agree paired).1⟩

/-- A query stops at the carriage return behind the first marker and misses the match behind the
second, although both stand on one line. -/
theorem inText_misses_behind_carriage_return :
    let contents := "className=a\rclassName=b".toList
    ∃ q pattern r, Query.ofAbbreviation ".b".toList Query.isSmall = .ok q ∧
      Pattern.ofAbbreviation ".b".toList = .ok pattern ∧ Pattern.Regex.read? pattern = some r ∧
      Lines.ofText contents = [contents] ∧
      (∃ before after, contents = before ++ after ∧ r.MatchesAt after ∧ before.count '\n' = 0) ∧
      inText q [] contents = [] := by
  have spells : Abbreviation.Spells [Utf8.ofString "b"] ".b".toList :=
    ⟨by simp, by decide +kernel, by rfl⟩
  have compiled := @Query.ofAbbreviation_of_spells Query.isSmall _ _ spells (by decide +kernel)
  obtain ⟨unbroken, translated, read⟩ := Query.pattern_of_ofAbbreviation compiled
  have matched : (meaning ["b".toList]).MatchesAt "className=b".toList :=
    (matchesAt_meaning_iff_occur unbroken).mpr ⟨"b".toList, rfl, by decide⟩
  exact ⟨_, _, _, compiled, translated, read, by decide +kernel,
    ⟨"className=a\r".toList, "className=b".toList, rfl, matched, by decide⟩, by decide +kernel⟩

end Hit

end ClassQuery
