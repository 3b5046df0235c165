import ClassQuery.Proofs.Text.Line
import ClassQuery.Query

/-!
Queries and patterns agree.

Patterns are read as regular expressions: characters that stand for themselves, escaped characters,
the dot, any number of dots, and lookaheads, which may be nested. A query looks behind the first
marker of a text, and no further than the end of that line. A pattern may match at any marker, but
the first marker of a line leaves the longest tail. Main statement: a query finds a text exactly
when the pattern of its atoms, read as a regular expression, is found in the first line that holds a
marker.
-/

set_option autoImplicit false
set_option relaxedAutoImplicit false

/-! ### Regular expressions -/

namespace ClassQuery.Pattern

inductive Item where
  /-- A character that stands for itself. -/
  | char (c : Char)
  /-- Any character that ends no line. -/
  | any
  /-- Any number of characters that end no line, as few as possible or as many. -/
  | anyNumber (fewest : Bool)
  /-- A condition on what follows, which takes no character itself. -/
  | ahead (items : List Item)

abbrev Regex := List Item

namespace Regex

/-- Whether a backslash takes the meaning from a character and gives it no other: it does so with
all but letters and digits. -/
def isEscapable (c : Char) : Bool := !c.isAlphanum

/-- Reads on inside some open lookaheads, given the items before each of them and the items read
since the last was opened, newest first. -/
def readFrom (outer : List Regex) (items : Regex) : Text → Option Regex
  | [] => if outer.isEmpty then some items.reverse else none
  | '\\' :: c :: rest => if isEscapable c then readFrom outer (.char c :: items) rest else none
  | '.' :: '*' :: '?' :: rest => readFrom outer (.anyNumber true :: items) rest
  | '.' :: '*' :: rest => readFrom outer (.anyNumber false :: items) rest
  | '.' :: rest => readFrom outer (.any :: items) rest
  | '(' :: '?' :: '=' :: rest => readFrom (items :: outer) [] rest
  | ')' :: rest =>
    match outer with
    | [] => none
    | before :: outer => readFrom outer (.ahead items.reverse :: before) rest
  | c :: rest => if isMeta c then none else readFrom outer (.char c :: items) rest

/-- The regular expression that a text is the notation of. -/
def read? (written : Text) : Option Regex := readFrom [] [] written

/-- A regular expression takes the beginning of a text and leaves the rest of it. -/
inductive Takes : Regex → Text → Text → Prop where
  | nil {text : Text} : Takes [] text text
  | char {c : Char} {items : Regex} {text rest : Text} (more : Takes items text rest) :
      Takes (.char c :: items) (c :: text) rest
  | any {c : Char} {items : Regex} {text rest : Text} (inLine : isBreak c = false)
      (more : Takes items text rest) : Takes (.any :: items) (c :: text) rest
  | anyNumber {fewest : Bool} {items : Regex} {skipped text rest : Text}
      (inLine : ∀ c ∈ skipped, isBreak c = false) (more : Takes items text rest) :
      Takes (.anyNumber fewest :: items) (skipped ++ text) rest
  /-- A lookahead takes nothing if its items could take what follows. -/
  | ahead {condition items : Regex} {text left rest : Text} (holds : Takes condition text left)
      (more : Takes items text rest) : Takes (.ahead condition :: items) text rest

def MatchesAt (r : Regex) (text : Text) : Prop := ∃ rest, Takes r text rest

def FoundIn (r : Regex) (text : Text) : Prop :=
  ∃ before after, text = before ++ after ∧ MatchesAt r after

end Regex

/-! ### What a pattern means -/

def ahead (name : Text) : Item := .ahead (.anyNumber true :: name.map .char)

/-- The regular expression that the pattern of some names is the notation of. -/
def meaning (names : List Text) : Regex :=
  marker.map .char ++ names.map ahead ++ [.anyNumber false]

theorem marker_unbroken : ∀ c ∈ marker, isBreak c = false := by
  intro c mem
  have letter : c ∈ "className=".toList := mem
  simp at letter
  rcases letter with rfl | rfl | rfl | rfl | rfl | rfl | rfl | rfl | rfl <;> rfl

theorem marker_ne_nil : marker ≠ [] := by decide

theorem not_mem_marker {b : Char} (h : isBreak b = true) : b ∉ marker := by
  intro inside
  rw [marker_unbroken b inside] at h
  cases h

def Unbroken (names : List Text) : Prop := ∀ name ∈ names, ∀ c ∈ name, isBreak c = false

theorem takeWhile_append_break (line more : Text) {b : Char} (broken : isBreak b = true) :
    (line ++ b :: more).takeWhile (!isBreak ·) = line.takeWhile (!isBreak ·) := by
  rw [List.takeWhile_append]
  split
  · next whole =>
    have same := (List.takeWhile_prefix (p := (!isBreak ·)) (l := line)).eq_of_length whole
    rw [same, List.takeWhile_cons_of_neg (by simp [broken]), List.append_nil]
  · rfl

namespace Regex

private theorem not_alphanum_of_isMeta {c : Char} (h : isMeta c = true) :
    c.isAlphanum = false := by
  simp [isMeta] at h
  rcases h with rfl | rfl | rfl | rfl | rfl | rfl | rfl | rfl | rfl | rfl | rfl | rfl | rfl | rfl
  all_goals rfl

theorem readFrom_escaped (outer : List Regex) (items : Regex) {c : Char} (rest : Text)
    (h : isMeta c = true) :
    readFrom outer items ('\\' :: c :: rest) = readFrom outer (.char c :: items) rest := by
  have escapable : isEscapable c = true := by
    simp only [isEscapable, not_alphanum_of_isMeta h, Bool.not_false]
  rw [readFrom, if_pos escapable]

theorem readFrom_char (outer : List Regex) (items : Regex) {c : Char} (rest : Text)
    (h : isMeta c = false) :
    readFrom outer items (c :: rest) = readFrom outer (.char c :: items) rest := by
  -- every row of the reader before the last one begins with a character that is never plain
  have slash : c ≠ '\\' := ne_of_isMeta h (by decide)
  have point : c ≠ '.' := ne_of_isMeta h (by decide)
  have opened : c ≠ '(' := ne_of_isMeta h (by decide)
  have closed : c ≠ ')' := ne_of_isMeta h (by decide)
  rw [readFrom]
  · rw [h, if_neg Bool.false_ne_true]
  all_goals
    intros
    contradiction

theorem readFrom_escape (outer : List Regex) (items : Regex) (name rest : Text) :
    readFrom outer items (escape name ++ rest) =
      readFrom outer ((name.map Item.char).reverse ++ items) rest := by
  induction name generalizing items with
  | nil => rfl
  | cons c name ih =>
    have step : readFrom outer items (escape (c :: name) ++ rest) =
        readFrom outer (.char c :: items) (escape name ++ rest) := by
      rw [escape_cons]
      cases special : isMeta c with
      | true => exact readFrom_escaped outer items _ special
      | false => exact readFrom_char outer items _ special
    rw [step, ih]
    simp

theorem readFrom_opened (outer : List Regex) (items : Regex) (rest : Text) :
    readFrom outer items ("(?=.*?".toList ++ rest) =
      readFrom (items :: outer) [.anyNumber true] rest := rfl

theorem readFrom_closed (outer : List Regex) (before items : Regex) (rest : Text) :
    readFrom (before :: outer) items (')' :: rest) =
      readFrom outer (.ahead items.reverse :: before) rest := rfl

theorem readFrom_lookahead (outer : List Regex) (items : Regex) (name rest : Text) :
    readFrom outer items (lookahead name ++ rest) = readFrom outer (ahead name :: items) rest := by
  calc readFrom outer items (lookahead name ++ rest)
      = readFrom outer items ("(?=.*?".toList ++ (escape name ++ ')' :: rest)) := by
        rw [lookahead_append]
    _ = readFrom (items :: outer) [.anyNumber true] (escape name ++ ')' :: rest) :=
        readFrom_opened ..
    _ = readFrom (items :: outer) ((name.map Item.char).reverse ++ [.anyNumber true])
          (')' :: rest) := readFrom_escape ..
    _ = readFrom outer (ahead name :: items) rest := by
        rw [readFrom_closed, List.reverse_append, List.reverse_reverse]
        rfl

private theorem readFrom_lookaheads (items : Regex) (names : List Text) (rest : Text) :
    readFrom [] items (names.flatMap lookahead ++ rest) =
      readFrom [] ((names.map ahead).reverse ++ items) rest := by
  induction names generalizing items with
  | nil => rfl
  | cons name names ih =>
    rw [List.flatMap_cons, List.append_assoc, readFrom_lookahead, ih]
    simp

private theorem readFrom_marker (items : Regex) (rest : Text) :
    readFrom [] items (marker ++ rest) =
      readFrom [] ((marker.map Item.char).reverse ++ items) rest := by
  have plain : escape marker = marker := by decide
  rw [← readFrom_escape, plain]

theorem read?_ofAtoms (atoms : List Atom) :
    read? (ofAtoms atoms) = some (meaning (Atom.classNames atoms)) := by
  have last (items : Regex) :
      readFrom [] items ".*".toList = some (.anyNumber false :: items).reverse := rfl
  rw [read?, ofAtoms, flatMap_ofAtom, List.append_assoc, readFrom_marker, readFrom_lookaheads,
    last]
  simp [meaning]

theorem ahead_injective {name other : Text} (same : ahead name = ahead other) : name = other := by
  have items := (List.cons.inj (Item.ahead.inj same)).2
  exact List.map_injective_iff.mpr (fun _ _ => Item.char.inj) items

theorem meaning_injective {names others : List Text} (same : meaning names = meaning others) :
    names = others := by
  rw [meaning, meaning] at same
  have conditions := List.append_cancel_left (List.append_cancel_right same)
  exact List.map_injective_iff.mpr (fun _ _ => ahead_injective) conditions

theorem classNames_eq_of_ofAtoms_eq {atoms others : List Atom}
    (same : ofAtoms atoms = ofAtoms others) :
    Atom.classNames atoms = Atom.classNames others := by
  have read := read?_ofAtoms atoms
  rw [same, read?_ofAtoms] at read
  exact (meaning_injective (Option.some.inj read)).symm

theorem takes_chars_append_iff {word : Text} {items : Regex} {text rest : Text} :
    Takes (word.map .char ++ items) text rest ↔
      ∃ tail, text = word ++ tail ∧ Takes items tail rest := by
  induction word generalizing text with
  | nil => simp
  | cons c word ih =>
    constructor
    · rintro ⟨⟩
      next text more =>
        obtain ⟨tail, rfl, left⟩ := ih.mp more
        exact ⟨tail, rfl, left⟩
    · rintro ⟨tail, rfl, left⟩
      exact .char (ih.mpr ⟨tail, rfl, left⟩)

theorem takes_ahead_iff {condition items : Regex} {text rest : Text} :
    Takes (.ahead condition :: items) text rest ↔
      MatchesAt condition text ∧ Takes items text rest := by
  constructor
  · rintro ⟨⟩
    next left holds more => exact ⟨⟨left, holds⟩, more⟩
  · rintro ⟨⟨left, holds⟩, more⟩
    exact .ahead holds more

theorem takes_anyNumber_nil (fewest : Bool) (text : Text) :
    Takes [.anyNumber fewest] text text := by
  have inLine : ∀ c ∈ ([] : Text), isBreak c = false := by simp
  exact .anyNumber inLine .nil

theorem matchesAt_condition_iff {name text : Text} :
    MatchesAt (.anyNumber true :: name.map .char) text ↔
      ∃ skipped tail, text = skipped ++ name ++ tail ∧ ∀ c ∈ skipped, isBreak c = false := by
  constructor
  · rintro ⟨rest, taken⟩
    cases taken with
    | @anyNumber _ _ skipped text rest inLine more =>
      rw [← List.append_nil (name.map Item.char), takes_chars_append_iff] at more
      obtain ⟨tail, rfl, -⟩ := more
      exact ⟨skipped, tail, (List.append_assoc ..).symm, inLine⟩
  · rintro ⟨skipped, tail, rfl, inLine⟩
    refine ⟨tail, ?_⟩
    rw [List.append_assoc]
    refine .anyNumber inLine ?_
    rw [← List.append_nil (name.map Item.char), takes_chars_append_iff]
    exact ⟨tail, rfl, .nil⟩

private theorem takes_conditions_iff {names : List Text} {text : Text} :
    MatchesAt (names.map ahead ++ [.anyNumber false]) text ↔
      ∀ name ∈ names, MatchesAt (.anyNumber true :: name.map .char) text := by
  induction names with
  | nil => simpa using ⟨text, takes_anyNumber_nil false text⟩
  | cons name names ih =>
    rw [List.forall_mem_cons, ← ih]
    simp only [MatchesAt, List.map_cons, List.cons_append, ahead, takes_ahead_iff]
    constructor
    · rintro ⟨rest, holds, more⟩
      exact ⟨holds, rest, more⟩
    · rintro ⟨holds, rest, more⟩
      exact ⟨rest, holds, more⟩

theorem matchesAt_meaning_iff {names : List Text} {text : Text} :
    MatchesAt (meaning names) text ↔
      ∃ tail, text = marker ++ tail ∧ ∀ name ∈ names, ∃ skipped rest,
        tail = skipped ++ name ++ rest ∧ ∀ c ∈ skipped, isBreak c = false := by
  have cut : MatchesAt (meaning names) text ↔
      ∃ tail, text = marker ++ tail ∧ MatchesAt (names.map ahead ++ [.anyNumber false]) tail := by
    simp only [MatchesAt, meaning, List.append_assoc, takes_chars_append_iff]
    constructor
    · rintro ⟨rest, tail, begun, more⟩
      exact ⟨tail, begun, rest, more⟩
    · rintro ⟨tail, begun, rest, more⟩
      exact ⟨rest, tail, begun, more⟩
  simp only [cut, takes_conditions_iff, matchesAt_condition_iff]

theorem matchesAt_meaning_iff_occur {names : List Text} (unbroken : Unbroken names) {text : Text} :
    MatchesAt (meaning names) text ↔ ∃ tail, text = marker ++ tail ∧
      ∀ name ∈ names, name <:+: tail.takeWhile (!isBreak ·) := by
  have follows {name tail : Text} (plain : ∀ c ∈ name, isBreak c = false) :
      (∃ skipped rest, tail = skipped ++ name ++ rest ∧ ∀ c ∈ skipped, isBreak c = false) ↔
        name <:+: tail.takeWhile (!isBreak ·) := by
    constructor
    · rintro ⟨skipped, rest, rfl, inLine⟩
      have front : ∀ c ∈ skipped ++ name, (!isBreak c) = true := by
        intro c mem
        rcases List.mem_append.mp mem with mem | mem
        · rw [inLine c mem, Bool.not_false]
        · rw [plain c mem, Bool.not_false]
      rw [List.takeWhile_append_of_pos front]
      exact ⟨skipped, _, rfl⟩
    · rintro ⟨skipped, rest, joined⟩
      have inLine : ∀ c ∈ skipped, isBreak c = false := by
        intro c mem
        have kept : c ∈ tail.takeWhile (!isBreak ·) := by
          rw [← joined]
          simp [mem]
        simpa using List.mem_takeWhile_imp kept
      refine ⟨skipped, rest ++ tail.dropWhile (!isBreak ·), ?_, inLine⟩
      rw [← List.append_assoc, joined, List.takeWhile_append_dropWhile]
  rw [matchesAt_meaning_iff]
  constructor
  · rintro ⟨tail, opened, follow⟩
    exact ⟨tail, opened, fun name mem => (follows (unbroken name mem)).mp (follow name mem)⟩
  · rintro ⟨tail, opened, occur⟩
    exact ⟨tail, opened, fun name mem => (follows (unbroken name mem)).mpr (occur name mem)⟩

theorem foundIn_meaning_iff {names : List Text} {line : Text}
    (unbroken : ∀ c ∈ line, isBreak c = false) :
    FoundIn (meaning names) line ↔
      ∃ before tail, line = before ++ marker ++ tail ∧ ∀ name ∈ names, name <:+: tail := by
  constructor
  · rintro ⟨before, after, rfl, matched⟩
    obtain ⟨tail, rfl, follow⟩ := matchesAt_meaning_iff.mp matched
    refine ⟨before, tail, (List.append_assoc ..).symm, fun name member => ?_⟩
    obtain ⟨skipped, rest, rfl, -⟩ := follow name member
    exact ⟨skipped, rest, rfl⟩
  · rintro ⟨before, tail, rfl, occur⟩
    refine ⟨before, marker ++ tail, List.append_assoc .., matchesAt_meaning_iff.mpr ?_⟩
    refine ⟨tail, rfl, fun name member => ?_⟩
    obtain ⟨skipped, rest, rfl⟩ := occur name member
    exact ⟨skipped, rest, rfl, fun c inside => unbroken c (by simp [inside])⟩

end Regex

end ClassQuery.Pattern

/-! ### What a query finds -/

namespace ClassQuery.Query

open Pattern (marker isBreak marker_ne_nil meaning not_mem_marker)
open Text (after? after?_append_cons after?_eq_none_iff exists_before_of_after?
  exists_suffix_after? induction_on_breaks infix_of_after?)

/-- The first line with a marker, of the lines that line feeds and carriage returns cut. -/
def firstMarked? (text : Text) : Option Text :=
  (text.splitOnP isBreak).find? fun line => decide (marker <:+: line)

theorem finds_iff {q : Query} {text : Text} :
    q.finds text = true ↔ ∃ tail, after? marker text = some tail ∧
      ∀ name ∈ q.names, name <:+: tail.takeWhile (!isBreak ·) := by
  unfold finds
  cases found : after? marker text with
  | none => simp
  | some tail => simp [Text.occursIn_iff]

theorem firstMarked?_of_unbroken {line : Text} (unbroken : ∀ c ∈ line, isBreak c = false) :
    firstMarked? line = if marker <:+: line then some line else none := by
  rw [firstMarked?, List.splitOnP_eq_singleton unbroken]
  split <;> simp_all

theorem firstMarked?_append_cons {line : Text} {b : Char} (rest : Text)
    (unbroken : ∀ c ∈ line, isBreak c = false) (h : isBreak b = true) :
    firstMarked? (line ++ b :: rest) =
      if marker <:+: line then some line else firstMarked? rest := by
  rw [firstMarked?, List.splitOnP_append_cons_of_forall_mem unbroken b h, List.find?_cons]
  split <;> simp_all [firstMarked?]

theorem unbroken_of_firstMarked? {text line : Text} (h : firstMarked? text = some line) :
    ∀ c ∈ line, isBreak c = false := by
  induction text using induction_on_breaks isBreak with
  | last front unbroken =>
    rw [firstMarked?_of_unbroken unbroken] at h
    split at h <;> cases h
    exact unbroken
  | broken front b rest unbroken broken ih =>
    rw [firstMarked?_append_cons rest unbroken broken] at h
    split at h
    · cases h
      exact unbroken
    · exact ih h

/-- What stands behind the first marker of a text, up to the next break, is what stands behind the
first marker of the first marked line. -/
theorem after?_marker_takeWhile (text : Text) :
    (after? marker text).map (List.takeWhile (!isBreak ·)) =
      (firstMarked? text).bind (after? marker) := by
  have kept {line far : Text} (unbroken : ∀ c ∈ line, isBreak c = false)
      (found : after? marker line = some far) : ∀ c ∈ far, (!isBreak c) = true := by
    obtain ⟨before, rfl⟩ := exists_before_of_after? found
    intro c inside
    rw [unbroken c (by simp [inside]), Bool.not_false]
  induction text using induction_on_breaks isBreak with
  | last line unbroken =>
    rw [firstMarked?_of_unbroken unbroken]
    cases found : after? marker line with
    | none => simp [after?_eq_none_iff.mp found]
    | some far =>
      rw [if_pos (infix_of_after? found), Option.bind_some, found, Option.map_some,
        List.takeWhile_eq_self_iff.mpr (kept unbroken found)]
  | broken line b rest unbroken broken ih =>
    rw [firstMarked?_append_cons rest unbroken broken,
      after?_append_cons (not_mem_marker broken) marker_ne_nil]
    cases found : after? marker line with
    | none => simpa [after?_eq_none_iff.mp found] using ih
    | some far =>
      rw [if_pos (infix_of_after? found), Option.bind_some, found]
      simp [List.takeWhile_append_of_pos (kept unbroken found), broken]

/-- On a line without breaks it is enough to look behind the first marker. -/
theorem foundIn_meaning_iff_after? {names : List Text} {line : Text}
    (unbroken : ∀ c ∈ line, isBreak c = false) :
    (meaning names).FoundIn line ↔
      ∃ tail, after? marker line = some tail ∧ ∀ name ∈ names, name <:+: tail := by
  rw [Pattern.Regex.foundIn_meaning_iff unbroken]
  constructor
  · rintro ⟨before, tail, rfl, occur⟩
    obtain ⟨far, found, longer⟩ := exists_suffix_after? marker before tail
    exact ⟨far, found, fun name member => (occur name member).trans longer.isInfix⟩
  · rintro ⟨tail, found, occur⟩
    obtain ⟨before, rfl⟩ := exists_before_of_after? found
    exact ⟨before, tail, rfl, occur⟩

variable {fits : List Text → Bool}

theorem ofAtoms_of_fits {atoms : List Atom} (small : fits (Atom.classNames atoms) = true) :
    ofAtoms atoms fits = .ok ⟨Atom.classNames atoms, Pattern.ofAtoms atoms⟩ := if_pos small

theorem ofAtoms_eq_ok {atoms : List Atom} {q : Query} (h : ofAtoms atoms fits = .ok q) :
    q = ⟨Atom.classNames atoms, Pattern.ofAtoms atoms⟩ := by
  unfold ofAtoms at h
  simp only at h
  split at h <;> cases h
  rfl

/-- Whatever the size test, a query finds a text exactly when the pattern of its atoms, read as a
regular expression, has a match in the first line that holds a marker. -/
theorem finds_iff_foundIn_firstMarked {atoms : List Atom} {q : Query}
    (compiled : ofAtoms atoms fits = .ok q) (text : Text) :
    ∃ r, Pattern.Regex.read? (Pattern.ofAtoms atoms) = some r ∧
      (q.finds text = true ↔ ∃ line, firstMarked? text = some line ∧ r.FoundIn line) := by
  refine ⟨meaning (Atom.classNames atoms), Pattern.Regex.read?_ofAtoms atoms, ?_⟩
  obtain rfl := ofAtoms_eq_ok compiled
  have tails : ∀ segment, (∃ tail, after? marker text = some tail ∧
      tail.takeWhile (!isBreak ·) = segment) ↔
      ∃ line, firstMarked? text = some line ∧ after? marker line = some segment := by
    intro segment
    rw [← Option.map_eq_some_iff, ← Option.bind_eq_some_iff, after?_marker_takeWhile]
  rw [finds_iff]
  constructor
  · rintro ⟨tail, found, occur⟩
    obtain ⟨line, first, behind⟩ := (tails _).mp ⟨tail, found, rfl⟩
    exact ⟨line, first,
      (foundIn_meaning_iff_after? (unbroken_of_firstMarked? first)).mpr ⟨_, behind, occur⟩⟩
  · rintro ⟨line, first, matched⟩
    obtain ⟨segment, behind, occur⟩ :=
      (foundIn_meaning_iff_after? (unbroken_of_firstMarked? first)).mp matched
    obtain ⟨tail, found, rfl⟩ := (tails segment).mpr ⟨line, first, behind⟩
    exact ⟨tail, found, occur⟩

/-- The names are a dotted one, the empty one and one with a letter past ASCII; the text has half a
marker, then two markers on one line, then a name behind the break. -/
theorem finds_iff_foundIn_firstMarked_dotted :
    ofAtoms [⟨.cls, "a.b".toList⟩, ⟨.tag, "div".toList⟩, ⟨.cls, []⟩, ⟨.cls, "é(".toList⟩]
        isSmall = .ok ⟨["a.b".toList, [], "é(".toList],
          "className=(?=.*?a\\.b)(?=.*?)(?=.*?é\\().*".toList⟩ ∧
      ∃ r, Pattern.Regex.read? (Pattern.ofAtoms
          [⟨.cls, "a.b".toList⟩, ⟨.tag, "div".toList⟩, ⟨.cls, []⟩, ⟨.cls, "é(".toList⟩]) = some r ∧
        (Query.finds ⟨["a.b".toList, [], "é(".toList],
            "className=(?=.*?a\\.b)(?=.*?)(?=.*?é\\().*".toList⟩
          "class\rclassName=é( className=a.b\na.b".toList = true ↔
          ∃ line, firstMarked? "class\rclassName=é( className=a.b\na.b".toList = some line ∧
            r.FoundIn line) := by
  have compiled : ofAtoms
      [⟨.cls, "a.b".toList⟩, ⟨.tag, "div".toList⟩, ⟨.cls, []⟩, ⟨.cls, "é(".toList⟩] isSmall =
      .ok ⟨["a.b".toList, [], "é(".toList],
        "className=(?=.*?a\\.b)(?=.*?)(?=.*?é\\().*".toList⟩ := ofAtoms_of_fits (by decide)
  exact ⟨compiled, finds_iff_foundIn_firstMarked compiled _⟩

end ClassQuery.Query
