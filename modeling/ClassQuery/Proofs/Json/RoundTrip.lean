import ClassQuery.Json
import Mathlib.Data.List.Basic

/-!
Objects in JSON are read back as they were written.

Each part is read off the front of what is written, whatever follows it: a character from its
escaped form, a text up to its closing mark, a number up to a character that is no digit, a field
up to the next comma or brace. Main statement: an object of texts and whole numbers is read back
with all its fields, in order. And no control character is written, so an object takes one line.
-/

set_option autoImplicit false
set_option relaxedAutoImplicit false

/-! ### Decimal numerals -/

namespace ClassQuery.Text

theorem toNat_digit {n : Nat} (small : n < 10) : (digit n).toNat = 48 + n := by
  have valid : (48 + n).isValidChar := .inl (by omega)
  rw [digit, Char.ofNat, dif_pos valid]
  rfl

theorem digitValue?_digit {n : Nat} (small : n < 10) : digitValue? (digit n) = some n := by
  rw [digitValue?, toNat_digit small, if_pos (by omega), Nat.add_sub_cancel_left]

theorem decimal_of_lt {n : Nat} (small : n < 10) : decimal n = [digit n] := by
  rw [decimal, if_pos small]

theorem decimal_of_le {n : Nat} (large : 10 ≤ n) :
    decimal n = decimal (n / 10) ++ [digit (n % 10)] := by
  rw [decimal, if_neg (by omega)]

/-- To show something of the numeral of every number, show it of the digits, and of a numeral with
one more digit. -/
theorem decimal_induction {motive : Nat → Text → Prop}
    (one : ∀ n, n < 10 → motive n [digit n])
    (more : ∀ n d, 0 < n → d < 10 → motive n (decimal n) →
      motive (10 * n + d) (decimal n ++ [digit d]))
    (n : Nat) : motive n (decimal n) := by
  induction n using Nat.strongRecOn with
  | ind n ih =>
    by_cases small : n < 10
    · rw [decimal_of_lt small]
      exact one n small
    · have whole : 10 * (n / 10) + n % 10 = n := Nat.div_add_mod n 10
      have longer := more (n / 10) (n % 10) (by omega) (by omega) (ih (n / 10) (by omega))
      rw [whole] at longer
      rw [decimal_of_le (by omega)]
      exact longer

theorem decimal_ne_nil (n : Nat) : decimal n ≠ [] := by
  induction n using decimal_induction with
  | one n small => simp
  | more n d positive small ih => simp

theorem isSome_digitValue?_of_mem_decimal (n : Nat) :
    ∀ c ∈ decimal n, (digitValue? c).isSome = true := by
  induction n using decimal_induction with
  | one n small =>
    intro c mem
    rw [List.mem_singleton.mp mem, digitValue?_digit small]
    rfl
  | more n d positive small ih =>
    intro c mem
    rcases List.mem_append.mp mem with mem | mem
    · exact ih c mem
    · rw [List.mem_singleton.mp mem, digitValue?_digit small]
      rfl

theorem not_mem_decimal {c : Char} (other : digitValue? c = none) (n : Nat) : c ∉ decimal n := by
  intro mem
  have digit := isSome_digitValue?_of_mem_decimal n c mem
  rw [other] at digit
  cases digit

theorem head?_decimal_ne_zero {n : Nat} (positive : 0 < n) : (decimal n).head? ≠ some '0' := by
  revert positive
  induction n using decimal_induction with
  | one n small =>
    intro positive zero
    have same : digit n = '0' := Option.some.inj zero
    have value := toNat_digit small
    rw [same] at value
    change 48 = 48 + n at value
    omega
  | more n d positive small ih =>
    intro _ zero
    obtain ⟨c, rest, begins⟩ := List.exists_cons_of_ne_nil (decimal_ne_nil n)
    rw [begins] at zero ih
    exact ih positive zero

theorem foldl_decimal (n : Nat) :
    (decimal n).foldl (fun before c => before * 10 + (c.toNat - 48)) 0 = n := by
  induction n using decimal_induction with
  | one n small => simp [toNat_digit small]
  | more n d positive small ih =>
    rw [List.foldl_append, ih, List.foldl_cons, List.foldl_nil, toNat_digit small]
    omega

end ClassQuery.Text

namespace ClassQuery.Json

/-! ### Texts -/

private theorem hexWord?_hexDigits {n : Nat} (small : n < 0x20) :
    hexWord? '0' '0' (hexDigit (n / 16)) (hexDigit (n % 16)) = some n := by
  revert n
  decide

theorem readText_quote (rest : Text) : readText ('"' :: rest) = some ([], rest) := by
  rw [readText]

theorem readText_plain {c : Char} (rest : Text) (noQuote : c ≠ '"') (noSlash : c ≠ '\\')
    (shown : 0x20 ≤ c.toNat) :
    readText (c :: rest) = (readText rest).map fun r => (c :: r.1, r.2) := by
  have kept : ¬ (c.toNat < 0x20 ∨ c = '\\') := by
    rintro (low | slash)
    · omega
    · exact noSlash slash
  rw [readText]
  · rw [if_neg kept]
  all_goals
    intros
    contradiction

theorem readText_short {letter c : Char} (rest : Text) (noNumber : letter ≠ 'u')
    (short : escaped? letter = some c) :
    readText ('\\' :: letter :: rest) = (readText rest).map fun r => (c :: r.1, r.2) := by
  rw [readText]
  · rw [short]
  · intros
    contradiction

theorem readText_numbered {n : Nat} (rest : Text) (small : n < 0x20) :
    readText ('\\' :: 'u' :: '0' :: '0' :: hexDigit (n / 16) :: hexDigit (n % 16) :: rest) =
      (readText rest).map fun r => (Char.ofNat n :: r.1, r.2) := by
  have low : isHigh n = false := by
    simp only [isHigh, Bool.and_eq_false_iff, decide_eq_false_iff_not]
    omega
  have high : isLow n = false := by
    simp only [isLow, Bool.and_eq_false_iff, decide_eq_false_iff_not]
    omega
  rw [readText, hexWord?_hexDigits small]
  simp only [low, high, Bool.false_eq_true, if_false]

private theorem readText_control (n : Nat) (rest : Text) : n < 0x20 →
    readText ((match n with
      | 8 => ['\\', 'b']
      | 9 => ['\\', 't']
      | 10 => ['\\', 'n']
      | 12 => ['\\', 'f']
      | 13 => ['\\', 'r']
      | n => ['\\', 'u', '0', '0', hexDigit (n / 16), hexDigit (n % 16)]) ++ rest) =
      (readText rest).map fun r => (Char.ofNat n :: r.1, r.2) := by
  intro small
  split
  · exact readText_short rest (by decide) rfl
  · exact readText_short rest (by decide) rfl
  · exact readText_short rest (by decide) rfl
  · exact readText_short rest (by decide) rfl
  · exact readText_short rest (by decide) rfl
  · exact readText_numbered rest small

theorem readText_escapeChar (c : Char) (rest : Text) :
    readText (escapeChar c ++ rest) = (readText rest).map fun r => (c :: r.1, r.2) := by
  unfold escapeChar
  split_ifs with quote slash low
  · rw [quote]
    exact readText_short rest (by decide) rfl
  · rw [slash]
    exact readText_short rest (by decide) rfl
  · have read := readText_control c.toNat rest low
    rwa [Char.ofNat_toNat] at read
  · exact readText_plain rest quote slash (by omega)

theorem flatten_quoted (t : Text) :
    (quoted t).flatten = '"' :: (t.flatMap escapeChar ++ ['"']) := by
  simp [quoted, List.flatMap_def]

theorem readText_flatMap_escapeChar (t rest : Text) :
    readText (t.flatMap escapeChar ++ '"' :: rest) = some (t, rest) := by
  induction t with
  | nil => exact readText_quote rest
  | cons c t ih =>
    rw [List.flatMap_cons, List.append_assoc, readText_escapeChar, ih, Option.map_some]

/-! ### Numbers -/

theorem readDigits_append {digits : Text} (filled : digits ≠ [])
    (all : ∀ c ∈ digits, isDigit c = true) {rest : Text}
    (stop : ∀ c ∈ rest.head?, isDigit c = false) :
    readDigits (digits ++ rest) = some (digits, rest) := by
  have taken : (digits ++ rest).takeWhile isDigit = digits := by
    rw [List.takeWhile_append_of_pos all]
    cases rest with
    | nil => simp
    | cons c rest => simp [stop c rfl]
  have dropped : (digits ++ rest).dropWhile isDigit = rest := by
    have whole := List.takeWhile_append_dropWhile (p := isDigit) (l := digits ++ rest)
    rw [taken] at whole
    exact List.append_cancel_left whole
  rw [readDigits]
  simp only [taken, dropped]
  rw [if_neg (by simpa using filled)]

theorem readWhole_decimal (n : Nat) {rest : Text} (stop : ∀ c ∈ rest.head?, isDigit c = false) :
    readWhole (Text.decimal n ++ rest) = some (Text.decimal n, rest) := by
  have read : readDigits (Text.decimal n ++ rest) = some (Text.decimal n, rest) :=
    readDigits_append (Text.decimal_ne_nil n) (Text.isSome_digitValue?_of_mem_decimal n) stop
  rw [readWhole, read]
  split
  · next second more left same =>
    have begins : Text.decimal n = '0' :: second :: more :=
      congrArg Prod.fst (Option.some.inj same)
    rcases Nat.eq_zero_or_pos n with rfl | positive
    · rw [Text.decimal_of_lt (by omega)] at begins
      cases begins
    · exact absurd (by rw [begins]; rfl) (Text.head?_decimal_ne_zero positive)
  · rfl

/-- What may follow a number that is to be read as it stands: nothing that goes on with it. -/
structure EndsNumber (rest : Text) : Prop where
  digit : ∀ c ∈ rest.head?, isDigit c = false
  point : ∀ c ∈ rest.head?, c ≠ '.'
  exponent : ∀ c ∈ rest.head?, c ≠ 'e' ∧ c ≠ 'E'

theorem EndsNumber.cons {c : Char} (rest : Text) (digit : isDigit c = false) (point : c ≠ '.')
    (small : c ≠ 'e') (capital : c ≠ 'E') : EndsNumber (c :: rest) := by
  constructor <;> rintro d ⟨⟩
  · exact digit
  · exact point
  · exact ⟨small, capital⟩

theorem readFraction_of_ends {rest : Text} (ends : EndsNumber rest) :
    readFraction rest = some ([], rest) := by
  cases rest with
  | nil => rfl
  | cons c rest =>
    rw [readFraction]
    intro more same
    exact ends.point c rfl (List.cons.inj same).1

theorem readExponent_of_ends {rest : Text} (ends : EndsNumber rest) :
    readExponent rest = some (0, rest) := by
  cases rest with
  | nil => rfl
  | cons c rest =>
    obtain ⟨small, capital⟩ := ends.exponent c rfl
    unfold readExponent
    simp only
    rw [if_neg (by simp [small, capital])]

theorem readUnsigned_decimal (n : Nat) {rest : Text} (ends : EndsNumber rest) :
    readUnsigned (Text.decimal n ++ rest) = some (⟨n, 0⟩, rest) := by
  have value : digitsValue (digitsValue 0 (Text.decimal n)) [] = n := Text.foldl_decimal n
  rw [readUnsigned, readWhole_decimal n ends.digit]
  simp only [readFraction_of_ends ends, readExponent_of_ends ends, Option.map_some, value]
  rfl

/-! ### Values -/

private theorem skipBlanks_cons {c : Char} (rest : Text) (shown : isBlank c = false) :
    skipBlanks (c :: rest) = c :: rest := by
  rw [skipBlanks, List.dropWhile_cons, if_neg (by simp [shown])]

theorem readValue_text (depth : Nat) (t rest : Text) :
    readValue (depth + 1) ((quoted t).flatten ++ rest) = some (.text t, rest) := by
  have opened : (quoted t).flatten ++ rest = '"' :: (t.flatMap escapeChar ++ '"' :: rest) := by
    rw [flatten_quoted, List.cons_append, List.append_assoc, List.singleton_append]
  rw [opened, readValue, skipBlanks_cons _ (by decide)]
  simp only [readText_flatMap_escapeChar, Option.map_some]

private theorem readValue_of_digit (depth : Nat) {c : Char} (rest : Text)
    (digit : isDigit c = true) :
    readValue (depth + 1) (c :: rest) =
      (readUnsigned (c :: rest)).map fun r => (.number r.1, r.2) := by
  have other : ∀ d, isDigit d = false → c ≠ d := by
    rintro d plain rfl
    rw [digit] at plain
    cases plain
  have shown : isBlank c = false := by
    simp [isBlank, other ' ' (by decide), other '\t' (by decide), other '\n' (by decide),
      other '\r' (by decide)]
  rw [readValue, skipBlanks_cons _ shown]
  split
  · next same => exact absurd (List.cons.inj same).1 (other 'n' (by decide))
  · next same => exact absurd (List.cons.inj same).1 (other 't' (by decide))
  · next same => exact absurd (List.cons.inj same).1 (other 'f' (by decide))
  · next same => exact absurd (List.cons.inj same).1 (other '"' (by decide))
  · next same => exact absurd (List.cons.inj same).1 (other '[' (by decide))
  · next same => exact absurd (List.cons.inj same).1 (other '\x7b' (by decide))
  · rw [readNumber]
    intro more same
    exact other '-' (by decide) (List.cons.inj same).1

theorem readValue_number (depth n : Nat) {rest : Text} (ends : EndsNumber rest) :
    readValue (depth + 1) (Text.decimal n ++ rest) = some (.number ⟨n, 0⟩, rest) := by
  have read := readUnsigned_decimal n ends
  obtain ⟨c, more, begins⟩ := List.exists_cons_of_ne_nil (Text.decimal_ne_nil n)
  have digit : isDigit c = true :=
    Text.isSome_digitValue?_of_mem_decimal n c (begins ▸ List.mem_cons_self)
  rw [begins, List.cons_append] at read ⊢
  rw [readValue_of_digit depth _ digit, read, Option.map_some]

theorem readValue_written (depth : Nat) (s : Scalar) {rest : Text} (ends : EndsNumber rest) :
    readValue (depth + 1) (s.written.flatten ++ rest) = some (s.toValue, rest) := by
  cases s with
  | text t => exact readValue_text depth t rest
  | number n =>
    rw [Scalar.written, List.flatten_singleton]
    exact readValue_number depth n ends

/-! ### Objects -/

def fieldValue (f : Text × Scalar) : Text × Value := (f.1, f.2.toValue)

def writtenFields (fields : List (Text × Scalar)) : Text :=
  ([[',']].intercalate (fields.map field)).flatten ++ ['\x7d']

theorem writtenFields_singleton (f : Text × Scalar) :
    writtenFields [f] = (field f).flatten ++ ['\x7d'] := by
  rw [writtenFields, List.map_singleton, List.intercalate_singleton]

theorem writtenFields_cons_cons (f g : Text × Scalar) (fields : List (Text × Scalar)) :
    writtenFields (f :: g :: fields) = (field f).flatten ++ ',' :: writtenFields (g :: fields) := by
  simp [writtenFields, List.intercalate_cons_cons]

private theorem endsNumber_brace (rest : Text) : EndsNumber ('\x7d' :: rest) :=
  .cons rest (by decide) (by decide) (by decide) (by decide)

private theorem endsNumber_comma (rest : Text) : EndsNumber (',' :: rest) :=
  .cons rest (by decide) (by decide) (by decide) (by decide)

private theorem readFields_field (depth : Nat) (f : Text × Scalar) {rest : Text}
    (ends : EndsNumber rest) :
    readFields (depth + 2) ((field f).flatten ++ rest) =
      match skipBlanks rest with
      | '\x7d' :: rest => some ([fieldValue f], rest)
      | ',' :: rest => (readFields (depth + 1) rest).map fun r => (fieldValue f :: r.1, r.2)
      | _ => none := by
  have opened : (field f).flatten ++ rest =
      '"' :: (f.1.flatMap escapeChar ++ '"' :: ':' :: (f.2.written.flatten ++ rest)) := by
    simp [field, flatten_quoted]
  rw [opened, readFields, skipBlanks_cons _ (by decide)]
  simp only [readText_flatMap_escapeChar]
  rw [skipBlanks_cons _ (by decide)]
  simp only [readValue_written depth f.2 ends]
  rfl

theorem readFields_writtenFields (f : Text × Scalar) (fields : List (Text × Scalar)) (rest : Text) :
    ∀ depth, fields.length ≤ depth →
      readFields (depth + 2) (writtenFields (f :: fields) ++ rest) =
        some ((f :: fields).map fieldValue, rest) := by
  induction fields generalizing f with
  | nil =>
    intro depth _
    rw [writtenFields_singleton, List.append_assoc, List.singleton_append,
      readFields_field depth f (endsNumber_brace rest), skipBlanks_cons _ (by decide)]
    rfl
  | cons g fields ih =>
    intro depth deep
    obtain ⟨more, rfl⟩ : ∃ more, depth = more + 1 :=
      Nat.exists_eq_succ_of_ne_zero (by rw [List.length_cons] at deep; omega)
    have later := ih g more (by rw [List.length_cons] at deep; omega)
    rw [writtenFields_cons_cons, List.append_assoc, List.cons_append,
      readFields_field (more + 1) f (endsNumber_comma _), skipBlanks_cons _ (by decide)]
    simp only [later, Option.map_some]
    rfl

theorem flatten_object (fields : List (Text × Scalar)) :
    (object fields).flatten = '\x7b' :: writtenFields fields := by
  simp [object, writtenFields]

private theorem length_lt_writtenFields (f : Text × Scalar) (fields : List (Text × Scalar)) :
    fields.length + 1 < (writtenFields (f :: fields)).length := by
  have long (f : Text × Scalar) : 2 ≤ (field f).flatten.length := by
    simp [field, flatten_quoted]
    omega
  induction fields generalizing f with
  | nil =>
    rw [writtenFields_singleton, List.length_append, List.length_singleton, List.length_nil]
    have wide := long f
    omega
  | cons g fields ih =>
    have more := ih g
    rw [writtenFields_cons_cons, List.length_append, List.length_cons, List.length_cons]
    omega

theorem read?_object (fields : List (Text × Scalar)) :
    read? (object fields).flatten = some (.object (fields.map fieldValue)) := by
  have read : readValue ((object fields).flatten.length + 1) (object fields).flatten =
      some (.object (fields.map fieldValue), []) := by
    rw [flatten_object, readValue, skipBlanks_cons _ (by decide)]
    cases fields with
    | nil => rfl
    | cons f fields =>
      have deep := length_lt_writtenFields f fields
      obtain ⟨depth, enough⟩ : ∃ depth, (writtenFields (f :: fields)).length + 1 = depth + 2 :=
        ⟨(writtenFields (f :: fields)).length - 1, by omega⟩
      have inner := readFields_writtenFields f fields [] depth (by omega)
      obtain ⟨rest, opened⟩ : ∃ rest, writtenFields (f :: fields) = '"' :: rest := by
        cases fields <;> simp [writtenFields, field, quoted]
      rw [List.append_nil, ← enough, opened] at inner
      rw [List.length_cons, opened]
      simp only [skipBlanks_cons rest (show isBlank '"' = false by decide), inner, Option.map_some]
      rfl
  rw [read?, read]
  rfl

/-! ### Characters -/

private theorem toNat_hexDigit {n : Nat} (small : n < 16) : 0x20 ≤ (hexDigit n).toNat := by
  revert n
  decide

theorem shown_escapeChar (c : Char) : ∀ d ∈ escapeChar c, 0x20 ≤ d.toNat := by
  unfold escapeChar
  split_ifs with quote slash low
  · simp
  · simp
  · have high : 0x20 ≤ (hexDigit (c.toNat / 16)).toNat := toNat_hexDigit (by omega)
    have last : 0x20 ≤ (hexDigit (c.toNat % 16)).toNat := toNat_hexDigit (by omega)
    split
    all_goals simp [high, last]
  · simp
    omega

private theorem shown_quoted (t : Text) : ∀ c ∈ (quoted t).flatten, 0x20 ≤ c.toNat := by
  intro c mem
  rw [flatten_quoted, List.mem_cons, List.mem_append, List.mem_flatMap, List.mem_singleton] at mem
  rcases mem with rfl | ⟨d, -, inside⟩ | rfl
  · decide
  · exact shown_escapeChar d c inside
  · decide

private theorem shown_decimal (n : Nat) : ∀ c ∈ Text.decimal n, 0x20 ≤ c.toNat := by
  intro c mem
  have digit := Text.isSome_digitValue?_of_mem_decimal n c mem
  unfold Text.digitValue? at digit
  split at digit
  · omega
  · cases digit

private theorem shown_field (f : Text × Scalar) : ∀ c ∈ (field f).flatten, 0x20 ≤ c.toNat := by
  intro c mem
  rw [field, List.flatten_append, List.flatten_cons, List.mem_append, List.mem_append,
    List.mem_singleton] at mem
  rcases mem with name | rfl | value
  · exact shown_quoted f.1 c name
  · decide
  · cases same : f.2 with
    | text t =>
      rw [same] at value
      exact shown_quoted t c value
    | number n =>
      rw [same, Scalar.written, List.flatten_singleton] at value
      exact shown_decimal n c value

private theorem shown_writtenFields (fields : List (Text × Scalar)) :
    ∀ c ∈ writtenFields fields, 0x20 ≤ c.toNat := by
  induction fields with
  | nil =>
    intro c mem
    rw [List.mem_singleton.mp mem]
    decide
  | cons f fields ih =>
    intro c mem
    cases fields with
    | nil =>
      rw [writtenFields_singleton, List.mem_append, List.mem_singleton] at mem
      rcases mem with inside | rfl
      · exact shown_field f c inside
      · decide
    | cons g fields =>
      rw [writtenFields_cons_cons, List.mem_append, List.mem_cons] at mem
      rcases mem with inside | rfl | later
      · exact shown_field f c inside
      · decide
      · exact ih c later

theorem shown_object (fields : List (Text × Scalar)) :
    ∀ c ∈ (object fields).flatten, 0x20 ≤ c.toNat := by
  intro c mem
  rw [flatten_object, List.mem_cons] at mem
  rcases mem with rfl | inside
  · decide
  · exact shown_writtenFields fields c inside

end ClassQuery.Json
