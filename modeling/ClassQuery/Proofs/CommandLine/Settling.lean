import ClassQuery.CommandLine.Reading
import ClassQuery.Proofs.Level.Words
import Mathlib.Data.List.Induction

/-!
The parts of a command line, and how they are read one after the other.

Behind the name of a command stand positional arguments and options, and the option that sets the
level is written as one argument or as two. A reader may still hold what it read last, so a reader
is known by what it comes to once that is checked. Main statement: parts that fit behind each other
are read to a reader that knows just these parts, whether or not the options are ended before the
last positional ones.
-/

set_option autoImplicit false
set_option relaxedAutoImplicit false

/-! ### Parts as they are written -/

namespace ClassQuery

theorem Level.head?_ne_of_ofText? {text : Text} {level : Level}
    (named : ofText? text = some level) : text.head? ≠ some '-' := by
  obtain ⟨before, word, behind, rfl, front, -, listed⟩ := ofText?_eq_some_iff.mp named
  intro begins
  cases before with
  | cons c before =>
    obtain rfl : c = '-' := by simpa using begins
    exact absurd (front '-' List.mem_cons_self) (by decide)
  | nil =>
    cases word with
    | nil => exact absurd listed (by simp)
    | cons c word =>
      obtain rfl : c = '-' := by simpa using begins
      have letter := (letters_of_mem_words _ listed '-' List.mem_cons_self).1
      exact absurd letter (by decide)

namespace CommandLine

structure LevelOption where
  text : Text
  /-- Whether the text is attached with an equals sign and is no argument of its own. -/
  attached : Bool
deriving DecidableEq

def LevelOption.arguments (o : LevelOption) : List Bytes :=
  if o.attached then [Utf8.ofString "--log-level=" ++ Utf8.encode o.text]
  else [Utf8.ofString "--log-level", Utf8.encode o.text]

inductive Part where
  | positional (value : Bytes)
  | json
  | level (o : LevelOption)
deriving DecidableEq

namespace Part

def arguments : Part → List Bytes
  | .positional value => [value]
  | .json => [Utf8.ofString "--json"]
  | .level o => o.arguments

@[simp] def positional? : Part → Option Bytes
  | .positional value => some value
  | .json | .level _ => none

@[simp] def level? : Part → Option LevelOption
  | .level o => some o
  | .positional _ | .json => none

def values (parts : List Part) : List Bytes := parts.filterMap positional?

def levels (parts : List Part) : List LevelOption := parts.filterMap level?

theorem values_append (front back : List Part) :
    values (front ++ back) = values front ++ values back := List.filterMap_append

theorem levels_append (front back : List Part) :
    levels (front ++ back) = levels front ++ levels back := List.filterMap_append

@[simp] theorem values_concat (front : List Part) (part : Part) :
    values (front ++ [part]) = values front ++ part.positional?.toList := by
  cases part <;> simp [values]

@[simp] theorem levels_concat (front : List Part) (part : Part) :
    levels (front ++ [part]) = levels front ++ part.level?.toList := by
  cases part <;> simp [levels]

end Part

structure Tail where
  front : List Part
  /-- The positional arguments behind the mark that ends the options; nothing without that mark. -/
  back : Option (List Bytes)

namespace Tail

def parts (t : Tail) : List Part := t.front ++ (t.back.getD []).map .positional

def arguments (t : Tail) : List Bytes :=
  t.front.flatMap Part.arguments ++
    match t.back with
    | none => []
    | some values => Utf8.ofString "--" :: values

end Tail

/-- Some parts are positional arguments in their order, and anywhere among them the option for JSON
once, if it is asked for, and the option that sets the level, if there is one. -/
structure Shuffles (parts : List Part) (positional : List Bytes) (json : Bool)
    (level : Option LevelOption) : Prop where
  order : Part.values parts = positional
  flag : parts.count .json = if json then 1 else 0
  option : Part.levels parts = level.toList

/-- An argument does not look like an option: it begins with no hyphen, or is only a hyphen. -/
def IsPlain (argument : Bytes) : Prop :=
  argument.head? = some Word.hyphen → argument = [Word.hyphen]

instance (argument : Bytes) : Decidable (IsPlain argument) :=
  inferInstanceAs (Decidable (argument.head? = some Word.hyphen → argument = [Word.hyphen]))

namespace Word

theorem ofArgument_of_isPlain {argument : Bytes} (plain : IsPlain argument) :
    ofArgument argument = .positional argument := by
  match argument, plain with
  | [], _ => rfl
  | [_], _ => rfl
  | a :: b :: rest, plain =>
    have other : a ≠ hyphen := by
      rintro rfl
      cases plain rfl
    rw [ofArgument, if_neg other]

theorem eq_of_ofArgument_eq_positional {argument value : Bytes}
    (looks : ofArgument argument = .positional value) : argument = value := by
  unfold ofArgument ofLong at looks
  repeat' split at looks
  all_goals cases looks
  all_goals rfl

theorem ofArgument_dashes : ofArgument (Utf8.ofString "--") = .endOfOptions := by rfl

theorem ofArgument_json :
    ofArgument (Utf8.ofString "--json") = .long (Utf8.ofString "json") none := by rfl

theorem ofArgument_level :
    ofArgument (Utf8.ofString "--log-level") = .long (Utf8.ofString "log-level") none := by rfl

theorem ofArgument_level_attached (value : Bytes) :
    ofArgument (Utf8.ofString "--log-level=" ++ value) =
      .long (Utf8.ofString "log-level") (some value) := by rfl

end Word

theorem isPlain_encode_of_named {text : Text} {level : Level}
    (named : Level.ofText? text = some level) : IsPlain (Utf8.encode text) := by
  intro begins
  have hyphen : (Utf8.encode text).head? = some (UInt8.ofNat '-'.toNat) := begins
  rw [Utf8.head?_encode_iff (by decide)] at hyphen
  exact absurd hyphen (Level.head?_ne_of_ofText? named)

end CommandLine

end ClassQuery

/-! ### Parts as they are read -/

namespace ClassQuery.CommandLine

open CommandLine.Part (values levels)

/-- A part fits behind some others for a command. -/
inductive Part.Fits (command : CommandName) (front : List Part) : Part → Prop where
  | abbreviation {text : Text} (first : values front = []) :
      Fits command front (.positional (Utf8.encode text))
  | path {value : Bytes} (search : command = .search) (later : values front ≠ [])
      (filled : value ≠ []) : Fits command front (.positional value)
  | json (fresh : .json ∉ front) : Fits command front .json
  | level {o : LevelOption} {level : Level} (fresh : levels front = [])
      (named : Level.ofText? o.text = some level) : Fits command front (.level o)

def Sound (command : CommandName) (parts : List Part) : Prop :=
  ∀ front part back, parts = front ++ part :: back → part.Fits command front

theorem Sound.of_append {command : CommandName} {parts more : List Part}
    (sound : Sound command (parts ++ more)) : Sound command parts := by
  rintro front part back rfl
  exact sound front part (back ++ more) (by simp)

theorem Sound.fits {command : CommandName} {parts : List Part} {part : Part}
    (sound : Sound command (parts ++ [part])) : part.Fits command parts := sound parts part [] rfl

namespace Reading

/-- What a reader comes to when what it holds is checked. -/
inductive Settles (r : Reading) : Reading → Prop where
  | nothing (held : r.held = .nothing) : Settles r r
  | level {text : Text} {level : Level} (held : r.held = .level (Utf8.encode text))
      (unset : r.level = none) (named : Level.ofText? text = some level) :
      Settles r { r with level := some level, held := .nothing }
  | abbreviation {text : Text} (held : r.held = .abbreviation (Utf8.encode text)) :
      Settles r { r with abbreviation := some text, held := .nothing }
  | paths {paths : List Bytes} (held : r.held = .paths paths) (filled : [] ∉ paths) :
      Settles r { r with paths := r.paths ++ paths, held := .nothing }

variable {command : CommandName} {r s : Reading}

theorem setLevel_eq_ok_iff {value : Bytes} :
    r.setLevel value = .ok s ↔ ∃ text level, value = Utf8.encode text ∧ r.level = none ∧
      Level.ofText? text = some level ∧ s = { r with level := some level, held := .nothing } := by
  constructor
  · intro set
    unfold setLevel at set
    split at set
    · cases set
    next unset =>
    split at set
    · cases set
    next text decoded =>
    cases named : Level.ofText? text with
    | none => simp [Level.read, named] at set
    | some level =>
      simp only [Level.read, named] at set
      cases set
      have whole := (Utf8.decode?_eq_some_iff.mp decoded).symm
      exact ⟨text, level, whole, by simpa using unset, named, rfl⟩
  · rintro ⟨text, level, rfl, unset, named, rfl⟩
    simp [setLevel, unset, Utf8.decode?_encode, Level.read, named]

theorem settle_eq_ok_iff : r.settle = .ok s ↔ r.Settles s := by
  constructor
  · intro settled
    cases held : r.held with
    | nothing =>
      rw [settle, held] at settled
      cases settled
      exact .nothing held
    | levelAwaited =>
      rw [settle, held] at settled
      cases settled
    | level value =>
      rw [settle, held] at settled
      obtain ⟨text, level, rfl, unset, named, rfl⟩ := setLevel_eq_ok_iff.mp settled
      exact .level held unset named
    | abbreviation value =>
      cases decoded : Utf8.decode? value with
      | none => simp [settle, held, decoded] at settled
      | some text =>
        rw [← Utf8.decode?_eq_some_iff.mp decoded] at held
        simp only [settle, held, Utf8.decode?_encode] at settled
        cases settled
        exact .abbreviation held
    | paths paths =>
      by_cases filled : [] ∈ paths
      · simp [settle, held, filled] at settled
      · simp only [settle, held, List.any_eq_true, List.isEmpty_iff, exists_eq_right, filled,
          if_false] at settled
        cases settled
        exact .paths held filled
  · rintro (held | ⟨held, unset, named⟩ | held | ⟨held, filled⟩)
    · rw [settle, held]
    · rw [settle, held]
      exact setLevel_eq_ok_iff.mpr ⟨_, _, rfl, unset, named, rfl⟩
    · simp [settle, held, Utf8.decode?_encode]
    · simp [settle, held, filled]

theorem exists_of_readLevelOption {value : Option Bytes} {t : Reading}
    (read : r.readLevelOption value = .ok t) :
    ∃ s, r.Settles s ∧ ((value = none ∧ t = { s with held := .levelAwaited }) ∨
      ∃ text level, value = some (Utf8.encode text) ∧ s.level = none ∧
        Level.ofText? text = some level ∧
        t = { s with level := some level, held := .nothing }) := by
  cases settled : r.settle with
  | error usage => simp [readLevelOption, settled] at read
  | ok s =>
    refine ⟨s, settle_eq_ok_iff.mp settled, ?_⟩
    simp only [readLevelOption, settled] at read
    cases value with
    | none =>
      cases read
      exact .inl ⟨rfl, rfl⟩
    | some value =>
      obtain ⟨text, level, rfl, unset, named, same⟩ := setLevel_eq_ok_iff.mp read
      exact .inr ⟨text, level, rfl, unset, named, same⟩

theorem Settles.held_eq (settles : r.Settles s) : s.held = .nothing := by
  cases settles with
  | nothing held => exact held
  | level _ _ _ => rfl
  | abbreviation _ => rfl
  | paths _ _ => rfl

theorem Settles.positionals_eq (settles : r.Settles s) : s.positionals = r.positionals := by
  cases settles <;> rfl

theorem Settles.optionsEnded_eq (settles : r.Settles s) : s.optionsEnded = r.optionsEnded := by
  cases settles <;> rfl

theorem held_of_awaitsValue (awaits : r.awaitsValue = true) : r.held = .levelAwaited := by
  rw [awaitsValue, Bool.and_eq_true] at awaits
  exact of_decide_eq_true awaits.1

theorem Settles.awaitsValue_eq (settles : r.Settles s) : r.awaitsValue = false := by
  cases settles <;> simp_all [awaitsValue]

theorem Settles.end_options (settles : r.Settles s) :
    { r with optionsEnded := true }.Settles { s with optionsEnded := true } := by
  cases settles with
  | nothing held => exact .nothing held
  | level held unset named => exact .level held unset named
  | abbreviation held => exact .abbreviation held
  | paths held filled => exact .paths held filled

theorem readAfter_of_ended {value : Bytes} (ended : r.optionsEnded = true) :
    readAfter command r value = readPositional command r value := by
  rw [readAfter, if_pos ended]

theorem readAfter_of_isPlain {value : Bytes} (opened : r.optionsEnded = false)
    (plain : IsPlain value) :
    readAfter command r value =
      if r.awaitsValue then .ok { r with held := .level value }
      else readPositional command r value := by
  simp only [readAfter, opened, Bool.false_eq_true, if_false, Word.ofArgument_of_isPlain plain]

theorem readAfter_dashes (opened : r.optionsEnded = false) :
    readAfter command r (Utf8.ofString "--") = .ok { r with optionsEnded := true } := by
  simp only [readAfter, opened, Bool.false_eq_true, if_false, Word.ofArgument_dashes]

theorem readAfter_json (opened : r.optionsEnded = false) :
    readAfter command r (Utf8.ofString "--json") = r.readJsonOption none := by
  have other : Utf8.ofString "json" ≠ Utf8.ofString "log-level" := by decide
  simp only [readAfter, opened, Bool.false_eq_true, if_false, Word.ofArgument_json, other, if_true]

theorem readAfter_level (opened : r.optionsEnded = false) :
    readAfter command r (Utf8.ofString "--log-level") = r.readLevelOption none := by
  simp only [readAfter, opened, Bool.false_eq_true, if_false, Word.ofArgument_level, if_true]

theorem readAfter_level_attached (opened : r.optionsEnded = false) (value : Bytes) :
    readAfter command r (Utf8.ofString "--log-level=" ++ value) =
      r.readLevelOption (some value) := by
  simp only [readAfter, opened, Bool.false_eq_true, if_false, Word.ofArgument_level_attached,
    if_true]

theorem Settles.exists_level {o : LevelOption} {level : Level} (settles : r.Settles s)
    (opened : r.optionsEnded = false) (unset : s.level = none)
    (named : Level.ofText? o.text = some level) :
    ∃ t, o.arguments.foldlM (readAfter command) r = .ok t ∧
      t.Settles { s with level := some level, held := .nothing } := by
  have settled := settle_eq_ok_iff.mpr settles
  obtain ⟨text, attached⟩ := o
  cases attached with
  | true =>
    have set := setLevel_eq_ok_iff.mpr ⟨text, level, rfl, unset, named, rfl⟩
    refine ⟨_, ?_, .nothing rfl⟩
    rw [LevelOption.arguments, if_pos rfl, List.foldlM_cons, readAfter_level_attached opened,
      readLevelOption, settled]
    simp only [set]
    rfl
  | false =>
    have still : s.optionsEnded = false := settles.optionsEnded_eq.trans opened
    have awaits : ({ s with held := .levelAwaited } : Reading).awaitsValue = true := by
      simp [awaitsValue, still]
    refine ⟨{ s with held := .level (Utf8.encode text) }, ?_, .level rfl unset named⟩
    rw [LevelOption.arguments, if_neg (by simp), List.foldlM_cons, readAfter_level opened,
      readLevelOption, settled]
    show (readAfter command { s with held := .levelAwaited } (Utf8.encode text) >>= pure) = _
    rw [readAfter_of_isPlain (r := { s with held := .levelAwaited }) still
      (isPlain_encode_of_named named), awaits, if_pos rfl]
    rfl

theorem Settles.exists_json (settles : r.Settles s) (opened : r.optionsEnded = false)
    (fresh : s.json = false) :
    ∃ t, readAfter command r (Utf8.ofString "--json") = .ok t ∧
      t.Settles { s with json := true } := by
  have settled := settle_eq_ok_iff.mpr settles
  refine ⟨{ s with json := true }, ?_, .nothing settles.held_eq⟩
  simp [readAfter_json opened, readJsonOption, settled, fresh]

theorem Settles.exists_abbreviation (settles : r.Settles s) (first : s.positionals = 0)
    (text : Text) :
    ∃ t, readPositional command r (Utf8.encode text) = .ok t ∧
      t.Settles { s with abbreviation := some text, positionals := 1, held := .nothing } := by
  have settled := settle_eq_ok_iff.mpr settles
  rw [settles.positionals_eq] at first
  refine ⟨{ s with positionals := 1, held := .abbreviation (Utf8.encode text) }, ?_,
    .abbreviation rfl⟩
  cases command <;> simp [readPositional, first, settled]

theorem Settles.exists_path {value : Bytes} (settles : r.Settles s) (later : s.positionals ≠ 0)
    (filled : value ≠ []) :
    ∃ t, readPositional .search r value = .ok t ∧
      t.Settles { s with paths := s.paths ++ [value], held := .nothing } := by
  have settled := settle_eq_ok_iff.mpr settles
  rw [settles.positionals_eq] at later
  obtain ⟨n, counted⟩ := Nat.exists_eq_succ_of_ne_zero later
  have fresh : [] ∉ [value] := by simpa using filled.symm
  have alone (other : ∀ paths, r.held ≠ .paths paths) :
      readPositional .search r value = .ok { s with held := .paths [value] } := by
    cases held : r.held with
    | paths paths => exact absurd held (other paths)
    | _ => simp [readPositional, counted, held, settled]
  cases settles with
  | nothing held => exact ⟨_, alone (by simp [held]), .paths rfl fresh⟩
  | level held unset named => exact ⟨_, alone (by simp [held]), .paths rfl fresh⟩
  | abbreviation held => exact ⟨_, alone (by simp [held]), .paths rfl fresh⟩
  | @paths paths held whole =>
    have more : [] ∉ paths ++ [value] := by simp [whole, filled.symm]
    have settles : Settles { r with held := .paths (paths ++ [value]) } _ := .paths rfl more
    rw [← List.append_assoc] at settles
    exact ⟨_, by simp [readPositional, counted, held], settles⟩

def ofParts (ended : Bool) (parts : List Part) : Reading where
  level := (levels parts).head?.bind fun o => Level.ofText? o.text
  json := .json ∈ parts
  abbreviation := (values parts).head?.bind Utf8.decode?
  paths := (values parts).tail
  positionals := if values parts = [] then 0 else 1
  held := .nothing
  optionsEnded := ended

variable {ended : Bool} {front : List Part}

theorem ofParts_json :
    ofParts ended (front ++ [.json]) = { ofParts ended front with json := true } := by
  simp [ofParts]

theorem ofParts_level {o : LevelOption} (fresh : levels front = []) :
    ofParts ended (front ++ [.level o]) =
      { ofParts ended front with level := Level.ofText? o.text } := by
  simp [ofParts, fresh]

theorem ofParts_abbreviation {text : Text} (first : values front = []) :
    ofParts ended (front ++ [.positional (Utf8.encode text)]) =
      { ofParts ended front with abbreviation := some text, positionals := 1 } := by
  simp [ofParts, first, Utf8.decode?_encode]

theorem ofParts_path {value : Bytes} (later : values front ≠ []) :
    ofParts ended (front ++ [.positional value]) =
      { ofParts ended front with paths := (ofParts ended front).paths ++ [value] } := by
  obtain ⟨first, rest, opened⟩ := List.exists_cons_of_ne_nil later
  simp [ofParts, opened]

theorem exists_readPositional {value : Bytes} (settles : r.Settles (ofParts ended front))
    (fits : (Part.positional value).Fits command front) :
    ∃ t, readPositional command r value = .ok t ∧
      t.Settles (ofParts ended (front ++ [.positional value])) := by
  cases fits with
  | @abbreviation text first =>
    rw [ofParts_abbreviation first]
    exact settles.exists_abbreviation (if_pos first) text
  | path search later filled =>
    subst search
    rw [ofParts_path later]
    exact settles.exists_path (by simp [ofParts, later]) filled

theorem exists_foldlM_part {part : Part} (settles : r.Settles (ofParts false front))
    (fits : part.Fits command front) (plain : ∀ value, part = .positional value → IsPlain value) :
    ∃ t, part.arguments.foldlM (readAfter command) r = .ok t ∧
      t.Settles (ofParts false (front ++ [part])) := by
  have opened : r.optionsEnded = false := settles.optionsEnded_eq.symm
  cases part with
  | positional value =>
    have read : readAfter command r value = _ := readAfter_of_isPlain opened (plain value rfl)
    rw [settles.awaitsValue_eq] at read
    simpa [Part.arguments, read] using exists_readPositional settles fits
  | json =>
    cases fits with
    | json fresh =>
      rw [ofParts_json]
      simpa [Part.arguments] using settles.exists_json opened (by simp [ofParts, fresh])
  | level o =>
    cases fits with
    | level fresh named =>
      rw [ofParts_level fresh, named]
      exact settles.exists_level opened (by simp [ofParts, fresh]) named

theorem exists_foldlM_parts {parts : List Part} (sound : Sound command parts)
    (plain : ∀ value, .positional value ∈ parts → IsPlain value) :
    ∃ r, (parts.flatMap Part.arguments).foldlM (readAfter command) start = .ok r ∧
      r.Settles (ofParts false parts) := by
  -- parts are added at the end, since what fits depends on the ones before it
  induction parts using List.reverseRecOn with
  | nil => exact ⟨start, rfl, .nothing rfl⟩
  | append_singleton front part ih =>
    obtain ⟨r, read, settles⟩ := ih sound.of_append fun value mem =>
      plain value (List.mem_append_left _ mem)
    obtain ⟨t, next, settled⟩ := exists_foldlM_part settles sound.fits fun value same =>
      plain value (by simp [same])
    refine ⟨t, ?_, settled⟩
    rw [List.flatMap_append, List.foldlM_append, read, List.flatMap_singleton]
    exact next

/-- Parts are read also if the options are ended before the last of them, all positional. -/
theorem exists_foldlM_ended {front : List Part} {back : List Bytes}
    (sound : Sound command (front ++ back.map .positional))
    (plain : ∀ value, .positional value ∈ front → IsPlain value) :
    ∃ r, (front.flatMap Part.arguments ++ Utf8.ofString "--" :: back).foldlM (readAfter command)
        start = .ok r ∧ r.Settles (ofParts true (front ++ back.map .positional)) := by
  induction back using List.reverseRecOn with
  | nil =>
    rw [List.map_nil, List.append_nil] at sound ⊢
    obtain ⟨r, read, settles⟩ := exists_foldlM_parts sound plain
    refine ⟨{ r with optionsEnded := true }, ?_, settles.end_options⟩
    have opened : r.optionsEnded = false := settles.optionsEnded_eq.symm
    rw [List.foldlM_append, read]
    show [Utf8.ofString "--"].foldlM (readAfter command) r = _
    simpa using readAfter_dashes opened
  | append_singleton back value ih =>
    rw [List.map_append, List.map_singleton, ← List.append_assoc] at sound ⊢
    obtain ⟨r, read, settles⟩ := ih sound.of_append
    obtain ⟨t, next, settled⟩ := exists_readPositional settles sound.fits
    refine ⟨t, ?_, settled⟩
    have ended : r.optionsEnded = true := settles.optionsEnded_eq.symm
    rw [← List.cons_append, ← List.append_assoc, List.foldlM_append, read]
    show [value].foldlM (readAfter command) r = _
    simpa [readAfter_of_ended ended] using next

end Reading

end ClassQuery.CommandLine
