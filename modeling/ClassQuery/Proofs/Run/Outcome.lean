import ClassQuery.Proofs.Abbreviation.Stream
import ClassQuery.Proofs.Abbreviation.Translation
import ClassQuery.Proofs.Search.Overflow
import ClassQuery.Run

/-!
How the commands end, and the exit status and output of a run.

A command has nothing to do, refuses the abbreviation, or writes what it was asked for. Main
statement: where the output takes everything, the exit status is two exactly for a bad setting, else
one exactly when the command is refused, and else zero; nothing is put out unless it is zero, and
then just the line of the pattern, or the lines of all hits.
-/

set_option autoImplicit false
set_option relaxedAutoImplicit false

/-! ### Commands -/

namespace ClassQuery

theorem run_of_parse {arguments : List Bytes} {request : CommandLine.Request}
    (parsed : CommandLine.parse arguments = .ok request) (s : Surroundings) :
    run arguments s = .ok (Outcome.ofRequest s request) := by
  rw [run, parsed]
  rfl

namespace Command

variable {format : Format} {abbreviation : Text} {sink : Sink}

theorem putPattern_nil : putPattern format [] sink = idle sink := rfl

theorem putPattern_of_error {fault : Abbreviation.Fault} (filled : abbreviation ≠ [])
    (refused : Abbreviation.parse abbreviation = .error fault) :
    putPattern format abbreviation sink =
      ⟨sink, [], some (refusal "translate".toList abbreviation fault)⟩ := by
  rw [putPattern, if_neg (by simpa using filled), refused]

theorem putPattern_of_ok {atoms : List Atom} (filled : abbreviation ≠ [])
    (parsed : Abbreviation.parse abbreviation = .ok atoms) :
    putPattern format abbreviation sink =
      let written := (Record.ofPattern abbreviation (Pattern.ofAtoms atoms)).write format sink
      ⟨written.sink, [.patternMade abbreviation (Pattern.ofAtoms atoms) atoms.length],
        written.report⟩ := by
  rw [putPattern, if_neg (by simpa using filled), parsed]

theorem putPatternOfInput_of_none {input : Bytes}
    (unread : Utf8.decode? (Abbreviation.firstLine input) = none) :
    putPatternOfInput format input sink =
      ⟨sink, [], some ⟨"failed to read abbreviation".toList,
        (HostFault.input Abbreviation.noText).causes⟩⟩ := by
  have filled : input ≠ [] := by
    rintro rfl
    cases unread
  rw [putPatternOfInput, Abbreviation.readLine_result, if_neg filled, Abbreviation.ofLine, unread]
  rfl

/-- An input without a line is like an empty first line. -/
theorem putPatternOfInput_of_some {input : Bytes} {text : Text}
    (read : Utf8.decode? (Abbreviation.firstLine input) = some text) :
    putPatternOfInput format input sink = putPattern format (Lines.trimBreaks text) sink := by
  rw [putPatternOfInput, Abbreviation.readLine_result]
  by_cases empty : input = []
  · subst empty
    cases read
    rfl
  · rw [if_neg empty, Abbreviation.ofLine, read]
    rfl

variable {fits : List Text → Bool}

theorem putMatches_nil (roots : List Bytes) (look : Bytes → Except Path.Fault Node) :
    putMatches format [] roots look fits sink = idle sink := rfl

theorem putMatches_of_error {fault : Abbreviation.Fault} (filled : abbreviation ≠ [])
    (refused : Query.ofAbbreviation abbreviation fits = .error fault) (roots : List Bytes)
    (look : Bytes → Except Path.Fault Node) :
    putMatches format abbreviation roots look fits sink =
      ⟨sink, [], some (refusal "compile".toList abbreviation fault)⟩ := by
  rw [putMatches, if_neg (by simpa using filled), refused]

theorem putMatches_of_ok {q : Query} (filled : abbreviation ≠ [])
    (compiled : Query.ofAbbreviation abbreviation fits = .ok q) (roots : List Bytes)
    (look : Bytes → Except Path.Fault Node) :
    putMatches format abbreviation roots look fits sink =
      let search := Search.run format sink (Finding.ofRoots q look roots)
      ⟨search.sink, .searching q.pattern :: search.noted.reverse, search.report⟩ := by
  rw [putMatches, if_neg (by simpa using filled), compiled]

end Command

/-! ### Runs -/

open Abbreviation (IsAbbreviation Spells asText firstLine)

/-- The variable for the level is set to a text that names no level. -/
def Surroundings.HasBadLevel (s : Surroundings) : Prop :=
  ∃ text, s.environment.lookup Settings.levelVariable = some (Utf8.encode text) ∧
    Level.ofText? text = none

namespace Command

/-- The abbreviation that a command is about: the one that is given, or else the first line of the
input without the breaks at its end, if that is a text. -/
def abbreviation? (input : Bytes) : Command → Option Text
  | .pattern (some abbreviation) _ => some abbreviation
  | .pattern none _ => (Utf8.decode? (firstLine input)).map Lines.trimBreaks
  | .search abbreviation _ _ => some abbreviation

/-- Why a command is refused. -/
inductive Refused (s : Surroundings) : Command → Prop where
  | noText {c : Command} (unread : c.abbreviation? s.input = none) : Refused s c
  | noAbbreviation {c : Command} {abbreviation : Text}
      (used : c.abbreviation? s.input = some abbreviation) (filled : abbreviation ≠ [])
      (foreign : ¬ IsAbbreviation abbreviation) : Refused s c
  | tooLarge {names : List Bytes} {abbreviation : Text} {roots : List Bytes} {json : Bool}
      (spells : Spells names abbreviation) (large : s.fits (names.map asText) = false) :
      Refused s (.search abbreviation roots json)

/-- What a command puts out that is not refused: nothing for an empty abbreviation, else the line of
the pattern or the lines of the hits. -/
inductive PutsOut (s : Surroundings) : Command → Bytes → Prop where
  | nothing {c : Command} (unasked : c.abbreviation? s.input = some []) : PutsOut s c []
  | pattern {given : Option Text} {json : Bool} {abbreviation pattern : Text}
      (used : (Command.pattern given json).abbreviation? s.input = some abbreviation)
      (translated : Pattern.ofAbbreviation abbreviation = .ok pattern) :
      PutsOut s (.pattern given json)
        ((Record.ofPattern abbreviation pattern).bytes (format json))
  | hits {abbreviation : Text} {roots : List Bytes} {json : Bool} {q : Query}
      (compiled : Query.ofAbbreviation abbreviation s.fits = .ok q) :
      PutsOut s (.search abbreviation roots json)
        (Record.bytesOfHits (format json) (Finding.hits (Finding.ofRoots q s.look roots)))

variable {s : Surroundings} {c : Command}

theorem PutsOut.eq_of_translated {given : Option Text} {json : Bool} {abbreviation pattern : Text}
    {output : Bytes} (asked : PutsOut s (.pattern given json) output)
    (used : (Command.pattern given json).abbreviation? s.input = some abbreviation)
    (translated : Pattern.ofAbbreviation abbreviation = .ok pattern) :
    output = (Record.ofPattern abbreviation pattern).bytes (format json) := by
  cases asked with
  | nothing unasked =>
    obtain rfl := Option.some.inj (unasked.symm.trans used)
    rw [Pattern.ofAbbreviation_nil] at translated
    cases translated
  | pattern used' translated' =>
    obtain rfl := Option.some.inj (used.symm.trans used')
    rw [Except.ok.inj (translated.symm.trans translated')]

theorem PutsOut.eq_of_compiled {abbreviation : Text} {roots : List Bytes} {json : Bool} {q : Query}
    {output : Bytes} (asked : PutsOut s (.search abbreviation roots json) output)
    (compiled : Query.ofAbbreviation abbreviation s.fits = .ok q) :
    output = Record.bytesOfHits (format json)
      (Finding.hits (Finding.ofRoots q s.look roots)) := by
  cases asked with
  | nothing unasked =>
    obtain rfl := Option.some.inj unasked
    obtain ⟨names, spells, -⟩ := Query.exists_spells_of_ofAbbreviation compiled
    exact absurd rfl spells.ne_nil
  | hits compiled' => rw [Except.ok.inj (compiled.symm.trans compiled')]

private theorem run_pattern {given : Option Text} {json : Bool} {abbreviation : Text}
    (used : (Command.pattern given json).abbreviation? s.input = some abbreviation) :
    run s (.pattern given json) = putPattern (format json) abbreviation s.sink := by
  cases given with
  | some given =>
    obtain rfl : given = abbreviation := Option.some.inj used
    rfl
  | none =>
    obtain ⟨text, read, rfl⟩ := Option.map_eq_some_iff.mp used
    exact putPatternOfInput_of_some read

theorem run_of_refused (refused : c.Refused s) :
    ∃ report, (run s c).report = some report ∧ (run s c).sink = s.sink := by
  cases refused with
  | noText unread =>
    cases c with
    | search abbreviation roots json => cases unread
    | pattern given json =>
      cases given with
      | some given => cases unread
      | none =>
        rw [run, putPatternOfInput_of_none (Option.map_eq_none_iff.mp unread)]
        exact ⟨_, rfl, rfl⟩
  | @noAbbreviation _ abbreviation used filled foreign =>
    cases parsed : Abbreviation.parse abbreviation with
    | ok atoms =>
      exact absurd ((Abbreviation.isAbbreviation_iff_parse _).mpr ⟨atoms, parsed⟩) foreign
    | error fault =>
      cases c with
      | pattern given json =>
        rw [run_pattern used, putPattern_of_error filled parsed]
        exact ⟨_, rfl, rfl⟩
      | search given roots json =>
        obtain rfl : given = abbreviation := Option.some.inj used
        have failed : Query.ofAbbreviation given s.fits = .error fault := by
          rw [Query.ofAbbreviation, parsed]
        rw [run, putMatches_of_error filled failed]
        exact ⟨_, rfl, rfl⟩
  | tooLarge spells large =>
    have failed := Query.ofAbbreviation_of_large spells large
    rw [run, putMatches_of_error spells.ne_nil failed]
    exact ⟨_, rfl, rfl⟩

theorem run_of_not_refused (accepted : s.sink.Accepted []) (fine : ¬ c.Refused s) :
    ∃ written, (run s c).report = none ∧ (run s c).sink.Accepted written ∧
      PutsOut s c written := by
  obtain ⟨abbreviation, used⟩ : ∃ abbreviation, c.abbreviation? s.input = some abbreviation :=
    Option.ne_none_iff_exists'.mp fun unread => fine (.noText unread)
  by_cases empty : abbreviation = []
  · subst empty
    have idled : run s c = idle s.sink := by
      cases c with
      | pattern given json => rw [run_pattern used, putPattern_nil]
      | search given roots json =>
        obtain rfl : given = [] := Option.some.inj used
        exact putMatches_nil roots s.look
    rw [idled]
    exact ⟨[], rfl, accepted, .nothing used⟩
  obtain ⟨names, spells⟩ : IsAbbreviation abbreviation := by
    by_contra foreign
    exact fine (.noAbbreviation used empty foreign)
  cases c with
  | pattern given json =>
    have translated := Pattern.ofAbbreviation_of_parse spells.parse_eq
    obtain ⟨t, wrote, taken⟩ := (Record.ofPattern abbreviation
      (Pattern.ofAtoms (names.map Abbreviation.classOf))).exists_write (format json) accepted
    rw [List.nil_append] at taken
    rw [run_pattern used, putPattern_of_ok empty spells.parse_eq, wrote]
    exact ⟨_, rfl, taken, .pattern used translated⟩
  | search given roots json =>
    obtain rfl : given = abbreviation := Option.some.inj used
    have small : s.fits (names.map asText) = true := by
      by_contra large
      exact fine (.tooLarge spells (Bool.eq_false_of_not_eq_true large))
    have compiled := Query.ofAbbreviation_of_spells spells small
    obtain ⟨t, takes, taken⟩ := Search.exists_takes (format json)
      (Finding.hits (Finding.ofRoots _ s.look roots)) accepted
    obtain ⟨report, -, sink⟩ := Search.through_of_takes takes
    rw [List.nil_append, ← sink] at taken
    rw [run, putMatches_of_ok empty compiled]
    exact ⟨_, report, taken, .hits compiled⟩

theorem not_refused_of_spells {names : List Bytes} {abbreviation : Text}
    (used : c.abbreviation? s.input = some abbreviation) (spells : Spells names abbreviation)
    (small : s.fits (names.map asText) = true) : ¬ c.Refused s := by
  intro refused
  cases refused with
  | noText unread => cases used.symm.trans unread
  | noAbbreviation other filled foreign =>
    obtain rfl := Option.some.inj (used.symm.trans other)
    exact foreign ⟨names, spells⟩
  | tooLarge other large =>
    obtain rfl := Option.some.inj used
    have compiled := Query.ofAbbreviation_of_spells spells small
    cases compiled.symm.trans (Query.ofAbbreviation_of_large other large)

end Command

namespace Surroundings

variable {s : Surroundings}

theorem valueOf?_eq_some_iff {name text : Text} :
    s.valueOf? name = some text ↔ s.environment.lookup name = some (Utf8.encode text) := by
  simp only [valueOf?, Option.bind_eq_some_iff, Utf8.decode?_eq_some_iff]
  constructor
  · rintro ⟨bytes, set, rfl⟩
    exact set
  · exact fun set => ⟨_, set, rfl⟩

theorem settings_eq_error_iff (level : Option Level) :
    (∃ fault, s.settings level = .error fault) ↔ s.HasBadLevel := by
  simp only [HasBadLevel, ← valueOf?_eq_some_iff, settings, Settings.ofVariables]
  cases s.valueOf? Settings.levelVariable with
  | none => simp [Except.map]
  | some text =>
    cases named : Level.ofText? text with
    | none => simp [Level.read, named, Except.map]
    | some level => simp [Level.read, named, Except.map]

end Surroundings

/-- Where the output takes everything, the exit status tells how a run ended: with two for a level
that is none, else with one for a command that is refused, else with zero. Nothing is put out unless
it is zero, and then what the command asks for, whole. -/
theorem run_all_or_nothing {arguments : List Bytes} {request : CommandLine.Request}
    {s : Surroundings} (parsed : CommandLine.parse arguments = .ok request)
    (accepted : s.sink.Accepted []) :
    ∃ o, run arguments s = .ok o ∧
      (o.exit = 2 ↔ s.HasBadLevel) ∧
      (¬ s.HasBadLevel → (o.exit = 1 ↔ request.command.Refused s)) ∧
      (¬ s.HasBadLevel → ¬ request.command.Refused s → o.exit = 0) ∧
      (o.exit ≠ 0 → o.output = []) ∧
      (o.exit = 0 → request.command.PutsOut s o.output) := by
  refine ⟨_, run_of_parse parsed s, ?_⟩
  rw [Outcome.ofRequest, ← Surroundings.settings_eq_error_iff request.level]
  cases s.settings request.level with
  | error fault => simp [Outcome.ofBadSettings, accepted.output_eq_nil]
  | ok settings =>
    by_cases refused : request.command.Refused s
    · obtain ⟨report, failed, untouched⟩ := Command.run_of_refused refused
      simp [Outcome.ofEnding, failed, untouched, accepted.output_flush, refused]
    · obtain ⟨written, fine, taken, asked⟩ := Command.run_of_not_refused accepted refused
      simp [Outcome.ofEnding, fine, taken.output_flush, refused, asked]

/-- The abbreviation of the one run is on the first line of the input, with a carriage return behind
it. The other run searches a file with a line that matches and one that does not, below the second
root; the first cannot be read. Both put their output through a buffer. -/
theorem run_all_or_nothing_of_input :
    let s : Surroundings := ⟨[], Utf8.ofString ".a.b\r\n.c", fun root =>
      if root = Utf8.ofString "d" then
        .ok (.directory [(Utf8.ofString "f", .file (Utf8.ofString "a\nclassName=a b"))])
      else .error .missing, ⟨none, 1024, [], [], [], false⟩, Query.isSmall⟩
    let piped := ["--log-level=debug", "pattern"].map Utf8.ofString
    let typed := ["search", ".b.a", "gone", "d"].map Utf8.ofString
    let pattern := Command.pattern none false
    let search := Command.search ".b.a".toList (["gone", "d"].map Utf8.ofString) false
    (s.sink.Accepted [] ∧ ¬ s.HasBadLevel) ∧
    (CommandLine.parse piped = .ok ⟨pattern, some .debug⟩ ∧ ¬ pattern.Refused s ∧
      ∃ o, run piped s = .ok o ∧ o.exit = 0 ∧
        o.output = Utf8.ofString "className=(?=.*?a)(?=.*?b).*\n") ∧
    (CommandLine.parse typed = .ok ⟨search, none⟩ ∧ ¬ search.Refused s ∧
      ∃ o, run typed s = .ok o ∧ o.exit = 0 ∧
        o.output = Utf8.ofString "d/f:2: className=a b\n") := by
  intro s piped typed pattern search
  have accepted : s.sink.Accepted [] := ⟨rfl, rfl, rfl⟩
  have unset : ¬ s.HasBadLevel := by
    rintro ⟨text, set, -⟩
    cases set
  have parsed : CommandLine.parse piped = .ok ⟨pattern, some .debug⟩ := by rfl
  have parsed' : CommandLine.parse typed = .ok ⟨search, none⟩ := by decide +kernel
  have used : pattern.abbreviation? s.input = some ".a.b".toList := by rfl
  have spells : Spells [Utf8.ofString "a", Utf8.ofString "b"] ".a.b".toList :=
    ⟨by simp, by decide +kernel, by rfl⟩
  have spells' : Spells [Utf8.ofString "b", Utf8.ofString "a"] ".b.a".toList :=
    ⟨by simp, by decide +kernel, by rfl⟩
  have fine : ¬ pattern.Refused s :=
    Command.not_refused_of_spells used spells (by decide +kernel)
  have fine' : ¬ search.Refused s :=
    Command.not_refused_of_spells rfl spells' (by decide +kernel)
  obtain ⟨o, ran, -, -, zero, -, asked⟩ := run_all_or_nothing parsed accepted
  obtain ⟨o', ran', -, -, zero', -, asked'⟩ := run_all_or_nothing parsed' accepted
  have translated := Pattern.ofAbbreviation_of_parse spells.parse_eq
  have compiled := @Query.ofAbbreviation_of_spells s.fits _ _ spells' (by decide +kernel)
  refine ⟨⟨accepted, unset⟩, ⟨parsed, fine, o, ran, zero unset fine, ?_⟩,
    parsed', fine', o', ran', zero' unset fine', ?_⟩
  · rw [(asked (zero unset fine)).eq_of_translated used translated]
    decide +kernel
  · rw [(asked' (zero' unset fine')).eq_of_compiled compiled]
    decide +kernel

end ClassQuery
