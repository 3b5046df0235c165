import ClassQuery.Proofs.CommandLine.Level
import ClassQuery.Proofs.CommandLine.Requests
import ClassQuery.Proofs.Run.Outcome

/-!
Runs that end alike.

Main statements: an abbreviation that is given as an argument and one that is the first line of the
input make for the same run; two runs of one command with other levels differ in their logs only,
and there only by what the stricter level leaves out.
-/

set_option autoImplicit false
set_option relaxedAutoImplicit false

/-! ### What is typed and what is piped in -/

namespace ClassQuery

/-- An input holds a text on its first line, which may be its only one and may end in carriage
returns. -/
def HoldsLine (input : Bytes) (text : Text) : Prop :=
  ∃ (returns : Nat) (behind : Bytes),
    input = Utf8.encode (text ++ List.replicate returns '\r') ++ behind ∧
      (behind = [] ∨ ∃ rest, behind = 10 :: rest)

variable {text : Text} {input : Bytes}

theorem HoldsLine.exists_decode? (holds : HoldsLine input text) (unbroken : '\n' ∉ text) :
    ∃ returns, Utf8.decode? (Abbreviation.firstLine input) =
      some (text ++ List.replicate returns '\r') := by
  obtain ⟨returns, behind, rfl, ends⟩ := holds
  have whole : '\n' ∉ text ++ List.replicate returns '\r' := by
    simp [unbroken, List.mem_replicate]
  have kept : (10 : UInt8) ∉ Utf8.encode (text ++ List.replicate returns '\r') :=
    fun mem => whole (Utf8.lineFeed_mem_encode_iff.mp mem)
  have first : Abbreviation.firstLine
      (Utf8.encode (text ++ List.replicate returns '\r') ++ behind) =
        Utf8.encode (text ++ List.replicate returns '\r') := by
    rcases ends with rfl | ⟨rest, rfl⟩
    · rw [List.append_nil, Abbreviation.firstLine_of_unbroken kept]
    · exact Abbreviation.firstLine_append_cons kept rest
  exact ⟨returns, by rw [first, Utf8.decode?_encode]⟩

theorem Command.putPatternOfInput_of_holdsLine (holds : HoldsLine input text)
    (unbroken : '\n' ∉ text) (kept : text.getLast? ≠ some '\r') (format : Format) (sink : Sink) :
    putPatternOfInput format input sink = putPattern format text sink := by
  obtain ⟨returns, read⟩ := holds.exists_decode? unbroken
  rw [putPatternOfInput_of_some read, Lines.trimBreaks_append_replicate,
    Lines.trimBreaks_of_unbroken unbroken kept]

/-- A text of one line makes for the same run, whether it is an argument or the first line of the
input, and it can always be given in either way. An input that is not read may be any. -/
theorem run_input_eq_run_argument {s : Surroundings} {json : Bool} {level : Option Level}
    (holds : HoldsLine s.input text) (unbroken : '\n' ∉ text) (kept : text.getLast? ≠ some '\r') :
    (∃ piped, CommandLine.parse piped = .ok ⟨.pattern none json, level⟩) ∧
      (∃ typed, CommandLine.parse typed = .ok ⟨.pattern (some text) json, level⟩) ∧
      ∀ piped typed input, CommandLine.parse piped = .ok ⟨.pattern none json, level⟩ →
        CommandLine.parse typed = .ok ⟨.pattern (some text) json, level⟩ →
          ∃ o, run piped s = .ok o ∧ run typed { s with input } = .ok o := by
  refine ⟨CommandLine.exists_parse_pattern none json level,
    CommandLine.exists_parse_pattern (some text) json level, ?_⟩
  intro piped typed input fromInput fromArgument
  have same : Command.run s (.pattern none json) =
      Command.run { s with input } (.pattern (some text) json) :=
    Command.putPatternOfInput_of_holdsLine holds unbroken kept (Command.format json) s.sink
  refine ⟨_, run_of_parse fromInput s, ?_⟩
  rw [run_of_parse fromArgument, Outcome.ofRequest, Outcome.ofRequest, same]
  rfl

/-- The line has a carriage return inside it and two behind it, and bytes that are no text follow on
the next one. -/
theorem run_input_eq_run_argument_of_carriage_returns :
    let s : Surroundings := ⟨[], Utf8.ofString ".a\r.b\r\r\n" ++ [0xFF, 0x00],
      fun _ => .error .missing, ⟨none, 1024, [], [], [], false⟩, Query.isSmall⟩
    ∃ o, run (["--log-level", "info", "pattern", "--json"].map Utf8.ofString) s = .ok o ∧
      run (["pattern", "--log-level=INFO", "--json", "--", ".a\r.b"].map Utf8.ofString)
        { s with input := [] } = .ok o := by
  intro s
  have holds : HoldsLine s.input ".a\r.b".toList :=
    ⟨2, [10, 0xFF, 0x00], by decide, .inr ⟨[0xFF, 0x00], rfl⟩⟩
  obtain ⟨-, -, same⟩ :=
    @run_input_eq_run_argument _ s true (some .info) holds (by decide) (by decide)
  exact same _ _ [] (by decide +kernel) (by decide +kernel)

end ClassQuery

/-! ### Levels of the log -/

namespace ClassQuery

open CommandLine (levelNamed? levelAsked)

theorem Level.shows_of_rank_le {fine coarse event : Level} (finer : fine.rank ≤ coarse.rank)
    (shown : coarse.shows event = true) : fine.shows event = true :=
  decide_eq_true (finer.trans (of_decide_eq_true shown))

theorem Event.shownAt_eq_filter {fine coarse : Level} (finer : fine.rank ≤ coarse.rank)
    (events : List Event) :
    shownAt coarse events = (shownAt fine events).filter (coarse.shows ·.level) := by
  rw [shownAt, shownAt, List.filter_filter]
  apply List.filter_congr
  intro e _
  cases shown : coarse.shows e.level with
  | false => rw [Bool.false_and]
  | true => rw [Level.shows_of_rank_le finer shown, Bool.true_and]

def Surroundings.levelSet? (s : Surroundings) : Option Level :=
  (s.environment.lookup Settings.levelVariable).bind levelNamed?

/-- The level of the log of a run: the one the command line asks for, else the one that the variable
is set to, else the one for warnings. -/
def effectiveLevel (arguments : List Bytes) (s : Surroundings) : Level :=
  (levelAsked arguments <|> s.levelSet?).getD .warn

variable {s : Surroundings}

theorem Surroundings.settings_eq_ok (usable : ¬ s.HasBadLevel) (level : Option Level) :
    s.settings level = .ok ⟨(level <|> s.levelSet?).getD .warn⟩ := by
  have set : s.levelSet? = (s.valueOf? Settings.levelVariable).bind Level.ofText? :=
    (Option.bind_assoc ..).symm
  simp only [HasBadLevel, ← valueOf?_eq_some_iff] at usable
  rw [settings, Settings.ofVariables, set]
  cases value : s.valueOf? Settings.levelVariable with
  | none =>
    cases level <;> rfl
  | some text =>
    obtain ⟨named, reads⟩ : ∃ named, Level.ofText? text = some named :=
      Option.ne_none_iff_exists'.mp fun unnamed => usable ⟨text, value, unnamed⟩
    simp only [Level.read, reads, Option.bind_some]
    cases level <;> rfl

theorem Command.run_environment (c : Command) (environment : List (Text × Bytes)) :
    run { s with environment } c = run s c := by
  cases c with
  | pattern given json => cases given <;> rfl
  | search abbreviation roots json => rfl

theorem run_eq_ofEnding {arguments : List Bytes} {request : CommandLine.Request}
    (parsed : CommandLine.parse arguments = .ok request) (usable : ¬ s.HasBadLevel) :
    run arguments s =
      .ok (Outcome.ofEnding (effectiveLevel arguments s) (Command.run s request.command)) := by
  rw [run_of_parse parsed, Outcome.ofRequest, s.settings_eq_ok usable,
    CommandLine.level_eq_levelAsked parsed]
  rfl

theorem Outcome.ofEnding_eq (threshold other : Level) (e : Ending) :
    ofEnding threshold e = { ofEnding other e with threshold } := by
  unfold ofEnding
  cases e.report <;> rfl

theorem Outcome.threshold_ofEnding (threshold : Level) (e : Ending) :
    (ofEnding threshold e).threshold = threshold := by
  rw [ofEnding_eq threshold threshold]

/-- Two runs of one command that differ in the level of the log, by their command lines or their
variables, have the same exit status, the same output and the same failure, if any. The log of the
stricter run is what its level shows of the log of the other. -/
theorem run_level_changes_log_only {verbose quiet : List Bytes}
    {environment : List (Text × Bytes)} {command : Command} {asked level : Option Level}
    (parsed : CommandLine.parse verbose = .ok ⟨command, asked⟩)
    (parsedQuiet : CommandLine.parse quiet = .ok ⟨command, level⟩)
    (usable : ¬ s.HasBadLevel) (usableQuiet : ¬ { s with environment }.HasBadLevel) :
    ∃ o p, run verbose s = .ok o ∧ run quiet { s with environment } = .ok p ∧
      o.threshold = effectiveLevel verbose s ∧
      p.threshold = effectiveLevel quiet { s with environment } ∧
      p.exit = o.exit ∧ p.output = o.output ∧ p.failureLine = o.failureLine ∧
      (o.threshold.rank ≤ p.threshold.rank → Event.shownAt p.threshold p.events =
        (Event.shownAt o.threshold o.events).filter (p.threshold.shows ·.level)) := by
  refine ⟨_, _, run_eq_ofEnding parsed usable, run_eq_ofEnding parsedQuiet usableQuiet,
    Outcome.threshold_ofEnding .., Outcome.threshold_ofEnding .., ?_⟩
  rw [Command.run_environment,
    Outcome.ofEnding_eq (effectiveLevel quiet _) (effectiveLevel verbose s)]
  exact ⟨rfl, rfl, rfl, fun finer => Event.shownAt_eq_filter finer _⟩

/-- The level before the command gives way to the one behind it, and the variable to both. The root
cannot be read, so there is something to note. -/
theorem run_level_changes_log_only_of_missing_root :
    let verbose := ["--log-level", "error", "search", ".a", "--log-level=TRACE", "gone"]
    let quiet := ["search", "--", ".a", "gone"]
    let s : Surroundings := ⟨[(Settings.levelVariable, Utf8.ofString "info")], [],
      fun _ => .error .missing, ⟨none, 1024, [], [], [], false⟩, Query.isSmall⟩
    ∃ o p, run (verbose.map Utf8.ofString) s = .ok o ∧
      run (quiet.map Utf8.ofString) { s with environment := [] } = .ok p ∧
      o.threshold = .trace ∧ p.threshold = .warn ∧ p.exit = o.exit ∧ p.output = o.output ∧
      p.failureLine = o.failureLine ∧ Event.shownAt p.threshold p.events =
        (Event.shownAt o.threshold o.events).filter (p.threshold.shows ·.level) := by
  intro verbose quiet s
  let command := Command.search ".a".toList [Utf8.ofString "gone"] false
  have parsed : CommandLine.parse (verbose.map Utf8.ofString) = .ok ⟨command, some .trace⟩ := by
    decide +kernel
  have parsedQuiet : CommandLine.parse (quiet.map Utf8.ofString) = .ok ⟨command, none⟩ := by
    decide +kernel
  have usable : ¬ s.HasBadLevel := by
    have info : s.settings none = .ok ⟨.info⟩ := by decide +kernel
    rw [← Surroundings.settings_eq_error_iff none, info]
    simp
  have usableQuiet : ¬ { s with environment := [] }.HasBadLevel := by
    rintro ⟨text, set, -⟩
    cases set
  obtain ⟨o, p, loud, low, trace, warn, exit, output, failure, filtered⟩ :=
    run_level_changes_log_only parsed parsedQuiet usable usableQuiet
  have effective : effectiveLevel (verbose.map Utf8.ofString) s = .trace := by decide +kernel
  have standard :
      effectiveLevel (quiet.map Utf8.ofString) { s with environment := [] } = .warn := by
    decide +kernel
  rw [effective] at trace
  rw [standard] at warn
  exact ⟨o, p, loud, low, trace, warn, exit, output, failure,
    filtered (by rw [trace, warn]; decide)⟩

end ClassQuery
