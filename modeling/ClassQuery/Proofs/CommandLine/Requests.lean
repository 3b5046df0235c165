import ClassQuery.Proofs.CommandLine.Settling

/-!
Command lines that ask for what they say.

Options may stand before, between and behind positional arguments. Main statement: a line for a
search conveys the abbreviation, the paths, whether output is JSON and the level that was asked for
last, in whatever order its parts stand.
-/

set_option autoImplicit false
set_option relaxedAutoImplicit false

namespace ClassQuery.CommandLine

open CommandLine.Part (values levels)

section Shuffled

variable {parts : List Part} {positional : List Bytes} {json : Bool} {level : Option LevelOption}

theorem Shuffles.sound {command : CommandName} {abbreviation : Text} {paths : List Bytes}
    (shuffles : Shuffles parts positional json level)
    (begins : positional <+: Utf8.encode abbreviation :: paths)
    (alone : command = .pattern → paths = []) (filled : [] ∉ paths)
    (named : ∀ o ∈ level, (Level.ofText? o.text).isSome = true) : Sound command parts := by
  rintro front part back rfl
  cases part with
  | positional value =>
    have split : values front ++ value :: values back <+: Utf8.encode abbreviation :: paths := by
      rw [← shuffles.order, Part.values_append] at begins
      exact begins
    cases first : values front with
    | nil =>
      rw [first, List.nil_append, List.cons_prefix_cons] at split
      rw [split.1]
      exact .abbreviation first
    | cons one more =>
      rw [first, List.cons_append, List.cons_prefix_cons] at split
      have inside : value ∈ paths := split.2.subset (by simp)
      refine .path ?_ (by simp [first]) (fun empty => filled (empty ▸ inside))
      cases command with
      | search => rfl
      | pattern => simp [alone rfl] at inside
  | json =>
    refine .json fun inside => ?_
    have twice := shuffles.flag
    rw [List.count_append, List.count_cons_self] at twice
    have once := List.count_pos_iff.mpr inside
    split at twice <;> omega
  | level o =>
    have split : levels front ++ o :: levels back = level.toList := by
      rw [← shuffles.option, Part.levels_append]
      rfl
    cases level with
    | none => simp at split
    | some other =>
      obtain ⟨first, same⟩ : levels front = [] ∧ o = other := by
        cases fresh : levels front with
        | nil => simp_all
        | cons one more => simp [fresh] at split
      obtain ⟨asked, reads⟩ := Option.isSome_iff_exists.mp (named other rfl)
      rw [← same] at reads
      exact .level first reads

theorem Shuffles.json_mem_iff (shuffles : Shuffles parts positional json level) :
    .json ∈ parts ↔ json = true := by
  rw [← List.count_pos_iff, shuffles.flag]
  cases json <;> simp

theorem Shuffles.readAllAfter_eq {command : CommandName} {tail : Tail}
    (shuffles : Shuffles tail.parts positional json level) (sound : Sound command tail.parts)
    (plain : ∀ value, .positional value ∈ tail.front → IsPlain value) :
    Reading.readAllAfter command tail.arguments =
      .ok ⟨level.bind (Level.ofText? ·.text), json, positional.head?.bind Utf8.decode?,
        positional.tail, if positional = [] then 0 else 1, .nothing, tail.back.isSome⟩ := by
  have known : Reading.ofParts tail.back.isSome tail.parts = ⟨level.bind (Level.ofText? ·.text),
      json, positional.head?.bind Utf8.decode?, positional.tail, if positional = [] then 0 else 1,
      .nothing, tail.back.isSome⟩ := by
    simp [Reading.ofParts, shuffles.order, shuffles.option, shuffles.json_mem_iff]
  obtain ⟨r, read, settles⟩ : ∃ r : Reading,
      tail.arguments.foldlM (Reading.readAfter command) Reading.start = .ok r ∧
        r.Settles (Reading.ofParts tail.back.isSome tail.parts) := by
    obtain ⟨front, back⟩ := tail
    cases back with
    | none =>
      simp only [Tail.arguments, Tail.parts, Option.getD_none, List.map_nil, List.append_nil]
        at sound ⊢
      exact Reading.exists_foldlM_parts sound plain
    | some back => exact Reading.exists_foldlM_ended sound plain
  rw [Reading.readAllAfter, read, ← known]
  exact Reading.settle_eq_ok_iff.mpr settles

end Shuffled

namespace Reading

theorem readBefore_command {r : Reading} {word : Bytes} {command : CommandName}
    (opened : r.optionsEnded = false) (settled : r.awaitsValue = false)
    (named : commandName? word = some command) (rest : List Bytes) :
    r.readBefore (word :: rest) = readCommand r command rest := by
  have plain : Word.ofArgument word = .positional word := by
    unfold commandName? at named
    repeat' split at named
    all_goals cases named
    · next same => exact same ▸ rfl
    · next same => exact same ▸ rfl
  simp [readBefore, opened, plain, settled, named]

theorem readBefore_option {r next : Reading} {argument name : Bytes} {value : Option Bytes}
    (opened : r.optionsEnded = false) (looks : Word.ofArgument argument = .long name value)
    (read : r.readOptionBefore (.long name value) = .ok next) (rest : List Bytes) :
    r.readBefore (argument :: rest) = next.readBefore rest := by
  simp [readBefore, opened, looks, read]

theorem readBefore_value {r : Reading} {value : Bytes} (opened : r.optionsEnded = false)
    (awaits : r.awaitsValue = true) (plain : IsPlain value) (rest : List Bytes) :
    r.readBefore (value :: rest) = { r with held := .level value }.readBefore rest := by
  simp [readBefore, opened, Word.ofArgument_of_isPlain plain, awaits]

theorem exists_readBefore {before : Option LevelOption} {word : Bytes} {command : CommandName}
    (read : ∀ o ∈ before, (Level.ofText? o.text).isSome = true)
    (named : commandName? word = some command) (rest : List Bytes) :
    ∃ r : Reading, start.readBefore (before.toList.flatMap LevelOption.arguments ++ word :: rest) =
        readCommand r command rest ∧
      r.Settles { start with level := before.bind (Level.ofText? ·.text) } := by
  cases before with
  | none => exact ⟨start, readBefore_command rfl rfl named rest, .nothing rfl⟩
  | some o =>
    obtain ⟨text, attached⟩ := o
    obtain ⟨level, reads⟩ := Option.isSome_iff_exists.mp (read _ rfl)
    rw [Option.bind_some, reads]
    cases attached with
    | true =>
      have set : start.setLevel (Utf8.encode text) = .ok { start with level := some level } :=
        setLevel_eq_ok_iff.mpr ⟨text, level, rfl, rfl, reads, rfl⟩
      have asked : start.readOptionBefore (.long (Utf8.ofString "log-level")
          (some (Utf8.encode text))) = .ok { start with level := some level } := by
        rw [readOptionBefore, if_pos rfl]
        exact set
      refine ⟨{ start with level := some level }, ?_, .nothing rfl⟩
      show start.readBefore ((Utf8.ofString "--log-level=" ++ Utf8.encode text) :: word :: rest) = _
      rw [readBefore_option rfl (Word.ofArgument_level_attached _) asked,
        readBefore_command rfl rfl named]
    | false =>
      have asked : start.readOptionBefore (.long (Utf8.ofString "log-level") none) =
          .ok { start with held := .levelAwaited } := by
        rw [readOptionBefore, if_pos rfl]
        rfl
      refine ⟨{ start with held := .level (Utf8.encode text) }, ?_, .level rfl rfl reads⟩
      show start.readBefore (Utf8.ofString "--log-level" :: Utf8.encode text :: word :: rest) = _
      rw [readBefore_option rfl Word.ofArgument_level asked,
        readBefore_value rfl rfl (isPlain_encode_of_named reads), readBefore_command rfl rfl named]

end Reading

section Lines

variable {json : Bool} {before after : Option LevelOption} {tail : Tail}

/-- A command line is read part by part: what stands before the name of the command, and what stands
behind it. The level behind the name counts more than the one before it. -/
theorem parse_of_shuffles {word : Bytes} {name : CommandName} {command : Command}
    {positional : List Bytes} (known : Reading.commandName? word = some name)
    (named : ∀ o, o ∈ before ∨ o ∈ after → (Level.ofText? o.text).isSome = true)
    (shuffles : Shuffles tail.parts positional json after) (sound : Sound name tail.parts)
    (plain : ∀ value, .positional value ∈ tail.front → IsPlain value)
    (asked : Reading.toCommand name ⟨after.bind (Level.ofText? ·.text), json,
      positional.head?.bind Utf8.decode?, positional.tail, if positional = [] then 0 else 1,
      .nothing, tail.back.isSome⟩ = .ok command) :
    parse (before.toList.flatMap LevelOption.arguments ++ word :: tail.arguments) =
      .ok ⟨command, (after <|> before).bind (Level.ofText? ·.text)⟩ := by
  obtain ⟨r, begun, settles⟩ :=
    Reading.exists_readBefore (fun o mem => named o (.inl mem)) known tail.arguments
  have level : (after <|> before).bind (Level.ofText? ·.text) =
      (after.bind (Level.ofText? ·.text) <|> before.bind (Level.ofText? ·.text)) := by
    cases after with
    | none => rfl
    | some o =>
      obtain ⟨level, reads⟩ := Option.isSome_iff_exists.mp (named o (.inr rfl))
      simp [reads]
  rw [parse, begun, Reading.readCommand, shuffles.readAllAfter_eq sound plain, level]
  simp only [asked, Reading.settle_eq_ok_iff.mpr settles]

theorem parse_pattern {given : Option Text}
    (named : ∀ o, o ∈ before ∨ o ∈ after → (Level.ofText? o.text).isSome = true)
    (shuffles : Shuffles tail.parts (given.toList.map Utf8.encode) json after)
    (plain : ∀ value, .positional value ∈ tail.front → IsPlain value) :
    parse (before.toList.flatMap LevelOption.arguments ++
        Utf8.ofString "pattern" :: tail.arguments) =
      .ok ⟨.pattern given json, (after <|> before).bind (Level.ofText? ·.text)⟩ := by
  have begins : given.toList.map Utf8.encode <+: [Utf8.encode (given.getD [])] := by
    cases given <;> simp
  have sound : Sound .pattern tail.parts :=
    shuffles.sound begins (fun _ => rfl) (by simp) fun o mem => named o (.inr mem)
  refine parse_of_shuffles rfl named shuffles sound plain ?_
  cases given <;> simp [Reading.toCommand, Utf8.decode?_encode]

theorem exists_parse_pattern (given : Option Text) (json : Bool) (level : Option Level) :
    ∃ arguments, parse arguments = .ok ⟨.pattern given json, level⟩ := by
  have read (level : Level) : Level.ofText? level.word = some level := by
    cases level <;> decide +kernel
  let before : Option LevelOption := level.map (⟨·.word, true⟩)
  let tail : Tail := ⟨if json then [.json] else [], some (given.toList.map Utf8.encode)⟩
  have shuffles : Shuffles tail.parts (given.toList.map Utf8.encode) json none := by
    cases given <;> cases json <;> exact ⟨rfl, rfl, rfl⟩
  have plain : ∀ value, .positional value ∈ tail.front → IsPlain value := by
    cases json <;> simp [tail]
  have named : ∀ o, o ∈ before ∨ o ∈ none → (Level.ofText? o.text).isSome = true := by
    cases level <;> simp [before, read]
  have conveyed : ((none : Option LevelOption) <|> before).bind (Level.ofText? ·.text) = level := by
    cases level <;> simp [before, read]
  have parsed := parse_pattern named shuffles plain
  rw [conveyed] at parsed
  exact ⟨_, parsed⟩

/-- A line for a search conveys the abbreviation, the paths, the format and the level, in whatever
order its parts stand. The level behind the name of the command counts more than the one before it,
and with no paths the current directory is searched. -/
theorem parse_search {abbreviation : Text} {paths : List Bytes} (filled : ∀ path ∈ paths, path ≠ [])
    (named : ∀ o, o ∈ before ∨ o ∈ after → ∃ level, Level.ofText? o.text = some level)
    (shuffles : Shuffles tail.parts (Utf8.encode abbreviation :: paths) json after)
    (plain : ∀ value, .positional value ∈ tail.front → IsPlain value) :
    parse (before.toList.flatMap LevelOption.arguments ++
        Utf8.ofString "search" :: tail.arguments) =
      .ok ⟨.search abbreviation (if paths = [] then [currentDirectory] else paths) json,
        (after <|> before).bind (Level.ofText? ·.text)⟩ := by
  have read : ∀ o, o ∈ before ∨ o ∈ after → (Level.ofText? o.text).isSome = true :=
    fun o given => Option.isSome_iff_exists.mpr (named o given)
  have sound : Sound .search tail.parts :=
    shuffles.sound List.prefix_rfl (by simp) (fun empty => filled [] empty rfl)
      fun o mem => read o (.inr mem)
  refine parse_of_shuffles rfl read shuffles sound plain ?_
  simp [Reading.toCommand, Utf8.decode?_encode]

/-- Behind the mark that ends the options, what looks like an option or a command is a path. -/
theorem parse_search_interleaved :
    parse (["--log-level", "Info", "search", "--json", ".a", "-", "--log-level= WARNING", "src",
        "--", "--json", "search"].map Utf8.ofString) =
      .ok ⟨.search ".a".toList (["-", "src", "--json", "search"].map Utf8.ofString) true,
        some .warn⟩ := by
  let tail : Tail :=
    ⟨[.json, .positional (Utf8.ofString ".a"), .positional (Utf8.ofString "-"),
      .level ⟨" WARNING".toList, true⟩, .positional (Utf8.ofString "src")],
      some (["--json", "search"].map Utf8.ofString)⟩
  let paths := ["-", "src", "--json", "search"].map Utf8.ofString
  have shuffles : Shuffles tail.parts (Utf8.encode ".a".toList :: paths) true
      (some ⟨" WARNING".toList, true⟩) := ⟨rfl, by decide, rfl⟩
  refine @parse_search _ (some ⟨"Info".toList, false⟩) _ _ _ _ (by decide) ?_ shuffles ?_
  · rintro o (same | same)
    · rw [← Option.some.inj same]
      exact ⟨.info, by decide +kernel⟩
    · rw [← Option.some.inj same]
      exact ⟨.warn, by decide +kernel⟩
  · intro value mem
    have looks : ∀ part ∈ tail.front, ∀ value ∈ part.positional?, IsPlain value := by decide
    exact looks _ mem value rfl

end Lines

end ClassQuery.CommandLine
