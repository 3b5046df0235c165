import ClassQuery.Proofs.CommandLine.Settling

/-!
The level that a command line asks for.

Main statement: whatever else a command line says, the level of its request is the one that is given
behind the name of the command, or else the one before it.
-/

set_option autoImplicit false
set_option relaxedAutoImplicit false

namespace ClassQuery.CommandLine

def levelNamed? (value : Bytes) : Option Level := (Utf8.decode? value).bind Level.ofText?

/-- The level that is given in arguments, of which those behind the mark that ends the options say
nothing of it. -/
def levelGiven : List Bytes → Option Level
  | [] => none
  | argument :: rest =>
    match Word.ofArgument argument with
    | .endOfOptions => none
    | .long name value =>
      if name = Utf8.ofString "log-level" then (value <|> rest.head?).bind levelNamed?
      else levelGiven rest
    | .short _ | .positional _ => levelGiven rest

/-- What stands before and behind the name of a command, which is the first argument that neither
looks like an option nor stands where the value of one is awaited. -/
def cutAtCommand (awaited : Bool) : List Bytes → List Bytes × List Bytes
  | [] => ([], [])
  | argument :: rest =>
    match awaited, Word.ofArgument argument with
    | false, .positional _ => ([], rest)
    | _, word =>
      let cut := cutAtCommand (word = .long (Utf8.ofString "log-level") none) rest
      (argument :: cut.1, cut.2)

/-- The level that a command line asks for: behind the name of the command, or else before it. -/
def levelAsked (arguments : List Bytes) : Option Level :=
  let cut := cutAtCommand false arguments
  levelGiven cut.2 <|> levelGiven cut.1

namespace Reading

/-- The level that a reader comes to with some arguments ahead, if it comes to their end. -/
def levelAhead (r : Reading) (arguments : List Bytes) : Option Level :=
  match r.held with
  | .level value => r.level <|> levelNamed? value
  | .levelAwaited =>
    r.level <|> if r.optionsEnded then none else arguments.head?.bind levelNamed?
  | .nothing | .abbreviation _ | .paths _ =>
    r.level <|> if r.optionsEnded then none else levelGiven arguments

variable {command : CommandName} {r s t : Reading} {argument : Bytes} {rest : List Bytes}

theorem Settles.levelAhead_eq (settles : r.Settles s) (arguments : List Bytes) :
    r.levelAhead arguments =
      (s.level <|> if s.optionsEnded then none else levelGiven arguments) := by
  cases settles with
  | nothing held => rw [levelAhead, held]
  | level held unset named =>
    simp [levelAhead, held, unset, levelNamed?, Utf8.decode?_encode, named]
  | abbreviation held => rw [levelAhead, held]
  | paths held filled => rw [levelAhead, held]

theorem Settles.levelAhead_nil (settles : r.Settles s) : r.levelAhead [] = s.level := by
  rw [settles.levelAhead_eq]
  split <;> simp [levelGiven]

theorem levelNamed?_of_not_positional {word : Word} (looks : Word.ofArgument argument = word)
    (option : ∀ value, word ≠ .positional value) : levelNamed? argument = none := by
  rw [Option.eq_none_iff_forall_ne_some]
  intro level named
  obtain ⟨text, decoded, named⟩ := Option.bind_eq_some_iff.mp named
  have plain := isPlain_encode_of_named named
  rw [Utf8.decode?_eq_some_iff.mp decoded] at plain
  exact option argument (looks ▸ Word.ofArgument_of_isPlain plain)

theorem readLevelOption_levelAhead {value : Option Bytes}
    (looks : Word.ofArgument argument = .long (Utf8.ofString "log-level") value)
    (opened : r.optionsEnded = false) (read : r.readLevelOption value = .ok t) :
    t.levelAhead rest = r.levelAhead (argument :: rest) := by
  obtain ⟨s, settles, set⟩ := exists_of_readLevelOption read
  have still : s.optionsEnded = false := settles.optionsEnded_eq.trans opened
  rw [settles.levelAhead_eq, still]
  rcases set with ⟨rfl, rfl⟩ | ⟨text, level, rfl, unset, named, rfl⟩
  · simp [levelAhead, levelGiven, looks, still]
  · simp [levelAhead, levelGiven, looks, unset, levelNamed?, Utf8.decode?_encode, named]

theorem readLevelOption_awaitsValue {value : Option Bytes} (opened : r.optionsEnded = false)
    (read : r.readLevelOption value = .ok t) : t.awaitsValue = value.isNone := by
  obtain ⟨s, settles, ⟨rfl, rfl⟩ | ⟨text, level, rfl, unset, named, rfl⟩⟩ :=
    exists_of_readLevelOption read
  · have still : s.optionsEnded = false := settles.optionsEnded_eq.trans opened
    simp [awaitsValue, still]
  · rfl

theorem Settles.levelAhead_of_skipped (settles : r.Settles s)
    (skipped : r.optionsEnded = false → levelGiven (argument :: rest) = levelGiven rest)
    (next : t.levelAhead rest =
      (s.level <|> if s.optionsEnded then none else levelGiven rest)) :
    t.levelAhead rest = r.levelAhead (argument :: rest) := by
  rw [next, settles.levelAhead_eq, settles.optionsEnded_eq]
  cases ended : r.optionsEnded with
  | true => rfl
  | false => rw [skipped ended]

theorem readPositional_levelAhead
    (skipped : r.optionsEnded = false → levelGiven (argument :: rest) = levelGiven rest)
    (read : readPositional command r argument = .ok t) :
    t.levelAhead rest = r.levelAhead (argument :: rest) := by
  unfold readPositional at read
  split at read
  · cases read
  · next paths held =>
    cases read
    simp only [levelAhead, held]
    cases ended : r.optionsEnded with
    | true => rfl
    | false => rw [skipped ended]
  all_goals
    cases settled : r.settle with
    | error usage => simp [settled] at read
    | ok s =>
      simp only [settled] at read
      cases read
      exact (settle_eq_ok_iff.mp settled).levelAhead_of_skipped skipped rfl

theorem readJsonOption_levelAhead {value : Option Bytes}
    (skipped : r.optionsEnded = false → levelGiven (argument :: rest) = levelGiven rest)
    (read : r.readJsonOption value = .ok t) :
    t.levelAhead rest = r.levelAhead (argument :: rest) := by
  unfold readJsonOption at read
  split at read
  · cases read
  · split at read
    · cases read
    · next s settled =>
      have settles := settle_eq_ok_iff.mp settled
      split at read
      · cases read
      · cases read
        exact settles.levelAhead_of_skipped skipped (by simp [levelAhead, settles.held_eq])

theorem readQuestion_ne_ok {switch : Switch} {answer : Usage} {value : Option Bytes} :
    r.readQuestion switch answer value ≠ .ok t := by
  unfold readQuestion
  split
  · simp
  · split <;> simp

/-- What a reader comes to is the same before it reads an argument and behind it. -/
theorem readAfter_levelAhead (read : readAfter command r argument = .ok t) :
    t.levelAhead rest = r.levelAhead (argument :: rest) := by
  cases ended : r.optionsEnded with
  | true =>
    rw [readAfter_of_ended ended] at read
    exact readPositional_levelAhead (by simp [ended]) read
  | false =>
    simp only [readAfter, ended, Bool.false_eq_true, if_false] at read
    cases looks : Word.ofArgument argument with
    | endOfOptions =>
      rw [looks] at read
      cases read
      have unnamed := levelNamed?_of_not_positional looks (by simp)
      cases held : r.held <;> simp [levelAhead, held, levelGiven, looks, ended, unnamed]
    | positional value =>
      obtain rfl := Word.eq_of_ofArgument_eq_positional looks
      simp only [looks] at read
      split at read
      · next awaits =>
        cases read
        simp [levelAhead, held_of_awaitsValue awaits, ended]
      · exact readPositional_levelAhead (by simp [levelGiven, looks]) read
    | short cluster =>
      simp only [looks] at read
      split at read
      · exact absurd read readQuestion_ne_ok
      · cases read
    | long name value =>
      simp only [looks] at read
      split at read
      · next same =>
        subst same
        exact readLevelOption_levelAhead looks ended read
      · next other =>
        have skipped : levelGiven (argument :: rest) = levelGiven rest := by
          simp [levelGiven, looks, other]
        split at read
        · exact readJsonOption_levelAhead (fun _ => skipped) read
        · split at read
          · exact absurd read readQuestion_ne_ok
          · cases read

theorem foldlM_levelAhead {arguments : List Bytes}
    (read : arguments.foldlM (readAfter command) r = .ok t) :
    t.levelAhead [] = r.levelAhead arguments := by
  induction arguments generalizing r with
  | nil =>
    cases read
    rfl
  | cons argument rest ih =>
    rw [List.foldlM_cons] at read
    cases first : readAfter command r argument with
    | error usage =>
      rw [first] at read
      cases read
    | ok next =>
      rw [first] at read
      rw [ih read, readAfter_levelAhead first]

theorem level_eq_of_readAllAfter {arguments : List Bytes}
    (read : readAllAfter command arguments = .ok s) : s.level = levelGiven arguments := by
  unfold readAllAfter at read
  split at read
  · cases read
  · next r all =>
    rw [← (settle_eq_ok_iff.mp read).levelAhead_nil, foldlM_levelAhead all]
    rfl

theorem readBefore_ne_ok_of_ended {arguments : List Bytes} {request : Request}
    (ended : r.optionsEnded = true) : r.readBefore arguments ≠ .ok request := by
  cases arguments with
  | nil => simp [readBefore]
  | cons argument rest => simp [readBefore, ended]

theorem exists_of_readOptionBefore {word : Word} (read : r.readOptionBefore word = .ok t) :
    t.optionsEnded = true ∨ ∃ value, word = .long (Utf8.ofString "log-level") value ∧
      r.readLevelOption value = .ok t := by
  cases word with
  | endOfOptions =>
    cases read
    exact .inl rfl
  | positional value => cases read
  | short cluster =>
    rw [readOptionBefore] at read
    split at read
    · exact absurd read readQuestion_ne_ok
    split at read
    · exact absurd read readQuestion_ne_ok
    · cases read
  | long name value =>
    rw [readOptionBefore] at read
    split at read
    · next same => exact .inr ⟨value, by rw [same], read⟩
    split at read
    · exact absurd read readQuestion_ne_ok
    split at read
    · exact absurd read readQuestion_ne_ok
    · cases read

theorem level_eq_of_readCommand {request : Request} {arguments : List Bytes}
    (read : readCommand r command arguments = .ok request) :
    request.level = (levelGiven arguments <|> r.levelAhead []) := by
  unfold readCommand at read
  split at read
  · cases read
  next after behind =>
  split at read
  · cases read
  split at read
  · cases read
  next before settled =>
    cases read
    rw [(settle_eq_ok_iff.mp settled).levelAhead_nil, ← level_eq_of_readAllAfter behind]

theorem readBefore_level {arguments : List Bytes} {request : Request}
    (read : r.readBefore arguments = .ok request) :
    request.level = (levelGiven (cutAtCommand r.awaitsValue arguments).2 <|>
      r.levelAhead (cutAtCommand r.awaitsValue arguments).1) := by
  induction arguments generalizing r with
  | nil => cases read
  | cons argument rest ih =>
    unfold readBefore at read
    split at read
    · cases read
    next opened =>
    have opened : r.optionsEnded = false := by simpa using opened
    split at read
    · next value looks =>
      obtain rfl := Word.eq_of_ofArgument_eq_positional looks
      split at read
      · next awaits =>
        rw [ih read, awaits]
        simp [cutAtCommand, looks, levelAhead, held_of_awaitsValue awaits, opened, awaitsValue]
      · next settled =>
        split at read
        · rw [level_eq_of_readCommand read]
          simp [cutAtCommand, looks, settled]
        · split at read <;> cases read
    · split at read
      · cases read
      next next option =>
      rcases exists_of_readOptionBefore option with ended | ⟨value, looks, set⟩
      · exact absurd read (readBefore_ne_ok_of_ended ended)
      · have cut : cutAtCommand r.awaitsValue (argument :: rest) =
            (argument :: (cutAtCommand value.isNone rest).1,
              (cutAtCommand value.isNone rest).2) := by
          cases value <;> simp [cutAtCommand, looks]
        rw [ih read, readLevelOption_awaitsValue opened set,
          readLevelOption_levelAhead looks opened set, cut]

end Reading

theorem level_eq_levelAsked {arguments : List Bytes} {request : Request}
    (parsed : parse arguments = .ok request) : request.level = levelAsked arguments :=
  Reading.readBefore_level parsed

end ClassQuery.CommandLine
