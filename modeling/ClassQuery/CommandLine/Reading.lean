import ClassQuery.CommandLine.Basic

/-!
Reading a command line, argument by argument and from left to right.

A value is held when it is read and checked when the next option or value is settled, so an
argument that cannot be placed at all is reported before a value to the left of it that is wrong.
-/

set_option autoImplicit false
set_option relaxedAutoImplicit false

namespace ClassQuery.CommandLine

/-- A value that was read but not yet checked. -/
inductive Held where
  | nothing
  /-- The option that sets the level was read; its value comes next. -/
  | levelAwaited
  | level (value : Bytes)
  | abbreviation (value : Bytes)
  | paths (values : List Bytes)
deriving DecidableEq

/-- What has been read of one level of a command line: the options before the command, or the
command with all that follows it. -/
structure Reading where
  level : Option Level
  json : Bool
  abbreviation : Option Text
  paths : List Bytes
  positionals : Nat
  /-- What is not yet checked. -/
  held : Held
  optionsEnded : Bool
deriving DecidableEq

namespace Reading

def start : Reading := ⟨none, false, none, [], 0, .nothing, false⟩

def setLevel (r : Reading) (value : Bytes) : Except Usage Reading :=
  if r.level.isSome then .error (.repeated .logLevel)
  else match Utf8.decode? value with
    | none => .error .noText
    | some text =>
      match Level.read text with
      | .ok level => .ok { r with level := some level, held := .nothing }
      | .error fault => .error (.badLevel text fault)

def settle (r : Reading) : Except Usage Reading :=
  match r.held with
  | .nothing => .ok r
  | .levelAwaited => .error .noLevel
  | .level value => r.setLevel value
  | .abbreviation value =>
    match Utf8.decode? value with
    | none => .error .noText
    | some text => .ok { r with abbreviation := some text, held := .nothing }
  | .paths values =>
    if values.any (·.isEmpty) then .error .emptyPath
    else .ok { r with paths := r.paths ++ values, held := .nothing }

/-- Whether the next argument is the value of an option if it looks like a positional one. -/
def awaitsValue (r : Reading) : Bool := r.held = .levelAwaited && !r.optionsEnded

def readLevelOption (r : Reading) (value : Option Bytes) : Except Usage Reading :=
  match r.settle with
  | .error usage => .error usage
  | .ok r =>
    match value with
    | none => .ok { r with held := .levelAwaited }
    | some value => r.setLevel value

def readQuestion (r : Reading) (switch : Switch) (answer : Usage) (value : Option Bytes) :
    Except Usage Reading :=
  match value with
  | some value => .error (.surplusValue switch (Utf8.decodeLossy value))
  | none =>
    match r.settle with
    | .error usage => .error usage
    | .ok _ => .error answer

def readJsonOption (r : Reading) (value : Option Bytes) : Except Usage Reading :=
  match value with
  | some value => .error (.surplusValue .json (Utf8.decodeLossy value))
  | none =>
    match r.settle with
    | .error usage => .error usage
    | .ok r => if r.json then .error (.repeated .json) else .ok { r with json := true }

/-- Reads a positional argument of a command. A pattern takes one, a search any number. -/
def readPositional (command : CommandName) (r : Reading) (value : Bytes) :
    Except Usage Reading :=
  match command, r.positionals, r.held with
  | .pattern, _ + 1, _ => .error (.unknownArgument (Utf8.decodeLossy value))
  | .search, _ + 1, .paths values => .ok { r with held := .paths (values ++ [value]) }
  | .search, _ + 1, _ =>
    match r.settle with
    | .error usage => .error usage
    | .ok r => .ok { r with held := .paths [value] }
  | _, 0, _ =>
    match r.settle with
    | .error usage => .error usage
    | .ok r => .ok { r with positionals := 1, held := .abbreviation value }

def readAfter (command : CommandName) (r : Reading) (argument : Bytes) : Except Usage Reading :=
  if r.optionsEnded then readPositional command r argument
  else match Word.ofArgument argument with
    | .endOfOptions => .ok { r with optionsEnded := true }
    | .positional value =>
      if r.awaitsValue then .ok { r with held := .level value }
      else readPositional command r value
    | .long name value =>
      if name = Utf8.ofString "log-level" then r.readLevelOption value
      else if name = Utf8.ofString "json" then r.readJsonOption value
      else if name = Utf8.ofString "help" then r.readQuestion .help .help value
      else .error (.unknownArgument (Word.longShown name))
    | .short cluster =>
      if Word.firstOfCluster? cluster = some 'h' then r.readQuestion .help .help none
      else .error (.unknownArgument (Word.shortShown cluster))

def readAllAfter (command : CommandName) (arguments : List Bytes) : Except Usage Reading :=
  match arguments.foldlM (readAfter command) start with
  | .error usage => .error usage
  | .ok r => r.settle

def toCommand (name : CommandName) (r : Reading) : Except Usage Command :=
  match name with
  | .pattern => .ok (.pattern r.abbreviation r.json)
  | .search =>
    match r.abbreviation with
    | none => .error .noAbbreviation
    | some abbreviation =>
      .ok (.search abbreviation (if r.paths.isEmpty then [currentDirectory] else r.paths) r.json)

/-- Reads a command and then what was held before it. The level after the command counts more. -/
def readCommand (before : Reading) (name : CommandName) (arguments : List Bytes) :
    Except Usage Request :=
  match readAllAfter name arguments with
  | .error usage => .error usage
  | .ok after =>
    match after.toCommand name with
    | .error usage => .error usage
    | .ok command =>
      match before.settle with
      | .error usage => .error usage
      | .ok before => .ok ⟨command, after.level <|> before.level⟩

def commandName? (value : Bytes) : Option CommandName :=
  if value = Utf8.ofString "pattern" then some .pattern
  else if value = Utf8.ofString "search" then some .search
  else none

/-- Whether a word is the name of a command or asks for help in its place. -/
def isCommandWord (value : Bytes) : Bool :=
  (commandName? value).isSome || value = Utf8.ofString "help"

def answerHelp : List Bytes → Usage
  | [] => .help
  | [topic] => if isCommandWord topic then .help else .unknownCommand (Utf8.decodeLossy topic)
  | topic :: next :: _ =>
    if isCommandWord topic then .unknownCommand (Utf8.decodeLossy next)
    else .unknownCommand (Utf8.decodeLossy topic)

def withoutCommand (r : Reading) : Usage :=
  match r.settle with
  | .error usage => usage
  | .ok r => if r.level.isSome then .noCommand else .nothing

def notACommand (r : Reading) (value : Bytes) : Usage :=
  if r.optionsEnded && isCommandWord value then .unknownArgument (Utf8.decodeLossy value)
  else .unknownCommand (Utf8.decodeLossy value)

def readOptionBefore (r : Reading) : Word → Except Usage Reading
  | .endOfOptions => .ok { r with optionsEnded := true }
  | .positional value => .error (r.notACommand value)
  | .long name value =>
    if name = Utf8.ofString "log-level" then r.readLevelOption value
    else if name = Utf8.ofString "help" then r.readQuestion .help .help value
    else if name = Utf8.ofString "version" then r.readQuestion .version .version value
    else .error (.unknownArgument (Word.longShown name))
  | .short cluster =>
    if Word.firstOfCluster? cluster = some 'h' then r.readQuestion .help .help none
    else if Word.firstOfCluster? cluster = some 'V' then r.readQuestion .version .version none
    else .error (.unknownArgument (Word.shortShown cluster))

def readBefore (r : Reading) : List Bytes → Except Usage Request
  | [] => .error r.withoutCommand
  | argument :: rest =>
    if r.optionsEnded then .error (r.notACommand argument)
    else match Word.ofArgument argument with
      | .positional value =>
        if r.awaitsValue then readBefore { r with held := .level value } rest
        else match commandName? value with
          | some name => readCommand r name rest
          | none =>
            if isCommandWord value then .error (answerHelp rest) else .error (r.notACommand value)
      | word =>
        match r.readOptionBefore word with
        | .error usage => .error usage
        | .ok r => readBefore r rest

end Reading

/-- Reads a command line, given without the name of the program. -/
def parse (arguments : List Bytes) : Except Usage Request := Reading.start.readBefore arguments

end ClassQuery.CommandLine
