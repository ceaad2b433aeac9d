import MenuActions.CommandLine.Help

/-!
# Arguments

The words of a command line, read from left to right: options of the program, a command, and options
of the command. The value of an option is checked when the next option begins or the words end.
-/

namespace MenuActions.CommandLine

/-- Why no command is run. -/
inductive Halt
  /-- A help page was asked for. -/
  | help (page : List String)
  /-- The version was asked for. -/
  | version
  /-- Nothing was given, so that a help page has to do. -/
  | nothing (page : List String)
  /-- The command line is wrong. -/
  | wrong (error : UsageError)
  deriving DecidableEq, Repr

/-- The values of options by the options' names, in the order of the words. -/
abbrev Given := List (String × String)

/-- The words read so far: the options with checked values, and the last option with its value, if
its value was given already. -/
structure Progress where
  given : Given
  last : Option (OptionSpec × Option String)

/-- The options and pages at one place of a command line. -/
structure Level where
  options : List OptionSpec
  page : List String
  /-- Whether the version can be asked for here. -/
  hasVersion : Bool
  /-- What is wrong when a word stands here that belongs to no option. -/
  stray : String → UsageError

/-- Adds the value of an option, unless it is wrong. -/
def Given.add (given : Given) (option : OptionSpec) (value : String) : Except Halt Given :=
  if !option.repeats && given.any fun entry => entry.1 == option.name then
    .error (.wrong (.repeatedOption option.shown))
  else
    match option.fault? value with
    | some .missing => .error (.wrong (.missingValue option.shown))
    | some (.unreadable reason) => .error (.wrong (.badValue value option.shown reason))
    | none => .ok (given ++ [(option.name, value)])

namespace Progress

/-- Nothing read. -/
def start : Progress := ⟨[], none⟩

/-- Whether the next word is the value of an option, unless it looks like an option. -/
def awaitsValue (progress : Progress) : Bool :=
  progress.last.any fun entry => entry.2.isNone

/-- Checks the value of the last option. -/
def close (progress : Progress) : Except Halt Progress :=
  match progress.last with
  | none => .ok progress
  | some (option, none) => .error (.wrong (.missingValue option.shown))
  | some (option, some value) => do
      let given ← progress.given.add option value
      return ⟨given, none⟩

/-- Goes on with an option, whose value may be attached to it. -/
def takeOption (option : OptionSpec) (attached : Option String) (progress : Progress) :
    Except Halt Progress := do
  let closed ← progress.close
  match attached with
  | some value =>
      let given ← closed.given.add option value
      return ⟨given, none⟩
  | none => return ⟨closed.given, some (option, none)⟩

/-- Stops, once the last option is checked. -/
def halt (progress : Progress) (reason : Halt) : Except Halt Progress := do
  let _ ← progress.close
  .error reason

end Progress

namespace Level

/-- Reads an option given by its name. -/
def readNamed (level : Level) (name : String) (attached : Option String) (progress : Progress) :
    Except Halt Progress :=
  let isHelp := name == "help"
  if isHelp || (level.hasVersion && name == "version") then
    match attached with
    | some value => .error (.wrong (.unexpectedValue value ("--" ++ name)))
    | none => progress.halt (if isHelp then .help level.page else .version)
  else
    match level.options.find? fun option => option.name == name with
    | some option => progress.takeOption option attached
    | none => .error (.wrong (.unexpectedArgument ("--" ++ name)))

/-- Reads an option given by its letter. What follows the letter is its value. -/
def readLetter (level : Level) (letter : Char) (rest : List Char) (progress : Progress) :
    Except Halt Progress :=
  match level.options.find? fun option => option.letter == some letter with
  | some option =>
      let attached := match rest with
        | [] => none
        | '=' :: value => some (String.ofList value)
        | value => some (String.ofList value)
      progress.takeOption option attached
  | none =>
      if letter = 'h' then progress.halt (.help level.page)
      else if level.hasVersion && letter = 'V' then progress.halt .version
      else .error (.wrong (.unexpectedArgument (String.ofList ['-', letter])))

/-- Reads a word. -/
def readWord (level : Level) (word : String) (progress : Progress) : Except Halt Progress :=
  match word.toList with
  | '-' :: '-' :: rest =>
      let name := String.ofList (rest.takeWhile (· != '='))
      let attached := match rest.dropWhile (· != '=') with
        | [] => none
        | _ :: value => some (String.ofList value)
      level.readNamed name attached progress
  | '-' :: letter :: rest => level.readLetter letter rest progress
  | _ =>
      match progress.last with
      | some (option, none) => .ok { progress with last := some (option, some word) }
      | _ => .error (.wrong (level.stray word))

/-- Reads the words behind a command. Nothing may follow two dashes. -/
def readWords (level : Level) : List String → Progress → Except Halt Progress
  | [], progress => .ok progress
  | word :: words, progress =>
      if word = "--" then
        match words with
        | [] => .ok progress
        | stray :: _ => .error (.wrong (level.stray stray))
      else do
        let progress ← level.readWord word progress
        level.readWords words progress

/-- The values that environment variables hold for options that are not given. -/
def fromEnvironment (environment : String → Option String) (given : Given) :
    List OptionSpec → Except Halt Given
  | [] => .ok []
  | option :: options => do
      let found := match option.envName with
        | some name => if given.any (·.1 == option.name) then none else environment name
        | none => none
      let first ← match found with
        | some value => Given.add [] option value
        | none => .ok []
      let rest ← fromEnvironment environment given options
      return first ++ rest

/-- Checks the last option and the variables, and gives the values from the words and the variables.
-/
def finish (level : Level) (environment : String → Option String) (progress : Progress) :
    Except Halt (Given × Given) := do
  let closed ← progress.close
  let standIns ← fromEnvironment environment closed.given level.options
  return (closed.given, standIns)

end Level

namespace ProgramSpec

/-- The place in front of a command. -/
def level (program : ProgramSpec) (environment : String → Option String) : Level :=
  ⟨program.shared, program.page environment, true, .unknownCommand⟩

/-- The place behind a command. -/
def commandLevel (program : ProgramSpec) (environment : String → Option String)
    (command : CommandSpec) : Level :=
  ⟨command.options ++ program.shared, program.commandPage environment command, false,
    .unexpectedArgument⟩

/-- The command of some name. -/
def command? (program : ProgramSpec) (name : String) : Option CommandSpec :=
  program.commands.find? fun command => command.name == name

/-- The help page that the words behind the help command ask for. -/
def helpFor (program : ProgramSpec) (environment : String → Option String) : List String → Halt
  | [] => .help (program.page environment)
  | name :: names =>
      match program.command? name, names with
      | some command, [] => .help (program.commandPage environment command)
      | some _, stray :: _ => .wrong (.unknownCommand stray)
      | none, [] =>
          if name = "help" then .help program.helpPage else .wrong (.unknownCommand name)
      | none, stray :: _ => .wrong (.unknownCommand (if name = "help" then stray else name))

/-- Reads the words up to a command, and gives the command and the words behind it. -/
def readWords (program : ProgramSpec) (environment : String → Option String) :
    List String → Progress → Except Halt (Progress × Option (CommandSpec × List String))
  | [], progress => .ok (progress, none)
  | word :: words, progress =>
      let isCommand := fun word => word == "help" || (program.command? word).isSome
      if word = "--" then
        match words with
        | [] => .ok (progress, none)
        | stray :: _ =>
            .error (.wrong (if isCommand stray then .unexpectedArgument stray
              else .unknownCommand stray))
      else if !progress.awaitsValue && word == "help" then
        .error (program.helpFor environment words)
      else
        match if progress.awaitsValue then none else program.command? word with
        | some command => .ok (progress, some (command, words))
        | none => do
            let progress ← (program.level environment).readWord word progress
            program.readWords environment words progress

/-- The values of a command's options that are neither given nor held by variables. -/
def standards (options : List OptionSpec) (given : Given) : Given :=
  options.filterMap fun option =>
    if given.any (·.1 == option.name) then none
    else option.standard.map fun value => (option.name, value)

/-- Reads what stands behind a command. A shared option behind the command counts before one in
front of it, and that one before a variable. -/
def readCommand (program : ProgramSpec) (environment : String → Option String)
    (command : CommandSpec) (words : List String) (front : Progress) : Except Halt Given := do
  let level := program.commandLevel environment command
  let progress ← level.readWords words .start
  let (behind, standIns) ← level.finish environment progress
  let missing := command.options.filter fun option =>
    option.required && !(behind ++ standIns).any (·.1 == option.name)
  if !missing.isEmpty then
    .error (.wrong (.missingOptions (missing.map OptionSpec.shown)))
  let (before, _) ← (program.level environment).finish environment front
  let given := behind ++ before ++ standIns
  return given ++ standards level.options given

/-- Reads a command line: the name of its command, and the values of the options. -/
def read (program : ProgramSpec) (environment : String → Option String) (words : List String) :
    Except Halt (String × Given) := do
  let (front, command) ← program.readWords environment words .start
  match command with
  | some (command, words) =>
      let given ← program.readCommand environment command words front
      return (command.name, given)
  | none =>
      let (given, standIns) ← (program.level environment).finish environment front
      if (given ++ standIns).isEmpty then .error (.nothing (program.page environment))
      else .error (.wrong (.missingCommand program.name))

end ProgramSpec

/-- The value of an option; of several, the one that counts first. -/
def Given.value? (given : Given) (name : String) : Option String :=
  (given.find? fun entry => entry.1 == name).map Prod.snd

/-- All values of an option. -/
def Given.values (given : Given) (name : String) : List String :=
  (given.filter fun entry => entry.1 == name).map Prod.snd

end MenuActions.CommandLine
