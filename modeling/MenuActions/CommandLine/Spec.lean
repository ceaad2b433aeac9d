/-!
# The shape of a command line

A program has commands. The program and each command have options, every one of which takes a value;
the options of the program may also stand behind a command.
-/

namespace MenuActions.CommandLine

/-- What can be wrong with the value of an option. -/
inductive ValueFault
  /-- There is none. -/
  | missing
  /-- It cannot be read, for a reason. -/
  | unreadable (reason : String)
  deriving DecidableEq, Repr

/-- An option, which takes a value. -/
structure OptionSpec where
  /-- Its name behind two dashes. -/
  name : String
  /-- Its letter behind one dash. -/
  letter : Option Char
  /-- What its value is called. -/
  valueName : String
  about : String
  /-- Whether it must be given. -/
  required : Bool
  /-- Whether it may be given more than once. -/
  repeats : Bool
  /-- Its value when it is not given. -/
  standard : Option String
  /-- The environment variable that holds its value when it is not given. -/
  envName : Option String
  /-- What is wrong with a value. -/
  fault? : String → Option ValueFault

/-- The option as it is named in messages. -/
def OptionSpec.shown (option : OptionSpec) : String :=
  "--" ++ option.name ++ " <" ++ option.valueName ++ ">"

/-- A command and its own options. -/
structure CommandSpec where
  name : String
  about : String
  options : List OptionSpec

/-- A program, the options that all of its commands share, and its commands. -/
structure ProgramSpec where
  name : String
  version : String
  about : String
  shared : List OptionSpec
  commands : List CommandSpec

/-- What is wrong with a command line. -/
inductive UsageError
  | unexpectedArgument (argument : String)
  | unexpectedValue (value option : String)
  | unknownCommand (name : String)
  | missingValue (option : String)
  | badValue (value option reason : String)
  | repeatedOption (option : String)
  | missingOptions (options : List String)
  | missingCommand (program : String)
  deriving DecidableEq, Repr

/-- The error in words, line by line. -/
def UsageError.lines : UsageError → List String
  | .unexpectedArgument argument => ["error: unexpected argument '" ++ argument ++ "' found"]
  | .unexpectedValue value option =>
      ["error: unexpected value '" ++ value ++ "' for '" ++ option ++
        "' found; no more were expected"]
  | .unknownCommand name => ["error: unrecognized subcommand '" ++ name ++ "'"]
  | .missingValue option =>
      ["error: a value is required for '" ++ option ++ "' but none was supplied"]
  | .badValue value option reason =>
      ["error: invalid value '" ++ value ++ "' for '" ++ option ++ "': " ++ reason]
  | .repeatedOption option =>
      ["error: the argument '" ++ option ++ "' cannot be used multiple times"]
  | .missingOptions options =>
      "error: the following required arguments were not provided:" :: options.map ("  " ++ ·)
  | .missingCommand program =>
      ["error: '" ++ program ++ "' requires a subcommand but one was not provided"]

end MenuActions.CommandLine
