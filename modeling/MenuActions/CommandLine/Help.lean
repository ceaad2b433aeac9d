import MenuActions.CommandLine.Spec

/-!
# Help pages

What a program and its commands say of themselves: a line about the purpose, the form of the command
line, and a table of the commands and options.
-/

namespace MenuActions.CommandLine

/-- A text filled up with blanks to a width. -/
def padTo (width : Nat) (text : String) : String :=
  text ++ String.ofList (List.replicate (width - text.length) ' ')

/-- A line of a table of options. -/
structure HelpRow where
  letter : Option Char
  /-- The option without its letter. -/
  shown : String
  about : String

namespace HelpRow

/-- The line about help. -/
def help : HelpRow := ⟨some 'h', "--help", "Print help"⟩

/-- The line about the version. -/
def version : HelpRow := ⟨some 'V', "--version", "Print version"⟩

/-- The line about an option, with the variable and the value that stand in for it. -/
def ofOption (environment : String → Option String) (option : OptionSpec) : HelpRow :=
  let standIn := match option.envName with
    | some name => [" [env: " ++ name ++ "=" ++ (environment name).getD "" ++ "]"]
    | none => []
  let standard := match option.standard with
    | some value => [" [default: " ++ value ++ "]"]
    | none => []
  ⟨option.letter, option.shown, String.join (option.about :: standIn ++ standard)⟩

/-- The line with the texts about the options `width` columns behind the widest option's beginning.
-/
def line (width : Nat) (row : HelpRow) : String :=
  let letter := match row.letter with
    | some c => String.ofList ['-', c, ',', ' ']
    | none => "    "
  "  " ++ letter ++ padTo (width + 2) row.shown ++ row.about

end HelpRow

/-- Where an option stands among those of the same position: by its letter or else its name. -/
def OptionSpec.sortKey (option : OptionSpec) : String :=
  match option.letter with
  | some c => String.ofList [c.toLower, if c.isLower then '0' else '1']
  | none => option.name

/-- Shared options and a command's own in the order of a help page: by their positions in the two
lists, and those of the same position by letter or name. -/
def merged (shared own : List OptionSpec) : List OptionSpec :=
  ((shared.zipIdx ++ own.zipIdx).mergeSort fun a b =>
    if a.2 ≠ b.2 then a.2 < b.2 else a.1.sortKey ≤ b.1.sortKey).map Prod.fst

/-- A table of options. -/
def optionTable (rows : List HelpRow) : List String :=
  let width := (rows.map fun row => row.shown.length).foldl max 2
  "Options:" :: rows.map (HelpRow.line width)

/-- The line about the help command. -/
def helpAbout : String :=
  "Print this message or the help of the given subcommand(s)"

namespace ProgramSpec

/-- A table of commands. -/
def commandTable (program : ProgramSpec) : List String :=
  let rows := (program.commands.map fun command => (command.name, command.about)) ++
    [("help", helpAbout)]
  let width := (rows.map fun row => row.1.length).foldl max 0
  "Commands:" :: rows.map fun row => "  " ++ padTo (width + 2) row.1 ++ row.2

/-- The help page of a program. -/
def page (program : ProgramSpec) (environment : String → Option String) : List String :=
  [program.about, "", "Usage: " ++ program.name ++ " [OPTIONS] <COMMAND>", ""] ++
    program.commandTable ++ [""] ++
    optionTable (program.shared.map (HelpRow.ofOption environment) ++
      [HelpRow.help, HelpRow.version])

/-- The help page of a command. -/
def commandPage (program : ProgramSpec) (environment : String → Option String)
    (command : CommandSpec) : List String :=
  let needed := (command.options.filter OptionSpec.required).map fun option => " " ++ option.shown
  [command.about, "",
    String.join ("Usage: " :: program.name :: " " :: command.name :: " [OPTIONS]" :: needed), ""] ++
    optionTable ((merged program.shared command.options).map (HelpRow.ofOption environment) ++
      [HelpRow.help])

/-- The help page of the help command. -/
def helpPage (program : ProgramSpec) : List String :=
  [helpAbout, "", "Usage: " ++ program.name ++ " help [COMMAND]...", "", "Arguments:",
    "  [COMMAND]...  Print help for the subcommand(s)"]

end ProgramSpec

end MenuActions.CommandLine
