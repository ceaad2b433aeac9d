import MenuActions.Backend
import MenuActions.Text.Diagnostic

/-!
# Log lines of effects

One line for each accepted service call: its name, and its parts as `name=value`. Names stand as
they are, texts and commands between quotes.
-/

namespace MenuActions

/-- A part of a log line as it stands. -/
def logPart (name value : String) : String :=
  name ++ "=" ++ value

/-- A part of a log line between quotes. -/
def logQuoted (name value : String) : String :=
  logPart name (Text.showQuoted value)

/-- A part of a log line that is a number. -/
def logNumber (name : String) (value : Float) : String :=
  logPart name (Decimal.Layout.log.write value)

/-- A part of a log line that is a count. -/
def logCount (name : String) (value : Nat) : String :=
  logPart name (toString value)

namespace Call

/-- The name of a call and its parts. -/
def logParts : Call → List String
  | console command => ["console", logQuoted "command" command]
  | runAs actor command => ["command", logPart "actor" actor, logQuoted "command" command]
  | message actor text => ["message", logPart "actor" actor, logQuoted "text" text]
  | broadcast text => ["broadcast", logQuoted "text" text]
  | actionbar actor text => ["actionbar", logPart "actor" actor, logQuoted "text" text]
  | title actor t =>
      [ "title", logPart "actor" actor, logPart "title" t.title, logPart "subtitle" t.subtitle,
        logCount "fade_in" t.fadeIn, logCount "stay" t.stay, logCount "fade_out" t.fadeOut ]
  | sound actor s =>
      [ "sound", logPart "actor" actor, logPart "sound" s.name,
        logNumber "volume" s.volume.toFloat, logNumber "pitch" s.pitch.toFloat ]
  | deposit actor amount total =>
      ["deposit", logPart "actor" actor, logNumber "amount" amount, logNumber "balance" total]
  | withdraw actor amount total =>
      ["withdraw", logPart "actor" actor, logNumber "amount" amount, logNumber "balance" total]
  | setBalance actor amount =>
      ["set balance", logPart "actor" actor, logNumber "balance" amount]

/-- The log line of a call. -/
def logLine (call : Call) : String :=
  "INFO effect: " ++ " ".intercalate call.logParts

end Call

end MenuActions
