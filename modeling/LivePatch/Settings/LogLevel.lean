import LivePatch.Text.Digits

/-!
# Log levels

The six levels, their names, and the two ways to read one: as a part of a directive, where a number
may stand for a level, and as a word of the settings, where two synonyms are known.
-/

namespace LivePatch

/-- How much is logged. -/
inductive LogLevel where
  | off
  | error
  | warn
  | info
  | debug
  | trace
deriving DecidableEq, Repr

namespace LogLevel

/-- The levels, from the quietest. -/
def all : List LogLevel := [.off, .error, .warn, .info, .debug, .trace]

/-- The name of a level. -/
def label : LogLevel → String
  | .off => "off"
  | .error => "error"
  | .warn => "warn"
  | .info => "info"
  | .debug => "debug"
  | .trace => "trace"

/-- The level with a name, in letters of either case. -/
def ofName? (text : String) : Option LogLevel :=
  all.find? (·.label == text.map Char.toLower)

/-- The level with a number, counted from the quietest, or with a name. -/
def ofText? (text : String) : Option LogLevel :=
  match Scanner.readAll Scanner.natural text with
  | some number => all[number]?
  | none => ofName? text

/-- The names of levels that settings may use: the usual ones and two synonyms. -/
def ofSetting? (text : String) : Option LogLevel :=
  match text.map Char.toLower with
  | "warning" => some .warn
  | "none" => some .off
  | _ => ofName? text

end LogLevel

end LivePatch
