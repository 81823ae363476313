import LivePatch.Settings.Basic
import LivePatch.Settings.Directive

/-!
# Log filters

A filter is a list of directives, each about something else.  The filter in force joins the level
of the settings with the directives of the environment, which come later and so win.
-/

namespace LivePatch

/-- Directives with at most one for each subject. -/
structure LogFilter where
  directives : List Directive
deriving DecidableEq, Repr

namespace LogFilter

/-- The filter that logs one level everywhere. -/
def only (level : LogLevel) : LogFilter := ⟨[{ target := none, level }]⟩

/-- Add a directive in the place of one about the same. -/
def insert (filter : LogFilter) (d : Directive) : LogFilter :=
  ⟨filter.directives.filter (·.subject != d.subject) ++ [d]⟩

/-- Read a filter: directives with commas between them, of which a later one wins.  There may be
none.  One that cannot be read spoils the whole. -/
def ofText (text : String) : Except DirectiveFault LogFilter := do
  let directives ← ((text.splitOn ",").filter (!·.isEmpty)).mapM Directive.ofText
  return directives.foldl insert ⟨[]⟩

/-- The directives as they are written, in the order of their code points and with commas between
them.  One that holds for spans and for events is written for both. -/
def render (filter : LogFilter) : String :=
  let texts := filter.directives.flatMap fun d =>
    if d.isTwofold then [d.render, d.render] else [d.render]
  ",".intercalate (texts.mergeSort fun a b => !(b < a))

/-- The first filter unless it is malformed, and then the second.  A fault of another kind is
final. -/
def orElse (first second : Except DirectiveFault LogFilter) : Except DirectiveFault LogFilter :=
  match first with
  | .error .malformed => second
  | result => result

end LogFilter

namespace LogOptions

/-- The level of the settings as the text of a filter.  An empty one is the default, and a name
that `LogLevel.ofSetting?` knows is put into its usual form. -/
def directives (options : LogOptions) : String :=
  let text := trimBlank options.level
  if text.isEmpty then LogLevel.warn.label
  else match LogLevel.ofSetting? text with
    | some level => level.label
    | none => text

/-- The filter in force.  The directives of the environment are added to those of the settings, or
stand alone when these cannot be read; without them the settings decide, and settings that cannot
be read mean warnings. -/
def filter (options : LogOptions) (environment : Option String) :
    Except DirectiveFault LogFilter :=
  let own := options.directives
  let alone := LogFilter.orElse (LogFilter.ofText own) (.ok (.only .warn))
  match environment.map trimBlank with
  | none | some "" => alone
  | some added =>
    LogFilter.orElse (LogFilter.ofText (own ++ "," ++ added))
      (LogFilter.orElse (LogFilter.ofText added) alone)

end LogOptions

end LivePatch
