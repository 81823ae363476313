import LivePatch.Command.Arguments
import LivePatch.Command.Json
import LivePatch.Patch.Pipeline
import LivePatch.Settings.Load

/-!
# Running a command

A command reads files and ends in a `Report`: an exit code and two texts.  The code is 0 when all
went well, 1 when the source has problems, and 2 when the command could not be carried out.
Settings are loaded before the source is read.
-/

namespace LivePatch

/-- How a command ended. -/
structure Report where
  code : Nat
  /-- What goes to standard output. -/
  output : String := ""
  /-- What goes to standard error. -/
  errors : String := ""
deriving DecidableEq, Repr

namespace Report

/-- Lines, each with its end. -/
def lines (texts : List String) : String := String.join (texts.map (· ++ "\n"))

/-- The command could not be carried out. -/
def failed (message : String) : Report := { code := 2, errors := lines [message] }

/-- The two ends of a span as JSON. -/
def span (s : Span) : Json := .object [("start", .number s.start), ("end", .number s.stop)]

/-- An edit as JSON. -/
def edit (e : Edit) : Json := .object [
  ("rule", .text e.rule.label), ("range", span e.span),
  ("original", .text e.before), ("replacement", .text e.after)]

/-- A diagnostic as JSON. -/
def diagnostic (d : Diagnostic) : Json :=
  .object [("message", .text d.message), ("range", span d.span)]

/-- The report on a file that was patched. -/
def ofPatch (request : PatchRequest) (result : Except PatchError Outcome) : Report :=
  match result with
  | .error (.refused diagnostics) =>
    { code := 1, errors := lines (diagnostics.map fun d => request.file ++ ": " ++ d.render) }
  | .error e => failed e.message
  | .ok outcome =>
    if request.json then
      { code := 0
        output := lines [(Json.object [
          ("file", .text request.file), ("output", .text outcome.text),
          ("rewrites", .list (outcome.edits.map edit))]).render] }
    else { code := 0, output := outcome.text }

/-- The report on a file that was only parsed. -/
def ofParse (file : String) (json : Bool) (parsed : Parsed) : Report :=
  { code := if parsed.isClean then 0 else 1
    output :=
      if json then
        lines [(Json.object [
          ("file", .text file), ("errors", .list (parsed.diagnostics.map diagnostic)),
          ("tree", .text parsed.tree.dump)]).render]
      else parsed.tree.dump ++ lines (parsed.diagnostics.map fun d => "error: " ++ d.render) }

/-- A source that was not read. -/
def unread (file : String) (cause : ReadFailure) : Report :=
  failed ("failed to read " ++ file ++ ": " ++ cause.message)

end Report

/-- The options of a request: those of the settings, with what the request adds to them. -/
def PatchRequest.options (request : PatchRequest) (options : PatchOptions) : PatchOptions where
  comments := options.comments || request.annotate
  castReturns := options.castReturns || request.castReturns
  visibility := if request.implicitPrivate then .implicitPrivate else options.visibility

variable {m : Type → Type} [Monad m]

/-- Load the settings of a request: from the file it names, or for the directory of its source. -/
def PatchRequest.loadSettings (request : PatchRequest) (read : FileReader m) :
    m (Except SettingsError Settings) := do
  match request.settings with
  | some path => Settings.load read path
  | none => return (← Settings.loadFor read (Path.parent request.file)).map (·.1)

/-- Carry out a command. -/
def Command.run (read : FileReader m) : Command → m Report
  | .version => return { code := 0, output := "hotpatch 0.1.0\n" }
  | .patch request => do
    match ← request.loadSettings read with
    | .error e => return .failed e.fullMessage
    | .ok settings =>
      match ← read request.file with
      | .error cause => return .unread request.file cause
      | .ok source =>
        return .ofPatch request (LivePatch.patch (request.options settings.patch) source)
  | .parse file json => do
    match ← read file with
    | .error cause => return .unread file cause
    | .ok source => return .ofParse file json (LivePatch.parse source)

end LivePatch
