import Telemetry.Text.Blank

/-!
# Log filters

A log filter is a list of directives between commas: a level, a target, or a target with its level.

* `LogFilter.isLevel`, `LogFilter.isDirective`;
* `LogFilter.isValid`: whether a text is a filter;
* `LogFilter.install`: setting up the one log of a process.
-/

namespace Telemetry.LogFilter

/-- The names of the levels. -/
def levels : List String := ["trace", "debug", "info", "warn", "error", "off"]

/-- A level, in letters of any case or as a digit up to five. -/
def isLevel (s : String) : Bool :=
  levels.contains s.toLower || ["0", "1", "2", "3", "4", "5"].contains s

/-- A character that may begin a target. -/
def beginsTarget (c : Char) : Bool :=
  c.isAlphanum || 0x80 ≤ c.toNat || c == '_' || c == ':' || c == '-'

/-- A level, a target, or a target with a level, which may be empty. Blanks may stand before a level
or a target without one. -/
def isDirective (cs : List Char) : Bool :=
  let named := cs.dropWhile Text.isBlank
  cs.isEmpty || named.head?.any beginsTarget &&
    match named.dropWhile (· != '=') with
    | [] => true
    | _ :: level => named.length == cs.length && (level.isEmpty || isLevel (.ofList level))

/-- Whether the text is a filter. -/
def isValid (filter : String) : Bool := (filter.toList.splitOn ',').all isDirective

/-- Why a log could not be set up. -/
inductive Failure where
  | invalid (filter : String)
  | installedBefore
deriving DecidableEq, Repr

/-- The words for a log that was set up before. -/
def installedMessage : String := "a global tracing subscriber is already installed"

/-- Sets up the log of a process under a filter; there is at most one. -/
def install (installed : Bool) (filter : String) : Except Failure Unit :=
  if !isValid filter then .error (.invalid filter)
  else if installed then .error .installedBefore
  else .ok ()

end Telemetry.LogFilter
