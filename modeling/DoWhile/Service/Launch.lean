import DoWhile.Service.Application
import DoWhile.Text.Integer
import DoWhile.Text.Upper

/-!
# Launching the service

The service is launched with a host, a port and a log threshold, each from a setting that may be
missing. A setting that holds a NUL cannot be given at all. The threshold is read before the port,
so of two unusable settings the threshold is the one that is reported. A launch is announced by a
record, which a high threshold hides.
-/

set_option autoImplicit false

namespace DoWhile.Service

/-- The settings of a launch, as they are given. -/
structure Settings where
  host : Option String := none
  port : Option String := none
  level : Option String := none
  origins : Option String := none
  deriving DecidableEq, Repr, Inhabited

/-- A launch of the service. -/
structure Launch where
  host : String
  port : Int
  threshold : Level
  deriving DecidableEq, Repr, Inhabited

namespace Settings

/-- The threshold of a launch; its name may be written in small letters. -/
def threshold (s : Settings) : Except Fault Level :=
  let name := Text.upper (s.level.getD "INFO")
  match Level.ofName? name with
  | some l => .ok l
  | none => .error (.unknownLevel name)

/-- The port as a number. A text that is no integer, or one of too many digits, is a fault. -/
def portNumber (s : Settings) : Except Fault Int :=
  let text := s.port.getD "8080"
  match Text.readInt text with
  | none => .error (.badPort text)
  | some n =>
    if Text.digitCount text > Text.maxDigits then .error (.longPort (Text.digitCount text))
    else .ok n

/-- Reads all settings that a launch needs, and stops at the first that cannot be used. -/
def launch (s : Settings) : Except Fault Launch := do
  [s.host, s.port, s.level, s.origins].forM checkSetting
  let threshold ← s.threshold
  let port ← s.portNumber
  return ⟨s.host.getD "0.0.0.0", port, threshold⟩

end Settings

namespace Launch

/-- The record that announces the service. -/
def announcement (l : Launch) : Record :=
  ⟨.info, title ++ " listening on http://" ++ l.host ++ ":" ++ toString l.port⟩

/-- What a launch writes to the log, where records are stamped with `time` and signed by
`logger`. -/
def written (l : Launch) (time logger : String) : String :=
  let r := l.announcement
  if l.threshold.shows r.level then
    time ++ " " ++ r.level.name ++ " " ++ logger ++ ": " ++ r.message ++ "\n"
  else ""

end Launch

end DoWhile.Service
