import DoWhile.Fault
import DoWhile.Text.Space

/-!
# Allowed origins

The origins that may use the service are given as one text, separated by commas. White space
around an origin does not count and neither do empty places between commas. Where no origin is
left, every origin is allowed, which is written as a star.
-/

set_option autoImplicit false

namespace DoWhile.Service

/-- The entry that allows every origin. -/
def anyOrigin : String := "*"

/-- The origins that a setting lists, in order. -/
def origins (setting : String) : List String :=
  match ((setting.toList.splitOn ',').map Text.trim).filter (fun o => o != []) with
  | [] => [anyOrigin]
  | listed => listed.map String.ofList

/-- The origins allowed by a setting that may be missing. -/
def allowedOrigins (setting : Option String) : List String := origins (setting.getD anyOrigin)

/-- Refuses a setting that holds a NUL. -/
def checkSetting (setting : Option String) : Except Fault Unit :=
  if (setting.getD "").toList.contains '\x00' then .error .embeddedNul else .ok ()

/-- The origins allowed by a setting, if it can be given. -/
def readOrigins (setting : Option String) : Except Fault (List String) := do
  checkSetting setting
  return allowedOrigins setting

end DoWhile.Service
