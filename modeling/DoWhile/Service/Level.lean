/-!
# Log levels

Records are logged at a level, and a threshold hides the records below it. A threshold is given by
name; two levels have two names each, and the lowest threshold hides nothing.
-/

set_option autoImplicit false

namespace DoWhile.Service

/-- How grave a record is. -/
inductive Level where
  | unset
  | debug
  | info
  | warning
  | error
  | critical
  deriving DecidableEq, Repr, Inhabited

namespace Level

/-- The number of a level; what is less than the threshold is left out. -/
def rank : Level → Nat
  | unset => 0
  | debug => 10
  | info => 20
  | warning => 30
  | error => 40
  | critical => 50

/-- The name under which a record of a level is shown. -/
def name : Level → String
  | unset => "NOTSET"
  | debug => "DEBUG"
  | info => "INFO"
  | warning => "WARNING"
  | error => "ERROR"
  | critical => "CRITICAL"

/-- The names by which a threshold can be given. -/
def names : List (String × Level) :=
  [("CRITICAL", critical), ("FATAL", critical), ("ERROR", error), ("WARN", warning),
   ("WARNING", warning), ("INFO", info), ("DEBUG", debug), ("NOTSET", unset)]

/-- The level of a name, if it names one. -/
def ofName? (name : String) : Option Level := (names.find? (fun n => n.1 == name)).map (·.2)

/-- Is a record of level `l` shown when `threshold` is the threshold? -/
def shows (threshold l : Level) : Bool := threshold.rank ≤ l.rank

end Level

/-- A record of the log. -/
structure Record where
  level : Level
  message : String
  deriving DecidableEq, Repr, Inhabited

end DoWhile.Service
