/-!
What a run reports beside its result: events of three levels, each a message
with named details. A computation returns its events as data, and the outer
layer shows them.
-/

namespace RefinementTables

inductive Level where
  | info
  | warning
  | error
deriving DecidableEq, Repr

/-- The name a level is shown under. -/
def Level.name : Level → String
  | .info => "INFO"
  | .warning => "WARN"
  | .error => "ERROR"

structure Event where
  level : Level
  message : String
  details : List (String × String)
deriving DecidableEq, Repr

def Event.warning (message : String) : Event := ⟨.warning, message, []⟩

end RefinementTables
