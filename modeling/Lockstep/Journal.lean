/-!
The journal: what a system reports about itself while it runs, oldest entry first.
-/

namespace Lockstep

inductive Level where
  | error
  | warn
  | info
  | trace
deriving DecidableEq, Repr

def Level.label : Level → String
  | .error => "ERROR"
  | .warn => "WARN"
  | .info => "INFO"
  | .trace => "TRACE"

structure Entry where
  level : Level
  text : String
deriving DecidableEq, Repr

def Entry.line (e : Entry) : String := e.level.label ++ " " ++ e.text

abbrev Journal := Array Entry

def Journal.note (j : Journal) (level : Level) (text : String) : Journal := j.push ⟨level, text⟩

end Lockstep
