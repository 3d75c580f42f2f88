/-! # Log events -/

namespace Bindery.Log

/-- From the most to the least urgent. -/
inductive Level where
  | error
  | warn
  | info
  | debug
  | trace
deriving DecidableEq, Repr

namespace Level

def rank : Level → Nat
  | .error => 1
  | .warn => 2
  | .info => 3
  | .debug => 4
  | .trace => 5

def name : Level → String
  | .error => "error"
  | .warn => "warn"
  | .info => "info"
  | .debug => "debug"
  | .trace => "trace"

def all : List Level := [.error, .warn, .info, .debug, .trace]

/-- A level by its name in any case. -/
def ofName? (s : String) : Option Level :=
  all.find? fun l => l.name.toList == s.toList.map Char.toLower

end Level

/-- Something that happened, with the part of the program that reports it. -/
structure Event where
  level : Level
  target : String
  message : String
deriving DecidableEq, Repr

/-- An event on a line of its own. -/
def Event.line (e : Event) : String :=
  e.level.name.toUpper ++ " " ++ e.target ++ ": " ++ e.message ++ "\n"

end Bindery.Log
