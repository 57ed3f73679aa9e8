import Signatory.Text.Basic

/-! Lines of a log. -/

namespace Signatory
set_option autoImplicit false

inductive LogLevel where
  | debug
  | info
  | warning
  | error
  | critical
  deriving DecidableEq, Repr

namespace LogLevel

def all : List LogLevel := [debug, info, warning, error, critical]

def word : LogLevel → Text
  | debug => "debug"
  | info => "info"
  | warning => "warning"
  | error => "error"
  | critical => "critical"

def name : LogLevel → Text
  | debug => "DEBUG"
  | info => "INFO"
  | warning => "WARNING"
  | error => "ERROR"
  | critical => "CRITICAL"

/-- The level of a name in whatever letters; a name of no level means a warning. -/
def ofName (s : Text) : LogLevel := (all.find? fun l => l.word = Text.toLower s).getD warning

def isProblem (l : LogLevel) : Bool := l = warning || l = error || l = critical

end LogLevel

structure LogLine where
  level : LogLevel
  message : Text
  deriving DecidableEq

end Signatory
