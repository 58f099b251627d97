/-! # Log levels

A level is set by its name, in letters of either case; other names change nothing. -/
set_option autoImplicit false

namespace SExprViewer

inductive LogLevel where
  | off | error | warn | info | debug | trace
deriving DecidableEq, Repr

namespace LogLevel

def all : List LogLevel := [.off, .error, .warn, .info, .debug, .trace]

def name : LogLevel → String
  | .off => "OFF"
  | .error => "ERROR"
  | .warn => "WARN"
  | .info => "INFO"
  | .debug => "DEBUG"
  | .trace => "TRACE"

def ofName? (text : String) : Option LogLevel :=
  all.find? fun level => level.name.toList = text.toList.map Char.toUpper

/-- The level after a request to set it. -/
def set (current : LogLevel) (text : String) : LogLevel := (ofName? text).getD current

end LogLevel

end SExprViewer
