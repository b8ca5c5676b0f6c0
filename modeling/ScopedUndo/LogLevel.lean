import ScopedUndo.Text.Blank
import ScopedUndo.Text.Case
/-!
# Log levels

The five levels of the command line's log filter. A level is read case-insensitively after
trimming, by full Unicode upper case, and `WARNING` is a second spelling of `WARN`.
-/

namespace ScopedUndo

inductive LogLevel where
  | trace
  | debug
  | info
  | warn
  | error
  deriving DecidableEq, Repr

namespace LogLevel

def name : LogLevel → String
  | trace => "TRACE"
  | debug => "DEBUG"
  | info => "INFO"
  | warn => "WARN"
  | error => "ERROR"

def ofName? : String → Option LogLevel
  | "TRACE" => some trace
  | "DEBUG" => some debug
  | "INFO" => some info
  | "WARN" | "WARNING" => some warn
  | "ERROR" => some error
  | _ => none

/-- Reads a level: blanks around it are ignored, and letters in any case are accepted. -/
def parse? (text : String) : Option LogLevel :=
  (Text.asciiUpperText? (Text.trim text)).bind ofName?

def invalidMessage (text : String) : String :=
  "Invalid log level: " ++ text

/-- Reads a level, or gives the refusal, which quotes the text untrimmed. -/
def read (text : String) : Except String LogLevel :=
  match parse? text with
  | some level => .ok level
  | none => .error (invalidMessage text)

end LogLevel

end ScopedUndo
