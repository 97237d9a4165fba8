import StuntDouble.HttpCalls

/-!
What becomes of an exception that a script lets go. The prelude marks the errors of failed
upstream calls with a property of the run; the worker tells them by it and reports them with
their kind, and the server answers for that kind.
-/
namespace StuntDouble.Prelude

open JsonText Script Upstream

section Classes

/-- An exception as the engine has it: a value of the script with its own properties, which are
data, each with its text if it has one, or an error of the engine itself. -/
inductive Uncaught
  | value (own : List (String × Option String)) (display : String)
  | native (outOfMemory : Bool) (display : String)

def Uncaught.display : Uncaught → String
  | .value _ display | .native _ display => display

/-- The own properties of what the prelude throws. -/
def Raised.own (marker : String) : Raised → List (String × Option String)
  | .upstream message kind =>
    [("message", some message), ("code", some "upstream_unreachable"), (marker, some kind)]
  | .thrown (.coded code message) => [("message", some message), ("code", some code)]
  | .thrown (.typeError message) => [("message", some message)]
  | .syntaxError => []

end Classes

section Reports

variable (readFloat : List Char → Option UInt64) (readError : List Char → String) (bounded : Bool)

end Reports

end StuntDouble.Prelude
