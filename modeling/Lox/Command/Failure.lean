import Lox.Diagnostics.Error

/-!
Why the command fails. The texts of failures that come from outside are kept as they are.
-/

namespace Lox.Command

inductive Failure
  | sourceNotFound (text : String)
  | inputOutput (text : String)
  | settings (text : String)
  /-- A source, by its name, with errors before evaluation. -/
  | source (name : String) (errors : List SyntaxError)
  /-- A source, by its name, with errors during evaluation. -/
  | evaluation (name : String) (errors : List RuntimeError)
  | fault (text : String)
deriving DecidableEq, Repr, Inhabited

namespace Failure

/-- One error a line, then the name of the source. -/
private def listed (title name : String) (errors : List String) : String :=
  String.join (errors.map fun e => title ++ ": " ++ e ++ "\n") ++ "  --> " ++ name ++ "\n"

def text : Failure → String
  | sourceNotFound text => "FileNotFoundError: " ++ text ++ "\n"
  | inputOutput text => "IOError: " ++ text ++ "\n"
  | settings text => "ConfigError: " ++ text ++ "\n"
  | source name errors => listed "SyntaxError" name (errors.map SyntaxError.text)
  | evaluation name errors => listed "RuntimeError" name (errors.map RuntimeError.text)
  | fault text => text ++ "\n"

end Failure

end Lox.Command
