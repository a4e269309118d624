import Lox.Settings.File
import Lox.Text.Blank
import Lox.Text.Quoted

/-!
What the environment changes in the settings. Texts are read without the white space around them.
-/

namespace Lox.Settings

/-- What is wrong with a layer of settings. -/
inductive Problem
  /-- A file is not the text of settings. -/
  | file (contents : String) (flaw : Json.Flaw)
  /-- The environment asks for a depth that is not a number. -/
  | depth (text : String)
deriving Inhabited

def Problem.message : Problem → String
  | file contents flaw => flaw.describe contents
  | depth text => "LOX_MAX_DEPTH must be an integer, got " ++ Text.quoted text

/-- The texts that mean yes. -/
def isYes (text : List Char) : Bool :=
  ["1", "true", "TRUE", "yes"].any fun yes => yes.toList == text

def withDebug (s : Settings) (text? : Option String) : Settings :=
  match text? with
  | some text => { s with debug := isYes (Text.trimmed text.toList) }
  | none => s

def withDepth (s : Settings) (text? : Option String) : Except Problem Settings :=
  match text? with
  | some text => match depth? (Text.trimmed text.toList) with
    | some n => .ok { s with maxDepth := n }
    | none => .error (.depth text)
  | none => .ok s

/-- The settings under the environment. A depth that is not a number is a problem, but the rest is
applied all the same. -/
def underEnvironment (s : Settings) (debug depth : Option String) : Settings × Option Problem :=
  let s := s.withDebug debug
  match s.withDepth depth with
  | .ok s => (s, none)
  | .error problem => (s, some problem)

/-- The settings in the text of a file. -/
def ofFile (contents : String) : Except Problem Settings :=
  match ofText contents with
  | .ok s => .ok s
  | .error flaw => .error (.file contents flaw)

end Lox.Settings
