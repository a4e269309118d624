/-!
Paths: names between slashes. Empty names mean nothing, a single dot stays where it is and two dots
go up; both need a directory to start from.
-/

namespace Lox.Files

inductive Step
  | stay
  | up
  | down (name : String)
deriving DecidableEq, Repr, Inhabited

/-- A path that is not empty. One that is closed by a slash can only mean a directory. -/
structure Path where
  isAbsolute : Bool
  steps : List Step
  isClosed : Bool
deriving DecidableEq, Repr, Inhabited

namespace Path

def endsInSlash (text : String) : Bool :=
  text.toList.getLast? = some '/'

def step? (name : String) : Option Step :=
  if name = "" then none
  else if name = "." then some .stay
  else if name = ".." then some .up
  else some (.down name)

def ofText? (text : String) : Option Path :=
  if text = "" then none
  else
    let names := (text.toList.splitOn '/').map String.ofList
    some ⟨text.toList.head? = some '/', names.filterMap step?, endsInSlash text⟩

/-- The steps to the directory that a path lies in. -/
def parent (p : Path) : List Step :=
  (p.steps.filter (· ≠ .stay)).dropLast

/-- A name below a directory. -/
def join (directory name : String) : String :=
  if directory = "" || endsInSlash directory then directory ++ name
  else directory ++ "/" ++ name

end Path

end Lox.Files
