import Lox.Files.Path

/-!
A tree of files as a program sees it that was started in the root of the tree. Directories above the
root exist, but nothing else is known of them.

Operations fail as those of the operating system do: a missing name, a plain file where a directory
must be, a directory where a plain file must be, something where nothing may be.
-/

namespace Lox.Files

inductive Refusal
  | notFound
  | alreadyThere
  | notDirectory
  | isDirectory
deriving DecidableEq, Repr, Inhabited

def Refusal.text : Refusal → String
  | notFound => "No such file or directory (os error 2)"
  | alreadyThere => "File exists (os error 17)"
  | notDirectory => "Not a directory (os error 20)"
  | isDirectory => "Is a directory (os error 21)"

/-- What a name stands for. -/
inductive Node
  | file (bytes : List UInt8)
  | directory
deriving DecidableEq, Repr, Inhabited

/-- The nodes by the names that lead to them from the root, which is always a directory. -/
structure Tree where
  nodes : List (List String × Node)
deriving DecidableEq, Repr, Inhabited

/-- Where a path has led so far. -/
inductive Place
  | inside (names : List String)
  | above
  | unknown
deriving DecidableEq, Repr, Inhabited

namespace Place

def next : Place → Step → Place
  | place, .stay => place
  | inside [], .up => above
  | inside names, .up => inside names.dropLast
  | inside names, .down name => inside (names ++ [name])
  | above, .up => above
  | above, .down _ => unknown
  | unknown, _ => unknown

def start (p : Path) : Place :=
  if p.isAbsolute then above else inside []

end Place

namespace Tree

def node? (t : Tree) : Place → Option Node
  | .inside [] => some .directory
  | .inside names => t.nodes.lookup names
  | .above => some .directory
  | .unknown => none

/-- Follows steps; each one must start at a directory. -/
def follow (t : Tree) : Place → List Step → Except Refusal Place
  | place, [] => .ok place
  | place, step :: steps =>
    match t.node? place with
    | none => .error .notFound
    | some (.file _) => .error .notDirectory
    | some .directory => t.follow (place.next step) steps

/-- What a path stands for. -/
def find (t : Tree) (p : Path) : Except Refusal Node := do
  match t.node? (← t.follow (.start p) p.steps) with
  | none => .error .notFound
  | some (.file bytes) => if p.isClosed then .error .notDirectory else return .file bytes
  | some .directory => return .directory

def isDirectory (t : Tree) (p : Path) : Bool :=
  match t.find p with
  | .ok .directory => true
  | _ => false

def put (t : Tree) (names : List String) (node : Node) : Tree :=
  ⟨(names, node) :: t.nodes.filter fun entry => entry.1 != names⟩

/-- Makes one directory in a directory. -/
def makeDirectory (t : Tree) (start : Place) (steps : List Step) : Except Refusal Tree := do
  let place ← t.follow start steps
  match place, t.node? place with
  | .inside names, none => return t.put names .directory
  | _, none => .error .notFound
  | _, some _ => .error .alreadyThere

/-- Makes a directory and all that it lies in; the steps are in reverse. Nothing is made if the
directory is there already. -/
def makeDirectories (t : Tree) (start : Place) : List Step → Except Refusal Tree
  | [] => .ok t
  | last :: before =>
    let steps := (last :: before).reverse
    let unlessThere (t : Tree) (r : Refusal) : Except Refusal Tree :=
      match t.follow start steps with
      | .ok place => if t.node? place = some .directory then .ok t else .error r
      | .error _ => .error r
    match t.makeDirectory start steps with
    | .ok t => .ok t
    | .error .notFound => do
      let t ← t.makeDirectories start before
      match t.makeDirectory start steps with
      | .ok t => .ok t
      | .error r => unlessThere t r
    | .error r => unlessThere t r

/-- Makes all directories that a path lies in. -/
def makeParents (t : Tree) (p : Path) : Except Refusal Tree :=
  t.makeDirectories (.start p) p.parent.reverse

/-- Writes a plain file, new or not. -/
def writeFile (t : Tree) (p : Path) (bytes : List UInt8) : Except Refusal Tree := do
  let place ← t.follow (.start p) p.steps
  match place, t.node? place with
  | _, some .directory => .error .isDirectory
  | .inside names, _ =>
    if p.isClosed then .error .isDirectory else return t.put names (.file bytes)
  | _, _ => .error .notFound

/-- The plain files that are not in the same place with the same contents in another tree. -/
def filesNotIn (t other : Tree) : List (List String × List UInt8) :=
  t.nodes.filterMap fun (names, node) =>
    match node with
    | .file bytes =>
      if other.nodes.lookup names = some (.file bytes) then none else some (names, bytes)
    | .directory => none

end Tree

end Lox.Files
