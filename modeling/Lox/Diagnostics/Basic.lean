import Lox.Diagnostics.Error

/-!
The errors collected over any number of runs, in the order in which they were reported. The two
kinds are kept apart, and each can be read out and cleared without touching the other.
-/

namespace Lox

structure Diagnostics where
  syntaxErrors : List SyntaxError
  runtimeErrors : List RuntimeError
deriving DecidableEq, Repr, Inhabited

namespace Diagnostics

def empty : Diagnostics :=
  ⟨[], []⟩

def reportSyntax (d : Diagnostics) (errors : List SyntaxError) : Diagnostics :=
  { d with syntaxErrors := d.syntaxErrors ++ errors }

def reportRuntime (d : Diagnostics) (errors : List RuntimeError) : Diagnostics :=
  { d with runtimeErrors := d.runtimeErrors ++ errors }

def hasSyntaxErrors (d : Diagnostics) : Bool :=
  !d.syntaxErrors.isEmpty

def hasRuntimeErrors (d : Diagnostics) : Bool :=
  !d.runtimeErrors.isEmpty

/-- The syntax errors so far, and the collection without them. -/
def drainSyntax (d : Diagnostics) : List SyntaxError × Diagnostics :=
  (d.syntaxErrors, { d with syntaxErrors := [] })

/-- The runtime errors so far, and the collection without them. -/
def drainRuntime (d : Diagnostics) : List RuntimeError × Diagnostics :=
  (d.runtimeErrors, { d with runtimeErrors := [] })

/-- One error a line, without a line break at the end. -/
def dump (texts : List String) : String :=
  "\n".intercalate texts

def dumpSyntax (d : Diagnostics) : String :=
  dump (d.syntaxErrors.map SyntaxError.text)

def dumpRuntime (d : Diagnostics) : String :=
  dump (d.runtimeErrors.map RuntimeError.text)

end Diagnostics

end Lox
