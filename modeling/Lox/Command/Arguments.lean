import Lox.Settings.Basic

/-!
What the arguments of the command ask for.

An argument that starts with a dash and is longer than that is an option, unless it follows a double
dash, which ends the options. Every option may be given once, before or after the operand.
-/

namespace Lox.Command

/-- The options of the commands that evaluate. -/
structure Options where
  tokens : Bool
  ast : Bool
  json : Bool
  maxDepth : Option Nat
deriving DecidableEq, Repr, Inhabited

def Options.none : Options :=
  ⟨false, false, false, Option.none⟩

/-- What can be done with the file of settings. -/
inductive ConfigAction
  | print
  | create
  | locate
deriving DecidableEq, Repr, Inhabited

/-- What is done under the settings. -/
inductive Task
  | evaluateFile (path : String) (options : Options)
  | evaluateText (source : String) (options : Options)
  | prompt (options : Options)
  | config (action : ConfigAction)
deriving DecidableEq, Repr, Inhabited

/-- What the command is called for; for the version alone no settings are needed. -/
inductive Invocation
  | version
  | task (task : Task)
deriving DecidableEq, Repr, Inhabited

namespace Arguments

def isOption (arg : String) : Bool :=
  arg.toList.head? = some '-' && arg != "-"

/-- Options and operands as far as they have been read; the last operand comes first. -/
structure Read where
  options : Options
  operands : List String
deriving DecidableEq, Repr, Inhabited

/-- Sets a flag, which must not be set yet. -/
def setFlag (r : Read) (name : String) : Option Read :=
  let o := r.options
  match name with
  | "--tokens" => if o.tokens then none else some { r with options := { o with tokens := true } }
  | "--ast" => if o.ast then none else some { r with options := { o with ast := true } }
  | "--json" => if o.json then none else some { r with options := { o with json := true } }
  | _ => none

/-- Sets the depth, which must not be set yet. -/
def setDepth (r : Read) (text : List Char) : Option Read :=
  match r.options.maxDepth, Settings.depth? text with
  | none, some n => some { r with options := { r.options with maxDepth := some n } }
  | _, _ => none

def depthOption : String := "--max-depth"

/-- What follows the equals sign in an option that sets the depth. -/
def depthText? (arg : String) : Option (List Char) :=
  let opening := depthOption.toList ++ ['=']
  if opening.isPrefixOf arg.toList then some (arg.toList.drop opening.length) else none

/-- Reads options and operands in any order. -/
def read (r : Read) : List String → Option Read
  | [] => some r
  | "--" :: args => some { r with operands := args.reverse ++ r.operands }
  | arg :: args =>
    if arg = depthOption then
      match args with
      | [] => none
      | value :: args => (setDepth r value.toList).bind fun r => read r args
    else match depthText? arg with
    | some value => (setDepth r value).bind fun r => read r args
    | none =>
      if isOption arg then (setFlag r arg).bind fun r => read r args
      else read { r with operands := arg :: r.operands } args

/-- Options and exactly one operand. -/
def withOperand (args : List String) : Option (String × Options) := do
  let r ← read ⟨.none, []⟩ args
  match r.operands with
  | [operand] => some (operand, r.options)
  | _ => none

/-- Options and no operand. -/
def withoutOperand (args : List String) : Option Options := do
  let r ← read ⟨.none, []⟩ args
  if r.operands.isEmpty then some r.options else none

/-- Nothing more, but perhaps the end of options. -/
def nothing (args : List String) : Option Unit :=
  if args = [] ∨ args = ["--"] then some () else none

def configAction? : String → Option ConfigAction
  | "show" => some .print
  | "init" => some .create
  | "path" => some .locate
  | _ => none

/-- What the arguments ask for; none if they cannot be understood. Without any the prompt starts. -/
def parse (args : List String) : Option Invocation :=
  match args with
  | [] | ["--"] => some (.task (.prompt .none))
  | "run" :: args => do
    let (path, options) ← withOperand args
    if path = "" then none else some (.task (.evaluateFile path options))
  | "eval" :: args => do
    let (source, options) ← withOperand args
    some (.task (.evaluateText source options))
  | "repl" :: args => do
    some (.task (.prompt (← withoutOperand args)))
  | "config" :: name :: args => do
    let action ← configAction? name
    nothing args
    some (.task (.config action))
  | arg :: _ =>
    if arg = "--version" || ['-', 'V'].isPrefixOf arg.toList then some .version else none

end Arguments

/-- The settings under the options: flags add to them, a depth replaces theirs. -/
def Options.apply (o : Options) (s : Settings) : Settings :=
  { s with
    printTokens := s.printTokens || o.tokens
    printAst := s.printAst || o.ast
    maxDepth := o.maxDepth.getD s.maxDepth }

end Lox.Command
