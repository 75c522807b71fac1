import EdgeScript.Stmt
import EdgeScript.Note

/-!
# Inline functions

An inline function is its parameters and the expression it returns.  `FunctionTable` holds those of
a script by name, in the order of the names; a later declaration replaces an earlier one.
-/

set_option autoImplicit false

namespace EdgeScript

/-- An inline function, reduced to what its calls are replaced by. -/
structure InlineFunction where
  params : List Param
  body : Expr
  span : Span
deriving Repr

/-- The inline functions of a script, sorted by name. -/
abbrev FunctionTable := List (String × InlineFunction)

namespace FunctionTable

/-- The table with a function added, or replaced if there is one of the name. -/
def insert (name : String) (f : InlineFunction) : FunctionTable → FunctionTable
  | [] => [(name, f)]
  | (other, g) :: rest =>
    if name = other then (name, f) :: rest
    else if name < other then (name, f) :: (other, g) :: rest
    else (other, g) :: insert name f rest

/-- The function of a name. -/
def get? (table : FunctionTable) (name : String) : Option InlineFunction :=
  table.lookup name

/-- Whether there is a function of the name. -/
def contains (table : FunctionTable) (name : String) : Bool :=
  (table.get? name).isSome

/-- The names in their order. -/
def names (table : FunctionTable) : List String :=
  table.map Prod.fst

end FunctionTable

/-- The declaration of an inline function. -/
structure InlineDeclaration where
  name : String
  params : List Param
  body : List Stmt
  span : Span
deriving Repr

namespace Stmt

mutual

/-- The inline declarations in a statement, in the order of the text. -/
def inlineDeclarations : Stmt → List InlineDeclaration
  | .function name params true body span => [⟨name.name, params, body, span⟩]
  | .function _ _ false body _ => inlineDeclarationsAll body
  | .ifChain branches (some body) _ =>
    inlineDeclarationsBranches branches ++ inlineDeclarationsAll body
  | .ifChain branches none _ => inlineDeclarationsBranches branches
  | .forLoop _ _ body _ => inlineDeclarationsAll body
  | .attempt body (some handler) _ => inlineDeclarationsAll body ++ inlineDeclarationsAll handler
  | .attempt body none _ => inlineDeclarationsAll body
  | .block body _ => inlineDeclarationsAll body
  | .atom _ | .breakLoop _ | .require .. => []

/-- The inline declarations in a sequence of statements. -/
def inlineDeclarationsAll : List Stmt → List InlineDeclaration
  | [] => []
  | s :: rest => inlineDeclarations s ++ inlineDeclarationsAll rest

/-- The inline declarations in the branches of a chain. -/
def inlineDeclarationsBranches : List (Branch Stmt) → List InlineDeclaration
  | [] => []
  | ⟨_, body, _⟩ :: rest => inlineDeclarationsAll body ++ inlineDeclarationsBranches rest

end

end Stmt

/-- The place where an expression first reads a variable. -/
def Expr.findIdent? (name : String) (e : Expr) : Option Span :=
  e.subterms.findSome? fun
    | .ident id => if id.name = name then some id.span else none
    | _ => none

/-- The function that a declaration declares; its body must be one `return` of an expression that
does not read the request's arguments. -/
def InlineDeclaration.reduce (d : InlineDeclaration) : Except Error InlineFunction :=
  match d.body with
  | [.atom (.ret (some e) _)] =>
    match e.findIdent? argumentsVariable with
    | some span => .error (.inline d.name .readsArguments span)
    | none => .ok ⟨d.params, e, d.span⟩
  | _ => .error (.inline d.name .bodyShape d.span)

end EdgeScript
