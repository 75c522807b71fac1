import EdgeScript.Expr

/-!
# Statements

A statement either contains no other statement (`Atom`), or is one of the six forms that structure a
script: function declarations, chains of conditions, loops, attempts and blocks.  A `break` and a
`require` stand by themselves, because the passes over a script treat them by their place.

`Atom.mapExprs`, `Atom.mapExprsM` and `Atom.exprs` reach the expressions of an atom, in the order in
which they are evaluated.
-/

set_option autoImplicit false

namespace EdgeScript

/-! ## Inclusions and output -/

/-- The options of an inclusion, in the order in which they become attributes. -/
inductive OptionKey where
  | src | alt | dca | onError | maxWait | ttl | noStore | method | entity
  | appendHeader | removeHeader | setHeader
deriving DecidableEq, Repr

namespace OptionKey

/-- Every option in the order of the attributes. -/
def all : List OptionKey :=
  [.src, .alt, .dca, .onError, .maxWait, .ttl, .noStore, .method, .entity,
    .appendHeader, .removeHeader, .setHeader]

/-- The name of an option in a script. -/
def name : OptionKey → String
  | .src => "src"
  | .alt => "alt"
  | .dca => "dca"
  | .onError => "onError"
  | .maxWait => "maxWait"
  | .ttl => "ttl"
  | .noStore => "noStore"
  | .method => "method"
  | .entity => "entity"
  | .appendHeader => "appendHeader"
  | .removeHeader => "removeHeader"
  | .setHeader => "setHeader"

/-- The name of its attribute in the markup. -/
def attributeName : OptionKey → String
  | .src => "src"
  | .alt => "alt"
  | .dca => "dca"
  | .onError => "onerror"
  | .maxWait => "maxwait"
  | .ttl => "ttl"
  | .noStore => "no-store"
  | .method => "method"
  | .entity => "entity"
  | .appendHeader => "appendheader"
  | .removeHeader => "removeheader"
  | .setHeader => "setheader"

/-- Whether the option is a header, which may have several values. -/
def isHeader : OptionKey → Bool
  | .appendHeader | .removeHeader | .setHeader => true
  | _ => false

/-- The option of a name. -/
def ofName? (name : String) : Option OptionKey :=
  all.find? fun key => key.name == name

end OptionKey

/-- An option of an inclusion with its value. -/
structure InclusionOption where
  key : OptionKey
  value : Expr
  span : Span
deriving Repr

/-- Whether the fetched text is inserted as it is or processed as markup in place. -/
inductive InclusionKind where
  | insert | evaluate
deriving DecidableEq, Repr

/-- The ways to write output: text with variables in it, the same in an element of its own, and
text as it stands. -/
inductive OutputKind where
  | print | printVars | printRaw
deriving DecidableEq, Repr

/-- The output function of a name. -/
def OutputKind.ofName? (name : String) : Option OutputKind :=
  if name == "print" then some .print
  else if name == "printv" then some .printVars
  else if name == "printraw" then some .printRaw
  else none

/-! ## Statements without statements inside -/

/-- A statement that contains no other statement. -/
inductive Atom where
  | declare (name : Ident) (value : Option Expr) (span : Span)
  /-- `target = value` or `target[key] = value`. -/
  | assign (target : Ident) (key : Option Expr) (value : Expr) (span : Span)
  | expr (e : Expr)
  | ret (value : Option Expr) (span : Span)
  | inclusion (kind : InclusionKind) (options : List InclusionOption) (span : Span)
  | output (kind : OutputKind) (args : List Expr) (span : Span)
  | comment (text : String) (span : Span)
deriving Repr

namespace Atom

def span : Atom → Span
  | .declare _ _ span => span
  | .assign _ _ _ span => span
  | .expr e => e.span
  | .ret _ span => span
  | .inclusion _ _ span => span
  | .output _ _ span => span
  | .comment _ span => span

/-- The atom with `f` applied to its expressions. -/
def mapExprs (f : Expr → Expr) : Atom → Atom
  | .declare name value span => .declare name (value.map f) span
  | .assign target key value span => .assign target (key.map f) (f value) span
  | .expr e => .expr (f e)
  | .ret value span => .ret (value.map f) span
  | .inclusion kind options span =>
    .inclusion kind (options.map fun o => { o with value := f o.value }) span
  | .output kind args span => .output kind (args.map f) span
  | .comment text span => .comment text span

/-- The atom with `f` applied to its expressions one after the other. -/
def mapExprsM {m : Type → Type} [Monad m] (f : Expr → m Expr) : Atom → m Atom
  | .declare name value span => do
    let value ← value.mapM f
    pure (.declare name value span)
  | .assign target key value span => do
    let key ← key.mapM f
    let value ← f value
    pure (.assign target key value span)
  | .expr e => do
    let e ← f e
    pure (.expr e)
  | .ret value span => do
    let value ← value.mapM f
    pure (.ret value span)
  | .inclusion kind options span => do
    let options ← options.mapM fun o => do
      let value ← f o.value
      pure { o with value := value }
    pure (.inclusion kind options span)
  | .output kind args span => do
    let args ← args.mapM f
    pure (.output kind args span)
  | .comment text span => pure (.comment text span)

/-- The expressions of an atom in the order of their evaluation. -/
def exprs : Atom → List Expr
  | .declare _ value _ => value.toList
  | .assign _ key value _ => key.toList ++ [value]
  | .expr e => [e]
  | .ret value _ => value.toList
  | .inclusion _ options _ => options.map InclusionOption.value
  | .output _ args _ => args
  | .comment _ _ => []

/-- The variable that an atom sets. -/
def assigned? : Atom → Option String
  | .declare name _ _ => some name.name
  | .assign target _ _ _ => some target.name
  | _ => none

end Atom

/-! ## Statements -/

/-- A parameter of a function; a default value has a place of its own. -/
structure Param where
  name : Ident
  default? : Option (Literal × Span)
  span : Span
deriving DecidableEq, Repr

/-- One condition of a chain and what is done if it is the first that holds. -/
structure Branch (Stmt : Type) where
  cond : Expr
  body : List Stmt
  span : Span
deriving Repr

/-- A statement. -/
inductive Stmt where
  | atom (a : Atom)
  | function (name : Ident) (params : List Param) (isInline : Bool) (body : List Stmt)
      (span : Span)
  | ifChain (branches : List (Branch Stmt)) (otherwise : Option (List Stmt)) (span : Span)
  /-- A loop over a collection; without a variable it is called `item`. -/
  | forLoop (var : Option Ident) (collection : Expr) (body : List Stmt) (span : Span)
  | breakLoop (span : Span)
  | attempt (body : List Stmt) (handler : Option (List Stmt)) (span : Span)
  | require (path : String) (force : Bool) (span : Span)
  | block (body : List Stmt) (span : Span)
deriving Repr, Inhabited

namespace Stmt

def span : Stmt → Span
  | .atom a => a.span
  | .function _ _ _ _ span => span
  | .ifChain _ _ span => span
  | .forLoop _ _ _ span => span
  | .breakLoop span => span
  | .attempt _ _ span => span
  | .require _ _ span => span
  | .block _ span => span

end Stmt

/-- The name of a loop's variable. -/
def loopVariable (var : Option Ident) : String :=
  (var.map Ident.name).getD "item"

/-- A script: its statements in order. -/
structure Program where
  body : List Stmt
deriving Repr, Inhabited

end EdgeScript
