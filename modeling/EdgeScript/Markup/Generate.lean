import EdgeScript.Markup.Expr
import EdgeScript.Markup.Capture
import EdgeScript.Options
import EdgeScript.Note

/-!
# From statements to markup

`Markup.ofProgram` writes a lowered script as markup.  What the markup has no word for is refused:
loops, jumps and imports that are still there, and calls of functions that the script declares.
-/

set_option autoImplicit false

namespace EdgeScript

namespace Stmt

mutual

/-- The names of the functions that a statement declares, inner ones included. -/
def declaredFunctions : Stmt → List String
  | .function name _ _ body _ => name.name :: declaredFunctionsAll body
  | .ifChain branches (some body) _ =>
    declaredFunctionsBranches branches ++ declaredFunctionsAll body
  | .ifChain branches none _ => declaredFunctionsBranches branches
  | .forLoop _ _ body _ => declaredFunctionsAll body
  | .attempt body (some handler) _ => declaredFunctionsAll body ++ declaredFunctionsAll handler
  | .attempt body none _ => declaredFunctionsAll body
  | .block body _ => declaredFunctionsAll body
  | .atom _ | .breakLoop _ | .require .. => []

/-- The names of the functions that a sequence declares. -/
def declaredFunctionsAll : List Stmt → List String
  | [] => []
  | s :: rest => declaredFunctions s ++ declaredFunctionsAll rest

/-- The names of the functions that the bodies of branches declare. -/
def declaredFunctionsBranches : List (Branch Stmt) → List String
  | [] => []
  | ⟨_, body, _⟩ :: rest => declaredFunctionsAll body ++ declaredFunctionsBranches rest

end

end Stmt

/-- The generation of markup, which leaves notes. -/
abbrev Generation := Pass (Array Note)

namespace Markup

/-! ## Assignments -/

/-- Whether a value is written as the content of its tag, because an attribute cannot hold it. -/
def needsContent (text : String) : Bool :=
  text.toList.contains '"' || text.toList.contains '\n'

/-- The assignment of the value written as `text` to the variable, or entry, written as `name`. -/
def assignment (name text : String) : Markup :=
  if needsContent text then .element "assign" [⟨"name", name⟩] [.plain text]
  else .leaf "assign" [⟨"name", name⟩, ⟨"value", text⟩]

/-- An assignment to a variable, or to an entry of it. -/
def ofAssign (ctx : RenderContext) (target : Ident) (key : Option Expr) (value : Expr) :
    Except Error Markup := do
  let name ← (match key with
    | none => return target.name
    | some key => do
      let text ← key.render ctx .expression
      return target.name ++ "\x7b" ++ text ++ "\x7d" : Except Error String)
  let text ← value.render ctx .expression
  return assignment name text

/-! ## Inclusions -/

/-- The value of an option that is no header. -/
def optionText (ctx : RenderContext) (o : InclusionOption) : Except Error String := do
  let text ← (match o.key, o.value.literal?.bind Literal.truth? with
    | .noStore, some on => return if on then "on" else "off"
    | _, _ => o.value.render ctx .text : Except Error String)
  if o.key = .dca && text.toList.contains '>' then return "'" ++ text ++ "'" else return text

/-- The values of a header: the elements of an array, or the one value. -/
def headerValues : Expr → List Expr
  | .array elements _ => elements
  | e => [e]

/-- The option of a key, if it is given. -/
def option? (options : List InclusionOption) (key : OptionKey) : Option InclusionOption :=
  options.find? fun o => o.key == key

/-- The attributes of the option of one key: one, or one for each value of a header. -/
def optionAttributes (ctx : RenderContext) (options : List InclusionOption) (key : OptionKey) :
    Except Error (List Attribute) :=
  match option? options key with
  | none => return []
  | some o =>
    if key.isHeader then
      (headerValues o.value).mapM fun value => do
        let text ← value.render ctx .text
        return Attribute.processed key.attributeName text
    else do
      let text ← optionText ctx o
      return [Attribute.processed key.attributeName text]

/-- The attributes of an inclusion in their fixed order, the headers last. -/
def inclusionAttributes (ctx : RenderContext) (options : List InclusionOption) :
    Except Error (List Attribute) := do
  let attributes ← OptionKey.all.mapM (optionAttributes ctx options)
  return attributes.flatten

/-- The tag of an inclusion. -/
def inclusionTag : InclusionKind → String
  | .insert => "include"
  | .evaluate => "eval"

/-! ## Output -/

/-- An argument of an output of text as it stands. -/
def rawText : Expr → Except Error String
  | .lit (.str s) _ => return s
  | .lit value _ => return value.render .text
  | e => .error (.unsupported .rawOutputArgument e.span)

/-- The markup of an output. -/
def ofOutput (ctx : RenderContext) (kind : OutputKind) (args : List Expr) :
    Except Error (List Markup) :=
  match kind with
  | .printRaw => do
    let texts ← args.mapM rawText
    return texts.map .plain
  | .print => do
    let texts ← args.mapM (Expr.render ctx .text)
    return texts.map .plain
  | .printVars => do
    let texts ← args.mapM (Expr.render ctx .text)
    return [.element "vars" [] (texts.map .plain)]

/-! ## Statements -/

/-- Leaves a note. -/
def note (n : Note) : Generation Unit :=
  modify fun notes => notes.push n

/-- The markup of an expression that stands alone: a call is made for its effect, anything else is
written for nothing but its errors. -/
def ofExpr (ctx : RenderContext) (e : Expr) : Generation (List Markup) := do
  let text ← e.render ctx .expression
  match e with
  | .call .. => return [.element "vars" [] [.plain text]]
  | _ =>
    note (.expressionDropped text)
    return []

/-- The markup of a statement without statements inside. -/
def ofAtom (ctx : RenderContext) : Atom → Generation (List Markup)
  | .declare _ none _ => return []
  | .declare name (some value) _ => do
    let markup ← ofAssign ctx name none value
    return [markup]
  | .assign target key value _ => do
    let markup ← ofAssign ctx target key value
    return [markup]
  | .expr e => ofExpr ctx e
  | .ret _ span => throw (.unsupported .returnLeft span)
  | .inclusion kind options _ => do
    let attributes ← inclusionAttributes ctx options
    return [.leaf (inclusionTag kind) attributes]
  | .output kind args _ => ofOutput ctx kind args
  | .comment text _ => return [.leaf "comment" [⟨"text", replaceQuotes "&quot;" text⟩]]

/-- The attributes of a branch: its condition, and the name it binds. -/
def branchAttributes (cond : Expr) (test : String) : List Attribute :=
  Attribute.processed "test" test ::
    (cond.captureName?.map (Attribute.processed "matchname")).toList

/-- What is done otherwise, unless that is nothing. -/
def otherwise (content : List Markup) : List Markup :=
  if (textAll content).isEmpty then [] else [.element "otherwise" [] content]

mutual

/-- The markup of a statement. -/
def ofStmt (ctx : RenderContext) : Stmt → Generation (List Markup)
  | .atom a => ofAtom ctx a
  | .function name _ isInline _ _ => do
    if !isInline then note (.functionWithoutMarkup name.name)
    return []
  | .ifChain branches (some body) _ => do
    let whens ← ofBranches ctx branches
    let content ← ofStmts ctx body
    return [.element "choose" [] (whens ++ otherwise content)]
  | .ifChain branches none _ => do
    let whens ← ofBranches ctx branches
    return [.element "choose" [] whens]
  | .attempt body (some handler) _ => do
    let body ← ofStmts ctx body
    let handler ← ofStmts ctx handler
    return [.element "try" [] [.element "attempt" [] body, .element "except" [] handler]]
  | .attempt body none _ => do
    let body ← ofStmts ctx body
    return [.element "try" [] [.element "attempt" [] body, .element "except" [] []]]
  | .block body _ => ofStmts ctx body
  | .forLoop _ _ _ span => throw (.unsupported .loopLeft span)
  | .breakLoop span => throw (.unsupported .breakLeft span)
  | .require path _ span => throw (.unsupported (.requireLeft path) span)

/-- The markup of a sequence of statements. -/
def ofStmts (ctx : RenderContext) : List Stmt → Generation (List Markup)
  | [] => return []
  | s :: rest => do
    let first ← ofStmt ctx s
    let rest ← ofStmts ctx rest
    return first ++ rest

/-- The markup of the branches of a chain. -/
def ofBranches (ctx : RenderContext) : List (Branch Stmt) → Generation (List Markup)
  | [] => return []
  | ⟨cond, body, _⟩ :: rest => do
    let test ← cond.render ctx .expression
    let content ← ofStmts ctx body
    let rest ← ofBranches ctx rest
    return .element "when" (branchAttributes cond test) content :: rest

end

/-- The comment that says that the markup is generated. -/
def banner : List Markup :=
  [.leaf "comment" [⟨"text", "---- WARNING: GENERATED ESI ----"⟩], .plain "\n"]

/-- The markup of a script, with the limits and the comment that the options ask for. -/
def ofProgram (options : Options) (stmts : List Stmt) : Generation (List Markup) := do
  let ctx : RenderContext := ⟨Stmt.declaredFunctionsAll stmts, options.maxLoopIterations⟩
  Stmt.checkCaptures stmts
  let content ← ofStmts ctx stmts
  return if options.warningBanner then banner ++ content else content

/-- The name of the kind of markup. -/
def name : String := "esi"

/-- The version of the markup. -/
def dialect : String := "esi/1.0"

end Markup

end EdgeScript
