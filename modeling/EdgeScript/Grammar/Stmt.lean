import EdgeScript.Stmt
import EdgeScript.Grammar.Expr

/-!
# The grammar of statements

`Grammar.program` reads a whole script.  What a statement may be depends on where it stands
(`Place`): a `break` needs a loop of the same function around it, a `return` a function.
-/

set_option autoImplicit false

namespace EdgeScript.Grammar

open EdgeScript.Parser

/-- Where a statement stands. -/
structure Place where
  /-- Whether a loop of the same function, or of the top level, is around. -/
  inLoop : Bool
  inFunction : Bool
deriving DecidableEq, Repr

/-- Outside of all loops and functions. -/
def Place.top : Place := ⟨false, false⟩

/-- Reads the end of a statement: a semicolon, or nothing before a closing brace and at the end. -/
def endStatement : Parser Unit := do
  if ← consumeSymbol .semicolon then return
  if (← check (.symbol .closeBrace)) || (← atEnd) then return
  unexpected "`;`"

/-! ## Statements without statements inside -/

/-- A declaration of a variable, from its keyword on. -/
def declaration : Parser Stmt := do
  let t ← advance
  let name ← ident
  let value ← (do
    if ← consumeSymbol .assign then return some (← expr) else return none : Parser (Option Expr))
  endStatement
  return .atom (.declare name value (← spanFrom t.span))

/-- A `return`, from its keyword on. -/
def returnStmt (place : Place) : Parser Stmt := do
  let t ← advance
  if !place.inFunction then misplaced .returnOutsideFunction t.span
  let value ← (do
    if (← check (.symbol .semicolon)) || (← check (.symbol .closeBrace)) then return none
    else return some (← expr) : Parser (Option Expr))
  endStatement
  return .atom (.ret value (← spanFrom t.span))

/-- A `break`, from its keyword on. -/
def breakStmt (place : Place) : Parser Stmt := do
  let t ← advance
  if !place.inLoop then misplaced .breakOutsideLoop t.span
  endStatement
  return .breakLoop t.span

/-- Whether a `require` is forced: the value behind `force=`. -/
def forceValue : Parser Bool := do
  let t ← advance
  match t.kind with
  | .keyword .true_ => return true
  | .keyword .false_ => return false
  | .int n => return n != 0
  | other => throw (.unexpectedToken "`true` or `false`" other (← previousSpan))

/-- The path of a `require`. -/
def requirePath : Parser String := do
  match ← currentKind with
  | .str path =>
    let _ ← advance
    return path
  | _ => unexpected "string literal path"

/-- The request to force a `require`, if there is one behind the path. -/
def requireForce : Parser Bool := do
  if !(← consumeSymbol .comma) then return false
  if ← check (.symbol .closeParen) then return false
  let _ ← expect (.keyword .force_)
  let _ ← symbol .assign
  let force ← forceValue
  let _ ← consumeSymbol .comma
  return force

/-- A `require`, from its keyword on. -/
def requireStmt : Parser Stmt := do
  let t ← advance
  let _ ← symbol .openParen
  let path ← requirePath
  let force ← requireForce
  let _ ← symbol .closeParen
  endStatement
  return .require path force (← spanFrom t.span)

/-- The option whose name differs from the given one by case alone. -/
def meantOption? (name : String) : Option String :=
  (OptionKey.all.find? fun key => key.name.toLower == name.toLower).map OptionKey.name

/-- The option of a name. -/
def optionKey (name : Ident) : Parser OptionKey :=
  match OptionKey.ofName? name.name with
  | some key => return key
  | none => throw (.unsupported (.unknownOption name.name (meantOption? name.name)) name.span)

/-- The option that comes next: a name in front of `=`, or `src` for the first value. -/
def nextOptionKey (isFirst : Bool) : Parser OptionKey := do
  match ← currentKind, ← peekKind with
  | .ident _, .symbol .assign =>
    let name ← ident
    let _ ← advance
    optionKey name
  | _, _ => if isFirst then return .src else unexpected "`name = value` option"

/-- One option of an inclusion; none may be given twice. -/
def inclusionOption (read : List InclusionOption) : Parser InclusionOption := do
  let start ← current
  let key ← nextOptionKey read.isEmpty
  if read.any fun o => o.key == key then misplaced (.duplicateOption key.name) start.span
  let value ← expr
  return ⟨key, value, ← spanFrom start.span⟩

/-- An inclusion, from its keyword on. -/
def inclusion (kind : InclusionKind) : Parser Stmt := do
  let t ← advance
  let _ ← symbol .openParen
  let options ← commaList (.symbol .closeParen) inclusionOption
  let _ ← symbol .closeParen
  endStatement
  let span ← spanFrom t.span
  if options.any fun o => o.key == .src then return .atom (.inclusion kind options span)
  else throw (.unsupported .missingSource span)

/-! ## Assignments and expressions -/

/-- What an assignment does with the old value of its target. -/
inductive AssignOp where
  | set
  | update (op : BinOp)
  /-- An update by one. -/
  | step (op : BinOp)
deriving DecidableEq, Repr

/-- The assignment that a symbol stands for. -/
def assignOp? : TokenKind → Option AssignOp
  | .symbol .assign => some .set
  | .symbol .plusEq => some (.update .add)
  | .symbol .minusEq => some (.update .sub)
  | .symbol .starEq => some (.update .mul)
  | .symbol .slashEq => some (.update .div)
  | .symbol .percentEq => some (.update .mod)
  | .symbol .plusPlus => some (.step .add)
  | .symbol .minusMinus => some (.step .sub)
  | _ => none

/-- The variable, and the key in it, that an expression names as the target of an assignment. -/
def assignTarget (e : Expr) : Parser (Ident × Option Expr) :=
  match e with
  | .ident id => return (id, none)
  | .index (.ident id) key _ => return (id, some key)
  | .index other _ _ => misplaced .assignmentTarget other.span
  | other => misplaced .assignmentTarget other.span

/-- The new value of an assignment's target `e`, from behind the operator `t`. -/
def assignedValue (e : Expr) (t : Token) : AssignOp → Parser Expr
  | .set => expr
  | .update op => do
    let value ← expr
    return .binary op e value (e.span.merge value.span)
  | .step op => return .binary op e (.lit (.int 1) t.span) (e.span.merge t.span)

/-- An expression that stands alone; a call of an output function is an output. -/
def exprStmt (start : Span) (e : Expr) : Parser Stmt := do
  match e with
  | .call callee args _ =>
    match OutputKind.ofName? callee.name with
    | none => return .atom (.expr e)
    | some kind =>
      if kind == .printRaw then
        if let some arg := args.find? fun a => a.literal?.isNone then
          misplaced .rawOutputArgument arg.span
      return .atom (.output kind args (← spanFrom start))
  | _ => return .atom (.expr e)

/-- An assignment, an output or an expression that stands alone. -/
def exprOrAssignment : Parser Stmt := do
  let start ← current
  let e ← expr
  match assignOp? (← currentKind) with
  | none =>
    endStatement
    exprStmt start.span e
  | some op =>
    let t ← advance
    let (target, key) ← assignTarget e
    let value ← assignedValue e t op
    endStatement
    return .atom (.assign target key value (← spanFrom start.span))

/-! ## Statements with statements inside

Each takes the parser of statements, which gives nothing for an empty statement. -/

/-- Statements up to, and without, a closing brace or the end. -/
def statements (stmt : Parser (Option Stmt)) : Parser (List Stmt) :=
  loop (fun read => do
    if (← check (.symbol .closeBrace)) || (← atEnd) then return .inr read
    match ← stmt with
    | some s => return .inl (read ++ [s])
    | none => return .inl read) []

/-- Statements in braces. -/
def block (stmt : Parser (Option Stmt)) : Parser (List Stmt) := do
  let _ ← symbol .openBrace
  let body ← statements stmt
  let _ ← symbol .closeBrace
  return body

/-- Statements in braces, or a single statement. -/
def body (stmt : Parser (Option Stmt)) : Parser (List Stmt) := do
  if ← check (.symbol .openBrace) then block stmt else return (← stmt).toList

/-- The default value of a parameter. -/
def defaultValue : Parser (Literal × Span) := do
  let t ← advance
  match t.kind with
  | .int n => return (.int n, t.span)
  | .str s => return (.str s, t.span)
  | .keyword .true_ => return (.bool true, t.span)
  | .keyword .false_ => return (.bool false, t.span)
  | .symbol .minus =>
    match ← currentKind with
    | .int n =>
      let _ ← advance
      return (.int (-n), ← spanFrom t.span)
    | _ => unexpected "number"
  | other => throw (.unexpectedToken "literal default value" other t.span)

/-- One parameter; none without a default may follow one that has a default. -/
def param (read : List Param) : Parser Param := do
  let name ← ident
  let default? ← (do
    if ← consumeSymbol .assign then return some (← defaultValue)
    else return none : Parser (Option (Literal × Span)))
  if default?.isNone && read.any (fun p => p.default?.isSome) then
    misplaced (.requiredAfterDefault name.name) name.span
  return ⟨name, default?, ← spanFrom name.span⟩

/-- Reads the word `inline` in front of a function's name. -/
def inlineMark : Parser Bool := do
  match ← currentKind, ← peekKind with
  | .ident "inline", .ident _ =>
    let _ ← advance
    return true
  | _, _ => return false

/-- The body of a function without the string in front that declares it inline, and whether there
was one. -/
def splitPragma : List Stmt → List Stmt × Bool
  | .atom (.expr (.lit (.str "inline") _)) :: rest => (rest, true)
  | stmts => (stmts, false)

/-- A function declaration, from its keyword on. -/
def function (stmt : Place → Parser (Option Stmt)) : Parser Stmt := do
  let t ← advance
  let marked ← inlineMark
  let name ← ident
  let _ ← symbol .openParen
  let params ← commaList (.symbol .closeParen) param
  let _ ← symbol .closeParen
  let stmts ← block (stmt ⟨false, true⟩)
  let (stmts, declared) := splitPragma stmts
  return .function name params (marked || declared) stmts (← spanFrom t.span)

/-- A condition, the only place of captures. -/
def condition : Parser Expr := do
  let saved := (← get).captures
  modify fun s => { s with captures := some 0 }
  let e ← expr
  modify fun s => { s with captures := saved }
  return e

/-- One condition of a chain and its body, from the keyword on. -/
def branch (stmt : Parser (Option Stmt)) : Parser (Branch Stmt) := do
  let t ← expect (.keyword .if_)
  let _ ← symbol .openParen
  let cond ← condition
  let _ ← symbol .closeParen
  let stmts ← body stmt
  return ⟨cond, stmts, ← spanFrom t.span⟩

/-- The branches of a chain and what is done otherwise. -/
def branches (stmt : Parser (Option Stmt)) :
    Parser (List (Branch Stmt) × Option (List Stmt)) :=
  loop (fun (read : List (Branch Stmt)) => do
    let b ← branch stmt
    let read := read ++ [b]
    if !(← consume (.keyword .else_)) then return .inr (read, none)
    if ← check (.keyword .if_) then return .inl read
    return .inr (read, some (← body stmt))) []

/-- A chain of conditions, from its first keyword on. -/
def ifChain (stmt : Parser (Option Stmt)) : Parser Stmt := do
  let start ← current
  let (read, otherwise) ← branches stmt
  return .ifChain read otherwise (← spanFrom start.span)

/-- The keywords that declare a variable. -/
def isDeclarator : TokenKind → Bool
  | .keyword .let_ | .keyword .var_ | .keyword .const_ => true
  | _ => false

/-- The variable of a loop, if it is written out. -/
def loopVar : Parser (Option Ident) := do
  let declared := isDeclarator (← currentKind)
  if declared then
    let _ ← advance
  let named ← (do
    match ← currentKind, ← peekKind with
    | .ident _, .keyword .of_ => return true
    | _, _ => return false : Parser Bool)
  if declared || named then
    let id ← ident
    let _ ← expect (.keyword .of_)
    return some id
  else return none

/-- A loop, from its keyword on. -/
def forLoop (stmt : Place → Parser (Option Stmt)) (place : Place) : Parser Stmt := do
  let t ← advance
  let _ ← symbol .openParen
  let var ← loopVar
  let collection ← expr
  let _ ← symbol .closeParen
  let stmts ← body (stmt { place with inLoop := true })
  return .forLoop var collection stmts (← spanFrom t.span)

/-- The handler of an attempt, if it has one; the name of the failure is not kept. -/
def handler (stmt : Parser (Option Stmt)) : Parser (Option (List Stmt)) := do
  if ← consume (.keyword .catch_) then
    if ← consumeSymbol .openParen then
      let _ ← ident
      let _ ← symbol .closeParen
    return some (← block stmt)
  if ← consume (.keyword .except_) then return some (← block stmt)
  return none

/-- An attempt, from its keyword on. -/
def attempt (stmt : Parser (Option Stmt)) : Parser Stmt := do
  let t ← advance
  let stmts ← block stmt
  let handler ← handler stmt
  return .attempt stmts handler (← spanFrom t.span)

/-- One statement, with `stmt` for those inside it; an empty statement gives nothing. -/
def statementWith (stmt : Place → Parser (Option Stmt)) (place : Place) :
    Parser (Option Stmt) := do
  let t ← current
  match t.kind with
  | .symbol .semicolon =>
    let _ ← advance
    return none
  | .symbol .openBrace =>
    let stmts ← block (stmt place)
    return some (.block stmts (← spanFrom t.span))
  | .keyword .function => return some (← function stmt)
  | .keyword .let_ | .keyword .var_ | .keyword .const_ => return some (← declaration)
  | .keyword .if_ => return some (← ifChain (stmt place))
  | .keyword .for_ => return some (← forLoop stmt place)
  | .keyword .try_ => return some (← attempt (stmt place))
  | .keyword .require_ => return some (← requireStmt)
  | .keyword .include_ => return some (← inclusion .insert)
  | .keyword .eval_ => return some (← inclusion .evaluate)
  | .keyword .break_ => return some (← breakStmt place)
  | .keyword .return_ => return some (← returnStmt place)
  | .comment text =>
    let _ ← advance
    return some (.atom (.comment text t.span))
  | _ => return some (← exprOrAssignment)

/-- One statement; an empty statement gives nothing. -/
def statement (place : Place) : Parser (Option Stmt) := fix statementWith place

/-- A whole script. -/
def program : Parser Program := do
  let stmts ← loop (fun (read : List Stmt) => do
    if ← atEnd then return .inr read
    match ← statement .top with
    | some s => return .inl (read ++ [s])
    | none => return .inl read) []
  return ⟨stmts⟩

end Grammar

namespace Program

/-- The script that a token list spells out. -/
def ofTokens (tokens : List Token) : Except Error Program :=
  Grammar.program.run' (Stream.ofTokens tokens)

/-- The script that a text spells out. -/
def parse (text : String) (file : Nat) : Except Error Program := do
  ofTokens (← tokenize text file)

end Program

/-- The expression at the start of a token list; what follows it is left unread. -/
def Expr.ofTokens (tokens : List Token) : Except Error Expr :=
  Grammar.expr.run' (Stream.ofTokens tokens)

end EdgeScript
