import EdgeScript.Outline
import EdgeScript.Stmt

/-!
# Outlines of scripts

The parts of a script under the names by which the `ast` command shows them.
-/

set_option autoImplicit false

namespace EdgeScript

def Span.outline (s : Span) : Outline :=
  .record "Span" [("start", .nat s.start), ("end", .nat s.stop), ("file_id", .nat s.file)]

def Ident.outline (id : Ident) : Outline :=
  .record "Ident" [("name", .string id.name), ("span", id.span.outline)]

/-- A literal and its place. -/
def Literal.outline (v : Literal) (span : Span) : Outline :=
  match v with
  | .int n => .apply "Int" [.word (toString n.toInt), span.outline]
  | .str s => .apply "String" [.string s, span.outline]
  | .bool b => .apply "Bool" [.bool b, span.outline]

def BinOp.outline : BinOp → Outline
  | .add => .word "Add"
  | .sub => .word "Sub"
  | .mul => .word "Mul"
  | .div => .word "Div"
  | .mod => .word "Mod"
  | .eq => .word "Eq"
  | .ne => .word "Ne"
  | .lt => .word "Lt"
  | .le => .word "Le"
  | .gt => .word "Gt"
  | .ge => .word "Ge"
  | .and => .word "And"
  | .or => .word "Or"
  | .bitAnd => .word "BitAnd"
  | .bitOr => .word "BitOr"
  | .bitXor => .word "BitXor"
  | .shl => .word "Shl"
  | .shr => .word "Shr"

def UnOp.outline : UnOp → Outline
  | .neg => .word "Neg"
  | .not => .word "Not"
  | .bitNot => .word "BitNot"

/-- A test is shown by its kind and by whether case counts. -/
def MatchOp.fields : MatchOp → List (String × Outline)
  | .pattern => [("op", .word "Matches"), ("case_insensitive", .bool false)]
  | .patternIgnoringCase => [("op", .word "Matches"), ("case_insensitive", .bool true)]
  | .part => [("op", .word "Has"), ("case_insensitive", .bool false)]
  | .partIgnoringCase => [("op", .word "Has"), ("case_insensitive", .bool true)]

namespace Expr

mutual

def outline : Expr → Outline
  | .lit value span => .apply "Literal" [value.outline span]
  | .ident id => .apply "Ident" [id.outline]
  | .binary op l r span =>
    .record "Binary"
      [("left", l.outline), ("op", op.outline), ("right", r.outline), ("span", span.outline)]
  | .unary op e span =>
    .record "Unary" [("op", op.outline), ("expr", e.outline), ("span", span.outline)]
  | .test op subject pattern capture span =>
    .apply "Match" [.record "MatchExpr" ([("subject", subject.outline)] ++ op.fields ++
      [("pattern", pattern.outline), ("capture", .option (capture.map Ident.outline)),
        ("span", span.outline)])]
  | .call callee args span =>
    .record "Call"
      [("callee", callee.outline), ("args", .list (outlineAll args)), ("span", span.outline)]
  | .index target key span =>
    .record "Index"
      [("target", target.outline), ("index", key.outline), ("span", span.outline)]
  | .range first last span =>
    .record "Range" [("start", first.outline), ("end", last.outline), ("span", span.outline)]
  | .array elements span =>
    .record "Array" [("elements", .list (outlineAll elements)), ("span", span.outline)]
  | .dict entries span =>
    .record "Dict" [("entries", .list (outlineEntries entries)), ("span", span.outline)]

def outlineAll : List Expr → List Outline
  | [] => []
  | e :: es => outline e :: outlineAll es

def outlineEntries : List (Expr × Expr) → List Outline
  | [] => []
  | (k, v) :: entries => .apply "" [outline k, outline v] :: outlineEntries entries

end

end Expr

def OptionKey.outline : OptionKey → Outline
  | .src => .word "Src"
  | .alt => .word "Alt"
  | .dca => .word "Dca"
  | .onError => .word "OnError"
  | .maxWait => .word "MaxWait"
  | .ttl => .word "Ttl"
  | .noStore => .word "NoStore"
  | .method => .word "Method"
  | .entity => .word "Entity"
  | .appendHeader => .word "AppendHeader"
  | .removeHeader => .word "RemoveHeader"
  | .setHeader => .word "SetHeader"

def InclusionOption.outline (o : InclusionOption) : Outline :=
  .record "IncludeOption"
    [("key", o.key.outline), ("value", o.value.outline), ("span", o.span.outline)]

def InclusionKind.name : InclusionKind → String
  | .insert => "Include"
  | .evaluate => "Eval"

def OutputKind.outline : OutputKind → Outline
  | .print => .word "Print"
  | .printVars => .word "PrintVars"
  | .printRaw => .word "PrintRaw"

def Atom.outline : Atom → Outline
  | .declare name value span =>
    .record "VarDecl"
      [("name", name.outline), ("value", .option (value.map Expr.outline)), ("span", span.outline)]
  | .assign target key value span =>
    .record "Assign"
      [("target", target.outline), ("key", .option (key.map Expr.outline)),
        ("value", value.outline), ("span", span.outline)]
  | .expr e => .apply "Expr" [e.outline]
  | .ret value span =>
    .record "Return" [("value", .option (value.map Expr.outline)), ("span", span.outline)]
  | .inclusion kind options span =>
    .apply kind.name [.record "IncludeStmt"
      [("options", .list (options.map InclusionOption.outline)), ("span", span.outline)]]
  | .output kind args span =>
    .record "Output"
      [("kind", kind.outline), ("args", .list (args.map Expr.outline)), ("span", span.outline)]
  | .comment text span => .record "Comment" [("text", .string text), ("span", span.outline)]

def Param.outline (p : Param) : Outline :=
  .record "Param"
    [("name", p.name.outline), ("default", .option (p.default?.map fun (v, s) => v.outline s)),
      ("span", p.span.outline)]

namespace Stmt

mutual

def outline : Stmt → Outline
  | .atom a => a.outline
  | .function name params isInline body span =>
    .apply "Function" [.record "FunctionDecl"
      [("name", name.outline), ("params", .list (params.map Param.outline)),
        ("body", .list (outlineAll body)), ("inline", .bool isInline), ("span", span.outline)]]
  | .ifChain branches (some body) span =>
    .apply "If" [.record "IfChain"
      [("branches", .list (outlineBranches branches)),
        ("else_body", .option (some (.list (outlineAll body)))), ("span", span.outline)]]
  | .ifChain branches none span =>
    .apply "If" [.record "IfChain"
      [("branches", .list (outlineBranches branches)), ("else_body", .option none),
        ("span", span.outline)]]
  | .forLoop var collection body span =>
    .apply "For" [.record "ForLoop"
      [("var", .option (var.map Ident.outline)), ("collection", collection.outline),
        ("body", .list (outlineAll body)), ("span", span.outline)]]
  | .breakLoop span => .apply "Break" [span.outline]
  | .attempt body (some handler) span =>
    .apply "Try" [.record "TryStmt"
      [("attempt", .list (outlineAll body)),
        ("except", .option (some (.list (outlineAll handler)))), ("span", span.outline)]]
  | .attempt body none span =>
    .apply "Try" [.record "TryStmt"
      [("attempt", .list (outlineAll body)), ("except", .option none), ("span", span.outline)]]
  | .require path force span =>
    .apply "Require" [.record "RequireStmt"
      [("path", .string path), ("force", .bool force), ("span", span.outline)]]
  | .block body span =>
    .record "Block" [("body", .list (outlineAll body)), ("span", span.outline)]

def outlineAll : List Stmt → List Outline
  | [] => []
  | s :: rest => outline s :: outlineAll rest

def outlineBranches : List (Branch Stmt) → List Outline
  | [] => []
  | ⟨cond, body, span⟩ :: rest =>
    .record "IfBranch"
      [("cond", cond.outline), ("body", .list (outlineAll body)), ("span", span.outline)] ::
      outlineBranches rest

end

end Stmt

/-- A script by its parts. -/
def Program.outline (p : Program) : Outline :=
  .record "Program" [("body", .list (Stmt.outlineAll p.body))]

end EdgeScript
