import EdgeScript.Proofs.Reading.Placement

/-!
# Statements that are read

The grammar hands the place of a statement down to what is inside of it, and refuses what has no
place there.  The captures of a condition are counted from zero, so a condition has at most one;
outside of conditions there is no count, and a capture is refused.  So everything in a script that
has been read has its place (`Program.readAll_of_parse`), and the variables that are set have names
that the lexer has made.
-/

set_option autoImplicit false

namespace EdgeScript

namespace Scheme

/-- Names are those of the lexer, captures are counted, and everything has its place. -/
def read : Scheme where
  span _ := True
  name := Lexeme.IsName
  outside c := c = none
  error _ := True
  expr c e d := e.Read ∧ Spent c e.captureCount d
  stmt place s := s.Read place

/-- Outside of conditions nothing is captured. -/
theorem captureCount_of_plain {e : Expr} (h : read.plain e) : e.captureCount = 0 := by
  obtain ⟨_, _, rfl, -, -, hcount⟩ := h
  simpa using hcount

theorem isName_of_plain {id : Ident} (h : read.plain (.ident id)) : Lexeme.IsName id.name := by
  obtain ⟨_, _, _, hread, _⟩ := h
  exact Expr.read_ident.1 hread

/-- A condition captures at most once. -/
theorem isCondition_of_cond {e : Expr} (h : read.cond e) : e.IsCondition ∧ Rule.read.cond e := by
  obtain ⟨_, hread, -, hcount⟩ := h
  have hle : e.captureCount ≤ 1 := by omega
  exact ⟨⟨hle, hread.capturesOnMatches⟩, hread.named, hle⟩

theorem exists_lit {e : Expr} (h : e.literal?.isSome) : ∃ value span, e = .lit value span := by
  cases e with
  | lit value span => exact ⟨value, span, rfl⟩
  | _ => cases h

theorem readAll_of_stmts {place : Grammar.Place} {stmts : List Stmt} (h : read.stmts place stmts) :
    Stmt.ReadAll place stmts :=
  Stmt.readAll_iff.2 h

section Nodes

variable {a b c : Option Nat} {left right : Expr}

/-- The captures of two parts, one behind the other. -/
theorem spent_parts {e : Expr} (hcount : e.captureCount = left.captureCount + right.captureCount)
    (hleft : read.expr a left b) (hright : read.expr b right c) : Spent a e.captureCount c :=
  hcount ▸ hleft.2.trans hright.2

theorem canCapture_iff {op : MatchOp} :
    op.canCapture = true ↔ op = .pattern ∨ op = .patternIgnoringCase := by
  cases op <;> decide

theorem capture_read {op : MatchOp} {id : Ident} {span : Span} (hop : op.canCapture = true)
    (hleft : read.expr a left b) (hright : read.expr b right (some 0)) (hid : read.ident id) :
    read.expr a (.test op left right (some id) span) (some 1) := by
  constructor
  · refine Expr.read_test.2 ⟨fun id' hmem => ?_, hleft.1, hright.1⟩
    obtain rfl := Option.mem_some.1 hmem
    exact ⟨hid.1, canCapture_iff.1 hop⟩
  · rw [Expr.captureCount_test]
    exact (hleft.2.trans hright.2).trans ⟨rfl, .inr ⟨rfl, rfl⟩⟩

theorem call_read {callee : Ident} {args : List Expr} {span : Span}
    (hcallee : read.expr a (.ident callee) b) (hargs : read.exprs b args c) :
    read.expr a (.call callee args span) c := by
  constructor
  · exact Expr.read_call.2 ⟨Expr.read_ident.1 hcallee.1, hargs.forall_mem And.left⟩
  · have hspent := hcallee.2.trans (hargs.spent And.right)
    rwa [Expr.captureCount_ident, Nat.zero_add, ← Expr.captureCount_call] at hspent

theorem array_read {elements : List Expr} {span : Span} (h : read.exprs a elements b) :
    read.expr a (.array elements span) b := by
  constructor
  · exact Expr.read_array.2 (h.forall_mem And.left)
  · rw [Expr.captureCount_array]
    exact h.spent And.right

theorem dict_read {entries : List (Expr × Expr)} {span : Span} (h : Along read.entry a entries b) :
    read.expr a (.dict entries span) b := by
  constructor
  · refine Expr.read_dict.2 (h.forall_mem fun hentry => ?_)
    obtain ⟨_, hkey, hvalue⟩ := hentry
    exact ⟨hkey.1, hvalue.1⟩
  · rw [Expr.captureCount_dict]
    refine h.spent fun hentry => ?_
    obtain ⟨_, hkey, hvalue⟩ := hentry
    exact hkey.2.trans hvalue.2

end Nodes

instance : read.Closed where
  merge _ _ := trivial
  complaint _ _ := trivial
  expr_span _ := trivial
  target_span _ := trivial
  args_span _ _ _ := trivial
  outside_expr hc h := by rw [h.2.1, hc]; rfl
  lit _ := ⟨Expr.read_lit, Expr.captureCount_lit ▸ .zero _⟩
  ident h := ⟨Expr.read_ident.2 h.1, Expr.captureCount_ident ▸ .zero _⟩
  unary h _ := ⟨Expr.read_unary.2 h.1, by rw [Expr.captureCount_unary]; exact h.2⟩
  binary hleft hright _ :=
    ⟨Expr.read_binary.2 ⟨hleft.1, hright.1⟩, spent_parts Expr.captureCount_binary hleft hright⟩
  test hleft hright _ :=
    ⟨Expr.read_test.2 ⟨by simp, hleft.1, hright.1⟩, spent_parts Expr.captureCount_test hleft hright⟩
  capture hop hleft hright hid _ := capture_read hop hleft hright hid
  call hcallee hargs _ := call_read hcallee hargs
  index h hkey _ := ⟨Expr.read_index.2 ⟨h.1, hkey.1⟩, spent_parts Expr.captureCount_index h hkey⟩
  range hfirst hlast _ :=
    ⟨Expr.read_range.2 ⟨hfirst.1, hlast.1⟩, spent_parts Expr.captureCount_range hfirst hlast⟩
  array h _ := array_read h
  dict h _ := dict_read h
  declare hname hvalue _ := by
    refine Stmt.read_atom trivial (fun e he => ?_) fun _ hmem => Option.mem_some.1 hmem ▸ hname.1
    exact captureCount_of_plain (hvalue e (Option.mem_toList.1 he))
  ret hplace hvalue _ := by
    refine Stmt.read_atom hplace (fun e he => ?_) fun _ hmem => nomatch hmem
    exact captureCount_of_plain (hvalue e (Option.mem_toList.1 he))
  breakLoop hplace _ := ⟨hplace, trivial⟩
  require _ := ⟨trivial, trivial⟩
  inclusion hoptions hkeys hsource _ := by
    obtain ⟨o, ho, hkey⟩ := hsource
    refine Stmt.read_atom ⟨hkeys, List.mem_map.2 ⟨o, ho, hkey⟩⟩ ?_ fun _ hmem => nomatch hmem
    exact List.forall_mem_map.2 fun o ho => captureCount_of_plain (hoptions o ho).2
  comment _ := Stmt.read_atom trivial (fun _ he => nomatch he) fun _ hmem => nomatch hmem
  exprStmt h := by
    refine Stmt.read_atom trivial ?_ fun _ hmem => nomatch hmem
    exact List.forall_mem_singleton.2 (captureCount_of_plain h)
  output {_ kind _ args _ _} h hraw _ := by
    have hcount := captureCount_of_plain h
    rw [Expr.captureCount_call, List.sum_eq_zero_iff_forall_eq_nat, List.forall_mem_map] at hcount
    refine Stmt.read_atom ?_ hcount fun _ hmem => nomatch hmem
    cases kind with
    | printRaw => exact fun e he => exists_lit (hraw rfl e he)
    | _ => trivial
  assign htarget hvalue _ := by
    refine Stmt.read_atom trivial ?_ fun _ hmem => Option.mem_some.1 hmem ▸ isName_of_plain htarget
    exact List.forall_mem_singleton.2 (captureCount_of_plain hvalue)
  assignEntry htarget hvalue _ := by
    have hkey := captureCount_of_plain htarget
    obtain ⟨_, _, _, hread, _⟩ := htarget
    have hname := Expr.read_ident.1 (Expr.read_index.1 hread).1
    rw [Expr.captureCount_index, Expr.captureCount_ident, Nat.zero_add] at hkey
    refine Stmt.read_atom trivial ?_ fun _ hmem => Option.mem_some.1 hmem ▸ hname
    exact List.forall_mem_cons.2 ⟨hkey, List.forall_mem_singleton.2 (captureCount_of_plain hvalue)⟩
  block hbody _ := readAll_of_stmts hbody
  function _ _ hdefaults hbody _ :=
    ⟨⟨hdefaults, (readAll_of_stmts hbody).1⟩, (readAll_of_stmts hbody).2⟩
  ifChain hbranches hotherwise _ := by
    refine Stmt.read_ifChain (fun b hb => ?_) (readAll_of_stmts hotherwise)
    obtain ⟨-, hcond, hbody⟩ := hbranches b hb
    exact ⟨(isCondition_of_cond hcond).1, (isCondition_of_cond hcond).2, readAll_of_stmts hbody⟩
  forLoop _ hcollection hbody _ :=
    ⟨⟨captureCount_of_plain hcollection, (readAll_of_stmts hbody).1⟩, (readAll_of_stmts hbody).2⟩
  attempt hbody hhandler _ := (readAll_of_stmts hbody).attempt (readAll_of_stmts hhandler)

end Scheme

namespace Program

variable {text : String} {file : Nat} {program : Program}

theorem readAll_of_parse (h : Program.parse text file = .ok program) :
    Stmt.ReadAll .top program.body := by
  rw [parse] at h
  cases htokens : tokenize text file with
  | error e =>
    rw [htokens] at h
    cases h
  | ok tokens =>
    rw [htokens] at h
    have hnamed := Lexer.named_of_all _ htokens
    have hobeys := ofTokens_obeys (S := .read) rfl (fun t ht => ⟨trivial, hnamed t ht⟩) trivial
    exact Scheme.readAll_of_stmts (hobeys.1 program h)

/-- **What has been read from a text has names for variables, and at most one capture in a
condition.** -/
theorem holdsAll_of_parse (h : Program.parse text file = .ok program) :
    Rule.read.HoldsAll program.body :=
  (readAll_of_parse h).2

/-- **Everything in a script that has been read has its place**, at any depth: every `break` is in a
loop of the same function or of the top level, and every `return` in a function; a capture is made
by a match in the condition of a branch, and a condition makes no other; inclusions have a source
and no option twice, parameters with defaults come last, and raw output is written from literals. -/
theorem parsed_statements_are_placed (h : Program.parse text file = .ok program) :
    Stmt.PlacedAll .top program.body :=
  (readAll_of_parse h).1

/-- A function in a loop with a loop of its own, and a capture in each of two conditions. -/
theorem parsed_statements_are_placed_functionInLoop :
    let text :=
      "for (u of [1]) \x7b function f(a, b = 2) \x7b for (v of a) \x7b " ++
        "if (!(v matches 'x' as m)) break; else if (b matches_i m as n) return n; \x7d \x7d " ++
        "include('/a', ttl = 5); printraw('b'); break; \x7d"
    ∃ program, Program.parse text 0 = .ok program ∧ program.body.length = 1 ∧
      Stmt.PlacedAll .top program.body := by
  intro text
  have hparses : Pass.succeeds (Program.parse text 0) (fun program => program.body.length == 1) =
      true := by
    decide +kernel
  obtain ⟨program, hparse, hlength⟩ := Pass.exists_of_succeeds hparses
  exact ⟨program, hparse, beq_iff_eq.1 hlength, parsed_statements_are_placed hparse⟩

end Program

end EdgeScript
