import EdgeScript.Proofs.Parsing.Expr

/-!
# Reading statements by a scheme

A statement reads a token, also the empty one.  Those that start with a keyword read it without a
look, so they read as much as their place allows: the keyword, or nothing at the end of the script.

Statements stand outside of conditions.  A condition has a count of captures of its own, which is
given up behind it.
-/

set_option autoImplicit false

namespace EdgeScript

namespace Grammar

open EdgeScript.Parser

variable {S : Scheme} [hS : S.Closed] {s : Stream} {c : Option Nat} {j : Nat} {place : Place}

/-! ## Statements without statements inside -/

theorem obeys_endStatement (s : Stream) :
    Obeys S (fun _ => 0) s c endStatement endStatement (Quiet c fun _ => True) := by
  refine (obeys_consumeSymbol _ s).next fun _ s₁ _ _ =>
    .ite (fun _ => obeys_done rfl trivial) fun _ => ?_
  refine obeys_look rfl fun _ _ _ => obeys_look rfl fun _ _ _ => ?_
  exact .ite (fun _ => obeys_done rfl trivial) fun _ => obeys_unexpected _

/-- A statement is made of its parts at its end. -/
theorem obeys_ending {start : Span} {f : Span → Stmt} {P : Stmt → Option Nat → Prop} (s : Stream)
    (hstart : S.span start) (h : ∀ span, S.span span → P (f span) c) :
    Obeys S (fun _ => 0) s c (do endStatement; return f (← spanFrom start))
      (do endStatement; return f (← spanFrom start)) P :=
  (obeys_endStatement s).next fun _ s₁ _ _ => obeys_spanned s₁ hstart h

/-- An expression outside of conditions captures nothing. -/
theorem obeys_plain (hc : S.outside c) (s : Stream) :
    Obeys S (fun _ => 1) s c expr expr (S.leaves S.plain) :=
  (obeys_expr s).mono (fun _ => Nat.le_refl 1) fun _ d he => ⟨hS.outside_expr hc he, c, d, hc, he⟩

/-- The optional value of a declaration, or of a `return`. -/
theorem obeys_someExpr (hc : S.outside c) (s : Stream) :
    Obeys S (fun _ => 0) s c (do return some (← expr)) (do return some (← expr))
      (S.leaves fun value => ∀ e ∈ value, S.plain e) := by
  refine (obeys_plain hc s).seq fun e _ _ _ he => obeys_pure rfl ⟨he.1, fun e' he' => ?_⟩
  exact Option.mem_some.1 he' ▸ he.2

theorem obeys_declaration (place : Place) (h : s.Reaches j s.advance) (hc : S.outside c) :
    Obeys S (fun _ => j) s c declaration declaration (S.leaves (S.stmt place)) := by
  refine (obeys_advance h).after fun _ s₁ _ ht => (obeys_ident s₁).next fun _ s₂ _ hname => ?_
  refine Obeys.seq (m := fun _ => 0) (P := S.leaves fun value => ∀ e ∈ value, S.plain e) ?_ ?_
  · refine (obeys_consumeSymbol _ s₂).next fun _ s₃ _ _ =>
      .ite (fun _ => obeys_someExpr hc s₃) ?_
    exact fun _ => obeys_pure rfl ⟨hc, fun _ he => nomatch he⟩
  · exact fun _ s₃ _ _ hvalue => obeys_ending s₃ ht.1 fun _ hspan =>
      ⟨hvalue.1, hS.declare hname hvalue.2 hspan⟩

/-- A `return` stands in a function. -/
theorem obeys_returnStmt (h : s.Reaches j s.advance) (hc : S.outside c) :
    Obeys S (fun _ => j) s c (returnStmt place) (returnStmt place) (S.leaves (S.stmt place)) := by
  refine (obeys_advance h).after fun _ s₁ _ ht => .unless ht.1 fun hplace => ?_
  refine Obeys.seq (m := fun _ => 0) (P := S.leaves fun value => ∀ e ∈ value, S.plain e) ?_ ?_
  · refine obeys_look rfl fun _ _ _ => obeys_look rfl fun _ _ _ => .ite ?_ ?_
    · exact fun _ => obeys_pure rfl ⟨hc, fun _ he => nomatch he⟩
    · exact fun _ => obeys_someExpr hc s₁
  · exact fun _ s₂ _ _ hvalue => obeys_ending s₂ ht.1 fun _ hspan =>
      ⟨hvalue.1, hS.ret (by simpa using hplace) hvalue.2 hspan⟩

/-- A `break` stands in a loop. -/
theorem obeys_breakStmt (h : s.Reaches j s.advance) (hc : S.outside c) :
    Obeys S (fun _ => j) s c (breakStmt place) (breakStmt place) (S.leaves (S.stmt place)) := by
  refine (obeys_advance h).after fun _ s₁ _ ht => .unless ht.1 fun hplace => ?_
  refine (obeys_endStatement s₁).next fun _ _ _ _ => obeys_pure rfl ⟨hc, ?_⟩
  exact hS.breakLoop (by simpa using hplace) ht.1

theorem obeys_forceValue (s : Stream) :
    Obeys S (fun _ => 0) s c forceValue forceValue (Quiet c fun _ => True) := by
  refine (obeys_advance s.reaches_advance_zero).next fun t s₁ _ ht => ?_
  obtain ⟨kind, span⟩ := t
  have hother : Obeys S (fun _ => 0) s₁ c
      (do throw (.unexpectedToken "`true` or `false`" kind (← previousSpan)) : Parser Bool)
      (do throw (.unexpectedToken "`true` or `false`" kind (← previousSpan)))
      (Quiet c fun _ => True) := by
    refine obeys_look rfl fun span hspan hfits => obeys_throw (.unexpectedToken _ _ _) ?_
    exact hspan ▸ hfits.previous
  cases kind with
  | keyword k =>
    cases k with
    | true_ | false_ => exact obeys_done rfl trivial
    | _ => exact hother
  | int n => exact obeys_done rfl trivial
  | _ => exact hother

theorem obeys_requirePath (s : Stream) :
    Obeys S (fun _ => 0) s c requirePath requirePath (Quiet c fun _ => True) := by
  refine obeys_look rfl fun kind _ _ => ?_
  cases kind with
  | str path =>
    refine (obeys_advance s.reaches_advance_zero).next fun _ _ _ _ => obeys_done rfl trivial
  | _ => exact obeys_unexpected _

theorem obeys_requireForce (s : Stream) :
    Obeys S (fun _ => 0) s c requireForce requireForce (Quiet c fun _ => True) := by
  refine (obeys_consumeSymbol _ s).next fun _ s₁ _ _ =>
    .ite (fun _ => obeys_done rfl trivial) fun _ => ?_
  refine obeys_look rfl fun _ _ _ => .ite (fun _ => obeys_done rfl trivial) fun _ => ?_
  refine (obeys_expect (by simp) s₁).next fun _ s₂ _ _ => (obeys_symbol _ s₂).next
    fun _ s₃ _ _ => ?_
  refine (obeys_forceValue s₃).next fun _ s₄ _ _ => ?_
  exact (obeys_consumeSymbol _ s₄).next fun _ _ _ _ => obeys_done rfl trivial

theorem obeys_requireStmt (place : Place) (h : s.Reaches j s.advance) (hc : S.outside c) :
    Obeys S (fun _ => j) s c requireStmt requireStmt (S.leaves (S.stmt place)) := by
  refine (obeys_advance h).after fun _ s₁ _ ht => (obeys_symbol _ s₁).next fun _ s₂ _ _ => ?_
  refine (obeys_requirePath s₂).next fun _ s₃ _ _ => (obeys_requireForce s₃).next
    fun _ s₄ _ _ => ?_
  refine (obeys_symbol _ s₄).next fun _ s₅ _ _ => ?_
  exact obeys_ending s₅ ht.1 fun _ hspan => ⟨hc, hS.require hspan⟩

theorem obeys_nextOptionKey (isFirst : Bool) (s : Stream) :
    Obeys S (fun _ => 0) s c (nextOptionKey isFirst) (nextOptionKey isFirst)
      (Quiet c fun _ => True) := by
  refine obeys_look rfl fun kind _ _ => obeys_look rfl fun behind _ _ => ?_
  have hother : Obeys S (fun _ => 0) s c
      (if isFirst then return .src else unexpected "`name = value` option" : Parser OptionKey)
      (if isFirst then return .src else unexpected "`name = value` option")
      (Quiet c fun _ => True) :=
    .ite (fun _ => obeys_done rfl trivial) fun _ => obeys_unexpected _
  cases kind with
  | ident name =>
    cases behind with
    | symbol symbol =>
      cases symbol with
      | assign =>
        refine (obeys_ident s).next fun name s₁ _ hname => ?_
        refine (obeys_advance s₁.reaches_advance_zero).next fun _ s₂ _ _ => ?_
        rw [optionKey]
        cases OptionKey.ofName? name.name with
        | some key => exact obeys_done rfl trivial
        | none => exact obeys_throw (.unknownOption _ _ _) hname.2
      | _ => exact hother
    | _ => exact hother
  | _ => exact hother

/-- An option that is given is none of those in front of it. -/
theorem obeys_inclusionOption (read : List InclusionOption) (hc : S.outside c) (s : Stream) :
    Obeys S (fun _ => 1) s c (inclusionOption read) (inclusionOption read)
      (S.leaves fun o => S.option o ∧ o.key ∉ read.map InclusionOption.key) := by
  refine obeys_current fun start _ hstart => ?_
  refine (obeys_nextOptionKey _ s).next fun key s₁ _ _ => .unless hstart.1 fun hkey => ?_
  refine (obeys_plain hc s₁).first fun value s₂ _ _ hvalue => ?_
  refine obeys_spanned s₂ hstart.1 fun span hspan => ⟨hvalue.1, ⟨hspan, hvalue.2⟩, ?_⟩
  simpa using hkey

/-- Options that are different ones. -/
def Options (S : Scheme) (options : List InclusionOption) : Prop :=
  (∀ o ∈ options, S.option o) ∧ (options.map InclusionOption.key).Nodup

omit hS in
theorem Options.concat {read : List InclusionOption} {o : InclusionOption} (h : Options S read)
    (ho : S.option o) (hkey : o.key ∉ read.map InclusionOption.key) : Options S (read ++ [o]) := by
  refine ⟨List.forall_mem_append.2 ⟨h.1, List.forall_mem_singleton.2 ho⟩, ?_⟩
  rw [List.map_append, List.map_singleton]
  refine List.nodup_append.2 ⟨h.2, List.pairwise_singleton _ _, fun key hmem key' hmem' heq => ?_⟩
  rw [List.mem_singleton.1 hmem'] at heq
  exact hkey (heq ▸ hmem)

theorem obeys_inclusion (place : Place) (h : s.Reaches j s.advance) (kind : InclusionKind)
    (hc : S.outside c) :
    Obeys S (fun _ => j) s c (inclusion kind) (inclusion kind) (S.leaves (S.stmt place)) := by
  refine (obeys_advance h).after fun _ s₁ _ ht => (obeys_symbol _ s₁).next fun _ s₂ _ _ => ?_
  have hlist : Obeys S (fun _ => 0) s₂ c (commaList (.symbol .closeParen) inclusionOption)
      (commaList (.symbol .closeParen) inclusionOption) (S.leaves (Options S)) := by
    refine obeys_commaList ⟨hc, (fun _ hmem => nomatch hmem), .nil⟩ fun read s' _ _ hread => ?_
    refine (obeys_inclusionOption read hread.1 s').mono (fun _ => Nat.le_refl 1) fun o _ ho => ?_
    exact ⟨ho.1, hread.2.concat ho.2.1 ho.2.2⟩
  refine hlist.seq fun options s₃ _ _ hoptions => (obeys_symbol _ s₃).next fun _ s₄ _ _ => ?_
  refine (obeys_endStatement s₄).next fun _ s₅ _ _ => obeys_look rfl fun span hspan hfits => ?_
  have hspan : S.span span := hspan ▸ hS.merge ht.1 hfits.previous
  refine .ite (fun hsource => obeys_pure rfl ⟨hoptions.1, ?_⟩) fun _ => ?_
  · obtain ⟨o, ho, hkey⟩ := List.any_eq_true.1 hsource
    exact hS.inclusion hoptions.2.1 hoptions.2.2 ⟨o, ho, eq_of_beq hkey⟩ hspan
  · exact obeys_throw (.missingSource span) hspan

/-! ## Assignments and expressions -/

/-- The variable that an expression names as the target of an assignment, and the key in it. -/
def TargetOf (e : Expr) (target : Ident × Option Expr) : Prop :=
  e = .ident target.1 ∧ target.2 = none ∨
    ∃ key span, e = .index (.ident target.1) key span ∧ target.2 = some key

theorem obeys_assignTarget {e : Expr} (he : S.plain e) (s : Stream) :
    Obeys S (fun _ => 0) s c (assignTarget e) (assignTarget e) (Quiet c (TargetOf e)) := by
  obtain ⟨_, _, _, he⟩ := he
  cases e with
  | ident id => exact obeys_done rfl (.inl ⟨rfl, rfl⟩)
  | index target key span =>
    cases target with
    | ident id => exact obeys_done rfl (.inr ⟨key, span, rfl, rfl⟩)
    | _ => exact obeys_misplaced _ (hS.target_span he)
  | _ => exact obeys_misplaced _ (hS.expr_span he)

/-- The new value is read, or made of the target. -/
theorem obeys_assignedValue {b : Option Nat} {e : Expr} {t : Token} (hb : S.outside b)
    (he : S.expr b e c) (ht : S.token t) (op : AssignOp) (s : Stream) :
    Obeys S (fun _ => 0) s c (assignedValue e t op) (assignedValue e t op)
      (S.leaves S.plain) := by
  have hc := hS.outside_expr hb he
  cases op with
  | set => exact (obeys_plain hc s).weaken
  | update op =>
    refine (obeys_expr s).seq fun value _ d _ hvalue => obeys_pure rfl ?_
    have hspan := hS.merge (hS.expr_span he) (hS.expr_span hvalue)
    exact ⟨hS.outside_expr hc hvalue, b, d, hb, hS.binary he hvalue hspan⟩
  | step op =>
    have hspan := hS.merge (hS.expr_span he) ht.1
    exact obeys_pure rfl ⟨hc, b, c, hb, hS.binary he (hS.lit ht.1) hspan⟩

/-- An output function is called by a statement. -/
theorem obeys_exprStmt (place : Place) {start : Span} {e : Expr} (hstart : S.span start)
    (hc : S.outside c) (he : S.plain e) (s : Stream) :
    Obeys S (fun _ => 0) s c (exprStmt start e) (exprStmt start e) (S.leaves (S.stmt place)) := by
  cases e with
  | call callee args span =>
    rw [exprStmt]
    cases OutputKind.ofName? callee.name with
    | none => exact obeys_pure rfl ⟨hc, hS.exprStmt he⟩
    | some kind =>
      have houtput (hraw : kind = .printRaw → ∀ e ∈ args, e.literal?.isSome) :
          Obeys S (fun _ => 0) s c (do return .atom (.output kind args (← spanFrom start)))
            (do return .atom (.output kind args (← spanFrom start))) (S.leaves (S.stmt place)) :=
        obeys_spanned s hstart fun _ hspan => ⟨hc, hS.output he hraw hspan⟩
      refine .ite (fun _ => ?_) fun hkind => houtput fun hraw => absurd (beq_iff_eq.2 hraw) hkind
      cases hfind : args.find? fun a => a.literal?.isNone with
      | some arg =>
        obtain ⟨_, _, _, he⟩ := he
        have harg := hS.args_span he arg (List.mem_of_find?_eq_some hfind)
        exact obeys_of_error rfl fun _ => hS.complaint (.misplaced _ _) harg
      | none =>
        refine houtput fun _ e he => Option.isSome_iff_ne_none.2 ?_
        simpa using List.find?_eq_none.1 hfind e he
  | _ => exact obeys_pure rfl ⟨hc, hS.exprStmt he⟩

theorem obeys_exprOrAssignment (place : Place) (hc : S.outside c) (s : Stream) :
    Obeys S (fun _ => 1) s c exprOrAssignment exprOrAssignment (S.leaves (S.stmt place)) := by
  refine obeys_current fun start _ hstart => (obeys_expr s).first fun e s₁ d _ he => ?_
  have hd := hS.outside_expr hc he
  have hplain : S.plain e := ⟨c, d, hc, he⟩
  refine obeys_look rfl fun kind _ _ => ?_
  cases assignOp? kind with
  | none =>
    exact (obeys_endStatement s₁).next fun _ s₂ _ _ =>
      obeys_exprStmt place hstart.1 hd hplain s₂
  | some op =>
    refine (obeys_advance s₁.reaches_advance_zero).next fun t s₂ _ ht => ?_
    refine (obeys_assignTarget hplain s₂).next fun target s₃ _ htarget => ?_
    refine (obeys_assignedValue hc he ht op s₃).seq fun value s₄ _ _ hvalue => ?_
    refine obeys_ending s₄ hstart.1 fun span hspan => ⟨hvalue.1, ?_⟩
    obtain ⟨target, key⟩ := target
    rcases htarget with ⟨rfl, rfl⟩ | ⟨key, _, rfl, rfl⟩
    · exact hS.assign hplain hvalue.2 hspan
    · exact hS.assignEntry hplain hvalue.2 hspan

/-! ## Statements with statements inside -/

/-- One more statement of a block. -/
def statementStep (x : Parser (Option Stmt)) (read : List Stmt) :
    Parser (List Stmt ⊕ List Stmt) := do
  if (← check (.symbol .closeBrace)) || (← atEnd) then return .inr read
  match ← x with
  | some s => return .inl (read ++ [s])
  | none => return .inl read

theorem statements_eq_loop (x : Parser (Option Stmt)) : statements x = loop (statementStep x) [] :=
  rfl

/-- One more branch of a chain, and what is done otherwise. -/
def branchStep (x : Parser (Option Stmt)) (read : List (Branch Stmt)) :
    Parser (List (Branch Stmt) ⊕ (List (Branch Stmt) × Option (List Stmt))) := do
  let b ← branch x
  let read := read ++ [b]
  if !(← consume (.keyword .else_)) then return .inr (read, none)
  if ← check (.keyword .if_) then return .inl read
  return .inr (read, some (← body x))

theorem branches_eq_loop (x : Parser (Option Stmt)) : branches x = loop (branchStep x) [] := rfl

omit hS in
theorem stmts_concat {read : List Stmt} {stmt : Stmt} (hread : S.stmts place read)
    (h : S.stmt place stmt) : S.stmts place (read ++ [stmt]) :=
  List.forall_mem_append.2 ⟨hread, List.forall_mem_singleton.2 h⟩

section Inside

variable {x y : Parser (Option Stmt)}

omit hS in
theorem obeys_statementStep (h : StmtFrom S 0 s place x y) {read : List Stmt} (hc : S.outside c)
    (hread : S.stmts place read) :
    Obeys S perRound s c (statementStep x read) (statementStep y read)
      (Between (S.leaves (S.stmts place)) (S.leaves (S.stmts place))) := by
  refine obeys_look rfl fun _ _ _ => obeys_look rfl fun _ _ _ =>
    .ite (fun _ => obeys_pure rfl ⟨hc, hread⟩) fun _ => ?_
  refine .round ((h.here hc).first fun stmt _ _ _ hstmt => ?_)
  cases stmt with
  | some stmt => exact obeys_pure rfl ⟨hstmt.1, stmts_concat hread (hstmt.2 stmt rfl)⟩
  | none => exact obeys_pure rfl ⟨hstmt.1, hread⟩

theorem obeys_statements (h : StmtFrom S 0 s place x y) (hc : S.outside c) :
    Obeys S (fun _ => 0) s c (statements x) (statements y) (S.leaves (S.stmts place)) := by
  rw [statements_eq_loop, statements_eq_loop]
  refine obeys_loop (I := S.leaves (S.stmts place)) ?_ ⟨hc, fun _ hmem => nomatch hmem⟩
  exact fun read s' _ hs hread => obeys_statementStep (h.later hs) hread.1 hread.2

/-- The statements of a block stand behind its brace. -/
theorem obeys_block (h : StmtFrom S 1 s place x y) (hc : S.outside c) :
    Obeys S (fun _ => 1) s c (block x) (block y) (S.leaves (S.stmts place)) := by
  refine (obeys_symbol _ s).after fun _ s₁ h₁ _ => ?_
  refine (obeys_statements (h.behind h₁) hc).seq fun _ s₂ _ _ hstmts => ?_
  exact (obeys_symbol _ s₂).next fun _ _ _ _ => obeys_pure rfl hstmts

theorem obeys_body (h : StmtFrom S 0 s place x y) (hc : S.outside c) :
    Obeys S (fun _ => 1) s c (body x) (body y) (S.leaves (S.stmts place)) := by
  refine obeys_look rfl fun _ _ _ => .ite (fun _ => obeys_block h.weaken hc) fun _ => ?_
  refine (h.here hc).first fun stmt _ _ _ hstmt => obeys_pure rfl ⟨hstmt.1, fun stmt' hmem => ?_⟩
  exact hstmt.2 stmt' (Option.mem_toList.1 hmem)

/-- The captures of a condition are counted from zero, and those around it go on behind. -/
theorem obeys_condition (s : Stream) :
    Obeys S (fun _ => 1) s c condition condition (Quiet c S.cond) := by
  refine obeys_look rfl fun saved hsaved hfits => ?_
  refine (obeys_count rfl).seq fun _ s₁ d _ hd => ?_
  subst hd
  refine (obeys_expr s₁).first fun e s₂ d _ he => (obeys_count rfl).seq fun _ _ d' _ hd' => ?_
  refine obeys_pure rfl ⟨?_, d, he⟩
  rw [hd', hsaved]
  exact hfits.captures

theorem obeys_branch (h : StmtFrom S 1 s place x y) (hc : S.outside c) :
    Obeys S (fun _ => 1) s c (branch x) (branch y) (S.leaves (S.branch place)) := by
  refine (obeys_expect (by simp) s).after fun _ s₁ h₁ ht => ?_
  refine (obeys_symbol _ s₁).next fun _ s₂ h₂ _ => ?_
  refine (obeys_condition s₂).next fun _ s₃ h₃ hcond => (obeys_symbol _ s₃).next
    fun _ s₄ h₄ _ => ?_
  have hx : StmtFrom S 0 s₄ place x y := (h.behind h₁).later ((h₂.trans h₃).trans h₄)
  refine (obeys_body hx hc).seq fun _ s₅ _ _ hstmts => ?_
  exact obeys_spanned s₅ ht.1 fun _ hspan => ⟨hstmts.1, hspan, hcond, hstmts.2⟩

/-- The branches of a chain and what is done otherwise. -/
def Chain (S : Scheme) (place : Place) (chain : List (Branch Stmt) × Option (List Stmt)) : Prop :=
  (∀ b ∈ chain.1, S.branch place b) ∧ S.stmts place (chain.2.getD [])

theorem obeys_branchStep (h : StmtFrom S 1 s place x y) {read : List (Branch Stmt)}
    (hc : S.outside c) (hread : ∀ b ∈ read, S.branch place b) :
    Obeys S (fun _ => 1) s c (branchStep x read) (branchStep y read)
      (Between (S.leaves fun read => ∀ b ∈ read, S.branch place b) (S.leaves (Chain S place))) := by
  refine (obeys_branch h hc).first fun b s₁ _ h₁ hb => ?_
  have hbranches : ∀ b' ∈ read ++ [b], S.branch place b' :=
    List.forall_mem_append.2 ⟨hread, List.forall_mem_singleton.2 hb.2⟩
  refine (obeys_consume (by simp) s₁).next fun _ s₂ h₂ _ => .ite (fun _ => ?_) fun _ => ?_
  · exact obeys_pure rfl ⟨hb.1, hbranches, fun _ hmem => nomatch hmem⟩
  refine obeys_look rfl fun _ _ _ => .ite (fun _ => obeys_pure rfl ⟨hb.1, hbranches⟩)
    fun _ => ?_
  refine (obeys_body ((h.behind h₁).later h₂) hb.1).seq fun _ _ _ _ hstmts => ?_
  exact obeys_pure rfl ⟨hstmts.1, hbranches, hstmts.2⟩

theorem obeys_branches (h : StmtFrom S 1 s place x y) (hc : S.outside c) :
    Obeys S (fun _ => 1) s c (branches x) (branches y) (S.leaves (Chain S place)) := by
  rw [branches_eq_loop, branches_eq_loop]
  refine obeys_loop_of_reads (I := S.leaves fun read => ∀ b ∈ read, S.branch place b) ?_
    ⟨hc, fun _ hmem => nomatch hmem⟩
  exact fun read s' _ hs hread => obeys_branchStep (h.later hs) hread.1 hread.2

theorem obeys_ifChain (h : StmtFrom S 1 s place x y) (hc : S.outside c) :
    Obeys S (fun _ => 1) s c (ifChain x) (ifChain y) (S.leaves (S.stmt place)) := by
  refine obeys_current fun _ _ ht => (obeys_branches h hc).first fun _ s₁ _ _ hchain => ?_
  exact obeys_spanned s₁ ht.1 fun _ hspan =>
    ⟨hchain.1, hS.ifChain hchain.2.1 hchain.2.2 hspan⟩

/-- The name of a failure does not matter. -/
theorem obeys_handler (h : StmtFrom S 0 s place x y) (hc : S.outside c) :
    Obeys S (fun _ => 0) s c (handler x) (handler y)
      (S.leaves fun o => S.stmts place (o.getD [])) := by
  have hblock (s' : Stream) (hx : StmtFrom S 0 s' place x y) :
      Obeys S (fun _ => 0) s' c (do return some (← block x)) (do return some (← block y))
        (S.leaves fun o => S.stmts place (o.getD [])) :=
    (obeys_block hx.weaken hc).seq fun _ _ _ _ hstmts => obeys_pure rfl hstmts
  refine (obeys_consume (by simp) s).next fun _ s₁ h₁ _ => .ite (fun _ => ?_) fun _ => ?_
  · refine (obeys_consumeSymbol _ s₁).next fun _ s₂ h₂ _ => .ite (fun _ => ?_) fun _ => ?_
    · refine (obeys_ident s₂).next fun _ s₃ h₃ _ => (obeys_symbol _ s₃).next fun _ s₄ h₄ _ => ?_
      exact hblock s₄ (h.later (((h₁.trans h₂).trans h₃).trans h₄))
    · exact hblock s₂ (h.later (h₁.trans h₂))
  · refine (obeys_consume (by simp) s₁).next fun _ s₂ h₂ _ => .ite (fun _ => ?_) fun _ => ?_
    · exact hblock s₂ (h.later (h₁.trans h₂))
    · exact obeys_pure rfl ⟨hc, fun _ hmem => nomatch hmem⟩

theorem obeys_attempt (hread : s.Reaches j s.advance) (h : StmtFrom S j s place x y)
    (hc : S.outside c) :
    Obeys S (fun _ => j) s c (attempt x) (attempt y) (S.leaves (S.stmt place)) := by
  refine (obeys_advance hread).after fun _ s₁ h₁ ht => ?_
  refine (obeys_block (h.behind h₁).weaken hc).seq fun _ s₂ _ h₂ hstmts => ?_
  refine (obeys_handler ((h.behind h₁).later h₂) hstmts.1).seq fun _ s₃ _ _ hhandler => ?_
  exact obeys_spanned s₃ ht.1 fun _ hspan => ⟨hhandler.1, hS.attempt hstmts.2 hhandler.2 hspan⟩

end Inside

/-! ## Functions and loops -/

theorem obeys_defaultValue (s : Stream) :
    Obeys S (fun _ => 0) s c defaultValue defaultValue (Quiet c fun value => S.span value.2) := by
  refine (obeys_advance s.reaches_advance_zero).next fun t s₁ _ ht => ?_
  obtain ⟨kind, span⟩ := t
  have hspan : S.span span := ht.1
  cases kind with
  | int n | str s => exact obeys_done rfl hspan
  | keyword k =>
    cases k with
    | true_ | false_ => exact obeys_done rfl hspan
    | _ => exact obeys_throw (.unexpectedToken _ _ _) hspan
  | symbol symbol =>
    cases symbol with
    | minus =>
      refine obeys_look rfl fun kind _ _ => ?_
      cases kind with
      | int n =>
        refine (obeys_advance s₁.reaches_advance_zero).next fun _ s₂ _ _ => ?_
        exact obeys_spanned s₂ hspan fun _ hspan => ⟨rfl, hspan⟩
      | _ => exact obeys_unexpected _
    | _ => exact obeys_throw (.unexpectedToken _ _ _) hspan
  | ident _ | comment _ | eof => exact obeys_throw (.unexpectedToken _ _ _) hspan

/-- A parameter has a default if one in front of it has. -/
theorem obeys_param (read : List Param) (s : Stream) :
    Obeys S (fun _ => 1) s c (param read) (param read)
      (Quiet c fun p => S.param p ∧ ∀ q ∈ read, q.default?.isSome → p.default?.isSome) := by
  refine (obeys_ident s).after fun name s₁ _ hname => ?_
  refine Obeys.next (m := fun _ => 0)
    (P := fun default? => ∀ value ∈ default?, S.span value.2) ?_ ?_
  · refine (obeys_consumeSymbol _ s₁).next fun _ s₂ _ _ => .ite (fun _ => ?_) fun _ => ?_
    · refine (obeys_defaultValue s₂).next fun _ _ _ hvalue => obeys_done rfl fun _ hmem => ?_
      exact Option.mem_some.1 hmem ▸ hvalue
    · exact obeys_done rfl fun _ hmem => nomatch hmem
  · intro default? s₂ _ hdefault
    refine .unless hname.2 fun hlast => obeys_spanned s₂ hname.2 fun span hspan => ?_
    refine ⟨rfl, ⟨hname, hspan, hdefault⟩, fun q hq hsome => ?_⟩
    cases default? with
    | none => exact absurd (by simpa using ⟨q, hq, hsome⟩) hlast
    | some value => rfl

/-- Parameters of which those with defaults come last. -/
def Params (S : Scheme) (params : List Param) : Prop :=
  (∀ p ∈ params, S.param p) ∧ params.Pairwise fun p q => p.default?.isSome → q.default?.isSome

omit hS in
theorem Params.concat {read : List Param} {p : Param} (h : Params S read) (hp : S.param p)
    (hlast : ∀ q ∈ read, q.default?.isSome → p.default?.isSome) : Params S (read ++ [p]) := by
  refine ⟨List.forall_mem_append.2 ⟨h.1, List.forall_mem_singleton.2 hp⟩, ?_⟩
  refine List.pairwise_append.2 ⟨h.2, List.pairwise_singleton _ _, fun q hq p' hp' => ?_⟩
  exact List.mem_singleton.1 hp' ▸ hlast q hq

omit hS in
theorem obeys_inlineMark (s : Stream) :
    Obeys S (fun _ => 0) s c inlineMark inlineMark (Quiet c fun _ => True) := by
  refine obeys_look rfl fun kind _ _ => obeys_look rfl fun behind _ _ => ?_
  split
  · exact (obeys_advance s.reaches_advance_zero).next fun _ _ _ _ => obeys_done rfl trivial
  · exact obeys_done rfl trivial

theorem obeys_loopVar (s : Stream) :
    Obeys S (fun _ => 0) s c loopVar loopVar (Quiet c fun var => ∀ id ∈ var, S.ident id) := by
  have hread := obeys_advance (S := S) (c := c) s.reaches_advance_zero
  refine obeys_look rfl fun _ _ _ => .ite (fun _ => hread.next fun _ s₁ _ _ => ?_) fun _ => ?_
  all_goals
    refine Obeys.next (m := fun _ => 0) (P := fun _ => True) ?_ fun _ s₂ _ _ =>
      .ite (fun _ => ?_) fun _ => obeys_done rfl fun _ hmem => nomatch hmem
    · refine obeys_look rfl fun _ _ _ => obeys_look rfl fun _ _ _ => ?_
      split <;> exact obeys_done rfl trivial
    · refine (obeys_ident s₂).next fun _ s₃ _ hid => (obeys_expect (by simp) s₃).next ?_
      exact fun _ _ _ _ => obeys_done rfl fun _ hmem => Option.mem_some.1 hmem ▸ hid

omit hS in
/-- The string that declares a function inline is left out of its body. -/
theorem stmts_splitPragma {stmts : List Stmt} (h : S.stmts place stmts) :
    S.stmts place (splitPragma stmts).1 := by
  rw [splitPragma.eq_def]
  split
  · exact (List.forall_mem_cons.1 h).2
  · exact h

section Place

variable {x y : Place → Parser (Option Stmt)}
  (h : ∀ place, StmtFrom S j s place (x place) (y place))
include h

/-- The loops around a function are not those of its body. -/
theorem obeys_function (place : Place) (hread : s.Reaches j s.advance) (hc : S.outside c) :
    Obeys S (fun _ => j) s c (function x) (function y) (S.leaves (S.stmt place)) := by
  refine (obeys_advance hread).after fun _ s₁ h₁ ht => (obeys_inlineMark s₁).next
    fun _ s₂ h₂ _ => ?_
  refine (obeys_ident s₂).next fun _ s₃ h₃ hname => (obeys_symbol _ s₃).next fun _ s₄ h₄ _ => ?_
  have hlist : Obeys S (fun _ => 0) s₄ c (commaList (.symbol .closeParen) param)
      (commaList (.symbol .closeParen) param) (Quiet c (Params S)) := by
    refine obeys_commaList ⟨rfl, (fun _ hmem => nomatch hmem), .nil⟩ fun read s' d _ hread => ?_
    obtain ⟨rfl, hread⟩ := hread
    refine (obeys_param read s').mono (fun _ => Nat.le_refl 1) fun p _ hp => ?_
    exact ⟨hp.1, hread.concat hp.2.1 hp.2.2⟩
  refine hlist.next fun _ s₅ h₅ hparams => (obeys_symbol _ s₅).next fun _ s₆ h₆ _ => ?_
  have hpast := (((h₂.trans h₃).trans h₄).trans h₅).trans h₆
  refine (obeys_block (((h _).behind h₁).later hpast).weaken hc).seq fun _ s₇ _ _ hstmts => ?_
  exact obeys_spanned s₇ ht.1 fun _ hspan =>
    ⟨hstmts.1, hS.function hname hparams.1 hparams.2 (stmts_splitPragma hstmts.2) hspan⟩

theorem obeys_forLoop (hread : s.Reaches j s.advance) (hc : S.outside c) :
    Obeys S (fun _ => j) s c (forLoop x place) (forLoop y place) (S.leaves (S.stmt place)) := by
  refine (obeys_advance hread).after fun _ s₁ h₁ ht => (obeys_symbol _ s₁).next
    fun _ s₂ h₂ _ => ?_
  refine (obeys_loopVar s₂).next fun _ s₃ h₃ hvar => ?_
  refine (obeys_plain hc s₃).seq fun _ s₄ _ h₄ hcollection => (obeys_symbol _ s₄).next
    fun _ s₅ h₅ _ => ?_
  have hpast := ((h₂.trans h₃).trans h₄).trans h₅
  refine (obeys_body (((h _).behind h₁).later hpast) hcollection.1).seq fun _ s₆ _ _ hstmts => ?_
  exact obeys_spanned s₆ ht.1 fun _ hspan =>
    ⟨hstmts.1, hS.forLoop hvar hcollection.2 hstmts.2 hspan⟩

end Place

/-! ## Scripts -/

/-- A statement is told by its first token. -/
theorem obeys_statementWith {x y : Place → Parser (Option Stmt)}
    (h : ∀ place, StmtFrom S 1 s place (x place) (y place)) (hc : S.outside c) (place : Place) :
    Obeys S (fun _ => 1) s c (statementWith x place) (statementWith y place)
      (S.leaves fun o => ∀ stmt ∈ o, S.stmt place stmt) := by
  have hsome {z w : Parser Stmt} (hz : Obeys S (fun _ => 1) s c z w (S.leaves (S.stmt place))) :
      Obeys S (fun _ => 1) s c (do return some (← z)) (do return some (← w))
        (S.leaves fun o => ∀ stmt ∈ o, S.stmt place stmt) :=
    hz.first fun _ _ _ _ hstmt =>
      obeys_pure rfl ⟨hstmt.1, fun _ hmem => Option.mem_some.1 hmem ▸ hstmt.2⟩
  have hexpr := hsome (obeys_exprOrAssignment place hc s)
  refine obeys_current fun t ht hknown => ?_
  obtain ⟨kind, span⟩ := t
  have hspan : S.span span := hknown.1
  cases kind with
  | symbol symbol =>
    cases symbol with
    | semicolon =>
      refine (obeys_advance (Stream.reaches_advance ht (by simp))).after fun _ _ _ _ => ?_
      exact obeys_pure rfl ⟨hc, fun _ hmem => nomatch hmem⟩
    | openBrace =>
      refine (obeys_block (h place) hc).first fun _ s₁ _ _ hstmts => ?_
      refine obeys_spanned s₁ hspan fun _ hspan => ⟨hstmts.1, fun _ hmem => ?_⟩
      exact Option.mem_some.1 hmem ▸ hS.block hstmts.2 hspan
    | _ => exact hexpr
  | keyword k =>
    have hread := Stream.reaches_advance ht (by simp)
    cases k with
    | function => exact hsome (obeys_function h place hread hc)
    | let_ | var_ | const_ => exact hsome (obeys_declaration place hread hc)
    | if_ => exact hsome (obeys_ifChain (h place) hc)
    | for_ => exact hsome (obeys_forLoop h hread hc)
    | try_ => exact hsome (obeys_attempt hread (h place) hc)
    | require_ => exact hsome (obeys_requireStmt place hread hc)
    | include_ => exact hsome (obeys_inclusion place hread .insert hc)
    | eval_ => exact hsome (obeys_inclusion place hread .evaluate hc)
    | break_ => exact hsome (obeys_breakStmt hread hc)
    | return_ => exact hsome (obeys_returnStmt hread hc)
    | _ => exact hexpr
  | comment text =>
    refine (obeys_advance (Stream.reaches_advance ht (by simp))).after fun _ _ _ _ => ?_
    exact obeys_pure rfl ⟨hc, fun _ hmem => Option.mem_some.1 hmem ▸ hS.comment hspan⟩
  | _ => exact hexpr

/-- **What the scheme says holds of every statement that is read.** -/
theorem obeys_statement (place : Place) (hc : S.outside c) (s : Stream) :
    Obeys S (fun _ => 1) s c (statement place) (statement place)
      (S.leaves fun o => ∀ stmt ∈ o, S.stmt place stmt) := by
  refine obeys_fix (I := fun _ => S.outside)
    (Q := fun place _ => S.leaves fun o => ∀ stmt ∈ o, S.stmt place stmt) ?_ hc
  exact fun s' _ again again' hagain place d hd => obeys_statementWith hagain hd place

/-- The statements inside a statement stand behind its first token. -/
theorem descends_statementWith : Descends (fun _ => 1) statementWith := by
  intro s again again' h place
  have hfrom (place : Place) : StmtFrom .any 1 s place (again place) (again' place) :=
    fun s' _ hs _ => (h place s' hs).obeys.mono (fun _ => Nat.le_refl 1) fun _ _ _ =>
      ⟨trivial, fun _ _ => trivial⟩
  exact (obeys_statementWith hfrom trivial place).agree_any

/-- One more statement of a script. -/
def programStep (read : List Stmt) : Parser (List Stmt ⊕ List Stmt) := do
  if ← atEnd then return .inr read
  match ← statement .top with
  | some s => return .inl (read ++ [s])
  | none => return .inl read

theorem program_eq_loop : program = (do return ⟨← loop programStep []⟩) := rfl

theorem obeys_programStep {read : List Stmt} (hc : S.outside c) (hread : S.stmts .top read)
    (s : Stream) :
    Obeys S perRound s c (programStep read) (programStep read)
      (Between (S.leaves (S.stmts .top)) (S.leaves (S.stmts .top))) := by
  refine obeys_look rfl fun _ _ _ => .ite (fun _ => obeys_pure rfl ⟨hc, hread⟩) fun _ => ?_
  refine .round ((obeys_statement .top hc s).first fun stmt _ _ _ hstmt => ?_)
  cases stmt with
  | some stmt => exact obeys_pure rfl ⟨hstmt.1, stmts_concat hread (hstmt.2 stmt rfl)⟩
  | none => exact obeys_pure rfl ⟨hstmt.1, hread⟩

theorem obeys_program (hc : S.outside c) (s : Stream) :
    Obeys S (fun _ => 0) s c program program (S.leaves fun p => S.stmts .top p.body) := by
  rw [program_eq_loop]
  have hloop : Obeys S (fun _ => 0) s c (loop programStep []) (loop programStep [])
      (S.leaves (S.stmts .top)) :=
    obeys_loop (I := S.leaves (S.stmts .top))
      (fun read s' _ _ hread => obeys_programStep hread.1 hread.2 s')
      ⟨hc, fun _ hmem => nomatch hmem⟩
  exact hloop.seq fun _ _ _ _ hstmts => obeys_pure rfl hstmts

end Grammar

/-- What is read from a token list is as the scheme says, if the tokens are. -/
theorem Program.ofTokens_obeys {S : Scheme} [S.Closed] (houtside : S.outside none)
    {tokens : List Token} (h : ∀ t ∈ tokens, S.token t)
    (hfinish : S.span (Stream.splitEnd tokens).2) :
    (∀ program, ofTokens tokens = .ok program → S.stmts .top program.body) ∧
      ∀ e, ofTokens tokens = .error e → S.error e := by
  have hobeys := Grammar.obeys_program houtside (Stream.ofTokens tokens)
  have hfits := Stream.fits_ofTokens h hfinish
  rw [ofTokens, StateT.run']
  cases hrun : Grammar.program (Stream.ofTokens tokens) with
  | error e =>
    refine ⟨(fun _ hok => nomatch hok), fun e' he => ?_⟩
    cases he
    exact hobeys.fails hfits e hrun
  | ok r =>
    refine ⟨fun program hok => ?_, fun _ he => nomatch he⟩
    cases hok
    exact (hobeys.gives hfits r.1 r.2 hrun).2

end EdgeScript
