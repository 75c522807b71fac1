import EdgeScript.Proofs.Inlining.Expand
import EdgeScript.Proofs.Rule.Rewriting

/-!
# The places in a script

`spans` lists the places in an expression, an atom or a statement: those of the nodes, of the names
that are called, bound and declared, of parameters and their defaults, of options and of branches.
`Located P` says that `P` holds of all of them.

Folding, substitution, cutting a round at its `break` and putting units in the places of their
requests make new scripts out of what is there, so they lead to no place that was not there before.
-/

set_option autoImplicit false

namespace EdgeScript

variable {P : Span → Prop}

theorem forall_mem_of_forall₂ {α : Type} {Q : α → Prop} {l l' : List α}
    (h : List.Forall₂ (fun a b => Q a → Q b) l l') (hl : ∀ a ∈ l, Q a) : ∀ b ∈ l', Q b := by
  induction h with
  | nil => exact hl
  | cons hab _ ih =>
    rw [List.forall_mem_cons] at hl ⊢
    exact ⟨hab hl.1, ih hl.2⟩

/-! ## Expressions -/

namespace Expr

/-- The places in a node that are not in its parts. -/
def ownSpans : Expr → List Span
  | .test _ _ _ capture span => span :: capture.toList.map Ident.span
  | .call callee _ span => [span, callee.span]
  | e => [e.span]

/-- The places in an expression. -/
def spans (e : Expr) : List Span := e.subterms.flatMap ownSpans

/-- `P` holds of the places in an expression. -/
def Located (P : Span → Prop) (e : Expr) : Prop := ∀ span ∈ e.spans, P span

theorem Located.ident_of_mem {e : Expr} (h : e.Located P) {id : Ident}
    (hid : .ident id ∈ e.subterms) : P id.span :=
  h id.span (List.mem_flatMap.2 ⟨_, hid, List.mem_singleton_self _⟩)

/-- The place of an expression is among the places in it. -/
theorem Located.span {e : Expr} (h : e.Located P) : P e.span := by
  refine h _ (List.mem_flatMap.2 ⟨e, ?_, ?_⟩)
  · cases e <;> simp [subterms]
  · cases e <;> simp [ownSpans, Expr.span]

/-- Places can be looked for node by node. -/
theorem located_iff {e : Expr} :
    e.Located P ↔ ∀ node ∈ e.subterms, ∀ span ∈ node.ownSpans, P span :=
  List.forall_mem_flatMap

section Nodes

variable {e left right : Expr} {es : List Expr} {entries : List (Expr × Expr)} {span : Span}

attribute [local simp] located_iff subterms ownSpans Expr.span

@[simp]
theorem located_lit {value : Literal} : Located P (.lit value span) ↔ P span := by simp

@[simp]
theorem located_ident {id : Ident} : Located P (.ident id) ↔ P id.span := by simp

@[simp]
theorem located_binary {op : BinOp} :
    Located P (.binary op left right span) ↔ P span ∧ left.Located P ∧ right.Located P := by
  simp only [located_iff, subterms, List.forall_mem_cons, List.forall_mem_append]
  simp

@[simp]
theorem located_unary {op : UnOp} : Located P (.unary op e span) ↔ P span ∧ e.Located P := by
  simp only [located_iff, subterms, List.forall_mem_cons]
  simp

@[simp]
theorem located_test {op : MatchOp} {capture : Option Ident} :
    Located P (.test op left right capture span) ↔
      P span ∧ (∀ id ∈ capture, P id.span) ∧ left.Located P ∧ right.Located P := by
  simp only [located_iff, subterms, List.forall_mem_cons, List.forall_mem_append]
  simp [and_assoc]

@[simp]
theorem located_call {callee : Ident} :
    Located P (.call callee es span) ↔ P span ∧ P callee.span ∧ ∀ e ∈ es, e.Located P := by
  simp only [located_iff, subterms, subtermsAll_eq_flatMap, List.forall_mem_cons,
    List.forall_mem_flatMap]
  simp [and_assoc]

@[simp]
theorem located_index :
    Located P (.index left right span) ↔ P span ∧ left.Located P ∧ right.Located P := by
  simp only [located_iff, subterms, List.forall_mem_cons, List.forall_mem_append]
  simp

@[simp]
theorem located_range :
    Located P (.range left right span) ↔ P span ∧ left.Located P ∧ right.Located P := by
  simp only [located_iff, subterms, List.forall_mem_cons, List.forall_mem_append]
  simp

@[simp]
theorem located_array : Located P (.array es span) ↔ P span ∧ ∀ e ∈ es, e.Located P := by
  simp only [located_iff, subterms, subtermsAll_eq_flatMap, List.forall_mem_cons,
    List.forall_mem_flatMap]
  simp

@[simp]
theorem located_dict :
    Located P (.dict entries span) ↔
      P span ∧ ∀ entry ∈ entries, entry.1.Located P ∧ entry.2.Located P := by
  simp only [located_iff, subterms, subtermsEntries_eq_flatMap, List.forall_mem_cons,
    List.forall_mem_flatMap, List.forall_mem_append]
  simp

end Nodes

/-- A node with other parts is located if they are. -/
theorem Located.of_rebuilt {e e' : Expr}
    (h : Rebuilt (fun old new => old.Located P → new.Located P) e e') (he : e.Located P) :
    e'.Located P := by
  cases h with
  | lit | ident => exact he
  | binary hleft hright =>
    rw [located_binary] at he ⊢
    exact ⟨he.1, hleft he.2.1, hright he.2.2⟩
  | unary hoperand =>
    rw [located_unary] at he ⊢
    exact ⟨he.1, hoperand he.2⟩
  | test hsubject hpattern =>
    rw [located_test] at he ⊢
    exact ⟨he.1, he.2.1, hsubject he.2.2.1, hpattern he.2.2.2⟩
  | call hargs =>
    rw [located_call] at he ⊢
    exact ⟨he.1, he.2.1, forall_mem_of_forall₂ hargs he.2.2⟩
  | index htarget hkey =>
    rw [located_index] at he ⊢
    exact ⟨he.1, htarget he.2.1, hkey he.2.2⟩
  | range hfirst hlast =>
    rw [located_range] at he ⊢
    exact ⟨he.1, hfirst he.2.1, hlast he.2.2⟩
  | array helements =>
    rw [located_array] at he ⊢
    exact ⟨he.1, forall_mem_of_forall₂ helements he.2⟩
  | dict hentries =>
    rw [located_dict] at he ⊢
    refine ⟨he.1, forall_mem_of_forall₂ (hentries.imp fun old new h hold => ?_) he.2⟩
    exact ⟨h.1 hold.1, h.2 hold.2⟩

/-- What is rebuilt from the leaves up keeps to places that the rebuilding of a node keeps to. -/
theorem Located.bottomUp {f : Expr → Expr} (hf : ∀ {e : Expr}, e.Located P → (f e).Located P)
    {e : Expr} (h : e.Located P) : (Expr.bottomUp f e).Located P :=
  rel_bottomUp (R := fun old new => old.Located P → new.Located P)
    (fun hrebuilt he => hf (he.of_rebuilt hrebuilt)) e h

/-- A folded node keeps its place. -/
theorem Located.fold {e : Expr} (h : e.Located P) : e.fold.Located P := by
  refine h.bottomUp fun {e} he => ?_
  rw [foldNode]
  split
  · exact located_lit.2 he.span
  · exact he

/-- Replacing names brings in the places of the values that they are replaced by, and no others. -/
theorem Located.subst {bound : String → Option Expr}
    (hbound : ∀ {name value}, bound name = some value → value.Located P) {e : Expr}
    (h : e.Located P) : (e.subst bound).Located P := by
  refine h.bottomUp fun {e} he => ?_
  cases e with
  | ident id =>
    rw [substNode]
    cases hvalue : bound id.name with
    | none => exact he
    | some value => exact hbound hvalue
  | _ => exact he

end Expr

/-! ## Statements -/

namespace Atom

/-- The places in an atom that are not in its expressions. -/
def ownSpans : Atom → List Span
  | .declare name _ span => [span, name.span]
  | .assign target _ _ span => [span, target.span]
  | .expr _ => []
  | .ret _ span => [span]
  | .inclusion _ options span => span :: options.map InclusionOption.span
  | .output _ _ span => [span]
  | .comment _ span => [span]

/-- The places in an atom. -/
def spans (a : Atom) : List Span := a.ownSpans ++ a.exprs.flatMap Expr.spans

/-- `P` holds of the places in an atom. -/
def Located (P : Span → Prop) (a : Atom) : Prop := ∀ span ∈ a.spans, P span

theorem located_iff {a : Atom} :
    a.Located P ↔ (∀ span ∈ a.ownSpans, P span) ∧ ∀ e ∈ a.exprs, e.Located P := by
  rw [Located, spans, List.forall_mem_append, List.forall_mem_flatMap]
  rfl

/-- Rewriting the expressions of an atom moves nothing else in it. -/
theorem ownSpans_mapExprs (f : Expr → Expr) (a : Atom) : (a.mapExprs f).ownSpans = a.ownSpans := by
  cases a with
  | inclusion kind options span => simp [mapExprs, ownSpans]
  | _ => rfl

theorem Located.mapExprs {f : Expr → Expr} (hf : ∀ {e : Expr}, e.Located P → (f e).Located P)
    {a : Atom} (h : a.Located P) : (a.mapExprs f).Located P := by
  rw [located_iff] at h ⊢
  rw [ownSpans_mapExprs, exprs_mapExprs, List.forall_mem_map]
  exact ⟨h.1, fun e he => hf (h.2 e he)⟩

end Atom

/-- The places in a parameter. -/
def Param.spans (p : Param) : List Span :=
  p.span :: p.name.span :: p.default?.toList.map Prod.snd

namespace Stmt

mutual

/-- The places in a statement. -/
def spans : Stmt → List Span
  | .atom a => a.spans
  | .function name params _ body span =>
    span :: name.span :: (params.flatMap Param.spans ++ spansAll body)
  | .ifChain branches (some body) span => span :: (spansBranches branches ++ spansAll body)
  | .ifChain branches none span => span :: spansBranches branches
  | .forLoop var collection body span =>
    span :: (var.toList.map Ident.span ++ (collection.spans ++ spansAll body))
  | .breakLoop span => [span]
  | .attempt body (some handler) span => span :: (spansAll body ++ spansAll handler)
  | .attempt body none span => span :: spansAll body
  | .require _ _ span => [span]
  | .block body span => span :: spansAll body

/-- The places in the statements of a sequence. -/
def spansAll : List Stmt → List Span
  | [] => []
  | s :: rest => spans s ++ spansAll rest

/-- The places in the branches of a chain. -/
def spansBranches : List (Branch Stmt) → List Span
  | [] => []
  | ⟨cond, body, span⟩ :: rest => span :: (cond.spans ++ (spansAll body ++ spansBranches rest))

end

/-- `P` holds of the places in a statement. -/
def Located (P : Span → Prop) (s : Stmt) : Prop := ∀ span ∈ s.spans, P span

/-- `P` holds of the places in statements. -/
def LocatedAll (P : Span → Prop) (stmts : List Stmt) : Prop := ∀ span ∈ spansAll stmts, P span

/-- `P` holds of the places in branches. -/
def LocatedBranches (P : Span → Prop) (branches : List (Branch Stmt)) : Prop :=
  ∀ span ∈ spansBranches branches, P span

/-- Places are known to be good by any weaker measure too. -/
theorem LocatedAll.mono {P' : Span → Prop} (hP : ∀ span, P span → P' span) {stmts : List Stmt}
    (h : LocatedAll P stmts) : LocatedAll P' stmts :=
  fun span hspan => hP span (h span hspan)

section Forms

variable {s : Stmt} {stmts rest body : List Stmt} {branches : List (Branch Stmt)} {span : Span}

attribute [local simp] Located LocatedAll LocatedBranches spans spansAll spansBranches

@[simp]
theorem located_atom {a : Atom} : Located P (.atom a) ↔ a.Located P := by
  simp only [Located, spans]
  rfl

@[simp]
theorem located_function {name : Ident} {params : List Param} {isInline : Bool} :
    Located P (.function name params isInline body span) ↔
      P span ∧ P name.span ∧ (∀ p ∈ params, ∀ span ∈ p.spans, P span) ∧ LocatedAll P body := by
  simp only [Located, spans, List.forall_mem_cons, List.forall_mem_append, List.forall_mem_flatMap]
  rfl

/-- An `else` that is missing has no places, like an empty one. -/
@[simp]
theorem located_ifChain {otherwise : Option (List Stmt)} :
    Located P (.ifChain branches otherwise span) ↔
      P span ∧ LocatedBranches P branches ∧ LocatedAll P (otherwise.getD []) := by
  cases otherwise with
  | none => simp
  | some body =>
    simp only [Located, spans, List.forall_mem_cons, List.forall_mem_append]
    rfl

@[simp]
theorem located_forLoop {var : Option Ident} {collection : Expr} :
    Located P (.forLoop var collection body span) ↔
      P span ∧ (∀ id ∈ var, P id.span) ∧ collection.Located P ∧ LocatedAll P body := by
  simp only [Located, spans, List.forall_mem_cons, List.forall_mem_append, List.forall_mem_map,
    Option.mem_toList]
  rfl

@[simp]
theorem located_breakLoop : Located P (.breakLoop span) ↔ P span := by simp

/-- A handler that is missing has no places, like an empty one. -/
@[simp]
theorem located_attempt {handler : Option (List Stmt)} :
    Located P (.attempt body handler span) ↔
      P span ∧ LocatedAll P body ∧ LocatedAll P (handler.getD []) := by
  cases handler with
  | none => simp
  | some handler =>
    simp only [Located, spans, List.forall_mem_cons, List.forall_mem_append]
    rfl

@[simp]
theorem located_require {path : String} {force : Bool} :
    Located P (.require path force span) ↔ P span := by
  simp

@[simp]
theorem located_block : Located P (.block body span) ↔ P span ∧ LocatedAll P body := by
  simp only [Located, spans, List.forall_mem_cons]
  rfl

@[simp]
theorem locatedAll_nil : LocatedAll P [] := by simp

@[simp]
theorem locatedAll_cons : LocatedAll P (s :: rest) ↔ s.Located P ∧ LocatedAll P rest := by
  simp only [LocatedAll, spansAll, List.forall_mem_append]
  rfl

theorem locatedAll_singleton : LocatedAll P [s] ↔ s.Located P := by
  rw [locatedAll_cons, and_iff_left locatedAll_nil]

@[simp]
theorem locatedAll_append :
    LocatedAll P (stmts ++ rest) ↔ LocatedAll P stmts ∧ LocatedAll P rest := by
  induction stmts with
  | nil => simp only [List.nil_append, locatedAll_nil, true_and]
  | cons s stmts ih => rw [List.cons_append, locatedAll_cons, locatedAll_cons, ih, and_assoc]

@[simp]
theorem locatedBranches_nil : LocatedBranches P [] := by simp

@[simp]
theorem locatedBranches_cons {cond : Expr} {rest : List (Branch Stmt)} :
    LocatedBranches P (⟨cond, body, span⟩ :: rest) ↔
      P span ∧ cond.Located P ∧ LocatedAll P body ∧ LocatedBranches P rest := by
  simp only [LocatedBranches, spansBranches, List.forall_mem_cons, List.forall_mem_append]
  rfl

theorem locatedAll_iff : LocatedAll P stmts ↔ ∀ s ∈ stmts, s.Located P := by
  induction stmts with
  | nil => simp
  | cons s rest ih => rw [locatedAll_cons, ih, List.forall_mem_cons]

/-- The places of branches are their own, those of their conditions and those of their bodies. -/
theorem locatedBranches_iff : LocatedBranches P branches ↔
    ∀ b ∈ branches, P b.span ∧ b.cond.Located P ∧ LocatedAll P b.body := by
  induction branches with
  | nil => simp
  | cons b rest ih =>
    rw [List.forall_mem_cons, ← ih, locatedBranches_cons]
    simp only [and_assoc]

end Forms

/-! ## Folding and substitution -/

/-- A folded chain has the places of what it is made of, and the one it is given. -/
theorem locatedAll_ofChain {folded : List (Branch Stmt) × Option (List Stmt)}
    {otherwise : Option (List Stmt)} {span : Span} (hspan : P span)
    (hbranches : LocatedBranches P folded.1) (hlast : ∀ body ∈ folded.2, LocatedAll P body)
    (hotherwise : LocatedAll P (otherwise.getD [])) :
    LocatedAll P (ofChain folded otherwise span) := by
  have hbody : LocatedAll P ((folded.2.or otherwise).getD []) := by
    cases hfolded : folded.2 with
    | none => exact hotherwise
    | some body => exact hlast body hfolded
  rw [ofChain]
  split
  · exact hbody
  · exact locatedAll_singleton.2 (located_ifChain.2 ⟨hspan, hbranches, hbody⟩)

mutual

theorem Located.fold : ∀ {s : Stmt}, s.Located P → LocatedAll P s.fold
  | .atom _, h =>
    locatedAll_singleton.2 (located_atom.2 ((located_atom.1 h).mapExprs Expr.Located.fold))
  | .function .., h => by
    obtain ⟨hspan, hname, hparams, hbody⟩ := located_function.1 h
    exact locatedAll_singleton.2 (located_function.2 ⟨hspan, hname, hparams, hbody.fold⟩)
  | .ifChain _ (some _) _, h => by
    obtain ⟨hspan, hbranches, hbody⟩ := located_ifChain.1 h
    exact locatedAll_ofChain hspan hbranches.fold.1 hbranches.fold.2 (LocatedAll.fold hbody)
  | .ifChain _ none _, h => by
    obtain ⟨hspan, hbranches, -⟩ := located_ifChain.1 h
    exact locatedAll_ofChain hspan hbranches.fold.1 hbranches.fold.2 locatedAll_nil
  | .forLoop .., h => by
    obtain ⟨hspan, hvar, hcollection, hbody⟩ := located_forLoop.1 h
    exact locatedAll_singleton.2 (located_forLoop.2 ⟨hspan, hvar, hcollection.fold, hbody.fold⟩)
  | .breakLoop _, h => locatedAll_singleton.2 h
  | .attempt _ (some _) _, h => by
    obtain ⟨hspan, hbody, hhandler⟩ := located_attempt.1 h
    exact locatedAll_singleton.2 (located_attempt.2 ⟨hspan, hbody.fold, LocatedAll.fold hhandler⟩)
  | .attempt _ none _, h => by
    obtain ⟨hspan, hbody, -⟩ := located_attempt.1 h
    exact locatedAll_singleton.2 (located_attempt.2 ⟨hspan, hbody.fold, locatedAll_nil⟩)
  | .require .., h => locatedAll_singleton.2 h
  | .block .., h => by
    obtain ⟨hspan, hbody⟩ := located_block.1 h
    exact locatedAll_singleton.2 (located_block.2 ⟨hspan, hbody.fold⟩)

/-- Folding has no new places to offer: a literal that is computed stands where its operands stood.
-/
theorem LocatedAll.fold : ∀ {stmts : List Stmt}, LocatedAll P stmts → LocatedAll P (foldAll stmts)
  | [], h => h
  | _ :: _, h => by
    rw [locatedAll_cons] at h
    rw [foldAll, locatedAll_append]
    exact ⟨h.1.fold, h.2.fold⟩

theorem LocatedBranches.fold : ∀ {branches : List (Branch Stmt)}, LocatedBranches P branches →
    LocatedBranches P (foldBranches branches).1 ∧
      ∀ body ∈ (foldBranches branches).2, LocatedAll P body
  | [], _ => ⟨locatedBranches_nil, fun _ hbody => nomatch hbody⟩
  | ⟨cond, body, span⟩ :: rest, h => by
    obtain ⟨hspan, hcond, hbody, hrest⟩ := locatedBranches_cons.1 h
    rw [foldBranches]
    split
    · refine ⟨locatedBranches_nil, fun last hlast => ?_⟩
      cases hlast
      exact hbody.fold
    · exact hrest.fold
    · exact ⟨locatedBranches_cons.2 ⟨hspan, hcond.fold, hbody.fold, hrest.fold.1⟩, hrest.fold.2⟩

end

section Subst

variable {var : String} {value : Expr}

/-- The variable of a loop is replaced by an element whose places are known. -/
theorem located_substExpr (hvalue : value.Located P) {e : Expr} (h : e.Located P) :
    (e.subst (binding var value)).Located P := by
  refine h.subst fun {name value'} hbound => ?_
  rw [binding, Option.ite_none_right_eq_some] at hbound
  exact Option.some.inj hbound.2 ▸ hvalue

mutual

theorem Located.subst (hvalue : value.Located P) :
    ∀ {s : Stmt}, s.Located P → (s.subst var value).Located P
  | .atom a, h => by
    rw [located_atom] at h
    exact located_atom.2 (h.mapExprs (located_substExpr hvalue))
  | .function .., h => h
  | .ifChain _ (some _) _, h => by
    obtain ⟨hspan, hbranches, hbody⟩ := located_ifChain.1 h
    exact located_ifChain.2 ⟨hspan, hbranches.subst hvalue, LocatedAll.subst hvalue hbody⟩
  | .ifChain _ none _, h => by
    obtain ⟨hspan, hbranches, -⟩ := located_ifChain.1 h
    exact located_ifChain.2 ⟨hspan, hbranches.subst hvalue, locatedAll_nil⟩
  | .forLoop .., h => by
    obtain ⟨hspan, hvar, hcollection, hbody⟩ := located_forLoop.1 h
    refine located_forLoop.2 ⟨hspan, hvar, located_substExpr hvalue hcollection, ?_⟩
    split
    · exact hbody
    · exact hbody.subst hvalue
  | .breakLoop _, h => h
  | .attempt _ (some _) _, h => by
    obtain ⟨hspan, hbody, hhandler⟩ := located_attempt.1 h
    exact located_attempt.2 ⟨hspan, hbody.subst hvalue, LocatedAll.subst hvalue hhandler⟩
  | .attempt _ none _, h => by
    obtain ⟨hspan, hbody, -⟩ := located_attempt.1 h
    exact located_attempt.2 ⟨hspan, hbody.subst hvalue, locatedAll_nil⟩
  | .require .., h => h
  | .block .., h => by
    obtain ⟨hspan, hbody⟩ := located_block.1 h
    exact located_block.2 ⟨hspan, hbody.subst hvalue⟩

theorem LocatedAll.subst (hvalue : value.Located P) :
    ∀ {stmts : List Stmt}, LocatedAll P stmts → LocatedAll P (substAll var value stmts)
  | [], h => h
  | _ :: _, h => by
    rw [locatedAll_cons] at h
    exact locatedAll_cons.2 ⟨h.1.subst hvalue, h.2.subst hvalue⟩

theorem LocatedBranches.subst (hvalue : value.Located P) :
    ∀ {branches : List (Branch Stmt)}, LocatedBranches P branches →
      LocatedBranches P (substBranches var value branches)
  | [], h => h
  | ⟨_, _, _⟩ :: _, h => by
    obtain ⟨hspan, hcond, hbody, hrest⟩ := locatedBranches_cons.1 h
    exact locatedBranches_cons.2
      ⟨hspan, located_substExpr hvalue hcond, hbody.subst hvalue, hrest.subst hvalue⟩

end

end Subst

/-! ## Filling the places of requests -/

section Fill

variable {order : WalkOrder}

mutual

/-- Requests stand at places of the script. -/
theorem Located.request : ∀ {s : Stmt}, s.Located P → ∀ r ∈ requestsIn order s, P r.span
  | .require .., h, r, hr => by
    rw [requestsIn, List.mem_singleton] at hr
    exact hr ▸ located_require.1 h
  | .function .., h, r, hr => LocatedAll.request (located_function.1 h).2.2.2 r hr
  | .ifChain _ (some _) _, h, r, hr => by
    obtain ⟨-, hbranches, hbody⟩ := located_ifChain.1 h
    rw [requestsIn, List.mem_append] at hr
    exact hr.elim (hbranches.request r) (LocatedAll.request hbody r)
  | .ifChain _ none _, h, r, hr => (located_ifChain.1 h).2.1.request r hr
  | .forLoop .., h, r, hr => (located_forLoop.1 h).2.2.2.request r hr
  | .breakLoop _, _, r, hr => by
    rw [requestsIn] at hr
    cases hr
  | .attempt _ (some _) _, h, r, hr => by
    obtain ⟨-, hbody, hhandler⟩ := located_attempt.1 h
    rw [requestsIn, WalkOrder.mem_join] at hr
    exact hr.elim (hbody.request r) (LocatedAll.request hhandler r)
  | .attempt _ none _, h, r, hr => (located_attempt.1 h).2.1.request r hr
  | .block .., h, r, hr => (located_block.1 h).2.request r hr
  | .atom _, _, r, hr => by
    rw [requestsIn] at hr
    cases hr

theorem LocatedAll.request :
    ∀ {stmts : List Stmt}, LocatedAll P stmts → ∀ r ∈ requestsInAll order stmts, P r.span
  | [], _, r, hr => by
    rw [requestsInAll] at hr
    cases hr
  | _ :: _, h, r, hr => by
    rw [locatedAll_cons] at h
    rw [requestsInAll, List.mem_append] at hr
    exact hr.elim (h.1.request r) (h.2.request r)

theorem LocatedBranches.request : ∀ {branches : List (Branch Stmt)}, LocatedBranches P branches →
    ∀ r ∈ requestsInBranches order branches, P r.span
  | [], _, r, hr => by
    rw [requestsInBranches] at hr
    cases hr
  | ⟨_, _, _⟩ :: _, h, r, hr => by
    obtain ⟨-, -, hbody, hrest⟩ := locatedBranches_cons.1 h
    rw [requestsInBranches, List.mem_append] at hr
    exact hr.elim (hbody.request r) (hrest.request r)

end

mutual

/-- Units that are put in the places of requests bring in their own places only. -/
theorem Located.fill : ∀ {s : Stmt} {parts : List (List Stmt)}, s.Located P →
    (∀ part ∈ parts, LocatedAll P part) → LocatedAll P (fill order s parts)
  | .require .., [], _, _ => locatedAll_nil
  | .require .., part :: _, _, hparts => hparts part List.mem_cons_self
  | .function .., _, h, hparts => by
    obtain ⟨hspan, hname, hparams, hbody⟩ := located_function.1 h
    exact locatedAll_singleton.2 (located_function.2 ⟨hspan, hname, hparams, hbody.fill hparts⟩)
  | .ifChain _ (some _) _, _, h, hparts => by
    obtain ⟨hspan, hbranches, hbody⟩ := located_ifChain.1 h
    refine locatedAll_singleton.2 (located_ifChain.2 ⟨hspan, hbranches.fill fun part hp => ?_,
      LocatedAll.fill hbody fun part hp => ?_⟩)
    · exact hparts part (List.mem_of_mem_take hp)
    · exact hparts part (List.mem_of_mem_drop hp)
  | .ifChain _ none _, _, h, hparts => by
    obtain ⟨hspan, hbranches, -⟩ := located_ifChain.1 h
    exact locatedAll_singleton.2 (located_ifChain.2 ⟨hspan, hbranches.fill hparts, locatedAll_nil⟩)
  | .forLoop .., _, h, hparts => by
    obtain ⟨hspan, hvar, hcollection, hbody⟩ := located_forLoop.1 h
    exact locatedAll_singleton.2 (located_forLoop.2 ⟨hspan, hvar, hcollection, hbody.fill hparts⟩)
  | .breakLoop _, _, h, _ => locatedAll_singleton.2 h
  | .attempt _ (some _) _, _, h, hparts => by
    obtain ⟨hspan, hbody, hhandler⟩ := located_attempt.1 h
    refine locatedAll_singleton.2 (located_attempt.2 ⟨hspan, hbody.fill fun part hp => ?_,
      LocatedAll.fill hhandler fun part hp => ?_⟩)
    · exact hparts part (WalkOrder.mem_of_mem_split (.inl hp))
    · exact hparts part (WalkOrder.mem_of_mem_split (.inr hp))
  | .attempt _ none _, _, h, hparts => by
    obtain ⟨hspan, hbody, -⟩ := located_attempt.1 h
    exact locatedAll_singleton.2 (located_attempt.2 ⟨hspan, hbody.fill hparts, locatedAll_nil⟩)
  | .block .., _, h, hparts => by
    obtain ⟨hspan, hbody⟩ := located_block.1 h
    exact locatedAll_singleton.2 (located_block.2 ⟨hspan, hbody.fill hparts⟩)
  | .atom _, _, h, _ => locatedAll_singleton.2 h

theorem LocatedAll.fill : ∀ {stmts : List Stmt} {parts : List (List Stmt)}, LocatedAll P stmts →
    (∀ part ∈ parts, LocatedAll P part) → LocatedAll P (fillAll order stmts parts)
  | [], _, _, _ => locatedAll_nil
  | _ :: _, _, h, hparts => by
    rw [locatedAll_cons] at h
    exact locatedAll_append.2 ⟨h.1.fill fun part hp => hparts part (List.mem_of_mem_take hp),
      h.2.fill fun part hp => hparts part (List.mem_of_mem_drop hp)⟩

theorem LocatedBranches.fill : ∀ {branches : List (Branch Stmt)} {parts : List (List Stmt)},
    LocatedBranches P branches → (∀ part ∈ parts, LocatedAll P part) →
    LocatedBranches P (fillBranches order branches parts)
  | [], _, _, _ => locatedBranches_nil
  | ⟨_, _, _⟩ :: _, _, h, hparts => by
    obtain ⟨hspan, hcond, hbody, hrest⟩ := locatedBranches_cons.1 h
    exact locatedBranches_cons.2 ⟨hspan, hcond,
      hbody.fill fun part hp => hparts part (List.mem_of_mem_take hp),
      hrest.fill fun part hp => hparts part (List.mem_of_mem_drop hp)⟩

end

end Fill

end Stmt

end EdgeScript
