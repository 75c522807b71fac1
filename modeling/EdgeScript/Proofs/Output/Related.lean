import EdgeScript.Proofs.Calls.Guard
import EdgeScript.Proofs.Leftover.Place
import EdgeScript.Proofs.Positions.Located

/-!
# Writing under two limits

How long a list may be that a range is written as matters at ranges, and nowhere else.  So what is
written under one limit and what is written under another stand in every relation that holds of the
same result, goes through sequences, holds of a refusal at a place of the script, and of the ranges
(`Compared`).  Expressions are never refused as left over; for statements the relation has to hold
of such refusals too (`ComparedWhole`).

This one walk through the writing of a script serves three ends: a script that is written under a
limit is written the same under a larger one, what is refused is refused at a place of the script,
and no expression is refused as something that is left over.
-/

set_option autoImplicit false

namespace EdgeScript

open Pass

/-- A relation between what expressions are written as if lists may have `n` elements, and if they
may have `n'`. -/
structure Compared (P : Span → Prop) (functions : List String) (n n' : Nat)
    (R : {α : Type} → Except Error α → Except Error α → Prop) : Prop where
  ok {α : Type} (a : α) : R (.ok a) (.ok a)
  bind {α β : Type} {x y : Except Error α} {f g : α → Except Error β} (h : R x y)
    (hrest : ∀ a, R (f a) (g a)) :
    R (x >>= f) (y >>= g)
  refused {α : Type} (what : Unsupported) {span : Span} (hwhat : what.isLeftover = false)
    (h : P span) :
    R (.error (.unsupported what span) : Except Error α) (.error (.unsupported what span))
  range (first last : Expr) {span : Span} (h : P span) :
    R (renderRange ⟨functions, n⟩ first last span) (renderRange ⟨functions, n'⟩ first last span)

/-- The same for what statements are written as. -/
structure ComparedWhole (P : Span → Prop) (functions : List String) (n n' : Nat)
    (R : {α : Type} → Except Error α → Except Error α → Prop) :
      Prop extends Compared P functions n n' R where
  leftover {α : Type} (what : Unsupported) {span : Span} (hwhat : what.isLeftover = true)
    (h : P span) :
    R (.error (.unsupported what span) : Except Error α) (.error (.unsupported what span))

namespace Compared

variable {P : Span → Prop} {functions : List String} {n n' : Nat}
  {R : {α : Type} → Except Error α → Except Error α → Prop} (hR : Compared P functions n n' R)
include hR

theorem bind_pure {α β : Type} {x y : Except Error α} {g : α → β} (h : R x y) :
    R (x >>= fun a => pure (g a)) (y >>= fun a => pure (g a)) :=
  hR.bind h fun a => hR.ok (g a)

/-- The relation goes along a list. -/
theorem mapM {α β : Type} {f g : α → Except Error β} {l : List α} (h : ∀ a ∈ l, R (f a) (g a)) :
    R (l.mapM f) (l.mapM g) := by
  induction l with
  | nil => exact hR.ok []
  | cons a l ih =>
    rw [List.forall_mem_cons] at h
    rw [List.mapM_cons, List.mapM_cons]
    exact hR.bind h.1 fun _ => hR.bind_pure (ih h.2)

/-! ## Expressions -/

mutual

/-- What an expression is written as under two limits is related. -/
theorem render (style : Style) : ∀ {e : Expr}, e.Located P →
    R (e.render ⟨functions, n⟩ style) (e.render ⟨functions, n'⟩ style)
  | .lit .., _ => hR.ok _
  | .ident _, _ => hR.ok _
  | .index (.ident _) key _, h => hR.bind_pure (render .expression (Expr.located_index.1 h).2.2)
  | .index (.lit ..) _ _, h | .index (.index ..) _ _, h | .index (.binary ..) _ _, h
  | .index (.unary ..) _ _, h | .index (.test ..) _ _, h | .index (.call ..) _ _, h
  | .index (.range ..) _ _, h | .index (.array ..) _ _, h | .index (.dict ..) _ _, h =>
    hR.refused .indexTarget rfl (Expr.located_index.1 h).1
  | .binary .., h => by
    obtain ⟨-, hleft, hright⟩ := Expr.located_binary.1 h
    refine hR.bind (render style hleft) fun _ => hR.bind (render style hright) fun _ => ?_
    split <;> exact hR.ok _
  | .unary .., h => hR.bind_pure (render style (Expr.located_unary.1 h).2)
  | .test .., h => by
    obtain ⟨-, -, hsubject, hpattern⟩ := Expr.located_test.1 h
    exact hR.bind (render style hsubject) fun _ => hR.bind_pure (render style hpattern)
  | .call callee args span, h => by
    obtain ⟨hspan, -, hargs⟩ := Expr.located_call.1 h
    rw [Expr.render, Expr.render]
    by_cases hf : callee.name ∈ functions
    · rw [if_pos hf, if_pos hf]
      exact hR.refused _ rfl hspan
    · rw [if_neg hf, if_neg hf]
      exact hR.bind_pure (renderAll args hargs)
  | .range .., h => hR.range _ _ (Expr.located_range.1 h).1
  | .array elements _, h => hR.bind_pure (renderAll elements (Expr.located_array.1 h).2)
  | .dict entries _, h => hR.bind_pure (renderEntries entries (Expr.located_dict.1 h).2)

theorem renderAll : ∀ (es : List Expr), (∀ e ∈ es, e.Located P) →
    R (Expr.renderAll ⟨functions, n⟩ es) (Expr.renderAll ⟨functions, n'⟩ es)
  | [], _ => hR.ok []
  | _ :: es, h => by
    rw [List.forall_mem_cons] at h
    exact hR.bind (render .expression h.1) fun _ => hR.bind_pure (renderAll es h.2)

theorem renderEntries : ∀ (entries : List (Expr × Expr)),
    (∀ entry ∈ entries, entry.1.Located P ∧ entry.2.Located P) →
    R (Expr.renderEntries ⟨functions, n⟩ entries) (Expr.renderEntries ⟨functions, n'⟩ entries)
  | [], _ => hR.ok []
  | (_, _) :: entries, h => by
    rw [List.forall_mem_cons] at h
    exact hR.bind (render .expression h.1.1) fun _ =>
      hR.bind (render .expression h.1.2) fun _ => hR.bind_pure (renderEntries entries h.2)

end

/-! ## Atoms -/

/-- So are the tags of assignments, in either of their forms. -/
theorem ofAssign {target : Ident} {key : Option Expr} {value : Expr} (hkey : ∀ e ∈ key, e.Located P)
    (hvalue : value.Located P) :
    R (Markup.ofAssign ⟨functions, n⟩ target key value)
      (Markup.ofAssign ⟨functions, n'⟩ target key value) := by
  cases key with
  | none => exact hR.bind (hR.ok target.name) fun _ => hR.bind_pure (hR.render _ hvalue)
  | some key =>
    exact hR.bind (hR.bind_pure (hR.render _ (hkey key rfl))) fun _ =>
      hR.bind_pure (hR.render _ hvalue)

theorem optionText {o : InclusionOption} (h : o.value.Located P) :
    R (Markup.optionText ⟨functions, n⟩ o) (Markup.optionText ⟨functions, n'⟩ o) := by
  rw [Markup.optionText, Markup.optionText]
  refine hR.bind ?_ fun _ => ?_
  · split
    · exact hR.ok _
    · exact hR.render _ h
  · split <;> exact hR.ok _

/-- The attributes of one key are made of the options in order, so they are related if each of them
is. -/
theorem optionAttributes {options : List InclusionOption} (h : ∀ o ∈ options, o.value.Located P)
    (key : OptionKey) :
    R (Markup.optionAttributes ⟨functions, n⟩ options key)
      (Markup.optionAttributes ⟨functions, n'⟩ options key) := by
  unfold Markup.optionAttributes
  cases ho : Markup.option? options key with
  | none => exact hR.ok []
  | some o =>
    have hvalue : o.value.Located P := h o (List.mem_of_find?_eq_some ho)
    dsimp only
    split
    · refine hR.mapM fun value hmem => hR.bind_pure (hR.render _ ?_)
      cases hv : o.value with
      | array elements span =>
        rw [hv] at hvalue hmem
        exact (Expr.located_array.1 hvalue).2 value hmem
      | _ =>
        rw [hv] at hmem hvalue
        exact List.mem_singleton.1 hmem ▸ hvalue
    · exact hR.bind_pure (hR.optionText hvalue)

end Compared

/-! ## Statements -/

namespace ComparedWhole

open Markup

variable {P : Span → Prop} {functions : List String} {n n' : Nat}
  {R : {α : Type} → Except Error α → Except Error α → Prop} (hR : ComparedWhole P functions n n' R)
include hR

/-- Output is related too, be it raw or not. -/
theorem ofOutput {args : List Expr} (h : ∀ e ∈ args, e.Located P) (kind : OutputKind) :
    R (Markup.ofOutput ⟨functions, n⟩ kind args) (Markup.ofOutput ⟨functions, n'⟩ kind args) := by
  have htexts : R (args.mapM (Expr.render ⟨functions, n⟩ .text))
      (args.mapM (Expr.render ⟨functions, n'⟩ .text)) :=
    hR.mapM fun arg harg => hR.render _ (h arg harg)
  cases kind with
  | print => exact hR.bind_pure htexts
  | printVars => exact hR.bind_pure htexts
  | printRaw =>
    refine hR.bind_pure (hR.mapM fun arg harg => ?_)
    unfold Markup.rawText
    split
    · exact hR.ok _
    · exact hR.ok _
    · exact hR.leftover _ rfl (h arg harg).span

section Passes

variable {α β : Type}

/-- The relation holds from every state. -/
theorem pass_bind {x y : Generation α} {f g : α → Generation β}
    (h : ∀ s, R (ending x s) (ending y s)) (hrest : ∀ a s, R (ending (f a) s) (ending (g a) s))
    (s : Array Note) : R (ending (x >>= f) s) (ending (y >>= g) s) := by
  rw [ending_bind, ending_bind]
  exact hR.bind (h s) fun r => hrest r.1 r.2

theorem pass_pure (a : α) (s : Array Note) :
    R (ending (pure a : Generation α) s) (ending (pure a : Generation α) s) :=
  hR.ok (a, s)

theorem pass_bind_pure {x y : Generation α} {g : α → β} (h : ∀ s, R (ending x s) (ending y s)) :
    ∀ s, R (ending (x >>= fun a => pure (g a)) s) (ending (y >>= fun a => pure (g a)) s) :=
  hR.pass_bind h fun a => hR.pass_pure (g a)

/-- A related result is related as the step of a generation. -/
theorem pass_lift {x y : Except Error α} (h : R x y) (s : Array Note) :
    R (ending (liftM x : Generation α) s) (ending (liftM y : Generation α) s) := by
  rw [ending_lift, ending_lift]
  exact hR.bind_pure h

/-- What is refused as left over is refused under both limits. -/
theorem pass_leftover (what : Unsupported) {span : Span} (hwhat : what.isLeftover = true)
    (h : P span) (s : Array Note) :
    R (ending (throw (.unsupported what span) : Generation α) s)
      (ending (throw (.unsupported what span) : Generation α) s) :=
  hR.leftover what hwhat h

end Passes

/-- What is written for an atom is related: the limit shows in its expressions only. -/
theorem ofAtom : ∀ {a : Atom}, a.Located P → ∀ s,
    R (ending (Markup.ofAtom ⟨functions, n⟩ a) s) (ending (Markup.ofAtom ⟨functions, n'⟩ a) s)
  | .declare _ none _, _ => hR.pass_pure []
  | .declare name (some value) _, h => by
    have hvalue := (Atom.located_iff.1 h).2 value List.mem_cons_self
    exact hR.pass_bind_pure (hR.pass_lift (hR.ofAssign (fun _ he => nomatch he) hvalue))
  | .assign target key value _, h => by
    have hexprs := (Atom.located_iff.1 h).2
    refine hR.pass_bind_pure
      (hR.pass_lift (hR.ofAssign (fun e he => hexprs e ?_) (hexprs value ?_)))
    · exact List.mem_append_left _ (Option.mem_toList.2 he)
    · exact List.mem_append_right _ List.mem_cons_self
  | .expr e, h => by
    have he := (Atom.located_iff.1 h).2 e List.mem_cons_self
    refine hR.pass_bind (hR.pass_lift (hR.render _ he)) fun text => ?_
    split
    · exact hR.pass_pure _
    · exact fun s => hR.ok _
  | .ret _ span, h =>
    hR.pass_leftover .returnLeft rfl ((Atom.located_iff.1 h).1 span List.mem_cons_self)
  | .inclusion kind options span, h => by
    have hoptions : ∀ o ∈ options, o.value.Located P :=
      List.forall_mem_map.1 (Atom.located_iff.1 h).2
    refine hR.pass_bind_pure (hR.pass_lift (hR.bind_pure (hR.mapM fun key _ => ?_)))
    exact hR.optionAttributes hoptions key
  | .output kind args _, h => hR.pass_lift (hR.ofOutput (Atom.located_iff.1 h).2 kind)
  | .comment .., _ => hR.pass_pure _

mutual

/-- What is written for a statement is related, by induction on the statement. -/
theorem ofStmt : ∀ {s : Stmt}, s.Located P → ∀ notes,
    R (ending (Markup.ofStmt ⟨functions, n⟩ s) notes)
      (ending (Markup.ofStmt ⟨functions, n'⟩ s) notes)
  | .atom _, h => hR.ofAtom (Stmt.located_atom.1 h)
  | .function _ _ isInline _ _, _ => by
    cases isInline <;> exact fun s => hR.ok _
  | .ifChain branches (some body) _, h => by
    obtain ⟨-, hbranches, hbody⟩ := Stmt.located_ifChain.1 h
    exact hR.pass_bind (ofBranches hbranches) fun _ => hR.pass_bind_pure (ofStmts hbody)
  | .ifChain branches none _, h => hR.pass_bind_pure (ofBranches (Stmt.located_ifChain.1 h).2.1)
  | .attempt body (some handler) _, h => by
    obtain ⟨-, hbody, hhandler⟩ := Stmt.located_attempt.1 h
    exact hR.pass_bind (ofStmts hbody) fun _ => hR.pass_bind_pure (ofStmts hhandler)
  | .attempt body none _, h => hR.pass_bind_pure (ofStmts (Stmt.located_attempt.1 h).2.1)
  | .block body _, h => ofStmts (Stmt.located_block.1 h).2
  | .forLoop .., h => hR.pass_leftover .loopLeft rfl (Stmt.located_forLoop.1 h).1
  | .breakLoop _, h => hR.pass_leftover .breakLeft rfl (Stmt.located_breakLoop.1 h)
  | .require .., h => hR.pass_leftover _ rfl (Stmt.located_require.1 h)

theorem ofStmts : ∀ {stmts : List Stmt}, Stmt.LocatedAll P stmts → ∀ notes,
    R (ending (Markup.ofStmts ⟨functions, n⟩ stmts) notes)
      (ending (Markup.ofStmts ⟨functions, n'⟩ stmts) notes)
  | [], _ => hR.pass_pure []
  | _ :: _, h => by
    obtain ⟨hs, hrest⟩ := Stmt.locatedAll_cons.1 h
    exact hR.pass_bind (ofStmt hs) fun _ => hR.pass_bind_pure (ofStmts hrest)

theorem ofBranches : ∀ {branches : List (Branch Stmt)}, Stmt.LocatedBranches P branches → ∀ notes,
    R (ending (Markup.ofBranches ⟨functions, n⟩ branches) notes)
      (ending (Markup.ofBranches ⟨functions, n'⟩ branches) notes)
  | [], _ => hR.pass_pure []
  | ⟨_, _, _⟩ :: _, h => by
    obtain ⟨-, hcond, hbody, hrest⟩ := Stmt.locatedBranches_cons.1 h
    exact hR.pass_bind (hR.pass_lift (hR.render _ hcond)) fun _ =>
      hR.pass_bind (ofStmts hbody) fun _ => hR.pass_bind_pure (ofBranches hrest)

end

end ComparedWhole

end EdgeScript
