import EdgeScript.Markup.Generate
import EdgeScript.Proofs.Inlining.Expand

/-!
# Calls that the markup cannot make

The markup has no functions of its own, so writing a script refuses the calls of the functions that
the script declares.  `Stmt.writtenCallsAll` lists the calls that are met, those in the bodies of
functions left out, and `Guarded` says how the list of declared functions matters: compared with a
script that declares none, nothing changes if none of the calls is to a declared function, and
otherwise the script is refused, for such a call unless there is another error in front of it
(`Markup.guards_ofProgramWith`).
-/

set_option autoImplicit false

namespace EdgeScript

open Pass

/-- Two computations that meet the calls `calls`, the first refusing those of `functions`. -/
inductive Guarded {α : Type} (functions calls : List String) : Except Error α →
  Except Error α → Prop
  | passed {x : Except Error α} (h : ∀ f ∈ calls, f ∉ functions) : Guarded functions calls x x
  | failed {e : Error} : Guarded functions calls (.error e) (.error e)
  | refused {f : String} {span : Span} {x : Except Error α} (hcall : f ∈ calls)
      (hf : f ∈ functions) : Guarded functions calls (.error (.unsupported (.userCall f) span)) x

namespace Guarded

variable {α β : Type} {functions calls calls' : List String} {x y : Except Error α}

theorem of_nil {x : Except Error α} : Guarded functions [] x x :=
  passed fun _ hf => absurd hf List.not_mem_nil

/-- What cannot succeed with a call in it does not depend on the functions. -/
theorem of_ok {x : Except Error α} (h : ∀ a, x = .ok a → calls = []) :
    Guarded functions calls x x := by
  cases x with
  | error e => exact failed
  | ok a =>
    rw [h a rfl]
    exact of_nil

/-- Calls that are no calls of declared functions change nothing. -/
theorem prepend (hpassed : ∀ f ∈ calls, f ∉ functions) (h : Guarded functions calls' x y) :
    Guarded functions (calls ++ calls') x y := by
  cases h with
  | passed h => exact passed (List.forall_mem_append.2 ⟨hpassed, h⟩)
  | failed => exact failed
  | refused hcall hf => exact refused (List.mem_append_right _ hcall) hf

/-- One guarded step after another: the calls are met in order. -/
theorem bind {f g : α → Except Error β} (h : Guarded functions calls x y)
    (hrest : ∀ a, Guarded functions calls' (f a) (g a)) :
    Guarded functions (calls ++ calls') (x >>= f) (y >>= g) := by
  cases h with
  | @passed x hpassed =>
    cases x with
    | error e => exact failed
    | ok a => exact (hrest a).prepend hpassed
  | failed => exact failed
  | refused hcall hf => exact refused (List.mem_append_left _ hcall) hf

theorem bind_pure {g : α → β} (h : Guarded functions calls x y) :
    Guarded functions calls (x >>= fun a => pure (g a)) (y >>= fun a => pure (g a)) := by
  have hbind := h.bind (f := fun a => pure (g a)) fun a => of_nil
  rwa [List.append_nil] at hbind

/-- Steps along a list are guarded by the calls of all elements. -/
theorem mapM {γ : Type} {f g : γ → Except Error β} {callsOf : γ → List String} {l : List γ}
    (h : ∀ c ∈ l, Guarded functions (callsOf c) (f c) (g c)) :
    Guarded functions (l.flatMap callsOf) (l.mapM f) (l.mapM g) := by
  induction l with
  | nil => exact of_nil
  | cons c l ih =>
    rw [List.forall_mem_cons] at h
    rw [List.mapM_cons, List.mapM_cons, List.flatMap_cons]
    exact h.1.bind fun _ => (ih h.2).bind_pure

/-- A call of one of the functions does not pass, and is what fails if nothing else does. -/
theorem error_of_mem (h : Guarded functions calls x y) {f : String} (hcall : f ∈ calls)
    (hf : f ∈ functions) :
    ∃ e, x = .error e ∧
      ∀ a, y = .ok a → ∃ g ∈ calls, g ∈ functions ∧
        ∃ span, e = .unsupported (.userCall g) span := by
  cases h with
  | passed h => exact absurd hf (h f hcall)
  | failed => exact ⟨_, rfl, nofun⟩
  | refused hcall hf => exact ⟨_, rfl, fun _ _ => ⟨_, hcall, hf, _, rfl⟩⟩

end Guarded

/-! ## Expressions -/

namespace Expr

variable {functions : List String} (n : Nat)

/-- There are no calls in a literal. -/
theorem calls_of_literal? {e : Expr} {value : Literal} (h : e.literal? = some value) :
    e.calls = [] := by
  cases e <;> first | rfl | cases h

/-- The bounds of a range are literals if it is written at all. -/
theorem guarded_renderRange (first last : Expr) (span : Span) :
    Guarded functions (first.calls ++ last.calls) (renderRange ⟨functions, n⟩ first last span)
      (renderRange ⟨[], n⟩ first last span) := by
  refine Guarded.of_ok fun text h => ?_
  rw [renderRange] at h
  split at h
  · rename_i hfirst hlast
    rw [calls_of_literal? hfirst, calls_of_literal? hlast, List.append_nil]
  · cases h

mutual

/-- An expression is written as if nothing was declared, or one of its calls is refused. -/
theorem guarded_render (style : Style) : ∀ e : Expr,
    Guarded functions e.calls (e.render ⟨functions, n⟩ style) (e.render ⟨[], n⟩ style)
  | .lit .. => .of_nil
  | .ident _ => .of_nil
  | .index (.ident _) key _ => by
    rw [calls_index, calls_ident, List.nil_append]
    exact (guarded_render .expression key).bind_pure
  | .index (.lit ..) _ _ | .index (.index ..) _ _ | .index (.binary ..) _ _ | .index (.unary ..) _ _
  | .index (.test ..) _ _ | .index (.call ..) _ _ | .index (.range ..) _ _ | .index (.array ..) _ _
  | .index (.dict ..) _ _ => .failed
  | .binary op left right _ => by
    rw [calls_binary, ← List.append_nil right.calls]
    exact (guarded_render style left).bind fun _ => (guarded_render style right).bind
      fun _ => .of_nil
  | .unary op operand _ => by
    rw [calls_unary]
    exact (guarded_render style operand).bind_pure
  | .test op subject pattern _ _ => by
    rw [calls_test]
    exact (guarded_render style subject).bind fun _ => (guarded_render style pattern).bind_pure
  | .call callee args span => by
    rw [calls_call, render, render]
    by_cases hf : callee.name ∈ functions
    · rw [if_pos hf]
      exact .refused List.mem_cons_self hf
    · rw [if_neg hf, if_neg List.not_mem_nil, ← List.singleton_append]
      exact (guarded_renderAll args).bind_pure.prepend (by simpa using hf)
  | .range first last span => by
    rw [calls_range]
    exact guarded_renderRange n first last span
  | .array elements _ => by
    rw [calls_array]
    exact (guarded_renderAll elements).bind_pure
  | .dict entries _ => by
    rw [calls_dict]
    exact (guarded_renderEntries entries).bind_pure

/-- Arguments and elements are written one by one. -/
theorem guarded_renderAll : ∀ es : List Expr,
    Guarded functions (es.flatMap calls) (renderAll ⟨functions, n⟩ es) (renderAll ⟨[], n⟩ es)
  | [] => .of_nil
  | e :: es => (guarded_render .expression e).bind fun _ => (guarded_renderAll es).bind_pure

theorem guarded_renderEntries : ∀ entries : List (Expr × Expr),
    Guarded functions (entries.flatMap fun entry => entry.1.calls ++ entry.2.calls)
      (renderEntries ⟨functions, n⟩ entries) (renderEntries ⟨[], n⟩ entries)
  | [] => .of_nil
  | (key, value) :: entries => by
    rw [List.flatMap_cons, List.append_assoc]
    refine (guarded_render .expression key).bind fun _ => ?_
    exact (guarded_render .expression value).bind fun _ => (guarded_renderEntries entries).bind_pure

end

end Expr

/-! ## The calls that are met -/

/-- The expressions that are written for an atom; of an inclusion, those of the options that
count. -/
def Atom.written : Atom → List Expr
  | .inclusion _ options _ =>
    OptionKey.all.flatMap fun key => (Markup.option? options key).toList.map InclusionOption.value
  | a => a.exprs

/-- The functions that are called in what is written for an atom. -/
def Atom.writtenCalls (a : Atom) : List String :=
  a.written.flatMap Expr.calls

namespace Stmt

mutual

/-- The functions that are called in what is written for a statement.  The body of a function is not
written, and what has no markup is refused as a whole. -/
def writtenCalls : Stmt → List String
  | .atom a => a.writtenCalls
  | .ifChain branches (some body) _ => writtenCallsBranches branches ++ writtenCallsAll body
  | .ifChain branches none _ => writtenCallsBranches branches
  | .attempt body (some handler) _ => writtenCallsAll body ++ writtenCallsAll handler
  | .attempt body none _ => writtenCallsAll body
  | .block body _ => writtenCallsAll body
  | .function .. | .forLoop .. | .breakLoop _ | .require .. => []

/-- The functions that are called in what is written for a sequence. -/
def writtenCallsAll : List Stmt → List String
  | [] => []
  | s :: rest => writtenCalls s ++ writtenCallsAll rest

/-- The functions that are called in the conditions of branches, and in what is written for their
bodies. -/
def writtenCallsBranches : List (Branch Stmt) → List String
  | [] => []
  | ⟨cond, body, _⟩ :: rest => cond.calls ++ (writtenCallsAll body ++ writtenCallsBranches rest)

end

end Stmt

/-! ## Atoms -/

namespace Markup

variable {functions : List String} (n : Nat)

/-- The key of an assignment is written before its value. -/
theorem guarded_ofAssign (target : Ident) (key : Option Expr) (value : Expr) :
    Guarded functions ((key.toList ++ [value]).flatMap Expr.calls)
      (ofAssign ⟨functions, n⟩ target key value) (ofAssign ⟨[], n⟩ target key value) := by
  rw [List.flatMap_append, List.flatMap_singleton]
  cases key with
  | none => exact Guarded.of_nil.bind fun _ => (Expr.guarded_render n _ value).bind_pure
  | some key =>
    rw [Option.toList_some, List.flatMap_singleton]
    exact (Expr.guarded_render n _ key).bind_pure.bind fun _ =>
      (Expr.guarded_render n _ value).bind_pure

theorem guarded_optionText (o : InclusionOption) :
    Guarded functions o.value.calls (optionText ⟨functions, n⟩ o) (optionText ⟨[], n⟩ o) := by
  rw [optionText, optionText, ← List.append_nil o.value.calls]
  refine Guarded.bind ?_ fun _ => .of_nil
  split
  · rename_i hliteral
    obtain ⟨value, hvalue, -⟩ := Option.bind_eq_some_iff.1 hliteral
    rw [Expr.calls_of_literal? hvalue]
    exact .of_nil
  · exact Expr.guarded_render n _ o.value

/-- Taking a header apart loses no call. -/
theorem flatMap_calls_headerValues (e : Expr) : (headerValues e).flatMap Expr.calls = e.calls := by
  cases e with
  | array elements span => rw [Expr.calls_array, headerValues]
  | _ => exact List.flatMap_singleton ..

/-- Only the options that are written count, not those that are given twice. -/
theorem guarded_optionAttributes (options : List InclusionOption) (key : OptionKey) :
    Guarded functions (((option? options key).toList.map InclusionOption.value).flatMap Expr.calls)
      (optionAttributes ⟨functions, n⟩ options key) (optionAttributes ⟨[], n⟩ options key) := by
  unfold optionAttributes
  cases option? options key with
  | none => exact .of_nil
  | some o =>
    rw [Option.toList_some, List.map_singleton, List.flatMap_singleton]
    dsimp only
    split
    · rw [← flatMap_calls_headerValues]
      exact .mapM fun value _ => (Expr.guarded_render n _ value).bind_pure
    · exact (guarded_optionText n o).bind_pure

theorem guarded_inclusionAttributes (kind : InclusionKind) (options : List InclusionOption)
    (span : Span) :
    Guarded functions (Atom.inclusion kind options span).writtenCalls
      (inclusionAttributes ⟨functions, n⟩ options) (inclusionAttributes ⟨[], n⟩ options) := by
  rw [Atom.writtenCalls, Atom.written, List.flatMap_assoc]
  exact (Guarded.mapM fun key _ => guarded_optionAttributes n options key).bind_pure

theorem calls_of_rawText {e : Expr} {text : String} (h : rawText e = .ok text) : e.calls = [] := by
  cases e <;> first | rfl | cases h

theorem guarded_ofOutput (kind : OutputKind) (args : List Expr) :
    Guarded functions (args.flatMap Expr.calls) (ofOutput ⟨functions, n⟩ kind args)
      (ofOutput ⟨[], n⟩ kind args) := by
  have htexts : Guarded functions (args.flatMap Expr.calls)
      (args.mapM (Expr.render ⟨functions, n⟩ .text)) (args.mapM (Expr.render ⟨[], n⟩ .text)) :=
    .mapM fun arg _ => Expr.guarded_render n _ arg
  cases kind with
  | print => exact htexts.bind_pure
  | printVars => exact htexts.bind_pure
  | printRaw =>
    refine (Guarded.mapM fun arg _ => ?_).bind_pure
    exact .of_ok fun text h => calls_of_rawText h

end Markup

/-! ## Passes -/

namespace Pass

variable {σ α β : Type} {functions calls calls' : List String}

/-- The result of a pass and the state it ends in, or the error. -/
def ending (x : Pass σ α) (s : σ) : Except Error (α × σ) :=
  (outcome x s).1.map fun a => (a, (outcome x s).2)

theorem ending_bind (x : Pass σ α) (f : α → Pass σ β) (s : σ) :
    ending (x >>= f) s = ending x s >>= fun r => ending (f r.1) r.2 := by
  rw [ending, ending, outcome_bind]
  rcases outcome x s with ⟨_ | a, t⟩ <;> rfl

theorem ending_lift (x : Except Error α) (s : σ) :
    ending (liftM x : Pass σ α) s = x >>= fun a => pure (a, s) := by
  cases x <;> rfl

/-- What a pass gives can be told from how it ends. -/
theorem gives_iff_ending {x : Pass σ α} {s t : σ} {a : α} :
    Gives x s a t ↔ ending x s = .ok (a, t) := by
  rw [Gives, ending]
  rcases outcome x s with ⟨_ | b, u⟩ <;> simp [Except.map]

/-- From every state, the first pass refuses the calls of `functions` and the second does not. -/
def Guards (functions calls : List String) (x y : Pass σ α) : Prop :=
  ∀ s, Guarded functions calls (ending x s) (ending y s)

namespace Guards

variable {x y : Pass σ α}

theorem of_nil {x : Pass σ α} : Guards functions [] x x := fun _ => .of_nil

theorem lift {r r' : Except Error α} (h : Guarded functions calls r r') :
    Guards functions calls (liftM r : Pass σ α) (liftM r') := by
  intro s
  rw [ending_lift, ending_lift]
  exact h.bind_pure

/-- The same for steps of a pass. -/
theorem bind {f g : α → Pass σ β} (h : Guards functions calls x y)
    (hrest : ∀ a, Guards functions calls' (f a) (g a)) :
    Guards functions (calls ++ calls') (x >>= f) (y >>= g) := by
  intro s
  rw [ending_bind, ending_bind]
  exact (h s).bind fun r => hrest r.1 r.2

theorem bind_pure {g : α → β} (h : Guards functions calls x y) :
    Guards functions calls (x >>= fun a => pure (g a)) (y >>= fun a => pure (g a)) := by
  have hbind := h.bind (f := fun a => pure (g a)) fun a => of_nil
  rwa [List.append_nil] at hbind

end Guards

end Pass

/-! ## Statements -/

namespace Markup

section Statements

variable {functions : List String} (n : Nat)

/-- An atom is written as if nothing were declared, or refused for one of its calls. -/
theorem guards_ofAtom : ∀ a : Atom,
    Guards functions a.writtenCalls (ofAtom ⟨functions, n⟩ a) (ofAtom ⟨[], n⟩ a)
  | .declare _ none _ => .of_nil
  | .declare name (some value) _ => (Guards.lift (guarded_ofAssign n name none value)).bind_pure
  | .assign target key value _ => (Guards.lift (guarded_ofAssign n target key value)).bind_pure
  | .expr e =>
    (Guards.lift (Expr.guarded_render n _ e)).bind fun _ => .of_nil
  | .ret .. => fun _ => .failed
  | .inclusion kind options span =>
    (Guards.lift (guarded_inclusionAttributes n kind options span)).bind_pure
  | .output kind args _ => .lift (guarded_ofOutput n kind args)
  | .comment .. => .of_nil

mutual

/-- So is a statement, by induction on it. -/
theorem guards_ofStmt : ∀ s : Stmt,
    Guards functions s.writtenCalls (ofStmt ⟨functions, n⟩ s) (ofStmt ⟨[], n⟩ s)
  | .atom a => guards_ofAtom n a
  | .function .. => .of_nil
  | .ifChain branches (some body) _ =>
    (guards_ofBranches branches).bind fun _ => (guards_ofStmts body).bind_pure
  | .ifChain branches none _ => (guards_ofBranches branches).bind_pure
  | .attempt body (some handler) _ =>
    (guards_ofStmts body).bind fun _ => (guards_ofStmts handler).bind_pure
  | .attempt body none _ => (guards_ofStmts body).bind_pure
  | .block body _ => guards_ofStmts body
  | .forLoop .. => .of_nil
  | .breakLoop _ => .of_nil
  | .require .. => .of_nil

theorem guards_ofStmts : ∀ stmts : List Stmt,
    Guards functions (Stmt.writtenCallsAll stmts) (ofStmts ⟨functions, n⟩ stmts)
      (ofStmts ⟨[], n⟩ stmts)
  | [] => .of_nil
  | s :: rest => (guards_ofStmt s).bind fun _ => (guards_ofStmts rest).bind_pure

theorem guards_ofBranches : ∀ branches : List (Branch Stmt),
    Guards functions (Stmt.writtenCallsBranches branches) (ofBranches ⟨functions, n⟩ branches)
      (ofBranches ⟨[], n⟩ branches)
  | [] => .of_nil
  | ⟨cond, body, _⟩ :: rest =>
    (Guards.lift (Expr.guarded_render n _ cond)).bind fun _ =>
      (guards_ofStmts body).bind fun _ => (guards_ofBranches rest).bind_pure

end

end Statements

/-! ## Scripts -/

/-- The markup of a script if `functions` are the functions that it declares. -/
def ofProgramWith (functions : List String) (options : Options) (stmts : List Stmt) :
    Generation (List Markup) := do
  Stmt.checkCaptures stmts
  let content ← ofStmts ⟨functions, options.maxLoopIterations⟩ stmts
  return if options.warningBanner then banner ++ content else content

/-- The functions that are refused are those that the script declares. -/
theorem ofProgram_eq (options : Options) (stmts : List Stmt) :
    ofProgram options stmts = ofProgramWith (Stmt.declaredFunctionsAll stmts) options stmts := rfl

/-- **Declared functions matter for the calls that are met**, and for nothing else. -/
theorem guards_ofProgramWith (functions : List String) (options : Options) (stmts : List Stmt) :
    Guards functions (Stmt.writtenCallsAll stmts) (ofProgramWith functions options stmts)
      (ofProgramWith [] options stmts) :=
  Guards.of_nil.bind fun _ => (guards_ofStmts options.maxLoopIterations stmts).bind_pure

end Markup

end EdgeScript
