import EdgeScript.Proofs.Calls.Guard
import EdgeScript.Proofs.Positions.Located
import EdgeScript.Proofs.Positions.Text

/-!
# Places from pass to pass

A pass makes new scripts out of the places of the one it is given: an element of a collection takes
the place of the collection, an argument that is left out the place of the call, and a copy of a
loop's body keeps the places of the body.  What a pass refuses, it refuses at a place of the script.
So a script that has been lowered leads to no place that the script did not lead to, and neither
does an error of lowering (`Lowering.locates_runPasses`).

`Locates` is the form in which passes are followed; `I` is what is known of the state on the way.
An inliner has the places of its functions there.
-/

set_option autoImplicit false

namespace EdgeScript

open Pass

variable {P : Span → Prop}

/-! ## Passes -/

namespace Pass

variable {σ α β : Type}

/-- From a state as `I` says, a pass ends in such a state with a result as `Q` says, or with an
error at a place as `P` says. -/
structure Locates (P : Span → Prop) (I : σ → Prop) (x : Pass σ α) (Q : α → Prop) : Prop where
  run : ∀ s, I s → LocatedResult P (ending x s) fun r => I r.2 ∧ Q r.1

variable {I : σ → Prop} {x : Pass σ α} {f : α → Pass σ β} {Q : α → Prop} {Q' : β → Prop}

theorem locates_pure {a : α} (h : Q a) : Locates P I (pure a) Q := ⟨fun _ hs => ⟨hs, h⟩⟩

theorem locates_throw {e : Error} (h : e.Located P) : Locates P I (throw e) Q := ⟨fun _ _ => h⟩

/-- A result that has good places already is passed on with them. -/
theorem locates_lift {r : Except Error α} (h : LocatedResult P r Q) : Locates P I (liftM r) Q := by
  refine ⟨fun s hs => ?_⟩
  rw [ending_lift]
  exact h.bind fun _ ha => ⟨hs, ha⟩

theorem locates_get : Locates P I (get : Pass σ σ) I := ⟨fun _ hs => ⟨hs, hs⟩⟩

theorem locates_set {s : σ} (h : I s) : Locates P I (set s) fun _ => True :=
  ⟨fun _ _ => ⟨h, trivial⟩⟩

theorem locates_modify {g : σ → σ} (h : ∀ s, I s → I (g s)) :
    Locates P I (modify g) fun _ => True :=
  ⟨fun s hs => ⟨h s hs, trivial⟩⟩

/-- One step after another: the second may rely on what the first gives. -/
theorem Locates.bind (hx : Locates P I x Q) (hf : ∀ a, Q a → Locates P I (f a) Q') :
    Locates P I (x >>= f) Q' := by
  refine ⟨fun s hs => ?_⟩
  rw [ending_bind]
  exact (hx.run s hs).bind fun r hr => (hf r.1 hr.2).run r.2 hr.1

/-- The same where what the first gives does not matter. -/
theorem Locates.seq (hx : Locates P I x Q) (hf : ∀ a, Locates P I (f a) Q') :
    Locates P I (x >>= f) Q' :=
  hx.bind fun a _ => hf a

/-- From a good state, what is given and what is failed with have good places. -/
theorem Locates.result (h : Locates P I x Q) {s : σ} (hs : I s) :
    LocatedResult P (outcome x s).1 Q := by
  have hrun := h.run s hs
  rw [ending] at hrun
  generalize outcome x s = out at hrun ⊢
  rcases out with ⟨_ | a, t⟩
  · exact hrun
  · exact hrun.2

/-- Good places are kept along a list. -/
theorem locates_mapM {Q : β → Prop} {l : List α} (h : ∀ a ∈ l, Locates P I (f a) Q) :
    Locates P I (l.mapM f) fun out => ∀ b ∈ out, Q b := by
  induction l with
  | nil => exact locates_pure fun _ hb => nomatch hb
  | cons a l ih =>
    rw [List.forall_mem_cons] at h
    rw [List.mapM_cons]
    refine h.1.bind fun b hb => (ih h.2).bind fun out hout => locates_pure ?_
    exact List.forall_mem_cons.2 ⟨hb, hout⟩

theorem locates_optionMapM {Q : β → Prop} {o : Option α} (h : ∀ a ∈ o, Locates P I (f a) Q) :
    Locates P I (o.mapM f) fun out => ∀ b ∈ out, Q b := by
  cases o with
  | none => exact locates_pure fun _ hb => nomatch hb
  | some a => exact (h a rfl).bind fun b hb => locates_pure fun _ hmem => Option.some.inj hmem ▸ hb

end Pass

/-! ## Unrolling -/

namespace Stmt

mutual

/-- What is kept of a round has the places of the body, and so has the complaint about a `break`
that cannot be cut. -/
theorem locatedResult_cut :
    ∀ {s : Stmt}, s.Located P → LocatedResult P (cut s) fun r => LocatedAll P r.1
  | .breakLoop _, _ => locatedAll_nil
  | .block body span, h => by
    obtain ⟨hspan, hbody⟩ := located_block.1 h
    have hcut := locatedResult_cutAtBreak hbody
    rw [cut]
    cases hr : cutAtBreak body <;> rw [hr] at hcut
    · exact hcut
    · exact locatedAll_singleton.2 (located_block.2 ⟨hspan, hcut⟩)
  | .ifChain .., h => by
    rw [cut]
    split
    · exact .of_span rfl (located_ifChain.1 h).1
    · exact locatedAll_singleton.2 h
  | .attempt .., h => by
    rw [cut]
    split
    · exact .of_span rfl (located_attempt.1 h).1
    · exact locatedAll_singleton.2 h
  | .atom _, h => locatedAll_singleton.2 h
  | .function .., h => locatedAll_singleton.2 h
  | .forLoop .., h => locatedAll_singleton.2 h
  | .require .., h => locatedAll_singleton.2 h

theorem locatedResult_cutAtBreak :
    ∀ {stmts : List Stmt}, LocatedAll P stmts →
      LocatedResult P (cutAtBreak stmts) fun r => LocatedAll P r.1
  | [], _ => locatedAll_nil
  | s :: rest, h => by
    rw [locatedAll_cons] at h
    have hfirst := locatedResult_cut h.1
    have hrest := locatedResult_cutAtBreak h.2
    rw [cutAtBreak]
    rcases hcut : cut s with e | ⟨kept, broke⟩ <;> rw [hcut] at hfirst
    · exact hfirst
    · cases broke with
      | true => exact hfirst
      | false =>
        cases hmore : cutAtBreak rest <;> rw [hmore] at hrest
        · exact hrest
        · exact locatedAll_append.2 ⟨hfirst, hrest⟩

end

end Stmt

namespace Unroller

open Stmt

/-- Nothing is known of an unroller. -/
abbrev Any : Unroller → Prop := fun _ => True

/-- The bodies of loops are unrolled in place. -/
def Inner.Locates (P : Span → Prop) (inner : Inner) : Prop :=
  ∀ known {stmts}, LocatedAll P stmts → Pass.Locates P Any (inner known stmts) (LocatedAll P)

variable {inner : Inner}

/-- The limit on rounds complains at the loop. -/
theorem locates_countIteration (var : String) {span : Span} (h : P span) :
    Locates P Any (countIteration var span) fun _ => True := by
  refine locates_get.seq fun s => ?_
  split
  · have hrefused : Locates P Any
        (throw (.limitExceeded (.iterations var s.maxIterations) span) : Pass Unroller PUnit)
        fun _ => True := locates_throw (.of_span rfl h)
    exact hrefused.seq fun _ => locates_set trivial
  · exact locates_set trivial

/-- A round is a copy of the body with the element in the place of the variable. -/
theorem locates_round (hinner : inner.Locates P) (known : Known) (var : String) {element : Expr}
    {body : List Stmt} (helement : element.Located P) (hbody : LocatedAll P body) :
    Locates P Any (round inner known var element body) fun r => LocatedAll P r.1 :=
  (hinner known (hbody.subst helement).fold).bind fun _ hcopy =>
    locates_lift (locatedResult_cutAtBreak hcopy)

/-- The elements of a collection stand at its place. -/
theorem locates_copies (hinner : inner.Locates P) (known : Known) {task : Task}
    (hplace : P task.place) (hspan : P task.span) (hbody : LocatedAll P task.body)
    (rounds i : Nat) :
    Locates P Any (copies inner known task rounds i) fun r => LocatedAll P r.1 := by
  induction rounds using Nat.strongRecOn generalizing i with
  | _ rounds ih =>
    unfold copies
    split
    · exact locates_pure locatedAll_nil
    · refine (locates_countIteration _ hspan).seq fun _ => ?_
      refine (locates_round hinner known _ (Expr.located_lit.2 hplace) hbody).bind fun r hr => ?_
      dsimp only
      split
      · exact (locates_modify fun _ _ => trivial).seq fun _ => locates_pure hr
      · cases rounds with
        | zero => exact locates_pure hr
        | succ rounds =>
          refine (ih rounds (Nat.lt_succ_self _) (i + 1)).bind fun r' hr' => locates_pure ?_
          exact locatedAll_append.2 ⟨hr, hr'⟩

/-- A loop is replaced by its rounds, or complained about where it stands. -/
theorem locates_unrollLoop (hinner : inner.Locates P) (known : Known) (var : Option Ident)
    {collection : Expr} {body : List Stmt} {span : Span} (hcollection : collection.Located P)
    (hbody : LocatedAll P body) (hspan : P span) :
    Locates P Any (unrollLoop inner known var collection body span) (LocatedAll P) := by
  have hplace := hcollection.fold.span
  unfold unrollLoop
  dsimp only
  split
  · exact locates_throw (.of_span rfl hplace)
  · refine locates_get.seq fun s => ?_
    refine (locates_copies hinner known hplace hspan hbody _ _).bind fun r hr => ?_
    refine (locates_modify fun _ _ => trivial).seq fun _ => ?_
    exact (locates_modify fun _ _ => trivial).seq fun _ => locates_pure hr

mutual

/-- So the places of a statement are kept, at any depth, if those of inner loops are. -/
theorem locates_unrollStmt (hinner : inner.Locates P) (known : Known) :
    ∀ {s : Stmt}, s.Located P → Locates P Any (unrollStmt inner known s) fun r => LocatedAll P r.1
  | .forLoop var .., h => by
    obtain ⟨hspan, -, hcollection, hbody⟩ := located_forLoop.1 h
    rw [unrollStmt]
    exact (locates_unrollLoop hinner known var hcollection hbody hspan).bind fun _ hout =>
      locates_pure hout
  | .atom _, h => locates_pure (locatedAll_singleton.2 h)
  | .block .., h => by
    obtain ⟨hspan, hbody⟩ := located_block.1 h
    rw [unrollStmt]
    refine (locates_unrollStmts hinner known hbody).bind fun r hr => locates_pure ?_
    exact locatedAll_singleton.2 (located_block.2 ⟨hspan, hr⟩)
  | .ifChain _ (some _) _, h => by
    obtain ⟨hspan, hbranches, hbody⟩ := located_ifChain.1 h
    rw [unrollStmt]
    refine (locates_unrollBranches hinner known hbranches).bind fun out hout => ?_
    refine (locates_unrollStmts hinner known hbody).bind fun r hr => locates_pure ?_
    exact locatedAll_singleton.2 (located_ifChain.2 ⟨hspan, hout, hr⟩)
  | .ifChain _ none _, h => by
    obtain ⟨hspan, hbranches, -⟩ := located_ifChain.1 h
    rw [unrollStmt]
    refine (locates_unrollBranches hinner known hbranches).bind fun out hout => locates_pure ?_
    exact locatedAll_singleton.2 (located_ifChain.2 ⟨hspan, hout, locatedAll_nil⟩)
  | .attempt _ (some _) _, h => by
    obtain ⟨hspan, hbody, hhandler⟩ := located_attempt.1 h
    rw [unrollStmt]
    refine (locates_unrollStmts hinner known hbody).bind fun r hr => ?_
    refine (locates_unrollStmts hinner known hhandler).bind fun r' hr' => locates_pure ?_
    exact locatedAll_singleton.2 (located_attempt.2 ⟨hspan, hr, hr'⟩)
  | .attempt _ none _, h => by
    obtain ⟨hspan, hbody, -⟩ := located_attempt.1 h
    rw [unrollStmt]
    refine (locates_unrollStmts hinner known hbody).bind fun r hr => locates_pure ?_
    exact locatedAll_singleton.2 (located_attempt.2 ⟨hspan, hr, locatedAll_nil⟩)
  | .function .., h => locates_pure (locatedAll_singleton.2 h)
  | .breakLoop _, h => locates_pure (locatedAll_singleton.2 h)
  | .require .., h => locates_pure (locatedAll_singleton.2 h)

theorem locates_unrollStmts (hinner : inner.Locates P) (known : Known) :
    ∀ {stmts : List Stmt}, LocatedAll P stmts →
      Locates P Any (unrollStmts inner known stmts) fun r => LocatedAll P r.1
  | [], _ => locates_pure locatedAll_nil
  | s :: rest, h => by
    rw [locatedAll_cons] at h
    rw [unrollStmts]
    refine (locates_unrollStmt hinner known h.1).bind fun r hr => ?_
    exact (locates_unrollStmts hinner r.2 h.2).bind fun r' hr' =>
      locates_pure (locatedAll_append.2 ⟨hr, hr'⟩)

theorem locates_unrollBranches (hinner : inner.Locates P) (known : Known) :
    ∀ {branches : List (Branch Stmt)}, LocatedBranches P branches →
      Locates P Any (unrollBranches inner known branches) (LocatedBranches P)
  | [], _ => locates_pure locatedBranches_nil
  | ⟨_, _, _⟩ :: _, h => by
    obtain ⟨hspan, hcond, hbody, hrest⟩ := locatedBranches_cons.1 h
    rw [unrollBranches]
    refine (locates_unrollStmts hinner known hbody).bind fun r hr => ?_
    refine (locates_unrollBranches hinner known hrest).bind fun out hout => locates_pure ?_
    exact locatedBranches_cons.2 ⟨hspan, hcond, hr, hout⟩

end

/-- They are, by induction on the depth of loops. -/
theorem locates_unrollAt (depth : Nat) : (unrollAt depth).Locates P := by
  induction depth with
  | zero => exact fun _ _ h => locates_pure h
  | succ depth ih =>
    intro known stmts h
    rw [unrollAt]
    exact (locates_unrollStmts ih known h).bind fun r hr => locates_pure hr

theorem locates_run {stmts : List Stmt} (h : LocatedAll P stmts) :
    Locates P Any (run stmts) (LocatedAll P) :=
  locates_unrollAt _ [] h

end Unroller

/-! ## Inline functions -/

theorem mem_of_lookup_eq_some {α β : Type} [BEq α] [LawfulBEq α] {l : List (α × β)} {key : α}
    {value : β} (h : l.lookup key = some value) : (key, value) ∈ l := by
  obtain ⟨before, after, rfl, -⟩ := List.lookup_eq_some_iff.1 h
  exact List.mem_append_right _ List.mem_cons_self

/-- `P` holds of the places in an inline function that its calls lead to. -/
def InlineFunction.Located (P : Span → Prop) (f : InlineFunction) : Prop :=
  P f.span ∧ f.body.Located P

namespace Stmt

mutual

/-- The bodies of inline functions are those that stand in the script. -/
theorem Located.declarations : ∀ {s : Stmt}, s.Located P →
    ∀ d ∈ inlineDeclarations s, P d.span ∧ LocatedAll P d.body
  | .function _ _ true _ _, h, d, hd => by
    obtain ⟨hspan, -, -, hbody⟩ := located_function.1 h
    rw [inlineDeclarations, List.mem_singleton] at hd
    exact hd ▸ ⟨hspan, hbody⟩
  | .function _ _ false _ _, h, d, hd => by
    rw [inlineDeclarations] at hd
    exact (located_function.1 h).2.2.2.declarations d hd
  | .ifChain _ (some _) _, h, d, hd => by
    obtain ⟨-, hbranches, hbody⟩ := located_ifChain.1 h
    rw [inlineDeclarations, List.mem_append] at hd
    exact hd.elim (hbranches.declarations d) (LocatedAll.declarations hbody d)
  | .ifChain _ none _, h, d, hd => by
    rw [inlineDeclarations] at hd
    exact (located_ifChain.1 h).2.1.declarations d hd
  | .forLoop .., h, d, hd => by
    rw [inlineDeclarations] at hd
    exact (located_forLoop.1 h).2.2.2.declarations d hd
  | .attempt _ (some _) _, h, d, hd => by
    obtain ⟨-, hbody, hhandler⟩ := located_attempt.1 h
    rw [inlineDeclarations, List.mem_append] at hd
    exact hd.elim (hbody.declarations d) (LocatedAll.declarations hhandler d)
  | .attempt _ none _, h, d, hd => by
    rw [inlineDeclarations] at hd
    exact (located_attempt.1 h).2.1.declarations d hd
  | .block .., h, d, hd => by
    rw [inlineDeclarations] at hd
    exact (located_block.1 h).2.declarations d hd
  | .atom _, _, d, hd | .breakLoop _, _, d, hd | .require .., _, d, hd => by
    rw [inlineDeclarations] at hd
    cases hd

theorem LocatedAll.declarations : ∀ {stmts : List Stmt}, LocatedAll P stmts →
    ∀ d ∈ inlineDeclarationsAll stmts, P d.span ∧ LocatedAll P d.body
  | [], _, d, hd => by
    rw [inlineDeclarationsAll] at hd
    cases hd
  | _ :: _, h, d, hd => by
    rw [locatedAll_cons] at h
    rw [inlineDeclarationsAll, List.mem_append] at hd
    exact hd.elim (h.1.declarations d) (h.2.declarations d)

theorem LocatedBranches.declarations :
    ∀ {branches : List (Branch Stmt)}, LocatedBranches P branches →
      ∀ d ∈ inlineDeclarationsBranches branches, P d.span ∧ LocatedAll P d.body
  | [], _, d, hd => by
    rw [inlineDeclarationsBranches] at hd
    cases hd
  | ⟨_, _, _⟩ :: _, h, d, hd => by
    obtain ⟨-, -, hbody, hrest⟩ := locatedBranches_cons.1 h
    rw [inlineDeclarationsBranches, List.mem_append] at hd
    exact hd.elim (hbody.declarations d) (hrest.declarations d)

end

end Stmt

/-- A variable is read at a place of the expression. -/
theorem Expr.Located.findIdent {e : Expr} (h : e.Located P) {name : String} {span : Span}
    (hfind : e.findIdent? name = some span) : P span := by
  obtain ⟨node, hnode, hspan⟩ := List.exists_of_findSome?_eq_some hfind
  cases node with
  | ident id =>
    rw [Option.ite_none_right_eq_some] at hspan
    exact Option.some.inj hspan.2 ▸ h.ident_of_mem hnode
  | _ => cases hspan

/-- A declaration is reduced to an expression that stands in it, or complained about there. -/
theorem InlineDeclaration.locatedResult_reduce {d : InlineDeclaration} (hspan : P d.span)
    (hbody : Stmt.LocatedAll P d.body) : LocatedResult P d.reduce (InlineFunction.Located P) := by
  unfold reduce
  split
  · rename_i e _ hd
    rw [hd, Stmt.locatedAll_singleton, Stmt.located_atom, Atom.located_iff] at hbody
    have he : e.Located P := hbody.2 e List.mem_cons_self
    split
    · rename_i hfind
      exact .of_span rfl (he.findIdent hfind)
    · exact ⟨hspan, he⟩
  · exact .of_span rfl hspan

namespace FunctionTable

variable {table : FunctionTable}

/-- `P` holds of the places in the functions of a table. -/
def Located (P : Span → Prop) (table : FunctionTable) : Prop := ∀ entry ∈ table, entry.2.Located P

theorem Located.insert (h : table.Located P) {name : String} {f : InlineFunction}
    (hf : f.Located P) : Located P (table.insert name f) := by
  fun_induction FunctionTable.insert name f table with
  | case1 => exact List.forall_mem_singleton.2 hf
  | case2 g rest => exact List.forall_mem_cons.2 ⟨hf, (List.forall_mem_cons.1 h).2⟩
  | case3 other g rest => exact List.forall_mem_cons.2 ⟨hf, h⟩
  | case4 other g rest _ _ ih =>
    obtain ⟨hg, hrest⟩ := List.forall_mem_cons.1 h
    exact List.forall_mem_cons.2 ⟨hg, ih hrest⟩

theorem Located.get? (h : table.Located P) {name : String} {f : InlineFunction}
    (hget : table.get? name = some f) : f.Located P :=
  h (name, f) (mem_of_lookup_eq_some hget)

/-- The names on the way are names of functions, so a function that is met again has a place. -/
theorem Located.locatedResult_visit (h : table.Located P) {path : List String}
    (hpath : ∀ name ∈ path, table.contains name = true) (depth : Nat) (done : List String)
    (name : String) : LocatedResult P (table.visit depth path done name) fun _ => True := by
  induction depth generalizing path done name with
  | zero => trivial
  | succ depth ih =>
    rw [visit]
    split
    · trivial
    · split
      · rename_i hmem
        obtain ⟨f, hf⟩ := Option.isSome_iff_exists.1 (hpath name hmem)
        refine .of_span ?_ (h.get? hf).1
        rw [cycleError, hf]
        rfl
      · split
        · trivial
        · rename_i f hf
          have hname : table.contains name = true := Option.isSome_iff_exists.2 ⟨f, hf⟩
          have hcallees := LocatedResult.foldlM (ih (List.forall_mem_append.2
            ⟨hpath, List.forall_mem_singleton.2 hname⟩)) (table.callees f) done
          split
          · trivial
          · rename_i he
            rwa [he] at hcallees

/-- A cycle is reported at the declaration of a function of the table. -/
theorem Located.locatedResult_checkCycles (h : table.Located P) :
    LocatedResult P table.checkCycles fun _ => True := by
  have hstart : ∀ name ∈ ([] : List String), table.contains name = true :=
    fun _ hmem => nomatch hmem
  have hnames :=
    LocatedResult.foldlM (h.locatedResult_visit hstart (table.length + 1)) table.names []
  rw [checkCycles]
  split
  · trivial
  · rename_i he
    rwa [he] at hnames

end FunctionTable

/-! ## Expanding calls -/

section Effects

variable {σ : Type} {I : σ → Prop} {f : Expr → Pass σ Expr}

theorem Atom.locates_mapExprsM (hf : ∀ {e : Expr}, e.Located P → Locates P I (f e) (Expr.Located P))
    {a : Atom} (h : a.Located P) : Locates P I (a.mapExprsM f) (Atom.Located P) := by
  obtain ⟨hown, hexprs⟩ := located_iff.1 h
  cases a with
  | declare name value span =>
    refine (locates_optionMapM fun e he => hf (hexprs e (Option.mem_toList.2 he))).bind
      fun out hout => ?_
    exact locates_pure (located_iff.2 ⟨hown, fun e he => hout e (Option.mem_toList.1 he)⟩)
  | assign target key value span =>
    obtain ⟨hkey, hvalue⟩ := List.forall_mem_append.1 hexprs
    refine (locates_optionMapM fun e he => hf (hkey e (Option.mem_toList.2 he))).bind
      fun key' hkey' => ?_
    refine (hf (hvalue value List.mem_cons_self)).bind fun value' hvalue' => locates_pure ?_
    refine located_iff.2 ⟨hown, List.forall_mem_append.2 ⟨?_, List.forall_mem_singleton.2 hvalue'⟩⟩
    exact fun e he => hkey' e (Option.mem_toList.1 he)
  | expr e =>
    refine (hf (hexprs e List.mem_cons_self)).bind fun e' he' => locates_pure ?_
    exact located_iff.2 ⟨hown, List.forall_mem_singleton.2 he'⟩
  | ret value span =>
    refine (locates_optionMapM fun e he => hf (hexprs e (Option.mem_toList.2 he))).bind
      fun out hout => ?_
    exact locates_pure (located_iff.2 ⟨hown, fun e he => hout e (Option.mem_toList.1 he)⟩)
  | inclusion kind options span =>
    obtain ⟨hspan, hspans⟩ := List.forall_mem_cons.1 hown
    rw [List.forall_mem_map] at hspans
    have hvalues : ∀ o ∈ options, o.value.Located P := List.forall_mem_map.1 hexprs
    refine (locates_mapM (Q := fun o => P o.span ∧ o.value.Located P) fun o ho => ?_).bind
      fun out hout => ?_
    · exact (hf (hvalues o ho)).bind fun value hvalue => locates_pure ⟨hspans o ho, hvalue⟩
    · refine locates_pure (located_iff.2 ⟨List.forall_mem_cons.2 ⟨hspan, ?_⟩, ?_⟩)
      · exact List.forall_mem_map.2 fun o ho => (hout o ho).1
      · exact List.forall_mem_map.2 fun o ho => (hout o ho).2
  | output kind args span =>
    refine (locates_mapM fun e he => hf (hexprs e he)).bind fun out hout => locates_pure ?_
    exact located_iff.2 ⟨hown, hout⟩
  | comment text span => exact locates_pure h

namespace Expr

mutual

/-- Rebuilding an expression from the leaves up keeps to good places if the rebuilding of each node
does. -/
theorem locates_bottomUpM (hf : ∀ {e : Expr}, e.Located P → Locates P I (f e) (Located P)) :
    ∀ {e : Expr}, e.Located P → Locates P I (bottomUpM f e) (Located P)
  | .lit .., h => by
    rw [bottomUpM]
    exact hf h
  | .ident _, h => by
    rw [bottomUpM]
    exact hf h
  | .binary .., h => by
    obtain ⟨hspan, hleft, hright⟩ := located_binary.1 h
    rw [bottomUpM]
    refine (locates_bottomUpM hf hleft).bind fun _ hleft => (locates_bottomUpM hf hright).bind
      fun _ hright => ?_
    exact hf (located_binary.2 ⟨hspan, hleft, hright⟩)
  | .unary .., h => by
    obtain ⟨hspan, hoperand⟩ := located_unary.1 h
    rw [bottomUpM]
    exact (locates_bottomUpM hf hoperand).bind fun _ hoperand =>
      hf (located_unary.2 ⟨hspan, hoperand⟩)
  | .test .., h => by
    obtain ⟨hspan, hcapture, hsubject, hpattern⟩ := located_test.1 h
    rw [bottomUpM]
    refine (locates_bottomUpM hf hsubject).bind fun _ hsubject => ?_
    refine (locates_bottomUpM hf hpattern).bind fun _ hpattern => ?_
    exact hf (located_test.2 ⟨hspan, hcapture, hsubject, hpattern⟩)
  | .call _ args _, h => by
    obtain ⟨hspan, hcallee, hargs⟩ := located_call.1 h
    rw [bottomUpM]
    exact (locates_bottomUpAllM hf args hargs).bind fun _ hargs =>
      hf (located_call.2 ⟨hspan, hcallee, hargs⟩)
  | .index .., h => by
    obtain ⟨hspan, htarget, hkey⟩ := located_index.1 h
    rw [bottomUpM]
    refine (locates_bottomUpM hf htarget).bind fun _ htarget => (locates_bottomUpM hf hkey).bind
      fun _ hkey => ?_
    exact hf (located_index.2 ⟨hspan, htarget, hkey⟩)
  | .range .., h => by
    obtain ⟨hspan, hfirst, hlast⟩ := located_range.1 h
    rw [bottomUpM]
    refine (locates_bottomUpM hf hfirst).bind fun _ hfirst => (locates_bottomUpM hf hlast).bind
      fun _ hlast => ?_
    exact hf (located_range.2 ⟨hspan, hfirst, hlast⟩)
  | .array elements _, h => by
    obtain ⟨hspan, helements⟩ := located_array.1 h
    rw [bottomUpM]
    exact (locates_bottomUpAllM hf elements helements).bind fun _ helements =>
      hf (located_array.2 ⟨hspan, helements⟩)
  | .dict entries _, h => by
    obtain ⟨hspan, hentries⟩ := located_dict.1 h
    rw [bottomUpM]
    exact (locates_bottomUpEntriesM hf entries hentries).bind fun _ hentries =>
      hf (located_dict.2 ⟨hspan, hentries⟩)

theorem locates_bottomUpAllM (hf : ∀ {e : Expr}, e.Located P → Locates P I (f e) (Located P)) :
    ∀ (es : List Expr), (∀ e ∈ es, e.Located P) →
      Locates P I (bottomUpAllM f es) fun out => ∀ e ∈ out, e.Located P
  | [], h => by
    rw [bottomUpAllM]
    exact locates_pure h
  | _ :: es, h => by
    rw [List.forall_mem_cons] at h
    rw [bottomUpAllM]
    refine (locates_bottomUpM hf h.1).bind fun _ he => (locates_bottomUpAllM hf es h.2).bind
      fun _ hes => ?_
    exact locates_pure (List.forall_mem_cons.2 ⟨he, hes⟩)

theorem locates_bottomUpEntriesM (hf : ∀ {e : Expr}, e.Located P → Locates P I (f e) (Located P)) :
    ∀ (entries : List (Expr × Expr)), (∀ entry ∈ entries, entry.1.Located P ∧ entry.2.Located P) →
      Locates P I (bottomUpEntriesM f entries) fun out =>
        ∀ entry ∈ out, entry.1.Located P ∧ entry.2.Located P
  | [], h => by
    rw [bottomUpEntriesM]
    exact locates_pure h
  | (_, _) :: entries, h => by
    rw [List.forall_mem_cons] at h
    rw [bottomUpEntriesM]
    refine (locates_bottomUpM hf h.1.1).bind fun _ hkey => (locates_bottomUpM hf h.1.2).bind
      fun _ hvalue => ?_
    refine (locates_bottomUpEntriesM hf entries h.2).bind fun _ hrest => ?_
    exact locates_pure (List.forall_mem_cons.2 ⟨⟨hkey, hvalue⟩, hrest⟩)

end

end Expr

end Effects

namespace Inliner

open Stmt

/-- The functions of an inliner have their places. -/
def Knows (P : Span → Prop) (s : Inliner) : Prop := s.functions.Located P

theorem locates_note (n : Note) : Locates P (Knows P) (note n) fun _ => True :=
  locates_modify fun _ hs => hs

/-- What a parameter is bound to has its place: a default takes that of the call. -/
theorem locatedResult_bind (callee : String) {span : Span} (hspan : P span) (params : List Param)
    {args : List Expr} {bound : List (String × Expr)} (hargs : ∀ e ∈ args, e.Located P)
    (hbound : ∀ entry ∈ bound, entry.2.Located P) :
    LocatedResult P (bind callee span params args bound) fun out => ∀ entry ∈ out,
      entry.2.Located P := by
  fun_induction bind callee span params args bound with
  | case1 => exact hbound
  | case2 p params arg args bound ih =>
    obtain ⟨harg, hargs⟩ := List.forall_mem_cons.1 hargs
    exact ih hargs (List.forall_mem_cons.2 ⟨harg, hbound⟩)
  | case3 p params bound value _ _ ih =>
    exact ih hargs (List.forall_mem_cons.2 ⟨Expr.located_lit.2 hspan, hbound⟩)
  | case4 => exact .of_span rfl hspan

/-- The body of a function takes the places of its arguments, and a wrong number of them is reported
at the call. -/
theorem locatedResult_instantiate {f : InlineFunction} (callee : String) {args : List Expr}
    {span : Span} (hf : f.Located P) (hargs : ∀ e ∈ args, e.Located P) (hspan : P span) :
    LocatedResult P (instantiate f callee args span) (Expr.Located P) := by
  unfold instantiate
  split
  · exact .of_span rfl hspan
  · have hstart : ∀ entry ∈ ([] : List (String × Expr)), entry.2.Located P :=
      fun _ hmem => nomatch hmem
    refine (locatedResult_bind callee hspan f.params hargs hstart).bind fun bound hbound =>
      hf.2.subst fun hlookup => ?_
    exact hbound _ (mem_of_lookup_eq_some hlookup)

/-- A call is replaced by the expanded body of its function; every other node stays. -/
theorem locates_expandNode {inner : Expr → Pass Inliner Expr}
    (hinner : ∀ {e : Expr}, e.Located P → Locates P (Knows P) (inner e) (Expr.Located P)) {e : Expr}
    (h : e.Located P) : Locates P (Knows P) (expandNode inner e) (Expr.Located P) := by
  unfold expandNode
  split
  · obtain ⟨hspan, -, hargs⟩ := Expr.located_call.1 h
    refine locates_get.bind fun s hs => ?_
    split
    · exact locates_pure h
    · rename_i f hget
      have hf : f.Located P := FunctionTable.Located.get? hs hget
      refine (locates_lift (locatedResult_instantiate _ hf hargs hspan)).bind fun body hbody => ?_
      refine (hinner hbody).bind fun expanded hexpanded => ?_
      have hcount : Locates P (Knows P)
          (modify fun s => { s with callsInlined := s.callsInlined + 1 })
          fun _ => True := locates_modify fun _ hs => hs
      refine hcount.seq fun _ => (locates_note _).seq fun _ => locates_get.seq fun s =>
        locates_pure ?_
      split
      · exact hexpanded.fold
      · exact hexpanded
  · exact locates_pure h

/-- Calls within bodies are expanded in turn, by induction on the depth. -/
theorem locates_expandAt (depth : Nat) {e : Expr} (h : e.Located P) :
    Locates P (Knows P) (expandAt depth e) (Expr.Located P) := by
  induction depth generalizing e with
  | zero => exact locates_pure h
  | succ depth ih => exact Expr.locates_bottomUpM (locates_expandNode ih) h

theorem locates_expand {e : Expr} (h : e.Located P) :
    Locates P (Knows P) (expand e) (Expr.Located P) :=
  locates_get.seq fun _ => locates_expandAt _ h

mutual

/-- All expressions of a statement are expanded where they stand. -/
theorem locates_expandStmt :
    ∀ {s : Stmt}, s.Located P → Locates P (Knows P) (expandStmt s) (LocatedAll P)
  | .atom _, h => by
    rw [expandStmt]
    refine (Atom.locates_mapExprsM locates_expand (located_atom.1 h)).bind fun a ha =>
      locates_pure ?_
    exact locatedAll_singleton.2 (located_atom.2 ha)
  | .function _ _ true _ _, _ => locates_pure locatedAll_nil
  | .function _ _ false _ _, h => by
    obtain ⟨hspan, hname, hparams, hbody⟩ := located_function.1 h
    rw [expandStmt]
    refine (locates_expandStmts hbody).bind fun out hout => locates_pure ?_
    exact locatedAll_singleton.2 (located_function.2 ⟨hspan, hname, hparams, hout⟩)
  | .ifChain _ (some _) _, h => by
    obtain ⟨hspan, hbranches, hbody⟩ := located_ifChain.1 h
    rw [expandStmt]
    refine (locates_expandBranches hbranches).bind fun out hout => ?_
    refine (locates_expandStmts hbody).bind fun out' hout' => locates_pure ?_
    exact locatedAll_singleton.2 (located_ifChain.2 ⟨hspan, hout, hout'⟩)
  | .ifChain _ none _, h => by
    obtain ⟨hspan, hbranches, -⟩ := located_ifChain.1 h
    rw [expandStmt]
    refine (locates_expandBranches hbranches).bind fun out hout => locates_pure ?_
    exact locatedAll_singleton.2 (located_ifChain.2 ⟨hspan, hout, locatedAll_nil⟩)
  | .forLoop .., h => by
    obtain ⟨hspan, hvar, hcollection, hbody⟩ := located_forLoop.1 h
    rw [expandStmt]
    refine (locates_expand hcollection).bind fun collection hcollection => ?_
    refine (locates_expandStmts hbody).bind fun out hout => locates_pure ?_
    exact locatedAll_singleton.2 (located_forLoop.2 ⟨hspan, hvar, hcollection, hout⟩)
  | .breakLoop _, h => locates_pure (locatedAll_singleton.2 h)
  | .attempt _ (some _) _, h => by
    obtain ⟨hspan, hbody, hhandler⟩ := located_attempt.1 h
    rw [expandStmt]
    refine (locates_expandStmts hbody).bind fun out hout => ?_
    refine (locates_expandStmts hhandler).bind fun out' hout' => locates_pure ?_
    exact locatedAll_singleton.2 (located_attempt.2 ⟨hspan, hout, hout'⟩)
  | .attempt _ none _, h => by
    obtain ⟨hspan, hbody, -⟩ := located_attempt.1 h
    rw [expandStmt]
    refine (locates_expandStmts hbody).bind fun out hout => locates_pure ?_
    exact locatedAll_singleton.2 (located_attempt.2 ⟨hspan, hout, locatedAll_nil⟩)
  | .require .., h => locates_pure (locatedAll_singleton.2 h)
  | .block .., h => by
    obtain ⟨hspan, hbody⟩ := located_block.1 h
    rw [expandStmt]
    refine (locates_expandStmts hbody).bind fun out hout => locates_pure ?_
    exact locatedAll_singleton.2 (located_block.2 ⟨hspan, hout⟩)

theorem locates_expandStmts :
    ∀ {stmts : List Stmt}, LocatedAll P stmts →
      Locates P (Knows P) (expandStmts stmts) (LocatedAll P)
  | [], _ => locates_pure locatedAll_nil
  | _ :: _, h => by
    rw [locatedAll_cons] at h
    rw [expandStmts]
    refine (locates_expandStmt h.1).bind fun out hout => ?_
    exact (locates_expandStmts h.2).bind fun out' hout' =>
      locates_pure (locatedAll_append.2 ⟨hout, hout'⟩)

theorem locates_expandBranches : ∀ {branches : List (Branch Stmt)}, LocatedBranches P branches →
    Locates P (Knows P) (expandBranches branches) (LocatedBranches P)
  | [], _ => locates_pure locatedBranches_nil
  | ⟨_, _, _⟩ :: _, h => by
    obtain ⟨hspan, hcond, hbody, hrest⟩ := locatedBranches_cons.1 h
    rw [expandBranches]
    refine (locates_expand hcond).bind fun cond hcond => (locates_expandStmts hbody).bind
      fun out hout => ?_
    refine (locates_expandBranches hrest).bind fun out' hout' => locates_pure ?_
    exact locatedBranches_cons.2 ⟨hspan, hcond, hout, hout'⟩

end

/-- The functions that are collected have the places of the declarations that they come from. -/
theorem locates_collect {declarations : List InlineDeclaration}
    (h : ∀ d ∈ declarations, P d.span ∧ LocatedAll P d.body) :
    Locates P (Knows P) (collect declarations) fun _ => True := by
  induction declarations with
  | nil => exact locates_pure trivial
  | cons d rest ih =>
    obtain ⟨hd, hrest⟩ := List.forall_mem_cons.1 h
    refine Locates.seq (Q := fun _ => True) ?_ fun _ => ih hrest
    refine (locates_lift (InlineDeclaration.locatedResult_reduce hd.1 hd.2)).bind fun f hf => ?_
    refine locates_get.bind fun s hs => ?_
    have hinsert : Knows P { s with functions := s.functions.insert d.name f } :=
      FunctionTable.Located.insert hs hf
    refine (locates_set hinsert).seq fun _ => ?_
    split
    · exact locates_note _
    · exact locates_pure trivial

theorem locates_run {stmts : List Stmt} (h : LocatedAll P stmts) :
    Locates P (Knows P) (run stmts) (LocatedAll P) := by
  refine (locates_collect h.declarations).seq fun _ => locates_get.bind fun s hs => ?_
  refine (locates_lift (FunctionTable.Located.locatedResult_checkCycles hs)).seq fun _ => ?_
  refine (locates_expandStmts h).bind fun out hout => locates_get.seq fun s => locates_pure ?_
  split
  · exact hout.fold
  · exact hout

end Inliner

/-! ## The passes in their order -/

namespace Lowering

open Stmt

/-- Nothing is known of the state of a sequence of passes. -/
abbrev Any : Lowering → Prop := fun _ => True

/-- Each pass of lowering keeps to the places of the script it is given. -/
theorem locates_runPass (pass : LoweringPass) {stmts : List Stmt} (h : LocatedAll P stmts) :
    Locates P Any (runPass pass stmts) (LocatedAll P) := by
  refine (locates_modify fun _ _ => trivial).seq fun _ => ?_
  cases pass with
  | folding => exact locates_pure h.fold
  | inlining fold =>
    have hrun := (Inliner.locates_run h).result (s := Inliner.new fold) fun _ hmem => nomatch hmem
    refine (locates_modify fun _ _ => trivial).seq fun _ => (locates_lift hrun).bind
      fun out hout => ?_
    exact (locates_modify fun _ _ => trivial).seq fun _ => locates_pure hout
  | unrolling maxIterations =>
    have hrun := (Unroller.locates_run h).result (s := Unroller.new maxIterations) trivial
    refine (locates_modify fun _ _ => trivial).seq fun _ => (locates_lift hrun).bind
      fun out hout => ?_
    exact (locates_modify fun _ _ => trivial).seq fun _ => locates_pure hout

/-- **Lowering leads to no place that the script did not lead to**, and neither does its error. -/
theorem locates_runPasses (passes : List LoweringPass) {stmts : List Stmt}
    (h : LocatedAll P stmts) : Locates P Any (runPasses passes stmts) (LocatedAll P) := by
  induction passes generalizing stmts with
  | nil => exact locates_pure h
  | cons pass passes ih => exact (locates_runPass pass h).bind fun _ hout => ih hout

end Lowering

end EdgeScript
