import EdgeScript.Proofs.Stages

/-!
# Declarations that stay

The passes can drop the declaration of a function: folding drops what a chain of conditions never
does, and a loop without a round leaves nothing of its body.  What is declared anywhere else is
still declared in the lowered script, inside blocks, attempts and other functions too.
`Stmt.standingAll` lists these functions; with no folding they are all those outside of loops.  Only
the inline functions among them are removed, by the expansion of their calls.
-/

set_option autoImplicit false

namespace EdgeScript

open Pass

theorem append_subset_append {l l' r r' : List String} (hl : l ⊆ l') (hr : r ⊆ r') :
    l ++ r ⊆ l' ++ r' :=
  List.append_subset.2
    ⟨List.subset_append_of_subset_left _ hl, List.subset_append_of_subset_right _ hr⟩

/-! ## Declarations -/

/-- The declaration of a function, inline or not. -/
structure FunctionDeclaration extends InlineDeclaration where
  isInline : Bool

namespace Stmt

mutual

/-- The declarations of functions in a statement, in the order of the text. -/
def declarations : Stmt → List FunctionDeclaration
  | .function name params isInline body span =>
    ⟨⟨name.name, params, body, span⟩, isInline⟩ :: declarationsAll body
  | .ifChain branches (some body) _ => declarationsBranches branches ++ declarationsAll body
  | .ifChain branches none _ => declarationsBranches branches
  | .forLoop _ _ body _ => declarationsAll body
  | .attempt body (some handler) _ => declarationsAll body ++ declarationsAll handler
  | .attempt body none _ => declarationsAll body
  | .block body _ => declarationsAll body
  | .atom _ | .breakLoop _ | .require .. => []

/-- The declarations of functions in a sequence of statements. -/
def declarationsAll : List Stmt → List FunctionDeclaration
  | [] => []
  | s :: rest => declarations s ++ declarationsAll rest

/-- The declarations of functions in the branches of a chain. -/
def declarationsBranches : List (Branch Stmt) → List FunctionDeclaration
  | [] => []
  | ⟨_, body, _⟩ :: rest => declarationsAll body ++ declarationsBranches rest

end

/-- The function is declared in the statements, at any depth. -/
def Declares (stmts : List Stmt) (f : String) : Prop := ∃ d ∈ declarationsAll stmts, d.name = f

mutual

/-- The names of the declarations are the functions that generation counts as declared. -/
theorem map_name_declarations : ∀ s : Stmt, s.declarations.map (·.name) = s.declaredFunctions
  | .function name _ _ body _ => congrArg (name.name :: ·) (map_name_declarationsAll body)
  | .ifChain branches (some body) _ => by
    rw [declarations, List.map_append, map_name_declarationsBranches branches,
      map_name_declarationsAll body, declaredFunctions]
  | .ifChain branches none _ => map_name_declarationsBranches branches
  | .forLoop _ _ body _ => map_name_declarationsAll body
  | .attempt body (some handler) _ => by
    rw [declarations, List.map_append, map_name_declarationsAll body,
      map_name_declarationsAll handler, declaredFunctions]
  | .attempt body none _ => map_name_declarationsAll body
  | .block body _ => map_name_declarationsAll body
  | .atom _ | .breakLoop _ | .require .. => rfl

/-- Writing looks up the names of all declarations. -/
theorem map_name_declarationsAll : ∀ stmts : List Stmt,
    (declarationsAll stmts).map (·.name) = declaredFunctionsAll stmts
  | [] => rfl
  | s :: rest => by
    rw [declarationsAll, List.map_append, map_name_declarations s, map_name_declarationsAll rest,
      declaredFunctionsAll]

theorem map_name_declarationsBranches : ∀ branches : List (Branch Stmt),
    (declarationsBranches branches).map (·.name) = declaredFunctionsBranches branches
  | [] => rfl
  | ⟨_, body, _⟩ :: rest => by
    rw [declarationsBranches, List.map_append, map_name_declarationsAll body,
      map_name_declarationsBranches rest, declaredFunctionsBranches]

end

/-- A function counts as declared if it has a declaration anywhere in the script. -/
theorem mem_declaredFunctionsAll_iff {stmts : List Stmt} {f : String} :
    f ∈ declaredFunctionsAll stmts ↔ Declares stmts f := by
  rw [← map_name_declarationsAll, List.mem_map, Declares]

/-! ## Declarations that are never dropped -/

mutual

/-- The functions that a statement declares outside of loops, and, where chains are decided, outside
of these. -/
def standing (decided : Bool) : Stmt → List String
  | .function name _ _ body _ => name.name :: standingAll decided body
  | .ifChain branches (some body) _ =>
    if decided then [] else standingBranches decided branches ++ standingAll decided body
  | .ifChain branches none _ => if decided then [] else standingBranches decided branches
  | .attempt body (some handler) _ => standingAll decided body ++ standingAll decided handler
  | .attempt body none _ => standingAll decided body
  | .block body _ => standingAll decided body
  | .atom _ | .forLoop .. | .breakLoop _ | .require .. => []

/-- The same of a sequence. -/
def standingAll (decided : Bool) : List Stmt → List String
  | [] => []
  | s :: rest => standing decided s ++ standingAll decided rest

/-- The same of the bodies of branches. -/
def standingBranches (decided : Bool) : List (Branch Stmt) → List String
  | [] => []
  | ⟨_, body, _⟩ :: rest => standingAll decided body ++ standingBranches decided rest

end

variable {decided : Bool}

theorem standingAll_append (first second : List Stmt) :
    standingAll decided (first ++ second) =
      standingAll decided first ++ standingAll decided second := by
  induction first with
  | nil => rfl
  | cons s rest ih => rw [List.cons_append, standingAll, ih, standingAll, List.append_assoc]

theorem standingAll_singleton (s : Stmt) : standingAll decided [s] = standing decided s := by
  rw [standingAll, standingAll, List.append_nil]

/-! ## They are declared -/

theorem ite_subset {l l' : List String} (h : l ⊆ l') : (if decided then [] else l) ⊆ l' := by
  cases decided
  · exact h
  · exact List.nil_subset _

mutual

/-- What stands outside of loops and chains is declared. -/
theorem standing_subset_declared : ∀ s : Stmt, s.standing decided ⊆ s.declaredFunctions
  | .function _ _ _ body _ => List.cons_subset_cons _ (standingAll_subset_declared body)
  | .ifChain branches (some body) _ =>
    ite_subset (append_subset_append (standingBranches_subset_declared branches)
      (standingAll_subset_declared body))
  | .ifChain branches none _ => ite_subset (standingBranches_subset_declared branches)
  | .attempt body (some handler) _ =>
    append_subset_append (standingAll_subset_declared body) (standingAll_subset_declared handler)
  | .attempt body none _ => standingAll_subset_declared body
  | .block body _ => standingAll_subset_declared body
  | .atom _ | .forLoop .. | .breakLoop _ | .require .. => List.nil_subset _

theorem standingAll_subset_declared : ∀ stmts : List Stmt,
    standingAll decided stmts ⊆ declaredFunctionsAll stmts
  | [] => List.nil_subset _
  | s :: rest =>
    append_subset_append (standing_subset_declared s) (standingAll_subset_declared rest)

theorem standingBranches_subset_declared : ∀ branches : List (Branch Stmt),
    standingBranches decided branches ⊆ declaredFunctionsBranches branches
  | [] => List.nil_subset _
  | ⟨_, body, _⟩ :: rest =>
    append_subset_append (standingAll_subset_declared body)
      (standingBranches_subset_declared rest)

end

/-! ## Folding -/

mutual

/-- Folding keeps what stands outside of chains. -/
theorem standing_subset_fold : ∀ s : Stmt, s.standing true ⊆ standingAll true s.fold
  | .function name _ _ body _ => by
    rw [fold, standingAll_singleton]
    exact List.cons_subset_cons name.name (standingAll_subset_foldAll body)
  | .attempt body (some handler) _ => by
    rw [fold, standingAll_singleton]
    exact append_subset_append (standingAll_subset_foldAll body)
      (standingAll_subset_foldAll handler)
  | .attempt body none _ => by
    rw [fold, standingAll_singleton]
    exact standingAll_subset_foldAll body
  | .block body _ => by
    rw [fold, standingAll_singleton]
    exact standingAll_subset_foldAll body
  | .ifChain _ (some _) _ | .ifChain _ none _ | .atom _ | .forLoop .. | .breakLoop _
  | .require .. => List.nil_subset _

/-- What is declared outside of chains stays where chains are decided. -/
theorem standingAll_subset_foldAll : ∀ stmts : List Stmt,
    standingAll true stmts ⊆ standingAll true (foldAll stmts)
  | [] => List.nil_subset _
  | s :: rest => by
    rw [foldAll, standingAll_append]
    exact append_subset_append (standing_subset_fold s) (standingAll_subset_foldAll rest)

end

end Stmt

/-! ## Expanding calls -/

/-- What goes with an inline declaration. -/
def InlineDeclaration.declares (d : InlineDeclaration) : List String :=
  d.name :: Stmt.standingAll true d.body

/-- An inline function has the parameters of its declaration, whose body returns that of the
function and does nothing else. -/
theorem InlineDeclaration.eq_of_reduce {d : InlineDeclaration} {f : InlineFunction}
    (h : d.reduce = .ok f) :
    f.params = d.params ∧ ∃ span, d.body = [.atom (.ret (some f.body) span)] := by
  rw [reduce] at h
  split at h
  · rename_i e span hbody
    split at h
    · cases h
    · cases h
      exact ⟨rfl, span, hbody⟩
  · cases h

/-- An inline function that can be expanded declares nothing but itself. -/
theorem InlineDeclaration.declares_of_reduce {d : InlineDeclaration} {f : InlineFunction}
    (h : d.reduce = .ok f) : d.declares = [d.name] := by
  obtain ⟨-, _, hbody⟩ := eq_of_reduce h
  rw [declares, hbody]
  rfl

namespace Inliner

/-- The functions `before` are still among `after`, or go with a declaration. -/
def Retains (declarations : List InlineDeclaration) (before after : List String) : Prop :=
  ∀ f ∈ before, (∃ d ∈ declarations, f ∈ d.declares) ∨ f ∈ after

/-- What is retained of two scripts is retained of both together. -/
theorem Retains.append {ds ds' : List InlineDeclaration} {before before' after after' : List String}
    (h : Retains ds before after) (h' : Retains ds' before' after') :
    Retains (ds ++ ds') (before ++ before') (after ++ after') := by
  intro f hf
  rcases List.mem_append.1 hf with hf | hf
  · exact (h f hf).imp (fun ⟨d, hd, hdecl⟩ => ⟨d, List.mem_append_left _ hd, hdecl⟩)
      (List.mem_append_left _)
  · exact (h' f hf).imp (fun ⟨d, hd, hdecl⟩ => ⟨d, List.mem_append_right _ hd, hdecl⟩)
      (List.mem_append_right _)

theorem Retains.cons {ds : List InlineDeclaration} {before after : List String} (name : String)
    (h : Retains ds before after) : Retains ds (name :: before) (name :: after) := by
  intro f hf
  rcases List.mem_cons.1 hf with rfl | hf
  · exact .inr List.mem_cons_self
  · exact (h f hf).imp_right (List.mem_cons_of_mem _)

theorem retains_nil {ds : List InlineDeclaration} {after : List String} : Retains ds [] after :=
  fun _ hf => absurd hf List.not_mem_nil

mutual

/-- Expanding calls drops the inline functions and no others. -/
theorem retains_expandStmt : ∀ s : Stmt, Ensures (fun _ => True) (expandStmt s) fun out =>
    Retains s.inlineDeclarations (s.standing true) (Stmt.standingAll true out)
  | .function _ _ true _ _ => ensures_pure fun _ hf => .inl ⟨_, List.mem_singleton_self _, hf⟩
  | .function name _ false body _ => by
    refine (retains_expandStmts body).bind fun _ hbody => ensures_pure ?_
    rw [Stmt.standingAll_singleton]
    exact hbody.cons name.name
  | .attempt body (some handler) _ => by
    refine (retains_expandStmts body).bind fun _ hbody => ?_
    refine (retains_expandStmts handler).bind fun _ hhandler => ensures_pure ?_
    rw [Stmt.standingAll_singleton]
    exact hbody.append hhandler
  | .attempt body none _ => by
    refine (retains_expandStmts body).bind fun _ hbody => ensures_pure ?_
    rw [Stmt.standingAll_singleton]
    exact hbody
  | .block body _ => by
    refine (retains_expandStmts body).bind fun _ hbody => ensures_pure ?_
    rw [Stmt.standingAll_singleton]
    exact hbody
  | .ifChain _ (some _) _ => (ensures_true _).mono fun _ _ => retains_nil
  | .ifChain _ none _ => (ensures_true _).mono fun _ _ => retains_nil
  | .atom _ => (ensures_true _).mono fun _ _ => retains_nil
  | .forLoop .. => (ensures_true _).mono fun _ _ => retains_nil
  | .breakLoop _ => (ensures_true _).mono fun _ _ => retains_nil
  | .require .. => (ensures_true _).mono fun _ _ => retains_nil

/-- What stands outside of chains stays where calls are expanded, inline functions apart. -/
theorem retains_expandStmts : ∀ stmts : List Stmt, Ensures (fun _ => True) (expandStmts stmts)
    fun out => Retains (Stmt.inlineDeclarationsAll stmts) (Stmt.standingAll true stmts)
      (Stmt.standingAll true out)
  | [] => ensures_pure retains_nil
  | s :: rest => by
    refine (retains_expandStmt s).bind fun _ hfirst => ?_
    refine (retains_expandStmts rest).bind fun _ hrest => ensures_pure ?_
    rw [Stmt.standingAll_append]
    exact hfirst.append hrest

end

end Inliner

/-! ## Unrolling -/

namespace Unroller

variable {decided : Bool} {inner : Inner}

mutual

/-- Unrolling keeps what stands outside of loops. -/
theorem standing_unrollStmt (known : Known) : ∀ s : Stmt, Ensures (fun _ => True)
    (unrollStmt inner known s) fun out => s.standing decided ⊆ Stmt.standingAll decided out.1
  | .forLoop .. => (ensures_true _).bind fun _ _ => ensures_pure (List.nil_subset _)
  | .atom _ => ensures_pure (List.nil_subset _)
  | .block body _ => by
    refine (standing_unrollStmts known body).bind fun _ hbody => ensures_pure ?_
    rw [Stmt.standingAll_singleton]
    exact hbody
  | .ifChain branches (some body) _ => by
    refine (standing_unrollBranches known branches).bind fun _ hbranches => ?_
    refine (standing_unrollStmts known body).bind fun _ hbody => ensures_pure ?_
    rw [Stmt.standingAll_singleton, Stmt.standing, Stmt.standing]
    cases decided
    · exact append_subset_append hbranches hbody
    · exact List.nil_subset _
  | .ifChain branches none _ => by
    refine (standing_unrollBranches known branches).bind fun _ hbranches => ensures_pure ?_
    rw [Stmt.standingAll_singleton, Stmt.standing, Stmt.standing]
    cases decided
    · exact hbranches
    · exact List.nil_subset _
  | .attempt body (some handler) _ => by
    refine (standing_unrollStmts known body).bind fun _ hbody => ?_
    refine (standing_unrollStmts known handler).bind fun _ hhandler => ensures_pure ?_
    rw [Stmt.standingAll_singleton]
    exact append_subset_append hbody hhandler
  | .attempt body none _ => by
    refine (standing_unrollStmts known body).bind fun _ hbody => ensures_pure ?_
    rw [Stmt.standingAll_singleton]
    exact hbody
  | .function .. => by
    refine ensures_pure ?_
    rw [Stmt.standingAll_singleton]
    exact List.Subset.refl _
  | .breakLoop _ => ensures_pure (List.nil_subset _)
  | .require .. => ensures_pure (List.nil_subset _)

theorem standing_unrollStmts (known : Known) : ∀ stmts : List Stmt, Ensures (fun _ => True)
    (unrollStmts inner known stmts) fun out =>
      Stmt.standingAll decided stmts ⊆ Stmt.standingAll decided out.1
  | [] => ensures_pure (List.nil_subset _)
  | s :: rest => by
    refine (standing_unrollStmt known s).bind fun first hfirst => ?_
    refine (standing_unrollStmts first.2 rest).bind fun _ hrest => ensures_pure ?_
    rw [Stmt.standingAll_append]
    exact append_subset_append hfirst hrest

theorem standing_unrollBranches (known : Known) : ∀ branches : List (Branch Stmt),
    Ensures (fun _ => True) (unrollBranches inner known branches) fun out =>
      Stmt.standingBranches decided branches ⊆ Stmt.standingBranches decided out
  | [] => ensures_pure (List.nil_subset _)
  | ⟨_, body, _⟩ :: rest =>
    (standing_unrollStmts known body).bind fun _ hbody =>
      (standing_unrollBranches known rest).bind fun _ hrest =>
        ensures_pure (append_subset_append hbody hrest)

end

/-- What is declared outside of loops stays where loops are unrolled. -/
theorem standing_run (stmts : List Stmt) : Ensures (fun _ => True) (run stmts) fun out =>
    Stmt.standingAll decided stmts ⊆ Stmt.standingAll decided out :=
  (standing_unrollStmts [] stmts).bind fun _ hout => ensures_pure hout

end Unroller

end EdgeScript
