import Mathlib.Data.List.Chain
import EdgeScript.Proofs.Inlining.Order
import EdgeScript.Proofs.Parts

/-!
# Recursion is found exactly

The check for recursion is a depth first search along the calls of inline functions
(`FunctionTable.Calls`).

* If it succeeds, the functions are in an order along which calls only go forward, so that no way of
  calls leads back to where it started (`Ordered.not_transGen`).
* If it fails, it has come again to a function on its own path.  Every function on the path is
  called by the one in front of it, so the end of the path is a cycle, and this is what the error
  tells (`recursive_of_visit`).

So the marks that are kept from one root to the next neither hide a cycle nor invent one.
-/

set_option autoImplicit false

namespace EdgeScript.FunctionTable

variable {table : FunctionTable}

/-- The return expression of an inline function contains, anywhere, a call of an inline function. -/
def Calls (table : FunctionTable) (caller callee : String) : Prop :=
  ∃ f name args span, table.get? caller = some f ∧ f.body.Contains (.call name args span) ∧
    name.name = callee ∧ table.contains callee = true

theorem calls_iff {caller callee : String} :
    table.Calls caller callee ↔ ∃ f, table.get? caller = some f ∧ callee ∈ table.callees f := by
  simp only [Calls, callees, List.mem_filter, Expr.mem_calls_iff_contains]
  constructor
  · rintro ⟨f, name, args, span, hf, hcall, hname, hcallee⟩
    exact ⟨f, hf, ⟨name, args, span, hcall, hname⟩, hcallee⟩
  · rintro ⟨f, hf, ⟨name, args, span, hcall, hname⟩, hcallee⟩
    exact ⟨f, name, args, span, hf, hcall, hname, hcallee⟩

/-! ## Success -/

namespace Ordered

variable {order : List String}

theorem mem_of_calls (h : Ordered table order) {caller callee : String} (hcaller : caller ∈ order)
    (hcalls : table.Calls caller callee) : callee ∈ order := by
  cases order with
  | nil => simp at hcaller
  | cons first rest =>
    obtain ⟨f, hf, hcallee⟩ := calls_iff.1 hcalls
    exact List.mem_cons_of_mem _ (h.callees_mem hcaller hf callee hcallee)

theorem mem_of_transGen (h : Ordered table order) {caller callee : String}
    (hcaller : caller ∈ order) (hcalls : Relation.TransGen table.Calls caller callee) :
    callee ∈ order := by
  induction hcalls with
  | single hcall => exact h.mem_of_calls hcaller hcall
  | tail _ hcall ih => exact h.mem_of_calls ih hcall

/-- No way of calls leads from a function of an order back to it. -/
theorem not_transGen (h : Ordered table order) {name : String} (hname : name ∈ order) :
    ¬ Relation.TransGen table.Calls name name := by
  induction h with
  | nil => simp at hname
  | @cons first rest f hrest hfirst hf hcallees ih =>
    intro hcycle
    rcases List.mem_cons.1 hname with rfl | hname
    · -- the first call leaves for the rest of the order, and from there no call leads out of it
      obtain ⟨callee, hcall, hback⟩ := Relation.TransGen.head'_iff.1 hcycle
      obtain ⟨g, hg, hcallee⟩ := calls_iff.1 hcall
      cases hf.symm.trans hg
      have hin : callee ∈ rest := hcallees callee hcallee
      rcases Relation.reflTransGen_iff_eq_or_transGen.1 hback with rfl | hback
      · exact hfirst hin
      · exact hfirst (hrest.mem_of_transGen hin hback)
    · exact ih hname hcycle

end Ordered

/-! ## Failure -/

/-- The error tells of a cycle: it names a function, lists the calls that lead from it back to it,
no function twice, and its place is that of the function. -/
def Recursive (table : FunctionTable) (e : Error) : Prop :=
  ∃ name rest f, table.get? name = some f ∧
    e = .inline name (.recursive (name :: rest ++ [name])) f.span ∧
    (name :: rest ++ [name]).IsChain table.Calls ∧ (name :: rest).Nodup

theorem recursive_cycleError {path : List String} {name : String} (hname : name ∈ path)
    (hpath : Path table path) (hchain : (path ++ [name]).IsChain table.Calls) :
    table.Recursive (table.cycleError path name) := by
  obtain ⟨f, hf⟩ := Option.isSome_iff_exists.1 (hpath.contains name hname)
  obtain ⟨before, rest, rfl, hbefore⟩ := List.eq_append_cons_of_mem hname
  have hdrop : (before ++ name :: rest).dropWhile (· != name) = name :: rest := by
    rw [List.dropWhile_append_of_pos]
    · simp
    · intro x hx
      have hne : x ≠ name := by
        rintro rfl
        exact hbefore hx
      simpa using hne
  refine ⟨name, rest, f, hf, ?_, ?_, (List.nodup_append.1 hpath.nodup).2.1⟩
  · simp [cycleError, hdrop, hf]
  · rw [List.append_assoc] at hchain
    exact hchain.right_of_append

theorem exists_of_foldlM_error {depth : Nat} {path names done : List String} {e : Error}
    (h : names.foldlM (visit table depth path) done = .error e) :
    ∃ name ∈ names, ∃ between, visit table depth path between name = .error e := by
  induction names generalizing done with
  | nil => cases h
  | cons name names ih =>
    rw [List.foldlM_cons] at h
    cases hname : visit table depth path done name with
    | error e' =>
      rw [hname] at h
      cases h
      exact ⟨name, List.mem_cons_self, done, hname⟩
    | ok between =>
      rw [hname] at h
      obtain ⟨name', hmem, between', hvisit⟩ := ih h
      exact ⟨name', List.mem_cons_of_mem _ hmem, between', hvisit⟩

/-- The two ways in which a visit fails: at a function of the path, or at one that the function
calls. -/
theorem visit_error_cases {depth : Nat} {path done : List String} {name : String} {e : Error}
    (h : visit table (depth + 1) path done name = .error e) :
    (name ∈ path ∧ e = table.cycleError path name) ∨
      ∃ f, name ∉ path ∧ table.get? name = some f ∧
        (table.callees f).foldlM (visit table depth (path ++ [name])) done = .error e := by
  rw [visit] at h
  by_cases hdone : name ∈ done
  · simp [hdone] at h
  · by_cases hpath : name ∈ path
    · simp only [if_neg hdone, if_pos hpath, Except.error.injEq] at h
      exact .inl ⟨hpath, h.symm⟩
    · rw [if_neg hdone, if_neg hpath] at h
      cases hf : table.get? name with
      | none => simp [hf] at h
      | some f =>
        rw [hf] at h
        cases hcallees : (table.callees f).foldlM (visit table depth (path ++ [name])) done with
        | ok done' => simp [hcallees] at h
        | error e' =>
          simp only [hcallees, Except.error.injEq] at h
          exact .inr ⟨f, hpath, rfl, by rw [hcallees, h]⟩

/-- **A visit fails only for a cycle.**  The path that led to it is a chain of calls. -/
theorem recursive_of_visit {depth : Nat} {path done : List String} {name : String} {e : Error}
    (h : visit table depth path done name = .error e) (hpath : Path table path)
    (hchain : (path ++ [name]).IsChain table.Calls) : table.Recursive e := by
  induction depth generalizing path done name with
  | zero => simp [visit] at h
  | succ depth ih =>
    rcases visit_error_cases h with ⟨hname, rfl⟩ | ⟨f, hname, hf, hcallees⟩
    · exact recursive_cycleError hname hpath hchain
    · obtain ⟨callee, hcallee, between, hvisit⟩ := exists_of_foldlM_error hcallees
      have hcall : table.Calls name callee := calls_iff.2 ⟨f, hf, hcallee⟩
      have hchain' : (path ++ [name] ++ [callee]).IsChain table.Calls := by
        rw [List.append_assoc, List.singleton_append, List.isChain_append_cons_cons]
        exact ⟨hchain, hcall, List.isChain_singleton callee⟩
      exact ih hvisit (hpath.snoc hname (contains_of_get? hf)) hchain'

/-! ## Both -/

theorem transGen_of_isChain {α : Type} {R : α → α → Prop} {a b : α} {l : List α}
    (h : (a :: l ++ [b]).IsChain R) : Relation.TransGen R a b := by
  induction l generalizing a with
  | nil =>
    simp only [List.nil_append, List.cons_append, List.isChain_cons_cons] at h
    exact .single h.1
  | cons c l ih =>
    simp only [List.cons_append, List.isChain_cons_cons] at h
    exact .head h.1 (ih h.2)

theorem Recursive.exists_transGen {e : Error} (h : table.Recursive e) :
    ∃ name, Relation.TransGen table.Calls name name := by
  obtain ⟨name, rest, f, -, -, hchain, -⟩ := h
  exact ⟨name, transGen_of_isChain hchain⟩

theorem checkCycles_cases (table : FunctionTable) :
    table.checkCycles = .ok () ∨ ∃ e, table.checkCycles = .error e ∧ table.Recursive e := by
  rw [checkCycles]
  cases hvisits : table.names.foldlM (visit table (table.length + 1) []) [] with
  | ok done => exact .inl rfl
  | error e =>
    obtain ⟨name, -, between, hvisit⟩ := exists_of_foldlM_error hvisits
    refine .inr ⟨e, rfl, recursive_of_visit hvisit .nil ?_⟩
    exact List.isChain_singleton name

/-- **Recursion is found exactly.**  The check succeeds if and only if no way of calls leads from an
inline function back to it.  Otherwise it tells of a function, at the place of that function, and
lists calls that do lead from it back to it, through no function twice. -/
theorem recursion_is_found_exactly (table : FunctionTable) :
    (table.checkCycles = .ok () ↔ ∀ name, ¬ Relation.TransGen table.Calls name name) ∧
      (table.checkCycles = .ok () ∨ ∃ name rest f, table.get? name = some f ∧
        table.checkCycles = .error (.inline name (.recursive (name :: rest ++ [name])) f.span) ∧
        (name :: rest ++ [name]).IsChain table.Calls ∧ (name :: rest).Nodup) := by
  refine ⟨⟨fun hok name hcycle => ?_, fun hnone => ?_⟩, ?_⟩
  · obtain ⟨order, horder, hall⟩ := exists_ordered hok
    obtain ⟨callee, hcall, -⟩ := Relation.TransGen.head'_iff.1 hcycle
    obtain ⟨f, hf, -⟩ := calls_iff.1 hcall
    exact horder.not_transGen (hall name (contains_of_get? hf)) hcycle
  · rcases checkCycles_cases table with hok | ⟨e, -, hrecursive⟩
    · exact hok
    · obtain ⟨name, hcycle⟩ := hrecursive.exists_transGen
      exact absurd hcycle (hnone name)
  · rcases checkCycles_cases table with hok | ⟨e, herror, name, rest, f, hf, rfl, hchain, hnodup⟩
    · exact .inl hok
    · exact .inr ⟨name, rest, f, hf, herror, hchain, hnodup⟩

end EdgeScript.FunctionTable
