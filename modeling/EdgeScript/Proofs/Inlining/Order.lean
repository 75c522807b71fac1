import Mathlib.Data.List.Perm.Subperm
import EdgeScript.Inline.Cycle

/-!
# The order of inline functions

The check for recursion follows the calls of every inline function.  If it succeeds, the functions
that it has visited are in an order in which each calls only later ones (`Ordered`), and no function
is missing (`exists_ordered`).  Expanding calls goes along this order, and needs no more depth than
it has members.

The check is a depth first search with a bound on its depth, and behind the bound it would visit
nothing.  `grows_of_visit` says that it never comes there: the calls that lead to a function are
distinct functions.
-/

set_option autoImplicit false

namespace EdgeScript.FunctionTable

variable {table : FunctionTable}

theorem contains_iff_mem_names {name : String} :
    table.contains name = true ↔ name ∈ table.names := by
  rw [contains, get?, names]
  induction table with
  | nil => simp
  | cons entry table ih =>
    obtain ⟨other, f⟩ := entry
    rw [List.lookup_cons, List.map_cons, List.mem_cons]
    by_cases h : name = other
    · simp [h]
    · rw [beq_eq_false_iff_ne.2 h]
      simp only [h, false_or]
      exact ih

theorem contains_of_get? {name : String} {f : InlineFunction} (h : table.get? name = some f) :
    table.contains name = true := by
  rw [contains, h, Option.isSome_some]

/-- Distinct inline functions are no more than there are. -/
theorem length_le_of_nodup {names : List String} (hnodup : names.Nodup)
    (hnames : ∀ x ∈ names, table.contains x = true) : names.length ≤ table.length := by
  have hsub : names ⊆ table.names := fun x hx => contains_iff_mem_names.1 (hnames x hx)
  have hle := (hnodup.subperm hsub).length_le
  rwa [FunctionTable.names, List.length_map] at hle

/-- Distinct inline functions, as the search for recursion has them on the way to a function. -/
structure Path (table : FunctionTable) (path : List String) : Prop where
  nodup : path.Nodup
  contains : ∀ x ∈ path, table.contains x = true

theorem Path.nil : Path table [] :=
  ⟨List.nodup_nil, fun _ hx => absurd hx List.not_mem_nil⟩

theorem Path.snoc {path : List String} {name : String} (h : Path table path) (hout : name ∉ path)
    (hname : table.contains name = true) : Path table (path ++ [name]) := by
  refine ⟨?_, List.forall_mem_append.2 ⟨h.contains, List.forall_mem_singleton.2 hname⟩⟩
  rw [List.perm_append_comm.nodup_iff, List.singleton_append, List.nodup_cons]
  exact ⟨hout, h.nodup⟩

/-! ## Orders -/

/-- A list of inline functions in which each calls only later ones. -/
inductive Ordered (table : FunctionTable) : List String → Prop
  | nil : Ordered table []
  | cons {name : String} {rest : List String} {f : InlineFunction} (hrest : Ordered table rest)
      (hname : name ∉ rest) (hf : table.get? name = some f)
      (hcalls : ∀ callee ∈ table.callees f, callee ∈ rest) : Ordered table (name :: rest)

namespace Ordered

variable {order : List String}

theorem nodup (h : Ordered table order) : order.Nodup := by
  induction h with
  | nil => exact List.nodup_nil
  | cons _ hname _ _ ih => exact List.nodup_cons.2 ⟨hname, ih⟩

theorem contains (h : Ordered table order) : ∀ x ∈ order, table.contains x = true := by
  induction h with
  | nil => exact nofun
  | cons _ _ hf _ ih =>
    intro x hx
    rcases List.mem_cons.1 hx with rfl | hx
    · exact contains_of_get? hf
    · exact ih x hx

theorem length_le (h : Ordered table order) : order.length ≤ table.length :=
  length_le_of_nodup h.nodup h.contains

theorem tail {first : String} {rest : List String} (h : Ordered table (first :: rest)) :
    Ordered table rest := by
  cases h
  assumption

/-- What a function of the order calls is behind the first one. -/
theorem callees_mem {first : String} {rest : List String} (h : Ordered table (first :: rest))
    {name : String} (hname : name ∈ first :: rest) {f : InlineFunction}
    (hf : table.get? name = some f) : ∀ callee ∈ table.callees f, callee ∈ rest := by
  induction rest generalizing first with
  | nil =>
    obtain rfl := List.mem_singleton.1 hname
    cases h with
    | cons _ _ hg hcalls =>
      cases hf.symm.trans hg
      exact hcalls
  | cons second rest ih =>
    rcases List.mem_cons.1 hname with rfl | hname
    · cases h with
      | cons _ _ hg hcalls =>
        cases hf.symm.trans hg
        exact hcalls
    · exact fun callee hcallee => List.mem_cons_of_mem _ (ih h.tail hname callee hcallee)

end Ordered

/-! ## The search -/

/-- What visits from a path add to the functions that are done: nothing is lost, the order goes on,
and no function of the path is among what is new. -/
structure Grows (table : FunctionTable) (path done done' : List String) : Prop where
  ordered : Ordered table done'
  mono : ∀ x ∈ done, x ∈ done'
  fresh : ∀ x ∈ done', x ∈ done ∨ x ∉ path

theorem Grows.refl {path done : List String} (h : Ordered table done) :
    Grows table path done done :=
  ⟨h, fun _ => id, fun _ => .inl⟩

theorem Grows.trans {path a b c : List String} (h : Grows table path a b)
    (h' : Grows table path b c) : Grows table path a c :=
  ⟨h'.ordered, fun x hx => h'.mono x (h.mono x hx),
    fun x hx => (h'.fresh x hx).elim (h.fresh x) .inr⟩

/-- A visit that comes back from what a function calls puts the function in front. -/
theorem Grows.cons {path done between : List String} {name : String} {f : InlineFunction}
    (h : Grows table (path ++ [name]) done between) (hnew : name ∉ done) (hpath : name ∉ path)
    (hf : table.get? name = some f) (hcalls : ∀ callee ∈ table.callees f, callee ∈ between) :
    Grows table path done (name :: between) := by
  have hfresh : name ∉ between := by
    intro hmem
    rcases h.fresh name hmem with hdone | hout
    · exact hnew hdone
    · exact hout (List.mem_append_right _ List.mem_cons_self)
  refine ⟨.cons h.ordered hfresh hf hcalls, fun x hx => ?_, fun x hx => ?_⟩
  · exact List.mem_cons_of_mem _ (h.mono x hx)
  · rcases List.mem_cons.1 hx with rfl | hx
    · exact .inr hpath
    · exact (h.fresh x hx).imp_right fun hout hx => hout (List.mem_append_left _ hx)

/-- Visits one after the other. -/
theorem grows_of_foldlM {depth : Nat} {path : List String}
    (hvisit : ∀ {done name done'}, visit table depth path done name = .ok done' →
      Ordered table done → table.contains name = true →
        Grows table path done done' ∧ name ∈ done')
    {names done done' : List String}
    (h : names.foldlM (visit table depth path) done = .ok done') (hdone : Ordered table done)
    (hnames : ∀ x ∈ names, table.contains x = true) :
    Grows table path done done' ∧ ∀ x ∈ names, x ∈ done' := by
  induction names generalizing done with
  | nil =>
    cases h
    exact ⟨.refl hdone, nofun⟩
  | cons name names ih =>
    rw [List.foldlM_cons] at h
    cases hname : visit table depth path done name with
    | error e =>
      rw [hname] at h
      cases h
    | ok between =>
      rw [hname] at h
      obtain ⟨hgrows, hmem⟩ := hvisit hname hdone (hnames name List.mem_cons_self)
      obtain ⟨hgrows', hmem'⟩ :=
        ih h hgrows.ordered fun x hx => hnames x (List.mem_cons_of_mem _ hx)
      refine ⟨hgrows.trans hgrows', fun x hx => ?_⟩
      rcases List.mem_cons.1 hx with rfl | hx
      · exact hgrows'.mono _ hmem
      · exact hmem' x hx

/-- What a visit can do that does not fail: the function is done already, or it is done after those
that it calls. -/
theorem visit_cases {depth : Nat} {path done done' : List String} {name : String}
    {f : InlineFunction} (hf : table.get? name = some f)
    (h : visit table (depth + 1) path done name = .ok done') :
    (name ∈ done ∧ done' = done) ∨ (name ∉ done ∧ name ∉ path ∧
      ∃ between, (table.callees f).foldlM (visit table depth (path ++ [name])) done = .ok between ∧
        done' = name :: between) := by
  rw [visit] at h
  by_cases hdone : name ∈ done
  · rw [if_pos hdone] at h
    cases h
    exact .inl ⟨hdone, rfl⟩
  · rw [if_neg hdone] at h
    by_cases hpath : name ∈ path
    · rw [if_pos hpath] at h
      cases h
    · rw [if_neg hpath, hf] at h
      simp only at h
      split at h
      · rename_i between hbetween
        cases h
        exact .inr ⟨hdone, hpath, between, hbetween, rfl⟩
      · cases h

theorem grows_of_visit {depth : Nat} {path done done' : List String} {name : String}
    (h : visit table depth path done name = .ok done') (hdone : Ordered table done)
    (hpath : Path table path) (hdepth : table.length < depth + path.length)
    (hname : table.contains name = true) : Grows table path done done' ∧ name ∈ done' := by
  induction depth generalizing path done done' name with
  | zero =>
    -- a path as long as that would have more functions than there are
    have := length_le_of_nodup hpath.nodup hpath.contains
    omega
  | succ depth ih =>
    obtain ⟨f, hf⟩ := Option.isSome_iff_exists.1 hname
    rcases visit_cases hf h with ⟨hmem, rfl⟩ | ⟨hnew, hout, between, hcallees, rfl⟩
    · exact ⟨.refl hdone, hmem⟩
    · have hdepth' : table.length < depth + (path ++ [name]).length := by
        rw [List.length_append, List.length_singleton]
        omega
      obtain ⟨hgrows, hcalls⟩ := grows_of_foldlM
        (fun hv hd hn => ih hv hd (hpath.snoc hout hname) hdepth' hn) hcallees hdone
        fun x hx => (List.mem_filter.1 hx).2
      exact ⟨hgrows.cons hnew hout hf hcalls, List.mem_cons_self⟩

/-- **Without recursion there is an order** of all inline functions in which each calls only later
ones. -/
theorem exists_ordered (h : table.checkCycles = .ok ()) :
    ∃ order, Ordered table order ∧ ∀ name, table.contains name = true → name ∈ order := by
  rw [checkCycles] at h
  split at h
  · rename_i order horder
    obtain ⟨hgrows, hall⟩ := grows_of_foldlM
      (fun hv hd hn => grows_of_visit hv hd .nil (Nat.lt_succ_self _) hn) horder .nil
      fun x hx => contains_iff_mem_names.2 hx
    exact ⟨order, hgrows.ordered, fun name hname => hall name (contains_iff_mem_names.1 hname)⟩
  · cases h

end EdgeScript.FunctionTable
