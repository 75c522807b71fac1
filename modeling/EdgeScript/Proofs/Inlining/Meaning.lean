import EdgeScript.Proofs.Inlining.Expand
import EdgeScript.Proofs.Meaning.Collection

/-!
# Inlining keeps the values of expressions

A call of an inline function stands for the function's return expression, read with the parameters
bound to the values of the arguments.  All other names in it are those of the place where the whole
expression stands: `Inlines` says this for every call at once, also for the calls in return
expressions.

* A meaning for all calls exists if no function calls itself (`exists_inlines`).  It is built along
  the order of the functions, from those that call no other one.
* Under such a meaning, putting a return expression in the place of its call changes no value
  (`eval_expandAt`).
* What is expanded to the end has no inline calls, so there the meaning of these no longer counts.
-/

set_option autoImplicit false

namespace EdgeScript

open Pass

/-- The variables inside a function: those around it, with the parameters bound from left to right,
each to its argument or else to its default.  There are none if a parameter has neither, or an
argument no parameter. -/
def Param.bindAll {V : Type} (lit : Literal → V) :
    List Param → List V → (String → V) → Option (String → V)
  | [], [], ρ => some ρ
  | [], _ :: _, _ => none
  | p :: params, v :: args, ρ => bindAll lit params args (Function.update ρ p.name.name v)
  | p :: params, [], ρ =>
    match p.default? with
    | some (value, _) => bindAll lit params [] (Function.update ρ p.name.name (lit value))
    | none => none

namespace Interp

variable {V : Type} (I : Interp V)

/-- The interpretation with another meaning of calls. -/
def withCalls (call : String → List V → V) : Interp V := { I with call }

theorem Lawful.withCalls {I : Interp V} (hI : I.Lawful) (call : String → List V → V) :
    (I.withCalls call).Lawful :=
  ⟨hI.unary_lit, hI.binary_lit, hI.test_lit, hI.truth_lit⟩

/-- A meaning of calls in the variables `ρ` that gives every inline function the value of its return
expression. -/
structure Inlines (table : FunctionTable) (ρ : String → V) (call : String → List V → V) : Prop where
  other {name : String} (args : List V) : table.get? name = none → call name args = I.call name args
  body {name : String} {f : InlineFunction} {args : List V} {ρ' : String → V} :
    table.get? name = some f → Param.bindAll I.lit f.params args ρ = some ρ' →
      call name args = (I.withCalls call).eval ρ' f.body

/-! ## The meaning of calls -/

section Congr

variable {I} {call call' : String → List V → V} (ρ : String → V)

mutual

/-- Only the functions that an expression calls count for its value. -/
theorem eval_withCalls_congr : ∀ e : Expr, (∀ n ∈ e.calls, call n = call' n) →
    (I.withCalls call).eval ρ e = (I.withCalls call').eval ρ e
  | .lit value span, _ => by rw [eval, eval]; rfl
  | .ident id, _ => by rw [eval, eval]
  | .binary op left right span, h => by
    rw [Expr.calls_binary, List.forall_mem_append] at h
    rw [eval, eval, eval_withCalls_congr left h.1, eval_withCalls_congr right h.2]
    rfl
  | .unary op operand span, h => by
    rw [Expr.calls_unary] at h
    rw [eval, eval, eval_withCalls_congr operand h]
    rfl
  | .test op subject pattern capture span, h => by
    rw [Expr.calls_test, List.forall_mem_append] at h
    rw [eval, eval, eval_withCalls_congr subject h.1, eval_withCalls_congr pattern h.2]
    rfl
  | .call callee args span, h => by
    rw [Expr.calls_call, List.forall_mem_cons] at h
    rw [eval, eval, evalAll_withCalls_congr args h.2]
    exact congrFun h.1 _
  | .index target key span, h => by
    rw [Expr.calls_index, List.forall_mem_append] at h
    rw [eval, eval, eval_withCalls_congr target h.1, eval_withCalls_congr key h.2]
    rfl
  | .range first last span, h => by
    rw [Expr.calls_range, List.forall_mem_append] at h
    rw [eval, eval, eval_withCalls_congr first h.1, eval_withCalls_congr last h.2]
    rfl
  | .array elements span, h => by
    rw [Expr.calls_array] at h
    rw [eval, eval, evalAll_withCalls_congr elements h]
    rfl
  | .dict entries span, h => by
    rw [Expr.calls_dict] at h
    rw [eval, eval, evalEntries_withCalls_congr entries h]
    rfl

theorem evalAll_withCalls_congr :
    ∀ es : List Expr, (∀ n ∈ es.flatMap Expr.calls, call n = call' n) →
      (I.withCalls call).evalAll ρ es = (I.withCalls call').evalAll ρ es
  | [], _ => by rw [evalAll, evalAll]
  | e :: es, h => by
    rw [List.flatMap_cons, List.forall_mem_append] at h
    rw [evalAll, evalAll, eval_withCalls_congr e h.1, evalAll_withCalls_congr es h.2]

theorem evalEntries_withCalls_congr : ∀ entries : List (Expr × Expr),
    (∀ n ∈ entries.flatMap fun entry => entry.1.calls ++ entry.2.calls, call n = call' n) →
      (I.withCalls call).evalEntries ρ entries = (I.withCalls call').evalEntries ρ entries
  | [], _ => by rw [evalEntries, evalEntries]
  | (key, value) :: entries, h => by
    rw [List.flatMap_cons, List.forall_mem_append, List.forall_mem_append] at h
    rw [evalEntries, evalEntries, eval_withCalls_congr key h.1.1, eval_withCalls_congr value h.1.2,
      evalEntries_withCalls_congr entries h.2]

end

end Congr

/-- The meaning of calls built along a list of functions: the first is computed with the meaning of
the later ones. -/
def callsAlong (table : FunctionTable) (ρ : String → V) : List String → String → List V → V
  | [], name, args => I.call name args
  | first :: rest, name, args =>
    if name = first then
      match table.get? name with
      | none => I.call name args
      | some f =>
        match Param.bindAll I.lit f.params args ρ with
        | none => I.call name args
        | some ρ' => (I.withCalls (callsAlong table ρ rest)).eval ρ' f.body
    else callsAlong table ρ rest name args

variable {I} {table : FunctionTable} {ρ : String → V}

theorem callsAlong_of_not_mem {order : List String} {name : String} (h : name ∉ order) :
    I.callsAlong table ρ order name = I.call name := by
  induction order with
  | nil => rfl
  | cons first rest ih =>
    rw [List.mem_cons, not_or] at h
    funext args
    rw [callsAlong, if_neg h.1, ih h.2]

/-- One more function in front does not change the value of a body that does not call it. -/
theorem eval_callsAlong_cons {first : String} {rest : List String} {f : InlineFunction}
    (horder : table.Ordered (first :: rest))
    (hcalls : ∀ callee ∈ table.callees f, callee ∈ rest) (ρ' : String → V) :
    (I.withCalls (I.callsAlong table ρ (first :: rest))).eval ρ' f.body =
      (I.withCalls (I.callsAlong table ρ rest)).eval ρ' f.body := by
  refine eval_withCalls_congr ρ' f.body fun n hn => ?_
  have hne : n ≠ first := by
    rintro rfl
    have hmem : n ∈ table.callees f :=
      List.mem_filter.2 ⟨hn, horder.contains n List.mem_cons_self⟩
    exact (List.nodup_cons.1 horder.nodup).1 (hcalls n hmem)
  funext args
  rw [callsAlong, if_neg hne]

theorem callsAlong_of_mem {order : List String} (horder : table.Ordered order) {name : String}
    (hname : name ∈ order) {f : InlineFunction} (hf : table.get? name = some f) {args : List V}
    {ρ' : String → V} (hρ' : Param.bindAll I.lit f.params args ρ = some ρ') :
    I.callsAlong table ρ order name args =
      (I.withCalls (I.callsAlong table ρ order)).eval ρ' f.body := by
  induction order with
  | nil => cases hname
  | cons first rest ih =>
    rw [eval_callsAlong_cons horder (horder.callees_mem hname hf), callsAlong]
    by_cases heq : name = first
    · rw [if_pos heq, hf]
      simp only [hρ']
    · rw [if_neg heq]
      exact ih horder.tail ((List.mem_cons.1 hname).resolve_left heq)

/-- Without recursion, calls have a meaning. -/
theorem exists_inlines (I : Interp V) (ρ : String → V) (h : table.checkCycles = .ok ()) :
    ∃ call, I.Inlines table ρ call := by
  obtain ⟨order, horder, hall⟩ := FunctionTable.exists_ordered h
  refine ⟨I.callsAlong table ρ order, ?_, ?_⟩
  · intro name args hnone
    refine congrFun (callsAlong_of_not_mem fun hmem => ?_) args
    have hcontains := horder.contains name hmem
    rw [FunctionTable.contains, hnone] at hcontains
    cases hcontains
  · intro name f args ρ' hf hρ'
    exact callsAlong_of_mem horder (hall name (FunctionTable.contains_of_get? hf)) hf hρ'

/-! ## The value of an expanded call -/

theorem bind_cons (bound : List (String × Expr)) (x : String) (a : Expr) :
    (I.bind ρ fun name => ((x, a) :: bound).lookup name) =
      Function.update (I.bind ρ fun name => bound.lookup name) x (I.eval ρ a) := by
  funext y
  by_cases h : y = x
  · rw [h, Function.update_self, bind, List.lookup_cons_self]
    rfl
  · rw [Function.update_of_ne h, bind, bind, List.lookup_cons, beq_eq_false_iff_ne.2 h]

/-- Binding parameters to expressions and then taking values is binding them to values. -/
theorem bindAll_of_bind {callee : String} {span : Span} {params : List Param} {args : List Expr}
    {bound bound' : List (String × Expr)}
    (h : Inliner.bind callee span params args bound = .ok bound')
    (hlen : args.length ≤ params.length) :
    Param.bindAll I.lit params (I.evalAll ρ args) (I.bind ρ fun name => bound.lookup name) =
      some (I.bind ρ fun name => bound'.lookup name) := by
  induction params generalizing args bound with
  | nil =>
    obtain rfl := List.length_eq_zero_iff.1 (Nat.le_zero.1 hlen)
    rw [Inliner.bind] at h
    cases h
    rw [evalAll, Param.bindAll]
  | cons p params ih =>
    cases args with
    | cons arg args =>
      rw [Inliner.bind] at h
      rw [evalAll, Param.bindAll, ← bind_cons]
      exact ih h (Nat.le_of_succ_le_succ hlen)
    | nil =>
      rw [Inliner.bind] at h
      rw [evalAll, Param.bindAll]
      cases hdefault : p.default? with
      | none =>
        rw [hdefault] at h
        cases h
      | some default =>
        rw [hdefault] at h
        have hvalue : I.eval ρ (.lit default.1 span) = I.lit default.1 := by rw [eval]
        simp only [← hvalue, ← bind_cons]
        exact ih h (Nat.zero_le _)

/-- What a call is replaced by has the value of the function's body in the function's variables. -/
theorem eval_of_instantiate {f : InlineFunction} {callee : String} {args : List Expr} {span : Span}
    {body : Expr} (h : Inliner.instantiate f callee args span = .ok body) :
    ∃ ρ', Param.bindAll I.lit f.params (I.evalAll ρ args) ρ = some ρ' ∧
      I.eval ρ body = I.eval ρ' f.body := by
  obtain ⟨hlen, bound, hbound, rfl⟩ := Inliner.instantiate_eq_ok h
  exact ⟨_, bindAll_of_bind hbound hlen, I.eval_subst _ _ _⟩

/-- Expanding calls, to any depth, keeps the value that an expression has under a meaning of its
calls. -/
theorem eval_expandAt (hI : I.Lawful) {call : String → List V → V} (hcall : I.Inlines table ρ call)
    {depth : Nat} {e r : Expr} {s s' : Inliner} (hs : s.functions = table)
    (h : Gives (Inliner.expandAt depth e) s r s') :
    (I.withCalls call).eval ρ r = (I.withCalls call).eval ρ e := by
  induction depth generalizing e r s s' with
  | zero =>
    rw [Inliner.expandAt] at h
    rw [(gives_pure.1 h).1]
  | succ depth ih =>
    rw [Inliner.expandAt] at h
    refine (Expr.rel_bottomUpM (P := fun t => t.functions = table)
      (R := fun e e' => (I.withCalls call).eval ρ e' = (I.withCalls call).eval ρ e)
      (fun {e e' r t t'} hrebuilt ht hnode => ?_) e hs h).2
    have hparts : (I.withCalls call).eval ρ e' = (I.withCalls call).eval ρ e :=
      eval_of_rebuilt hrebuilt fun _ _ => rfl
    rcases Inliner.gives_expandNode hnode with
      ⟨rfl, rfl, -⟩ | ⟨callee, args, span, f, body, expanded, u, rfl, hf, hbody, hinner, heq, hr⟩
    · exact ⟨ht, hparts⟩
    · refine ⟨by rw [heq, Inliner.functions_expandAt hinner, ht], ?_⟩
      obtain ⟨ρ', hρ', hvalue⟩ := eval_of_instantiate (I := I.withCalls call) (ρ := ρ) hbody
      rw [ht] at hf
      have hexpanded : (I.withCalls call).eval ρ expanded = (I.withCalls call).eval ρ e := by
        rw [ih ht hinner, hvalue, ← hparts, eval]
        exact (hcall.body hf hρ').symm
      rcases hr with rfl | rfl
      · exact hexpanded
      · rw [(hI.withCalls call).eval_fold, hexpanded]

/-- Where no inline function is called, its meaning does not count. -/
theorem eval_of_no_calls {call : String → List V → V} (hcall : I.Inlines table ρ call) {e : Expr}
    (h : ∀ n ∈ e.calls, table.contains n = false) : (I.withCalls call).eval ρ e = I.eval ρ e := by
  have hsame (n : String) (hn : n ∈ e.calls) : call n = I.call n := by
    funext args
    have hnone : table.get? n = none := by
      have hn := h n hn
      rwa [FunctionTable.contains, Option.isSome_eq_false_iff, Option.isNone_iff_eq_none] at hn
    exact hcall.other args hnone
  exact eval_withCalls_congr ρ e hsame

/-- **Inlining keeps the values of expressions.**  If no inline function calls itself, there is a
meaning of calls under which each gives the value of its return expression, with the parameters
bound to the arguments and the defaults and all other names read where the whole expression stands.
Under any such meaning, an expression has the value of what it is expanded to, with folding or
without. -/
theorem inlining_keeps_values (hI : I.Lawful) {s s' : Inliner}
    (hs : s.functions.checkCycles = .ok ()) {e r : Expr} (h : Gives (Inliner.expand e) s r s')
    (ρ : String → V) :
    (∃ call, I.Inlines s.functions ρ call) ∧
      ∀ call, I.Inlines s.functions ρ call → (I.withCalls call).eval ρ e = I.eval ρ r := by
  refine ⟨exists_inlines I ρ hs, fun call hcall => ?_⟩
  rw [Inliner.expand, gives_get_bind] at h
  obtain ⟨order, horder, hall⟩ := FunctionTable.exists_ordered hs
  have hclean : ∀ n ∈ r.calls, s.functions.contains n = false :=
    Inliner.calls_expandAt horder (Nat.lt_succ_of_le horder.length_le) rfl (fun n _ => hall n) h
  rw [← eval_expandAt hI hcall rfl h, eval_of_no_calls hcall hclean]

end Interp

/-! ## Calls within calls -/

section Nested

/-- `function scale(a, b = 2) { return a * b; }` and
`function both(b, a) { return scale(b + a) - scale(a, b); }` -/
def scaleAndBoth : List InlineDeclaration :=
  let here := Span.none
  let name (x : String) : Ident := ⟨x, here⟩
  let var (x : String) : Expr := .ident (name x)
  [⟨"scale", [⟨name "a", none, here⟩, ⟨name "b", some (.int 2, here), here⟩],
      [.atom (.ret (some (.binary .mul (var "a") (var "b") here)) here)], here⟩,
    ⟨"both", [⟨name "b", none, here⟩, ⟨name "a", none, here⟩],
      [.atom (.ret (some (.binary .sub
        (.call (name "scale") [.binary .add (var "b") (var "a") here] here)
        (.call (name "scale") [var "a", var "b"] here) here)) here)], here⟩]

/-- `both(a, scale(3))` -/
def nestedCall : Expr :=
  let here := Span.none
  .call ⟨"both", here⟩ [.ident ⟨"a", here⟩, .call ⟨"scale", here⟩ [.lit (.int 3) here] here] here

/-- `(a + 6) * 2 - 6 * a` -/
def nestedCallExpanded : Expr :=
  let here := Span.none
  let a : Expr := .ident ⟨"a", here⟩
  .binary .sub
    (.binary .mul (.binary .add a (.lit (.int 6) here) here) (.lit (.int 2) here) here)
    (.binary .mul (.lit (.int 6) here) a here) here

/-- The inliner that has collected the two functions. -/
def scaleAndBothCollected : Inliner := ((Inliner.collect scaleAndBoth).outcome (.new true)).2

theorem inlining_keeps_values_nestedCall :
    Gives (Inliner.collect scaleAndBoth) (.new true) () scaleAndBothCollected ∧
      scaleAndBothCollected.functions.checkCycles = .ok () ∧ Interp.basic.Lawful ∧
      ∃ s', Gives (Inliner.expand nestedCall) scaleAndBothCollected nestedCallExpanded s' ∧
        ∀ ρ, (∃ call, Interp.basic.Inlines scaleAndBothCollected.functions ρ call) ∧
          ∀ call, Interp.basic.Inlines scaleAndBothCollected.functions ρ call →
            (Interp.basic.withCalls call).eval ρ nestedCall =
              Interp.basic.eval ρ nestedCallExpanded := by
  have hcycles : scaleAndBothCollected.functions.checkCycles = .ok () := rfl
  have hexpand : Gives (Inliner.expand nestedCall) scaleAndBothCollected nestedCallExpanded _ := rfl
  exact ⟨rfl, hcycles, Interp.basic_lawful, _, hexpand,
    Interp.inlining_keeps_values Interp.basic_lawful hcycles hexpand⟩

end Nested

/-! ## The parameters of a calling function

Under `Inlines` a return expression does not see the parameters of a function that calls it.  It
could not be otherwise: under the other reading, expansion changes values. -/

section Chained

/-- A meaning of calls under which a return expression is read with the variables of the expression
that the call stands in, the parameters of a calling function among them. -/
structure Interp.CallerScoped {V : Type} (I : Interp V) (table : FunctionTable)
    (call : (String → V) → String → List V → V) : Prop where
  other {ρ : String → V} {name : String} (args : List V) :
    table.get? name = none → call ρ name args = I.call name args
  body {ρ ρ' : String → V} {name : String} {f : InlineFunction} {args : List V} :
    table.get? name = some f → Param.bindAll I.lit f.params args ρ = some ρ' →
      call ρ name args = (I.withCalls (call ρ')).eval ρ' f.body

/-- `function f(a) { return g(); }` -/
def passing : InlineFunction :=
  ⟨[⟨⟨"a", .none⟩, none, .none⟩], .call ⟨"g", .none⟩ [] .none, .none⟩

/-- `function g() { return a; }` -/
def reading : InlineFunction := ⟨[], .ident ⟨"a", .none⟩, .none⟩

/-- An inliner that knows the functions `f` and `g`. -/
def chained : Inliner := { folding := false, functions := [("f", passing), ("g", reading)] }

/-- `f(5)` -/
def chainedCall : Expr := .call ⟨"f", .none⟩ [.lit (.int 5) .none] .none

/-- The meaning of `f` and `g` if `g` sees the parameter of `f`. -/
def chainedCalls (ρ : String → Value) : String → List Value → Value
  | "f", [v] => v
  | "g", [] => ρ "a"
  | _, _ => .unknown

theorem callerScoped_chainedCalls : Interp.basic.CallerScoped chained.functions chainedCalls where
  other {ρ name} args h := by
    rw [chainedCalls]
    · rfl
    · rintro v rfl
      cases h
    · rintro rfl
      cases h
  body {ρ ρ' name f args} h hρ' := by
    simp only [FunctionTable.get?, chained, List.lookup_cons, List.lookup_nil] at h
    split at h
    · rename_i hname
      cases h
      obtain rfl := beq_iff_eq.1 hname
      rcases args with _ | ⟨v, _ | ⟨w, args⟩⟩ <;> cases hρ'
      rfl
    · split at h
      · rename_i hname
        cases h
        obtain rfl := beq_iff_eq.1 hname
        cases args <;> cases hρ'
        rfl
      · cases h

/-- **The parameters of a calling function are not seen.**  If `g` read the parameter of `f` that
calls it, `f(5)` would be 5, but it is expanded to the variable `a` of the place where it stands. -/
theorem caller_parameters_are_not_seen :
    chained.functions.checkCycles = .ok () ∧
      ∃ s', Gives (Inliner.expand chainedCall) chained (.ident ⟨"a", .none⟩) s' ∧
        (∃ call, Interp.basic.CallerScoped chained.functions call) ∧
        ∀ call, Interp.basic.CallerScoped chained.functions call →
          let ρ : String → Value := fun _ => .known (.int 1)
          (Interp.basic.withCalls (call ρ)).eval ρ chainedCall = .known (.int 5) ∧
            Interp.basic.eval ρ (.ident ⟨"a", .none⟩) = .known (.int 1) := by
  refine ⟨rfl, _, rfl, ⟨chainedCalls, callerScoped_chainedCalls⟩, fun call hcall => ⟨?_, rfl⟩⟩
  have hf (ρ : String → Value) (v : Value) :
      call ρ "f" [v] = call (Function.update ρ "a" v) "g" [] := hcall.body (f := passing) rfl rfl
  have hg (ρ : String → Value) : call ρ "g" [] = ρ "a" := hcall.body (f := reading) rfl rfl
  exact (hf _ _).trans (hg _)

end Chained

end EdgeScript
