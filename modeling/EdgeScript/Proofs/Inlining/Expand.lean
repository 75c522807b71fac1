import EdgeScript.Inline.Expand
import EdgeScript.Proofs.Inlining.Order
import EdgeScript.Proofs.Rebuild

/-!
# Expanding all calls

What is left of an expression after its calls are expanded calls no inline function any more
(`calls_expandAt`), if the functions it calls are in an order and the depth is more than the length
of the order.  The arguments of a call are expanded before it, so the calls in what it is replaced
by are those of the function's body, and these are later in the order.
-/

set_option autoImplicit false

namespace EdgeScript

open Pass

/-! ## The calls in an expression -/

namespace Expr

-- Each lemma below opens one equation of the walk; asked for here, they are made once.
attribute [local simp] subterms

theorem subtermsAll_eq_flatMap (es : List Expr) : subtermsAll es = es.flatMap subterms := by
  induction es with
  | nil => rfl
  | cons e es ih => rw [subtermsAll, ih, List.flatMap_cons]

theorem subtermsEntries_eq_flatMap (entries : List (Expr × Expr)) :
    subtermsEntries entries = entries.flatMap fun entry =>
      entry.1.subterms ++ entry.2.subterms := by
  induction entries with
  | nil => rfl
  | cons entry entries ih => rw [subtermsEntries, ih, List.flatMap_cons]

@[simp]
theorem calls_lit (value : Literal) (span : Span) : (lit value span).calls = [] := rfl

@[simp]
theorem calls_ident (id : Ident) : (ident id).calls = [] := rfl

@[simp]
theorem calls_binary (op : BinOp) (left right : Expr) (span : Span) :
    (binary op left right span).calls = left.calls ++ right.calls := by
  simp [calls]

@[simp]
theorem calls_unary (op : UnOp) (operand : Expr) (span : Span) :
    (unary op operand span).calls = operand.calls := by
  simp [calls]

@[simp]
theorem calls_test (op : MatchOp) (subject pattern : Expr) (capture : Option Ident) (span : Span) :
    (test op subject pattern capture span).calls = subject.calls ++ pattern.calls := by
  simp [calls]

@[simp]
theorem calls_call (callee : Ident) (args : List Expr) (span : Span) :
    (call callee args span).calls = callee.name :: args.flatMap calls := by
  rw [calls, subterms, subtermsAll_eq_flatMap, List.filterMap_cons, List.filterMap_flatMap]
  rfl

@[simp]
theorem calls_index (target key : Expr) (span : Span) :
    (index target key span).calls = target.calls ++ key.calls := by
  simp [calls]

@[simp]
theorem calls_range (first last : Expr) (span : Span) :
    (range first last span).calls = first.calls ++ last.calls := by
  simp [calls]

@[simp]
theorem calls_array (elements : List Expr) (span : Span) :
    (array elements span).calls = elements.flatMap calls := by
  rw [calls, subterms, subtermsAll_eq_flatMap, List.filterMap_cons, List.filterMap_flatMap]
  rfl

@[simp]
theorem calls_dict (entries : List (Expr × Expr)) (span : Span) :
    (dict entries span).calls = entries.flatMap fun entry => entry.1.calls ++ entry.2.calls := by
  simp [calls, subtermsEntries_eq_flatMap, List.filterMap_flatMap]

theorem exists_mem_of_forall₂ {α : Type} {R : α → α → Prop} {old new : List α}
    (h : List.Forall₂ R old new) {b : α} (hb : b ∈ new) : ∃ a ∈ old, R a b := by
  induction h with
  | nil => cases hb
  | cons hab _ ih =>
    rcases List.mem_cons.1 hb with rfl | hb
    · exact ⟨_, List.mem_cons_self, hab⟩
    · obtain ⟨a, ha, hab⟩ := ih hb
      exact ⟨a, List.mem_cons_of_mem _ ha, hab⟩

/-- What a rebuilt node calls is called by one of its new parts, or is what the node itself
calls. -/
theorem Rebuilt.mem_calls {R : Expr → Expr → Prop} {Q : String → Prop} {e e' : Expr}
    (h : Rebuilt R e e')
    (hR : ∀ {a b}, R a b → (∀ n ∈ a.calls, n ∈ e.calls) → ∀ n ∈ b.calls, Q n)
    {n : String} (hn : n ∈ e'.calls) :
    Q n ∨ ∃ callee args args' span,
      e = .call callee args span ∧ e' = .call callee args' span ∧ n = callee.name := by
  have hlist {old new : List Expr} (hnew : List.Forall₂ R old new)
      (hold : ∀ a ∈ old, ∀ n ∈ a.calls, n ∈ e.calls) (hn : n ∈ new.flatMap calls) : Q n := by
    obtain ⟨b, hb, hn⟩ := List.mem_flatMap.1 hn
    obtain ⟨a, ha, hab⟩ := exists_mem_of_forall₂ hnew hb
    exact hR hab (hold a ha) n hn
  cases h with
  | lit => cases hn
  | ident => cases hn
  | binary hleft hright | test hleft hright | index hleft hright | range hleft hright =>
    left
    simp only [calls_binary, calls_test, calls_index, calls_range, List.mem_append] at hn hR
    rcases hn with hn | hn
    · exact hR hleft (fun _ => .inl) n hn
    · exact hR hright (fun _ => .inr) n hn
  | unary h =>
    rw [calls_unary] at hn hR
    exact .inl (hR h (fun _ => id) n hn)
  | call h =>
    rw [calls_call, List.mem_cons] at hn
    rcases hn with rfl | hn
    · exact .inr ⟨_, _, _, _, rfl, rfl, rfl⟩
    · refine .inl (hlist h (fun a ha n hn => ?_) hn)
      rw [calls_call]
      exact List.mem_cons_of_mem _ (List.mem_flatMap.2 ⟨a, ha, hn⟩)
  | array h =>
    rw [calls_array] at hn
    refine .inl (hlist h (fun a ha n hn => ?_) hn)
    rw [calls_array]
    exact List.mem_flatMap.2 ⟨a, ha, hn⟩
  | dict h =>
    left
    rw [calls_dict] at hn hR
    obtain ⟨new, hnew, hn⟩ := List.mem_flatMap.1 hn
    obtain ⟨old, hold, hkey, hvalue⟩ := exists_mem_of_forall₂ h hnew
    have hmem {n : String} (hn : n ∈ old.1.calls ++ old.2.calls) :
        n ∈ List.flatMap (fun entry : Expr × Expr => entry.1.calls ++ entry.2.calls) _ :=
      List.mem_flatMap.2 ⟨old, hold, hn⟩
    rcases List.mem_append.1 hn with hn | hn
    · exact hR hkey (fun _ hn => hmem (List.mem_append_left _ hn)) n hn
    · exact hR hvalue (fun _ hn => hmem (List.mem_append_right _ hn)) n hn

theorem calls_bottomUp {f : Expr → Expr} {extra : String → Prop}
    (hf : ∀ e, ∀ n ∈ (f e).calls, n ∈ e.calls ∨ extra n) (e : Expr) :
    ∀ n ∈ (e.bottomUp f).calls, n ∈ e.calls ∨ extra n := by
  refine rel_bottomUp (R := fun e e' => ∀ n ∈ e'.calls, n ∈ e.calls ∨ extra n) ?_ e
  intro e e' h n hn
  rcases hf e' n hn with hn | hn
  · rcases h.mem_calls (Q := fun n => n ∈ e.calls ∨ extra n)
      (fun hab hsub n hn => (hab n hn).imp_left (hsub n)) hn with hn | ⟨_, _, _, _, rfl, -, rfl⟩
    · exact hn
    · exact .inl (by simp)
  · exact .inr hn

/-- Folding adds no calls. -/
theorem calls_fold (e : Expr) : ∀ n ∈ e.fold.calls, n ∈ e.calls := by
  have hnode (e : Expr) : ∀ n ∈ e.foldNode.calls, n ∈ e.calls ∨ False := by
    intro n hn
    rw [foldNode] at hn
    split at hn
    · cases hn
    · exact .inl hn
  exact fun n hn => (calls_bottomUp hnode e n hn).resolve_right id

/-- Substitution adds only the calls in what is put in. -/
theorem calls_subst (bound : String → Option Expr) (e : Expr) :
    ∀ n ∈ (e.subst bound).calls, n ∈ e.calls ∨ ∃ x a, bound x = some a ∧ n ∈ a.calls := by
  refine calls_bottomUp (fun e n hn => ?_) e
  cases e with
  | ident id =>
    rw [substNode] at hn
    cases hbound : bound id.name with
    | none =>
      rw [hbound] at hn
      exact .inl hn
    | some a =>
      rw [hbound] at hn
      exact .inr ⟨_, a, hbound, hn⟩
  | _ => exact .inl hn

end Expr

/-! ## One call -/

namespace Inliner

section Call

variable {callee : String} {span : Span}

/-- What parameters are bound to: what they were bound to before, arguments and literals. -/
theorem mem_of_bind {params : List Param} {args : List Expr} {bound bound' : List (String × Expr)}
    (h : bind callee span params args bound = .ok bound') {x : String} {a : Expr}
    (ha : (x, a) ∈ bound') : (x, a) ∈ bound ∨ a ∈ args ∨ ∃ value span, a = .lit value span := by
  induction params generalizing args bound with
  | nil =>
    rw [bind] at h
    cases h
    exact .inl ha
  | cons p params ih =>
    cases args with
    | cons arg args =>
      rw [bind] at h
      rcases ih h with hmem | hmem | hlit
      · rcases List.mem_cons.1 hmem with heq | hmem
        · cases heq
          exact .inr (.inl List.mem_cons_self)
        · exact .inl hmem
      · exact .inr (.inl (List.mem_cons_of_mem _ hmem))
      · exact .inr (.inr hlit)
    | nil =>
      rw [bind] at h
      split at h
      · rcases ih h with hmem | hmem | hlit
        · rcases List.mem_cons.1 hmem with heq | hmem
          · cases heq
            exact .inr (.inr ⟨_, _, rfl⟩)
          · exact .inl hmem
        · cases hmem
        · exact .inr (.inr hlit)
      · cases h

theorem instantiate_eq_ok {f : InlineFunction} {args : List Expr} {body : Expr}
    (h : instantiate f callee args span = .ok body) :
    args.length ≤ f.params.length ∧ ∃ bound, bind callee span f.params args [] = .ok bound ∧
      body = f.body.subst fun name => bound.lookup name := by
  rw [instantiate] at h
  split at h
  · cases h
  · rename_i hlen
    cases hbind : bind callee span f.params args [] with
    | error e =>
      rw [hbind] at h
      cases h
    | ok bound =>
      rw [hbind] at h
      cases h
      exact ⟨Nat.le_of_not_lt hlen, bound, rfl, rfl⟩

/-- What a call is replaced by calls what the function's body and the arguments call. -/
theorem calls_of_instantiate {f : InlineFunction} {args : List Expr} {body : Expr}
    (h : instantiate f callee args span = .ok body) :
    ∀ n ∈ body.calls, n ∈ f.body.calls ∨ ∃ a ∈ args, n ∈ a.calls := by
  obtain ⟨-, bound, hbound, rfl⟩ := instantiate_eq_ok h
  intro n hn
  rcases Expr.calls_subst _ _ n hn with hn | ⟨x, a, hx, hn⟩
  · exact .inl hn
  · obtain ⟨before, after, heq, -⟩ := List.lookup_eq_some_iff.1 hx
    have hmem : (x, a) ∈ bound := by
      rw [heq]
      exact List.mem_append_right _ List.mem_cons_self
    rcases mem_of_bind hbound hmem with hmem | hmem | ⟨value, span, rfl⟩
    · cases hmem
    · exact .inr ⟨a, hmem, hn⟩
    · cases hn

/-- What a call is replaced by calls functions behind the first one of the order, if the arguments
call none. -/
theorem mem_rest_of_instantiate {table : FunctionTable} {first : String} {rest : List String}
    (horder : table.Ordered (first :: rest)) {callee : String} {f : InlineFunction}
    (hname : callee ∈ first :: rest) (hf : table.get? callee = some f) {args : List Expr}
    {span : Span} {body : Expr} (hargs : ∀ a ∈ args, ∀ n ∈ a.calls, table.contains n = false)
    (hbody : instantiate f callee args span = .ok body) :
    ∀ n ∈ body.calls, table.contains n = true → n ∈ rest := by
  intro n hn hinline
  rcases calls_of_instantiate hbody n hn with hn | ⟨a, ha, hn⟩
  · exact horder.callees_mem hname hf n (List.mem_filter.2 ⟨hn, hinline⟩)
  · have hno := hargs a ha n hn
    rw [hinline] at hno
    cases hno

end Call

/-- The two ways in which a node is expanded: it is no call of an inline function and stays, or it
is replaced by what its body expands to. -/
theorem gives_expandNode {inner : Expr → Pass Inliner Expr} {e r : Expr} {s s' : Inliner}
    (h : Gives (expandNode inner e) s r s') :
    (r = e ∧ s' = s ∧ ∀ callee args span, e = .call callee args span →
      s.functions.get? callee.name = none) ∨
    ∃ callee args span f body expanded t, e = .call callee args span ∧
      s.functions.get? callee.name = some f ∧
      instantiate f callee.name args span = .ok body ∧ Gives (inner body) s expanded t ∧
      s'.functions = t.functions ∧ (r = expanded ∨ r = expanded.fold) := by
  cases e with
  | call callee args span =>
    rw [expandNode, gives_get_bind] at h
    split at h
    · rename_i hnone
      obtain ⟨rfl, rfl⟩ := gives_pure.1 h
      refine .inl ⟨rfl, rfl, fun callee args span heq => ?_⟩
      cases heq
      exact hnone
    · rename_i f hf
      obtain ⟨body, _, hlift, hrest⟩ := gives_bind.1 h
      obtain ⟨hbody, rfl⟩ := gives_lift.1 hlift
      obtain ⟨expanded, t, hexpanded, hend⟩ := gives_bind.1 hrest
      refine .inr ⟨callee, args, span, f, body, expanded, t, rfl, hf, hbody, hexpanded, ?_⟩
      simp only [note, gives_bind, gives_modify, gives_get, gives_pure] at hend
      obtain ⟨-, _, rfl, -, _, rfl, _, _, ⟨rfl, rfl⟩, rfl, rfl⟩ := hend
      refine ⟨rfl, ?_⟩
      split
      · exact .inr rfl
      · exact .inl rfl
  | _ =>
    obtain ⟨rfl, rfl⟩ := gives_pure.1 h
    refine .inl ⟨rfl, rfl, fun callee args span heq => ?_⟩
    cases heq

/-! ## All calls -/

/-- Expanding does not change the functions. -/
theorem functions_expandAt {depth : Nat} {e r : Expr} {s s' : Inliner}
    (h : Gives (expandAt depth e) s r s') : s'.functions = s.functions := by
  induction depth generalizing e r s s' with
  | zero =>
    rw [expandAt] at h
    rw [(gives_pure.1 h).2]
  | succ depth ih =>
    rw [expandAt] at h
    refine (Expr.rel_bottomUpM (R := fun _ _ => True) (P := fun t => t.functions = s.functions)
      (fun {_ _ _ t _} _ ht hnode => ⟨?_, trivial⟩) e rfl h).1
    rcases gives_expandNode hnode with ⟨-, rfl, -⟩ | ⟨_, _, _, _, _, _, u, -, -, -, hinner, heq, -⟩
    · exact ht
    · rw [heq, ih hinner, ht]

/-- **No call is left**: at a depth of more than the length of an order, everything in the order is
expanded. -/
theorem calls_expandAt {table : FunctionTable} {order : List String} {depth : Nat} {e r : Expr}
    {s s' : Inliner} (horder : table.Ordered order) (hdepth : order.length < depth)
    (hs : s.functions = table) (hcalls : ∀ n ∈ e.calls, table.contains n = true → n ∈ order)
    (h : Gives (expandAt depth e) s r s') : ∀ n ∈ r.calls, table.contains n = false := by
  induction depth generalizing order e r s s' with
  | zero => exact absurd hdepth (Nat.not_lt_zero _)
  | succ depth ih =>
    rw [expandAt] at h
    refine (Expr.rel_bottomUpM (P := fun t => t.functions = table)
      (R := fun e e' => (∀ n ∈ e.calls, table.contains n = true → n ∈ order) →
        ∀ n ∈ e'.calls, table.contains n = false)
      (fun {e e' r t t'} hrebuilt ht hnode => ?_) e hs h).2 hcalls
    rcases gives_expandNode hnode with
      ⟨rfl, rfl, hother⟩ | ⟨callee, args, span, f, body, expanded, u, rfl, hf, hbody, hinner,
        heq, hr⟩
    · refine ⟨ht, fun hcalls n hn => ?_⟩
      rcases hrebuilt.mem_calls (Q := fun n => table.contains n = false)
        (fun hab hsub => hab fun n hn => hcalls n (hsub n hn)) hn with
          hn | ⟨_, _, _, _, -, rfl, rfl⟩
      · exact hn
      · rw [FunctionTable.contains, ← ht, hother _ _ _ rfl, Option.isSome_none]
    · refine ⟨by rw [heq, functions_expandAt hinner, ht], fun hcalls => ?_⟩
      rw [ht] at hf
      cases hrebuilt with
      | @call _ old _ _ hargs =>
        have hname : callee.name ∈ order :=
          hcalls callee.name (by simp) (FunctionTable.contains_of_get? hf)
        have hexpanded : ∀ n ∈ expanded.calls, table.contains n = false := by
          cases order with
          | nil => cases hname
          | cons first rest =>
            -- the arguments are expanded already
            have hfree : ∀ a ∈ args, ∀ n ∈ a.calls, table.contains n = false := by
              intro a ha
              obtain ⟨b, hb, hba⟩ := Expr.exists_mem_of_forall₂ hargs ha
              refine hba fun n hn => hcalls n ?_
              rw [Expr.calls_call]
              exact List.mem_cons_of_mem _ (List.mem_flatMap.2 ⟨b, hb, hn⟩)
            exact ih horder.tail (Nat.lt_of_succ_lt_succ hdepth) ht
              (mem_rest_of_instantiate horder hname hf hfree hbody) hinner
        rcases hr with rfl | rfl
        · exact hexpanded
        · exact fun n hn => hexpanded n (Expr.calls_fold expanded n hn)

/-- An expression whose calls are in an order is expanded to one that calls no inline function. -/
theorem ensures_expandAt {table : FunctionTable} {order : List String} {depth : Nat}
    (horder : table.Ordered order) (hdepth : order.length < depth) {e : Expr}
    (hcalls : ∀ n ∈ e.calls, table.contains n = true → n ∈ order) :
    Ensures (fun s => s.functions = table) (expandAt depth e) fun r => ∀ n ∈ r.calls,
      table.contains n = false := by
  refine ⟨fun {s t r} hs hrun => ?_⟩
  exact ⟨(functions_expandAt hrun).trans hs, calls_expandAt horder hdepth hs hcalls hrun⟩

end Inliner

end EdgeScript
