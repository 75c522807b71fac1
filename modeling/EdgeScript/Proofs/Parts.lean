import EdgeScript.Proofs.Inlining.Expand

/-!
# The parts of an expression

Every walk through an expression goes from a node to its parts.  Here the parts are listed once
(`Expr.parts`) and put back into a node (`Expr.withParts`), so that what holds of every node can be
shown without a look at what kind of node it is:

* `Expr.Contains` is what stands anywhere in an expression, said by parts of parts; the nodes that a
  walk lists are exactly these (`Expr.mem_subterms_iff_contains`).
* Rebuilding a tree, with effects or without, is rebuilding the parts and then the node
  (`Expr.bottomUpM_eq`, `Expr.bottomUp_eq`).
* `Expr.induction_parts` is the induction along the parts of one expression, and
  `Expr.induction_row` that along expressions in a row.
-/

set_option autoImplicit false

namespace EdgeScript.Expr

/-- The parts of a node in the order of the text. -/
def parts : Expr → List Expr
  | .lit .. | .ident _ => []
  | .binary _ left right _ => [left, right]
  | .unary _ operand _ => [operand]
  | .test _ subject pattern _ _ => [subject, pattern]
  | .call _ args _ => args
  | .index target key _ => [target, key]
  | .range first last _ => [first, last]
  | .array elements _ => elements
  | .dict entries _ => entries.flatMap fun entry => [entry.1, entry.2]

/-- The expression contains another one, at any depth, or is the same. -/
inductive Contains : Expr → Expr → Prop
  | self (e : Expr) : Contains e e
  | part {e p x : Expr} (hp : p ∈ e.parts) (hx : Contains p x) : Contains e x

/-- Parts are smaller, so one can go down to them. -/
theorem sizeOf_lt_of_mem_parts {e p : Expr} (h : p ∈ e.parts) : sizeOf p < sizeOf e := by
  cases e with
  | lit | ident => simp [parts] at h
  | binary | test | index | range =>
    simp only [parts, List.mem_cons, List.not_mem_nil, or_false] at h
    rcases h with rfl | rfl <;> simp <;> omega
  | unary =>
    obtain rfl := List.mem_singleton.1 h
    simp
    omega
  | call callee args span =>
    have hlt := List.sizeOf_lt_of_mem h
    simp [parts] at hlt ⊢
    omega
  | array elements span =>
    have hlt := List.sizeOf_lt_of_mem h
    simp [parts] at hlt ⊢
    omega
  | dict entries span =>
    obtain ⟨⟨key, value⟩, hentry, hp⟩ := List.mem_flatMap.1 h
    have hlt := List.sizeOf_lt_of_mem hentry
    simp only [List.mem_cons, List.not_mem_nil, or_false] at hp
    rcases hp with rfl | rfl <;> simp at hlt ⊢ <;> omega

/-- What holds of a node if it holds of the node's parts holds of every expression. -/
@[elab_as_elim]
theorem induction_parts {P : Expr → Prop} (node : ∀ e, (∀ p ∈ e.parts, P p) → P e) (e : Expr) :
    P e :=
  node e fun p _ => induction_parts node p
termination_by sizeOf e
decreasing_by exact sizeOf_lt_of_mem_parts ‹_›

/-- What holds of expressions in a row, if it holds of the parts of the first and of the others,
holds of all expressions in a row. -/
@[elab_as_elim]
theorem induction_row {P : List Expr → Prop} (nil : P [])
    (cons : ∀ e es, P e.parts → P es → P (e :: es)) (es : List Expr) : P es := by
  have hrow (l : List Expr) (h : ∀ p ∈ l, ∀ rest, P rest → P (p :: rest)) : P l := by
    induction l with
    | nil => exact nil
    | cons p l ih => exact h p List.mem_cons_self l (ih fun q hq => h q (List.mem_cons_of_mem _ hq))
  have hfirst (e : Expr) : ∀ rest, P rest → P (e :: rest) := by
    induction e using induction_parts with
    | node e ih => exact fun rest hrest => cons e rest (hrow e.parts ih) hrest
  exact hrow es fun e _ => hfirst e

/-! ## What stands in an expression -/

/-- The nodes of an expression are itself and the nodes of its parts. -/
theorem subterms_eq (e : Expr) : e.subterms = e :: e.parts.flatMap subterms := by
  cases e <;>
    simp [subterms, parts, subtermsAll_eq_flatMap, subtermsEntries_eq_flatMap, List.flatMap_assoc]

/-- **The nodes that are listed are all that stands in an expression.** -/
theorem mem_subterms_iff_contains {e x : Expr} : x ∈ e.subterms ↔ e.Contains x := by
  constructor
  · intro h
    induction e using induction_parts with
    | node e ih =>
      rw [subterms_eq, List.mem_cons] at h
      rcases h with rfl | h
      · exact .self x
      · obtain ⟨p, hp, hx⟩ := List.mem_flatMap.1 h
        exact .part hp (ih p hp hx)
  · intro h
    induction h with
    | self e =>
      rw [subterms_eq]
      exact List.mem_cons_self
    | part hp _ ih =>
      rw [subterms_eq]
      exact List.mem_cons_of_mem _ (List.mem_flatMap.2 ⟨_, hp, ih⟩)

theorem mem_calls_iff_contains {e : Expr} {n : String} :
    n ∈ e.calls ↔ ∃ callee args span, e.Contains (.call callee args span) ∧ callee.name = n := by
  rw [calls, List.mem_filterMap]
  constructor
  · rintro ⟨x, hx, hcallee⟩
    cases x with
    | call callee args span =>
      exact ⟨callee, args, span, mem_subterms_iff_contains.1 hx, Option.some.inj hcallee⟩
    | _ => cases hcallee
  · rintro ⟨callee, args, span, hx, rfl⟩
    exact ⟨_, mem_subterms_iff_contains.2 hx, rfl⟩

/-- What a node itself calls. -/
def callee? : Expr → Option String
  | .call callee _ _ => some callee.name
  | _ => none

/-- The calls in an expression are its own, if it is one, and those in its parts. -/
theorem calls_eq (e : Expr) : e.calls = e.callee?.toList ++ e.parts.flatMap calls := by
  cases e <;> simp [parts, callee?, List.flatMap_assoc]

theorem mem_calls_of_mem_parts {e p : Expr} (hp : p ∈ e.parts) {n : String} (hn : n ∈ p.calls) :
    n ∈ e.calls := by
  rw [calls_eq]
  exact List.mem_append_right _ (List.mem_flatMap.2 ⟨p, hp, hn⟩)

/-! ## New parts for a node -/

/-- The elements of a list two by two. -/
def pairs : List Expr → List (Expr × Expr)
  | key :: value :: rest => (key, value) :: pairs rest
  | _ => []

/-- The node with other parts in the places of its own. -/
def withParts : Expr → List Expr → Expr
  | .binary op _ _ span, [left, right] => .binary op left right span
  | .unary op _ span, [operand] => .unary op operand span
  | .test op _ _ capture span, [subject, pattern] => .test op subject pattern capture span
  | .call callee _ span, args => .call callee args span
  | .index _ _ span, [target, key] => .index target key span
  | .range _ _ span, [first, last] => .range first last span
  | .array _ span, elements => .array elements span
  | .dict _ span, parts => .dict (pairs parts) span
  | e, _ => e

theorem callee?_withParts (e : Expr) (parts : List Expr) :
    (e.withParts parts).callee? = e.callee? := by
  unfold withParts
  split <;> rfl

theorem bottomUpAllM_eq_mapM {m : Type → Type} [Monad m] [LawfulMonad m] (f : Expr → m Expr)
    (es : List Expr) : bottomUpAllM f es = es.mapM (bottomUpM f) := by
  induction es with
  | nil => simp [bottomUpAllM]
  | cons e es ih => simp [bottomUpAllM, ih]

theorem bottomUpEntriesM_eq_mapM {m : Type → Type} [Monad m] [LawfulMonad m] (f : Expr → m Expr)
    (entries : List (Expr × Expr)) :
    bottomUpEntriesM f entries =
      pairs <$> (entries.flatMap fun entry => [entry.1, entry.2]).mapM (bottomUpM f) := by
  induction entries with
  | nil => simp [bottomUpEntriesM, pairs]
  | cons entry entries ih =>
    obtain ⟨key, value⟩ := entry
    simp [bottomUpEntriesM, ih, pairs]

/-- **The parts are rebuilt first, then the node.** -/
theorem bottomUpM_eq {m : Type → Type} [Monad m] [LawfulMonad m] (f : Expr → m Expr) (e : Expr) :
    e.bottomUpM f = e.parts.mapM (bottomUpM f) >>= fun parts => f (e.withParts parts) := by
  cases e <;> simp [bottomUpM, parts, withParts, bottomUpAllM_eq_mapM, bottomUpEntriesM_eq_mapM]

/-- Rebuilding from the leaves up is rebuilding the parts first and then the node. -/
theorem bottomUp_eq (f : Expr → Expr) (e : Expr) :
    e.bottomUp f = f (e.withParts (e.parts.map (bottomUp f))) := by
  have hall (es : List Expr) : bottomUpAll f es = es.map (bottomUp f) := by
    induction es with
    | nil => rfl
    | cons e es ih => rw [bottomUpAll, ih, List.map_cons]
  have hentries (entries : List (Expr × Expr)) :
      bottomUpEntries f entries =
        pairs ((entries.flatMap fun entry => [entry.1, entry.2]).map (bottomUp f)) := by
    induction entries with
    | nil => rfl
    | cons entry entries ih => simp [bottomUpEntries, ih, pairs]
  cases e <;> simp [bottomUp, parts, withParts, hall, hentries]

theorem pairs_flatMap (entries : List (Expr × Expr)) :
    pairs (entries.flatMap fun entry => [entry.1, entry.2]) = entries := by
  induction entries with
  | nil => rfl
  | cons entry entries ih => simp [pairs, ih]

/-- The parts of an expression put back into it make it again. -/
theorem withParts_parts (e : Expr) : e.withParts e.parts = e := by
  cases e <;> simp [parts, withParts, pairs_flatMap]

theorem flatMap_pairs {parts : List Expr} {n : Nat} (h : parts.length = n * 2) :
    ((pairs parts).flatMap fun entry => [entry.1, entry.2]) = parts := by
  induction n generalizing parts with
  | zero =>
    obtain rfl := List.length_eq_zero_iff.1 (h.trans (Nat.zero_mul 2))
    rfl
  | succ n ih =>
    obtain ⟨key, value, rest, rfl⟩ : ∃ key value rest, parts = key :: value :: rest := by
      rcases parts with _ | ⟨key, _ | ⟨value, rest⟩⟩
      · simp at h
      · simp at h
        omega
      · exact ⟨key, value, rest, rfl⟩
    have hrest : rest.length = n * 2 := by
      simp only [List.length_cons] at h
      omega
    simp [pairs, ih hrest]

section New

variable {e : Expr} {parts : List Expr} (h : parts.length = e.parts.length)
include h

/-- Parts that are put in come out again. -/
theorem parts_withParts : (e.withParts parts).parts = parts := by
  cases e with
  | lit | ident =>
    obtain rfl := List.length_eq_zero_iff.1 h
    rfl
  | binary | test | index | range =>
    obtain ⟨first, second, rfl⟩ := List.length_eq_two.1 h
    rfl
  | unary =>
    obtain ⟨operand, rfl⟩ := List.length_eq_one_iff.1 h
    rfl
  | call | array => rfl
  | dict entries span =>
    refine flatMap_pairs (n := entries.length) (h.trans ?_)
    simp [Expr.parts]

theorem withParts_withParts {parts' : List Expr} (h' : parts'.length = e.parts.length) :
    (e.withParts parts).withParts parts' = e.withParts parts' := by
  cases e with
  | lit | ident | call | array | dict => rfl
  | binary | test | index | range =>
    obtain ⟨first, second, rfl⟩ := List.length_eq_two.1 h
    obtain ⟨first', second', rfl⟩ := List.length_eq_two.1 h'
    rfl
  | unary =>
    obtain ⟨operand, rfl⟩ := List.length_eq_one_iff.1 h
    obtain ⟨operand', rfl⟩ := List.length_eq_one_iff.1 h'
    rfl

/-- A node with new parts is rebuilt like the node, from the new parts. -/
theorem bottomUp_withParts (f : Expr → Expr) :
    (e.withParts parts).bottomUp f = f (e.withParts (parts.map (bottomUp f))) := by
  rw [bottomUp_eq, parts_withParts h, withParts_withParts h (by rw [List.length_map, h])]

theorem calls_withParts : (e.withParts parts).calls = e.callee?.toList ++ parts.flatMap calls := by
  rw [calls_eq, parts_withParts h, callee?_withParts]

end New

end EdgeScript.Expr
