import EdgeScript.Note

/-!
# What a pass gives

A `Pass` is run from a state and ends in one, with a result or with an error.  `Gives` and `Fails`
are the two cases, and the lemmas here take a pass apart into its steps: a sequence gives what its
second part gives from where the first one ended (`gives_bind`), and fails where one of its parts
fails (`fails_bind`).  Proofs about passes use these and never unfold the monad.

`Ensures` follows what holds of the state and of the result through a pass that may fail.
-/

set_option autoImplicit false

namespace EdgeScript

namespace Pass

variable {σ α β : Type}

/-- The result or the error of a pass run from a state, and the state it ends in. -/
def outcome (x : Pass σ α) (s : σ) : Except Error α × σ :=
  x.run.run s

/-- The pass, run from the state `s`, ends in `s'` with the result `a`. -/
def Gives (x : Pass σ α) (s : σ) (a : α) (s' : σ) : Prop :=
  outcome x s = (.ok a, s')

/-- The pass, run from the state `s`, ends in `s'` with an error. -/
def Fails (x : Pass σ α) (s : σ) (e : Error) (s' : σ) : Prop :=
  outcome x s = (.error e, s')

/-- What two steps in a row end with: the second goes on from where the first has stopped. -/
theorem outcome_bind (x : Pass σ α) (f : α → Pass σ β) (s : σ) :
    outcome (x >>= f) s =
      match outcome x s with
      | (.ok a, s') => outcome (f a) s'
      | (.error e, s') => (.error e, s') := by
  simp only [outcome, ExceptT.run_bind, StateT.run_bind]
  rcases x.run.run s with ⟨_ | _, _⟩ <;> rfl

theorem outcome_map (f : α → β) (x : Pass σ α) (s : σ) :
    outcome (f <$> x) s = ((outcome x s).1.map f, (outcome x s).2) := by
  rw [← bind_pure_comp, outcome_bind]
  rcases outcome x s with ⟨_ | a, t⟩ <;> rfl

/-- Two steps in a row give what the second gives behind the first. -/
@[simp]
theorem gives_bind {x : Pass σ α} {f : α → Pass σ β} {s s' : σ} {b : β} :
    Gives (x >>= f) s b s' ↔ ∃ a t, Gives x s a t ∧ Gives (f a) t b s' := by
  simp only [Gives, outcome_bind]
  rcases outcome x s with ⟨_ | a, t⟩
  · simp
  · simp [and_assoc]

/-- Two steps in a row fail where the first does, or where the second does behind the first. -/
theorem fails_bind {x : Pass σ α} {f : α → Pass σ β} {s s' : σ} {e : Error} :
    Fails (x >>= f) s e s' ↔
      Fails x s e s' ∨ ∃ a t, Gives x s a t ∧ Fails (f a) t e s' := by
  simp only [Fails, Gives, outcome_bind]
  rcases outcome x s with ⟨_ | a, t⟩
  · simp
  · simp [and_assoc]

theorem Fails.bind {x : Pass σ α} {s s' : σ} {e : Error} (h : Fails x s e s')
    (f : α → Pass σ β) : Fails (x >>= f) s e s' :=
  fails_bind.2 (.inl h)

theorem Gives.bind_fails {x : Pass σ α} {f : α → Pass σ β} {s t s' : σ} {a : α} {e : Error}
    (h : Gives x s a t) (hf : Fails (f a) t e s') : Fails (x >>= f) s e s' :=
  fails_bind.2 (.inr ⟨a, t, h, hf⟩)

@[simp]
theorem gives_pure {a b : α} {s s' : σ} : Gives (pure a : Pass σ α) s b s' ↔ b = a ∧ s' = s := by
  constructor
  · intro h
    cases h
    exact ⟨rfl, rfl⟩
  · rintro ⟨rfl, rfl⟩
    rfl

@[simp]
theorem gives_get {s t s' : σ} : Gives (get : Pass σ σ) s t s' ↔ t = s ∧ s' = s := by
  constructor
  · intro h
    cases h
    exact ⟨rfl, rfl⟩
  · rintro ⟨rfl, rfl⟩
    rfl

@[simp high]
theorem gives_get_bind {f : σ → Pass σ β} {s s' : σ} {b : β} :
    Gives (get >>= f) s b s' ↔ Gives (f s) s b s' := by
  simp only [gives_bind, gives_get, and_assoc, exists_and_left, exists_eq_left]

/-- A result that is changed afterwards leaves the state as it was. -/
@[simp]
theorem gives_map {f : α → β} {x : Pass σ α} {s s' : σ} {b : β} :
    Gives (f <$> x) s b s' ↔ ∃ a, Gives x s a s' ∧ b = f a := by
  rw [← bind_pure_comp, gives_bind]
  constructor
  · rintro ⟨a, t, hx, hf⟩
    obtain ⟨rfl, rfl⟩ := gives_pure.1 hf
    exact ⟨a, hx, rfl⟩
  · rintro ⟨a, hx, rfl⟩
    exact ⟨a, s', hx, gives_pure.2 ⟨rfl, rfl⟩⟩

@[simp]
theorem fails_map {f : α → β} {x : Pass σ α} {s s' : σ} {e : Error} :
    Fails (f <$> x) s e s' ↔ Fails x s e s' := by
  rw [← bind_pure_comp, fails_bind]
  constructor
  · rintro (hx | ⟨a, t, -, hf⟩)
    · exact hx
    · cases hf
  · exact .inl

@[simp]
theorem gives_set {s t s' : σ} {u : PUnit} : Gives (set t : Pass σ PUnit) s u s' ↔ s' = t := by
  constructor
  · intro h
    cases h
    rfl
  · rintro rfl
    rfl

@[simp]
theorem gives_modify {f : σ → σ} {s s' : σ} {u : PUnit} :
    Gives (modify f : Pass σ PUnit) s u s' ↔ s' = f s := by
  constructor
  · intro h
    cases h
    rfl
  · rintro rfl
    rfl

@[simp]
theorem not_gives_throw {e : Error} {s s' : σ} {a : α} : ¬ Gives (throw e : Pass σ α) s a s' :=
  nofun

@[simp]
theorem fails_throw {e e' : Error} {s s' : σ} :
    Fails (throw e : Pass σ α) s e' s' ↔ e' = e ∧ s' = s := by
  constructor
  · intro h
    cases h
    exact ⟨rfl, rfl⟩
  · rintro ⟨rfl, rfl⟩
    rfl

/-- A computation without a state leaves the state alone. -/
@[simp]
theorem gives_lift {x : Except Error α} {s s' : σ} {a : α} :
    Gives (liftM x : Pass σ α) s a s' ↔ x = .ok a ∧ s' = s := by
  constructor
  · intro h
    cases x with
    | error e => cases h
    | ok b =>
      cases h
      exact ⟨rfl, rfl⟩
  · rintro ⟨rfl, rfl⟩
    rfl

/-- A pass ends in one way only. -/
theorem Gives.unique {x : Pass σ α} {s t t' : σ} {a a' : α} (h : Gives x s a t)
    (h' : Gives x s a' t') : a = a' ∧ t = t' := by
  cases h.symm.trans h'
  exact ⟨rfl, rfl⟩

/-- Elements that stay one by one stay in a row. -/
theorem gives_mapM_of_mem {f : α → Pass σ α} {s : σ} {l : List α} (h : ∀ a ∈ l, Gives (f a) s a s) :
    Gives (l.mapM f) s l s := by
  induction l with
  | nil => exact gives_pure.2 ⟨rfl, rfl⟩
  | cons a l ih =>
    obtain ⟨ha, hl⟩ := List.forall_mem_cons.1 h
    rw [List.mapM_cons]
    exact gives_bind.2 ⟨a, s, ha, gives_bind.2 ⟨l, s, ih hl, gives_pure.2 ⟨rfl, rfl⟩⟩⟩

/-- A step for each element gives as many results as there are elements. -/
theorem length_of_gives_mapM {f : α → Pass σ β} {s t : σ} {l : List α} {ys : List β}
    (h : Gives (l.mapM f) s ys t) : ys.length = l.length := by
  induction l generalizing s t ys with
  | nil =>
    obtain ⟨rfl, -⟩ := gives_pure.1 h
    rfl
  | cons a l ih =>
    rw [List.mapM_cons] at h
    obtain ⟨b, u, -, hrest⟩ := gives_bind.1 h
    obtain ⟨bs, v, hl, hend⟩ := gives_bind.1 hrest
    obtain ⟨rfl, -⟩ := gives_pure.1 hend
    rw [List.length_cons, List.length_cons, ih hl]

/-! ## Evaluation -/

/-- Whether there is a result, and it is as `p` says. -/
def succeeds (r : Except Error α) (p : α → Bool) : Bool :=
  match r with
  | .ok a => p a
  | .error _ => false

/-- A test that is passed by a result tells that there is one. -/
theorem exists_of_succeeds {r : Except Error α} {p : α → Bool} (h : succeeds r p = true) :
    ∃ a, r = .ok a ∧ p a = true := by
  cases r with
  | error e => cases h
  | ok a => exact ⟨a, rfl, h⟩

/-- The same for a pass that is run from a state. -/
theorem exists_gives_of_succeeds {x : Pass σ α} {s : σ} {p : α → Bool}
    (h : succeeds (outcome x s).1 p = true) : ∃ a t, Gives x s a t ∧ p a = true := by
  obtain ⟨a, ha, hp⟩ := exists_of_succeeds h
  exact ⟨a, (outcome x s).2, Prod.ext ha rfl, hp⟩

/-! ## What a pass ensures -/

section Ensures

variable {I : σ → Prop}

/-- From a state as `I` says, a pass that gives something ends in such a state, and gives what `P`
says. -/
structure Ensures (I : σ → Prop) (x : Pass σ α) (P : α → Prop) : Prop where
  run : ∀ {s t : σ} {a : α}, I s → Gives x s a t → I t ∧ P a

variable {x : Pass σ α} {f : α → Pass σ β} {P : α → Prop} {Q : β → Prop}

theorem ensures_true (x : Pass σ α) : Ensures (fun _ => True) x fun _ => True :=
  ⟨fun _ _ => ⟨trivial, trivial⟩⟩

theorem ensures_pure {a : α} (h : P a) : Ensures I (pure a) P := by
  refine ⟨fun hs hrun => ?_⟩
  obtain ⟨rfl, rfl⟩ := gives_pure.1 hrun
  exact ⟨hs, h⟩

theorem ensures_throw {e : Error} : Ensures I (throw e) P :=
  ⟨fun _ hrun => absurd hrun not_gives_throw⟩

theorem ensures_modify {g : σ → σ} (h : ∀ s, I s → I (g s)) :
    Ensures I (modify g) fun _ => True := by
  refine ⟨fun hs hrun => ?_⟩
  rw [gives_modify.1 hrun]
  exact ⟨h _ hs, trivial⟩

/-- A step that looks at the state may rely on the invariant. -/
theorem ensures_get_bind {f : σ → Pass σ β} (h : ∀ s, I s → Ensures I (f s) Q) :
    Ensures I (get >>= f) Q :=
  ⟨fun hs hrun => (h _ hs).run hs (gives_get_bind.1 hrun)⟩

/-- A result from outside of the pass leaves the invariant alone. -/
theorem ensures_lift {r : Except Error α} (h : ∀ a, r = .ok a → P a) : Ensures I (liftM r) P := by
  refine ⟨fun hs hrun => ?_⟩
  obtain ⟨hr, rfl⟩ := gives_lift.1 hrun
  exact ⟨hs, h _ hr⟩

/-- What is ensured of a first step may be relied on in the second. -/
theorem Ensures.bind (hx : Ensures I x P) (hf : ∀ a, P a → Ensures I (f a) Q) :
    Ensures I (x >>= f) Q := by
  refine ⟨fun hs hrun => ?_⟩
  obtain ⟨a, t, hfirst, hrest⟩ := gives_bind.1 hrun
  obtain ⟨ht, ha⟩ := hx.run hs hfirst
  exact (hf a ha).run ht hrest

theorem Ensures.mono {P' : α → Prop} (h : Ensures I x P) (hP : ∀ a, P a → P' a) :
    Ensures I x P' :=
  ⟨fun hs hrun => (h.run hs hrun).imp_right (hP _)⟩

/-- The invariant is kept along a list, and each result is as its step ensures. -/
theorem ensures_mapM_of_mem {f : α → Pass σ β} {l : List α} (h : ∀ x ∈ l, Ensures I (f x) Q) :
    Ensures I (l.mapM f) fun ys => ∀ y ∈ ys, Q y := by
  induction l with
  | nil => exact ensures_pure (by simp)
  | cons x l ih =>
    obtain ⟨hx, hl⟩ := List.forall_mem_cons.1 h
    rw [List.mapM_cons]
    refine hx.bind fun y hy => (ih hl).bind fun ys hys => ensures_pure ?_
    exact List.forall_mem_cons.2 ⟨hy, hys⟩

theorem ensures_mapM {f : α → Pass σ β} (h : ∀ x, Ensures I (f x) Q) (l : List α) :
    Ensures I (l.mapM f) fun ys => ∀ y ∈ ys, Q y :=
  ensures_mapM_of_mem fun x _ => h x

theorem ensures_optionMapM {f : α → Pass σ β} (h : ∀ x, Ensures I (f x) Q) (o : Option α) :
    Ensures I (o.mapM f) fun y => ∀ b ∈ y, Q b := by
  cases o with
  | none => exact ensures_pure (by simp)
  | some x => exact (h x).bind fun y hy => ensures_pure (by simpa using hy)

end Ensures

end Pass

end EdgeScript
