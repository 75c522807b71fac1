import EdgeScript.Compiler
import EdgeScript.Proofs.Pass

/-!
# What may be left in a script

The markup has no loops, jumps and imports.  Which of them may still stand in a script, and what may
be written raw, changes from stage to stage: `Stmt.within` says it for the statements outside of the
bodies of functions.

`CleanResult` is what each stage promises: what it gives is as it should be, and if it fails, it
does not complain of something that is left over.  `Pass.Clean` is the form of it in which passes
are followed.
-/

set_option autoImplicit false

namespace EdgeScript

/-! ## Things left over -/

/-- Whether a construct is refused because an earlier stage should not have left it. -/
def Unsupported.isLeftover : Unsupported → Bool
  | .loopLeft | .breakLeft | .returnLeft | .requireLeft _ | .rawOutputArgument => true
  | _ => false

/-- Whether an error complains of something that an earlier stage should not have left. -/
def Error.isLeftover : Error → Bool
  | .unsupported what _ => what.isLeftover
  | _ => false

/-- The statements that may stand at a place; in a loop there may always be a `break`. -/
structure Allowed where
  loops : Bool
  breaks : Bool
  returns : Bool
  requires : Bool
deriving DecidableEq, Repr

namespace Allowed

/-- All that is allowed is allowed there too. -/
instance : LE Allowed where
  le a b := a.loops ≤ b.loops ∧ a.breaks ≤ b.breaks ∧ a.returns ≤ b.returns ∧
    a.requires ≤ b.requires

/-- Nothing that the markup has no word for. -/
def nothing : Allowed := ⟨false, false, false, false⟩

/-- What a unit may have outside of its loops and functions. -/
def unit : Allowed := ⟨true, false, false, true⟩

/-- The same without imports. -/
def expanded : Allowed := ⟨true, false, false, false⟩

/-- What the body of a loop may have. -/
def inLoop (allowed : Allowed) : Allowed := { allowed with breaks := true }

theorem le_refl (a : Allowed) : a ≤ a :=
  ⟨Bool.le_refl _, Bool.le_refl _, Bool.le_refl _, Bool.le_refl _⟩

theorem le_trans {a b c : Allowed} (h : a ≤ b) (h' : b ≤ c) : a ≤ c :=
  ⟨fun ha => h'.1 (h.1 ha), fun ha => h'.2.1 (h.2.1 ha), fun ha => h'.2.2.1 (h.2.2.1 ha),
    fun ha => h'.2.2.2 (h.2.2.2 ha)⟩

/-- In a loop all is allowed that is allowed around it. -/
theorem le_inLoop (a : Allowed) : a ≤ a.inLoop :=
  ⟨Bool.le_refl _, Bool.le_true _, Bool.le_refl _, Bool.le_refl _⟩

theorem inLoop_mono {a b : Allowed} (h : a ≤ b) : a.inLoop ≤ b.inLoop :=
  ⟨h.1, Bool.le_refl _, h.2.2⟩

end Allowed

/-- Whether an atom may stand at a place; raw output is written from literals only. -/
def Atom.within (allowed : Allowed) : Atom → Bool
  | .ret .. => allowed.returns
  | .output .printRaw args _ => args.all fun e => e.literal?.isSome
  | _ => true

namespace Stmt

mutual

/-- Whether all of a statement, apart from the bodies of functions, may stand at a place. -/
def within (allowed : Allowed) : Stmt → Bool
  | .atom a => a.within allowed
  | .function .. => true
  | .ifChain branches (some body) _ => withinBranches allowed branches && withinAll allowed body
  | .ifChain branches none _ => withinBranches allowed branches
  | .forLoop _ _ body _ => allowed.loops && withinAll allowed.inLoop body
  | .breakLoop _ => allowed.breaks
  | .attempt body (some handler) _ => withinAll allowed body && withinAll allowed handler
  | .attempt body none _ => withinAll allowed body
  | .require .. => allowed.requires
  | .block body _ => withinAll allowed body

/-- Whether all of the statements may stand at a place. -/
def withinAll (allowed : Allowed) : List Stmt → Bool
  | [] => true
  | s :: rest => within allowed s && withinAll allowed rest

/-- Whether the bodies of branches may stand at a place. -/
def withinBranches (allowed : Allowed) : List (Branch Stmt) → Bool
  | [] => true
  | ⟨_, body, _⟩ :: rest => withinAll allowed body && withinBranches allowed rest

end

theorem withinAll_append (allowed : Allowed) (first second : List Stmt) :
    withinAll allowed (first ++ second) =
      (withinAll allowed first && withinAll allowed second) := by
  induction first with
  | nil => rw [List.nil_append, withinAll, Bool.true_and]
  | cons s rest ih => rw [List.cons_append, withinAll, withinAll, ih, Bool.and_assoc]

/-- Nothing is out of place in statements if nothing is in any of them. -/
theorem withinAll_eq_true_iff {allowed : Allowed} {stmts : List Stmt} :
    withinAll allowed stmts = true ↔ ∀ s ∈ stmts, within allowed s = true := by
  induction stmts with
  | nil => simp [withinAll]
  | cons s rest ih => rw [withinAll, Bool.and_eq_true, ih, List.forall_mem_cons]

/-- The same for branches, whose conditions have no place to mind. -/
theorem withinBranches_eq_true_iff {allowed : Allowed} {branches : List (Branch Stmt)} :
    withinBranches allowed branches = true ↔ ∀ b ∈ branches, withinAll allowed b.body = true := by
  induction branches with
  | nil => simp [withinBranches]
  | cons b rest ih => rw [withinBranches, Bool.and_eq_true, ih, List.forall_mem_cons]

/-- A chain may stand where its branches may and what is done otherwise, be it nothing. -/
theorem within_ifChain (allowed : Allowed) (branches : List (Branch Stmt))
    (otherwise : Option (List Stmt)) (span : Span) :
    within allowed (.ifChain branches otherwise span) =
      (withinBranches allowed branches && withinAll allowed (otherwise.getD [])) := by
  cases otherwise with
  | none => rw [within, Option.getD_none, withinAll, Bool.and_true]
  | some body => rw [within, Option.getD_some]

/-- An attempt may stand where its body may and its handler, if it has one. -/
theorem within_attempt (allowed : Allowed) (body : List Stmt) (handler : Option (List Stmt))
    (span : Span) :
    within allowed (.attempt body handler span) =
      (withinAll allowed body && withinAll allowed (handler.getD [])) := by
  cases handler with
  | none => rw [within, Option.getD_none, withinAll, Bool.and_true]
  | some handler => rw [within, Option.getD_some]

end Stmt

theorem Atom.within_mono {a b : Allowed} (h : a ≤ b) {atom : Atom} (ha : atom.within a = true) :
    atom.within b = true := by
  cases atom with
  | ret => exact h.2.2.1 ha
  | output kind args span => cases kind <;> exact ha
  | _ => rfl

namespace Stmt

mutual

/-- What is in place stays so where more is allowed. -/
theorem within_mono {a b : Allowed} (h : a ≤ b) :
    ∀ {s}, within a s = true → within b s = true
  | .atom _, hs => by
    rw [within] at hs ⊢
    exact Atom.within_mono h hs
  | .function .., _ => by rw [within]
  | .ifChain branches (some body) _, hs => by
    rw [within, Bool.and_eq_true] at hs ⊢
    exact ⟨withinBranches_mono h hs.1, withinAll_mono h hs.2⟩
  | .ifChain branches none _, hs => by
    rw [within] at hs ⊢
    exact withinBranches_mono h hs
  | .forLoop _ _ body _, hs => by
    rw [within, Bool.and_eq_true] at hs ⊢
    exact ⟨h.1 hs.1, withinAll_mono (Allowed.inLoop_mono h) hs.2⟩
  | .breakLoop _, hs => by
    rw [within] at hs ⊢
    exact h.2.1 hs
  | .attempt body (some handler) _, hs => by
    rw [within, Bool.and_eq_true] at hs ⊢
    exact ⟨withinAll_mono h hs.1, withinAll_mono h hs.2⟩
  | .attempt body none _, hs => by
    rw [within] at hs ⊢
    exact withinAll_mono h hs
  | .require .., hs => by
    rw [within] at hs ⊢
    exact h.2.2.2 hs
  | .block body _, hs => by
    rw [within] at hs ⊢
    exact withinAll_mono h hs

theorem withinAll_mono {a b : Allowed} (h : a ≤ b) :
    ∀ {stmts}, withinAll a stmts = true → withinAll b stmts = true
  | [], _ => by rw [withinAll]
  | s :: rest, hs => by
    rw [withinAll, Bool.and_eq_true] at hs ⊢
    exact ⟨within_mono h hs.1, withinAll_mono h hs.2⟩

theorem withinBranches_mono {a b : Allowed} (h : a ≤ b) :
    ∀ {branches}, withinBranches a branches = true → withinBranches b branches = true
  | [], _ => by rw [withinBranches]
  | ⟨_, body, _⟩ :: rest, hs => by
    rw [withinBranches, Bool.and_eq_true] at hs ⊢
    exact ⟨withinAll_mono h hs.1, withinBranches_mono h hs.2⟩

end

end Stmt

/-! ## Results -/

section Results

variable {σ α β : Type}

/-- A result is as `P` says, or it is an error that complains of nothing left over. -/
def CleanResult (r : Except Error α) (P : α → Prop) : Prop :=
  match r with
  | .ok a => P a
  | .error e => e.isLeftover = false

theorem CleanResult.mono {r : Except Error α} {P Q : α → Prop} (h : CleanResult r P)
    (hPQ : ∀ a, P a → Q a) : CleanResult r Q := by
  cases r with
  | error e => exact h
  | ok a => exact hPQ a h

theorem CleanResult.map {r : Except Error α} {f : α → β} {Q : β → Prop}
    (h : CleanResult r fun a => Q (f a)) : CleanResult (r.map f) Q := by
  cases r with
  | error e => exact h
  | ok a => exact h

/-- Two steps in a row fail with no leftover if neither does. -/
theorem CleanResult.bind {r : Except Error α} {f : α → Except Error β} {P : α → Prop}
    {Q : β → Prop} (h : CleanResult r P) (hf : ∀ a, P a → CleanResult (f a) Q) :
    CleanResult (r >>= f) Q := by
  cases r with
  | error e => exact h
  | ok a => exact hf a h

namespace Pass

/-- What a pass gives is as `P` says, and it never complains of anything left over. -/
structure Clean (x : Pass σ α) (P : α → Prop) : Prop where
  run : ∀ s, CleanResult (outcome x s).1 P

variable {x : Pass σ α} {f : α → Pass σ β} {P : α → Prop} {Q : β → Prop}

theorem clean_pure {a : α} (h : P a) : Clean (pure a : Pass σ α) P := ⟨fun _ => h⟩

theorem clean_throw {e : Error} (h : e.isLeftover = false) : Clean (throw e : Pass σ α) P :=
  ⟨fun _ => h⟩

/-- A computation without a state. -/
theorem clean_lift {r : Except Error α} (h : CleanResult r P) : Clean (liftM r : Pass σ α) P := by
  refine ⟨fun s => ?_⟩
  cases r with
  | error e => exact h
  | ok a => exact h

theorem clean_get : Clean (get : Pass σ σ) fun _ => True := ⟨fun _ => trivial⟩

theorem clean_set (s : σ) : Clean (set s : Pass σ PUnit) fun _ => True := ⟨fun _ => trivial⟩

theorem clean_modify (g : σ → σ) : Clean (modify g : Pass σ PUnit) fun _ => True :=
  ⟨fun _ => trivial⟩

theorem Clean.mono {P' : α → Prop} (h : Clean x P) (hP : ∀ a, P a → P' a) : Clean x P' :=
  ⟨fun s => (h.run s).mono hP⟩

/-- The same for two steps of a pass. -/
theorem Clean.bind (hx : Clean x P) (hf : ∀ a, P a → Clean (f a) Q) : Clean (x >>= f) Q := by
  refine ⟨fun s => ?_⟩
  have h := hx.run s
  rw [outcome_bind]
  rcases hout : outcome x s with ⟨_ | a, t⟩ <;> rw [hout] at h
  · exact h
  · exact (hf a h).run t

/-- Nothing needs to be known of what the first pass gives. -/
theorem Clean.seq (hx : Clean x P) (hf : ∀ a, Clean (f a) Q) : Clean (x >>= f) Q :=
  hx.bind fun a _ => hf a

end Pass

end Results

end EdgeScript
