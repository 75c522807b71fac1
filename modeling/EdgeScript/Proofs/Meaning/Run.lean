import Mathlib.Logic.Function.Basic
import EdgeScript.Proofs.Meaning.Value
import EdgeScript.Stmt

/-!
# What statements do

The reference execution of scripts, over any `Interp`.  A run starts from a `Store`, which holds the
values of all variables, and comes to an `Outcome`: the events that it has caused, the store it
leaves, and whether it has met a `break` that ends the loop around it.

* A statement that contains no other one causes one event with its evaluated expressions;
  declarations and assignments also change the store.
* A chain runs the body of the first branch whose condition holds, or else what it does otherwise.
* A loop runs its body once for each element of its collection, in order.  Inside the body the
  loop's variable reads as the element, whatever the store holds: the `Scope` goes before the store,
  and an inner loop over the same name goes before an outer one.
* An attempt causes one event made of the events of its body and of those of its handler, each run
  from the store before the attempt; the run goes on from what the body leaves.
* A declaration of a function does nothing.
-/

set_option autoImplicit false

namespace EdgeScript

/-- The values of all variables. -/
abbrev Store (V : Type) := String → V

/-- The variables of the loops around a place. -/
abbrev Scope (V : Type) := String → Option V

namespace Scope

variable {V : Type}

/-- No loop around. -/
def empty : Scope V := fun _ => none

/-- The scope inside a loop. -/
def bind (scope : Scope V) (x : String) (v : V) : Scope V :=
  Function.update scope x (some v)

/-- What variables read as: loop variables as their elements, all others as in the store. -/
def reads (scope : Scope V) (σ : Store V) : String → V :=
  fun x => (scope x).getD (σ x)

@[simp]
theorem empty_reads (σ : Store V) : (empty : Scope V).reads σ = σ := rfl

theorem bind_bind (scope : Scope V) (x : String) (v w : V) :
    (scope.bind x v).bind x w = scope.bind x w :=
  Function.update_idem _ _ _

/-- Variables that differ can be bound in any order. -/
theorem bind_comm (scope : Scope V) {x y : String} (h : y ≠ x) (v w : V) :
    (scope.bind x v).bind y w = (scope.bind y w).bind x v :=
  Function.update_comm h.symm _ _ _

end Scope

/-- What can be seen of a run. -/
inductive Event (V : Type) where
  | declared (name : String) (value : Option V)
  | assigned (name : String) (key : Option V) (value : V)
  | evaluated (value : V)
  | returned (value : Option V)
  | included (kind : InclusionKind) (options : List (OptionKey × V))
  | wrote (kind : OutputKind) (args : List V)
  | commented (text : String)
  | required (path : String) (force : Bool)
  /-- What the body of an attempt does, and what its handler would do. -/
  | tried (body : List (Event V)) (handler : Option (List (Event V)))

/-- What a run comes to. -/
structure Outcome (V : Type) where
  events : List (Event V)
  store : Store V
  /-- Whether the run has met a `break` of the loop around it. -/
  broke : Bool

namespace Outcome

variable {V : Type}

/-- Nothing is done. -/
def idle (σ : Store V) : Outcome V := ⟨[], σ, false⟩

/-- One run and, unless it has met a `break`, another one after it. -/
def andThen (r : Outcome V) (next : Store V → Outcome V) : Outcome V :=
  if r.broke then r
  else ⟨r.events ++ (next r.store).events, (next r.store).store, (next r.store).broke⟩

/-- The run as seen from outside of the loop that its `break` ends. -/
def leave (r : Outcome V) : Outcome V := { r with broke := false }

@[simp]
theorem andThen_idle (r : Outcome V) : r.andThen idle = r := by
  obtain ⟨events, store, _ | _⟩ := r
  · simp [andThen, idle]
  · rfl

/-- Behind a `break` nothing is run. -/
theorem andThen_of_broke {r : Outcome V} (h : r.broke = true) (next : Store V → Outcome V) :
    r.andThen next = r :=
  if_pos h

/-- Runs one after the other can be grouped in any way. -/
theorem andThen_assoc (r : Outcome V) (next last : Store V → Outcome V) :
    (r.andThen next).andThen last = r.andThen fun σ => (next σ).andThen last := by
  obtain ⟨events, store, _ | _⟩ := r
  · rcases h : next store with ⟨events', store', _ | _⟩
    · simp [andThen, h]
    · simp [andThen, h]
  · rfl

/-- A sequence of two runs meets no `break` if and only if neither of them does. -/
theorem broke_andThen {r : Outcome V} {next : Store V → Outcome V} :
    (r.andThen next).broke = false ↔ r.broke = false ∧ (next r.store).broke = false := by
  obtain ⟨events, store, _ | _⟩ := r
  · simp [andThen]
  · simp [andThen]

theorem store_andThen {r : Outcome V} (h : r.broke = false) (next : Store V → Outcome V) :
    (r.andThen next).store = (next r.store).store := by
  simp [andThen, h]

end Outcome

namespace Interp

variable {V : Type} (I : Interp V)

/-- The run of a statement that contains no other one; `ρ` is what variables read as. -/
def execAtom (ρ : String → V) (σ : Store V) : Atom → Outcome V
  | .declare name value _ =>
    let v := value.map (I.eval ρ)
    ⟨[.declared name.name v], Function.update σ name.name (v.getD I.unset), false⟩
  | .assign target none value _ =>
    let v := I.eval ρ value
    ⟨[.assigned target.name none v], Function.update σ target.name v, false⟩
  | .assign target (some key) value _ =>
    let k := I.eval ρ key
    let v := I.eval ρ value
    ⟨[.assigned target.name (some k) v],
      Function.update σ target.name (I.update (σ target.name) k v), false⟩
  | .expr e => ⟨[.evaluated (I.eval ρ e)], σ, false⟩
  | .ret value _ => ⟨[.returned (value.map (I.eval ρ))], σ, false⟩
  | .inclusion kind options _ =>
    ⟨[.included kind (options.map fun o => (o.key, I.eval ρ o.value))], σ, false⟩
  | .output kind args _ => ⟨[.wrote kind (args.map (I.eval ρ))], σ, false⟩
  | .comment text _ => ⟨[.commented text], σ, false⟩

/-- The rounds of a loop, one for each element, up to one that meets a `break`. -/
def execRounds (round : V → Store V → Outcome V) : List V → Store V → Outcome V
  | [], σ => .idle σ
  | v :: vs, σ =>
    if (round v σ).broke then (round v σ).leave
    else (round v σ).andThen (execRounds round vs)

mutual

/-- The run of a statement. -/
def exec (scope : Scope V) (σ : Store V) : Stmt → Outcome V
  | .atom a => I.execAtom (scope.reads σ) σ a
  | .function _ _ _ _ _ => .idle σ
  | .ifChain branches (some body) _ => execBranches scope σ (execAll scope σ body) branches
  | .ifChain branches none _ => execBranches scope σ (.idle σ) branches
  | .forLoop var collection body _ =>
    execRounds (fun v τ => execAll (scope.bind (loopVariable var) v) τ body)
      (I.elements (I.eval (scope.reads σ) collection)) σ
  | .breakLoop _ => ⟨[], σ, true⟩
  | .attempt body (some handler) _ =>
    let r := execAll scope σ body
    { r with events := [.tried r.events (some (execAll scope σ handler).events)] }
  | .attempt body none _ =>
    let r := execAll scope σ body
    { r with events := [.tried r.events none] }
  | .require path force _ => ⟨[.required path force], σ, false⟩
  | .block body _ => execAll scope σ body

/-- The run of a sequence of statements. -/
def execAll (scope : Scope V) (σ : Store V) : List Stmt → Outcome V
  | [] => .idle σ
  | s :: rest => (exec scope σ s).andThen fun τ => execAll scope τ rest

/-- The run of a chain of conditions, given the one of what it does otherwise. -/
def execBranches (scope : Scope V) (σ : Store V) (otherwise : Outcome V) :
    List (Branch Stmt) → Outcome V
  | [] => otherwise
  | ⟨cond, body, _⟩ :: rest =>
    if I.truth (I.eval (scope.reads σ) cond) then execAll scope σ body
    else execBranches scope σ otherwise rest

end

@[simp]
theorem execAll_nil (scope : Scope V) (σ : Store V) : I.execAll scope σ [] = .idle σ := rfl

/-- Statements are run from the left to the right. -/
theorem execAll_append (scope : Scope V) (σ : Store V) (a b : List Stmt) :
    I.execAll scope σ (a ++ b) = (I.execAll scope σ a).andThen fun τ => I.execAll scope τ b := by
  induction a generalizing σ with
  | nil => rfl
  | cons s rest ih =>
    rw [List.cons_append, execAll, execAll, Outcome.andThen_assoc]
    congr 1
    funext τ
    exact ih τ

@[simp]
theorem execAll_singleton (scope : Scope V) (σ : Store V) (s : Stmt) :
    I.execAll scope σ [s] = I.exec scope σ s := by
  rw [execAll]
  exact Outcome.andThen_idle _

/-- An atom whose expressions are replaced by others does the same, if these have the same
values. -/
theorem execAtom_mapExprs {f : Expr → Expr} {ρ ρ' : String → V}
    (hf : ∀ e, I.eval ρ (f e) = I.eval ρ' e) (σ : Store V) (a : Atom) :
    I.execAtom ρ σ (a.mapExprs f) = I.execAtom ρ' σ a := by
  have hmap : I.eval ρ ∘ f = I.eval ρ' := funext hf
  cases a with
  | assign target key value span =>
    cases key <;> simp [Atom.mapExprs, execAtom, hf]
  | inclusion kind options span =>
    simp [Atom.mapExprs, execAtom, hf, Function.comp_def]
  | _ => simp [Atom.mapExprs, execAtom, hf, hmap]

/-- No atom meets a `break`. -/
theorem broke_execAtom (ρ : String → V) (σ : Store V) (a : Atom) :
    (I.execAtom ρ σ a).broke = false := by
  fun_cases execAtom I ρ σ a <;> rfl

end Interp

end EdgeScript
