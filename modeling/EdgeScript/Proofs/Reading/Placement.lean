import EdgeScript.Proofs.Reading.Expr
import EdgeScript.Proofs.Rule.Rewriting

/-!
# What stands where

`Stmt.Placed` says of all of a statement that everything in it has its place: a `break` in a loop of
the same function, a `return` in a function, a capture in the condition of a branch.  It says of the
lists in a statement that they are as the later passes take them to be: the options of an inclusion
are different ones and `src` is among them, the parameters with defaults come last, and raw output
is written from literals.

Where a statement stands is its `Grammar.Place`, which every loop and every function changes for
what is inside.
-/

set_option autoImplicit false

namespace EdgeScript

open Grammar (Place)

namespace Grammar.Place

/-- Inside of a loop. -/
def looped (place : Place) : Place := { place with inLoop := true }

/-- Inside of a function; its loops are those of its own body. -/
def function : Place := ⟨false, true⟩

end Grammar.Place

/-- A condition captures at most once, by a match. -/
def Expr.IsCondition (e : Expr) : Prop := e.captureCount ≤ 1 ∧ e.CapturesOnMatches

/-- No parameter without a default follows one that has a default. -/
def Param.DefaultsLast (params : List Param) : Prop :=
  params.Pairwise fun p q => p.default?.isSome = true → q.default?.isSome = true

/-- The options are different ones, and the source is among them. -/
def InclusionOption.Complete (options : List InclusionOption) : Prop :=
  (options.map InclusionOption.key).Nodup ∧ OptionKey.src ∈ options.map InclusionOption.key

namespace Atom

/-- What an atom asks of its place and of what is listed in it. -/
def Allowed (place : Place) : Atom → Prop
  | .ret .. => place.inFunction = true
  | .inclusion _ options _ => InclusionOption.Complete options
  | .output .printRaw args _ => ∀ e ∈ args, ∃ value span, e = .lit value span
  | _ => True

/-- The atom may stand at the place, and captures nothing. -/
def Placed (place : Place) (a : Atom) : Prop :=
  a.Allowed place ∧ ∀ e ∈ a.exprs, e.captureCount = 0

end Atom

namespace Stmt

mutual

/-- Everything in a statement at the place has its place. -/
def Placed (place : Place) : Stmt → Prop
  | .atom a => a.Placed place
  | .function _ params _ body _ => Param.DefaultsLast params ∧ PlacedAll .function body
  | .ifChain branches (some body) _ => PlacedBranches place branches ∧ PlacedAll place body
  | .ifChain branches none _ => PlacedBranches place branches
  | .forLoop _ collection body _ => collection.captureCount = 0 ∧ PlacedAll place.looped body
  | .breakLoop _ => place.inLoop = true
  | .attempt body (some handler) _ => PlacedAll place body ∧ PlacedAll place handler
  | .attempt body none _ => PlacedAll place body
  | .require .. => True
  | .block body _ => PlacedAll place body

/-- Everything in the statements at the place has its place. -/
def PlacedAll (place : Place) : List Stmt → Prop
  | [] => True
  | s :: rest => Placed place s ∧ PlacedAll place rest

/-- Everything in the branches at the place has its place. -/
def PlacedBranches (place : Place) : List (Branch Stmt) → Prop
  | [] => True
  | ⟨cond, body, _⟩ :: rest => cond.IsCondition ∧ PlacedAll place body ∧ PlacedBranches place rest

end

variable {place : Place}

attribute [local simp] Placed PlacedAll PlacedBranches

/-- Statements are in place if each of them is. -/
theorem placedAll_iff {stmts : List Stmt} :
    PlacedAll place stmts ↔ ∀ s ∈ stmts, s.Placed place := by
  induction stmts with
  | nil => simp
  | cons s rest ih => simp [ih]

theorem placedBranches_iff {branches : List (Branch Stmt)} :
    PlacedBranches place branches ↔
      ∀ b ∈ branches, b.cond.IsCondition ∧ PlacedAll place b.body := by
  induction branches with
  | nil => simp
  | cons b rest ih => simp [ih, and_assoc]

/-- An `else` that is missing is as good as an empty one. -/
theorem placed_ifChain {branches : List (Branch Stmt)} {otherwise : Option (List Stmt)}
    {span : Span} :
    Placed place (.ifChain branches otherwise span) ↔
      PlacedBranches place branches ∧ PlacedAll place (otherwise.getD []) := by
  cases otherwise <;> simp

theorem placed_attempt {body : List Stmt} {handler : Option (List Stmt)} {span : Span} :
    Placed place (.attempt body handler span) ↔
      PlacedAll place body ∧ PlacedAll place (handler.getD []) := by
  cases handler <;> simp

end Stmt

/-! ## Scripts that have been read -/

/-- The variable that an atom sets has a name that the lexer has made. -/
def Atom.SetsName (a : Atom) : Prop := ∀ name ∈ a.assigned?, Lexeme.IsName name

/-- What holds of the names and conditions of a script that has been read. -/
def Rule.read : Rule where
  atom := Atom.SetsName
  cond e := e.Named ∧ e.captureCount ≤ 1

namespace Stmt

/-- A statement has been read at the place. -/
def Read (place : Place) (s : Stmt) : Prop := s.Placed place ∧ Rule.read.Holds s

/-- Statements have been read at the place. -/
def ReadAll (place : Place) (stmts : List Stmt) : Prop :=
  PlacedAll place stmts ∧ Rule.read.HoldsAll stmts

variable {place : Place}

/-- What is known of statements that have been read is known of each of them. -/
theorem readAll_iff {stmts : List Stmt} : ReadAll place stmts ↔ ∀ s ∈ stmts, s.Read place := by
  rw [ReadAll, placedAll_iff, Rule.holdsAll_iff]
  exact forall₂_and.symm

/-- A chain is read if its conditions are conditions and its bodies are read. -/
theorem read_ifChain {branches : List (Branch Stmt)} {otherwise : Option (List Stmt)} {span : Span}
    (hbranches : ∀ b ∈ branches, b.cond.IsCondition ∧ Rule.read.cond b.cond ∧ ReadAll place b.body)
    (hotherwise : ReadAll place (otherwise.getD [])) :
    Read place (.ifChain branches otherwise span) := by
  refine ⟨placed_ifChain.2 ⟨placedBranches_iff.2 fun b hb => ?_, hotherwise.1⟩,
    Rule.holds_ifChain.2 ⟨Rule.holdsBranches_iff.2 fun b hb => ?_, hotherwise.2⟩⟩
  · exact ⟨(hbranches b hb).1, (hbranches b hb).2.2.1⟩
  · exact ⟨(hbranches b hb).2.1, (hbranches b hb).2.2.2⟩

theorem ReadAll.attempt {body : List Stmt} {handler : Option (List Stmt)} {span : Span}
    (h : ReadAll place body) (hhandler : ReadAll place (handler.getD [])) :
    Read place (.attempt body handler span) :=
  ⟨placed_attempt.2 ⟨h.1, hhandler.1⟩, Rule.holds_attempt.2 ⟨h.2, hhandler.2⟩⟩

/-- An atom has been read where it may stand, captures nothing and sets a name. -/
theorem read_atom {a : Atom} (hplace : a.Allowed place) (hexprs : ∀ e ∈ a.exprs, e.captureCount = 0)
    (hname : a.SetsName) : Read place (.atom a) :=
  ⟨⟨hplace, hexprs⟩, hname⟩

end Stmt

end EdgeScript
