import EdgeScript.Loop.Collection
import EdgeScript.Loop.Break
import EdgeScript.Stmt.Fold
import EdgeScript.Stmt.Subst
import EdgeScript.Note

/-!
# Unrolling loops

The markup has no loops, so an `Unroller` replaces each of them by copies of its body, one for each
element of its collection, with the element in place of the loop's variable.  Copies are folded,
their own loops are unrolled, and a copy that reaches a `break` is the last.

One bound holds for the copies of all loops together, nested ones included, and over all scripts
that an unroller is given.

## Depth

A copy of a body has fewer loops inside each other than the loop it comes from.  `Unroller.unrollAt`
therefore recurses on that depth, and `Unroller.unrollStmt` walks through statements with the
unroller of the bodies of loops as an argument.
-/

set_option autoImplicit false

namespace EdgeScript

namespace Stmt

mutual

/-- How many loops a statement has inside each other. -/
def loopDepth : Stmt → Nat
  | .function _ _ _ body _ => loopDepthAll body
  | .ifChain branches (some body) _ => max (loopDepthBranches branches) (loopDepthAll body)
  | .ifChain branches none _ => loopDepthBranches branches
  | .forLoop _ _ body _ => loopDepthAll body + 1
  | .attempt body (some handler) _ => max (loopDepthAll body) (loopDepthAll handler)
  | .attempt body none _ => loopDepthAll body
  | .block body _ => loopDepthAll body
  | .atom _ | .breakLoop _ | .require .. => 0

/-- The greatest depth of a statement in a sequence. -/
def loopDepthAll : List Stmt → Nat
  | [] => 0
  | s :: rest => max (loopDepth s) (loopDepthAll rest)

/-- The greatest depth of the body of a branch. -/
def loopDepthBranches : List (Branch Stmt) → Nat
  | [] => 0
  | ⟨_, body, _⟩ :: rest => max (loopDepthAll body) (loopDepthBranches rest)

end

mutual

/-- The variables that a statement may set. -/
def assigned : Stmt → List String
  | .atom a => a.assigned?.toList
  | .ifChain branches (some body) _ => assignedBranches branches ++ assignedAll body
  | .ifChain branches none _ => assignedBranches branches
  | .forLoop _ _ body _ => assignedAll body
  | .attempt body (some handler) _ => assignedAll body ++ assignedAll handler
  | .attempt body none _ => assignedAll body
  | .block body _ => assignedAll body
  | .function .. | .breakLoop _ | .require .. => []

/-- The variables that the statements of a sequence may set. -/
def assignedAll : List Stmt → List String
  | [] => []
  | s :: rest => assigned s ++ assignedAll rest

/-- The variables that the bodies of branches may set. -/
def assignedBranches : List (Branch Stmt) → List String
  | [] => []
  | ⟨_, body, _⟩ :: rest => assignedAll body ++ assignedBranches rest

end

end Stmt

/-- What is known after a statement without statements inside. -/
def Known.after (known : Known) : Atom → Known
  | .declare name value _ => known.assign name.name value
  | .assign target none value _ => known.assign target.name (some value)
  | .assign target (some _) _ _ => known.erase target.name
  | _ => known

/-- The bound of an unroller and what it has done. -/
structure Unroller where
  /-- How many copies of loop bodies there may be in all. -/
  maxIterations : Nat
  loopsUnrolled : Nat := 0
  /-- How many copies of loop bodies there have been. -/
  iterations : Nat := 0
  notes : Array Note := #[]
deriving Repr

namespace Unroller

/-- A new unroller. -/
def new (maxIterations : Nat) : Unroller := { maxIterations }

/-- Leaves a note. -/
def note (n : Note) : Pass Unroller Unit :=
  modify fun s => { s with notes := s.notes.push n }

/-- The unroller of the bodies of loops. -/
abbrev Inner := Known → List Stmt → Pass Unroller (List Stmt)

/-- Counts one more copy of the body of a loop, if there may be one more. -/
def countIteration (var : String) (span : Span) : Pass Unroller Unit := do
  let s ← get
  if s.maxIterations ≤ s.iterations then
    throw (.limitExceeded (.iterations var s.maxIterations) span)
  set { s with iterations := s.iterations + 1 }

/-- One copy of the body of a loop, and whether it ends the loop. -/
def round (inner : Inner) (known : Known) (var : String) (element : Expr) (body : List Stmt) :
    Pass Unroller (List Stmt × Bool) := do
  let copy ← inner known (Stmt.foldAll (Stmt.substAll var element body))
  Stmt.cutAtBreak copy

/-- The loop that is being unrolled. -/
structure Task where
  var : String
  collection : Collection
  /-- The place of the collection, which its elements take. -/
  place : Span
  body : List Stmt
  span : Span
deriving Repr

/-- The copies of a loop's body from element number `i` on, and the number of all copies.  Every
copy counts against the bound, so `rounds`, what is left of it, is enough. -/
def copies (inner : Inner) (known : Known) (task : Task) :
    Nat → Nat → Pass Unroller (List Stmt × Nat)
  | rounds, i => do
    match task.collection.element? i with
    | none => return ([], i)
    | some element =>
      countIteration task.var task.span
      let (copy, broke) ← round inner known task.var (.lit element task.place) task.body
      if broke then
        note (.loopBroken task.var (i + 1))
        return (copy, i + 1)
      match rounds with
      | 0 => return (copy, i + 1)
      | rounds + 1 =>
        let (more, count) ← copies inner known task rounds (i + 1)
        return (copy ++ more, count)

/-- A loop replaced by the copies of its body. -/
def unrollLoop (inner : Inner) (known : Known) (var : Option Ident) (collection : Expr)
    (body : List Stmt) (span : Span) : Pass Unroller (List Stmt) := do
  let folded := collection.fold
  let name := loopVariable var
  match Collection.ofExpr? known folded with
  | none => throw (.unboundedLoop name folded.span)
  | some c =>
    let s ← get
    let (stmts, count) ←
      copies inner known ⟨name, c, folded.span, body, span⟩ (s.maxIterations - s.iterations) 0
    modify fun s => { s with loopsUnrolled := s.loopsUnrolled + 1 }
    note (.loopUnrolled name count)
    return stmts

mutual

/-- A statement with its loops unrolled, and the collections known behind it. -/
def unrollStmt (inner : Inner) (known : Known) : Stmt → Pass Unroller (List Stmt × Known)
  | .forLoop var collection body span => do
    let stmts ← unrollLoop inner known var collection body span
    return (stmts, known.eraseAll (Stmt.assignedAll stmts))
  | .atom a => return ([.atom a], known.after a)
  | .block body span => do
    let (body, known) ← unrollStmts inner known body
    return ([.block body span], known)
  | .ifChain branches (some body) span => do
    let branches ← unrollBranches inner known branches
    let (body, _) ← unrollStmts inner known body
    let stmt := Stmt.ifChain branches (some body) span
    return ([stmt], known.eraseAll stmt.assigned)
  | .ifChain branches none span => do
    let branches ← unrollBranches inner known branches
    let stmt := Stmt.ifChain branches none span
    return ([stmt], known.eraseAll stmt.assigned)
  | .attempt body (some handler) span => do
    let (body, _) ← unrollStmts inner known body
    let (handler, _) ← unrollStmts inner known handler
    let stmt := Stmt.attempt body (some handler) span
    return ([stmt], known.eraseAll stmt.assigned)
  | .attempt body none span => do
    let (body, _) ← unrollStmts inner known body
    let stmt := Stmt.attempt body none span
    return ([stmt], known.eraseAll stmt.assigned)
  | .function name params isInline body span =>
    return ([.function name params isInline body span], known)
  | .breakLoop span => return ([.breakLoop span], known)
  | .require path force span => return ([.require path force span], known)

/-- The statements of a sequence with their loops unrolled, and the collections known behind it. -/
def unrollStmts (inner : Inner) (known : Known) :
    List Stmt → Pass Unroller (List Stmt × Known)
  | [] => return ([], known)
  | s :: rest => do
    let (first, known) ← unrollStmt inner known s
    let (rest, known) ← unrollStmts inner known rest
    return (first ++ rest, known)

/-- The branches of a chain with the loops in their bodies unrolled. -/
def unrollBranches (inner : Inner) (known : Known) :
    List (Branch Stmt) → Pass Unroller (List (Branch Stmt))
  | [] => return []
  | ⟨cond, body, span⟩ :: rest => do
    let (body, _) ← unrollStmts inner known body
    let rest ← unrollBranches inner known rest
    return ⟨cond, body, span⟩ :: rest

end

/-- Statements whose loops are nested less deep than `depth`, with their loops unrolled. -/
def unrollAt : Nat → Inner
  | 0, _, stmts => return stmts
  | depth + 1, known, stmts => do
    let (stmts, _) ← unrollStmts (unrollAt depth) known stmts
    return stmts

/-- A script with its loops unrolled. -/
def run (stmts : List Stmt) : Pass Unroller (List Stmt) :=
  unrollAt (Stmt.loopDepthAll stmts + 1) [] stmts

end Unroller

end EdgeScript
