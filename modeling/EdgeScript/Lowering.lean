import EdgeScript.Inline.Expand
import EdgeScript.Loop.Unroll
import EdgeScript.Options

/-!
# Lowering

A script is brought into the form that the markup can express by passes over its statements: literal
expressions are folded, calls of inline functions expanded, loops unrolled.  The options choose
among the first two; unrolling is always done, because the markup has no loops.
-/

set_option autoImplicit false

namespace EdgeScript

/-- A pass over a script. -/
inductive LoweringPass where
  | folding
  /-- Expansion of inline functions, with or without folding of what is expanded. -/
  | inlining (fold : Bool)
  | unrolling (maxIterations : Nat)
deriving DecidableEq, Repr

def LoweringPass.name : LoweringPass → String
  | .folding => "constant-folding"
  | .inlining _ => "function-inlining"
  | .unrolling _ => "loop-unrolling"

/-- The passes that the options ask for, in their order. -/
def Options.passes (o : Options) : List LoweringPass :=
  (if o.folding then [.folding] else []) ++
    (if o.inlining then [.inlining o.folding] else []) ++
    [.unrolling o.maxLoopIterations]

/-- What passes have done. -/
structure PassCounters where
  functionsInlined : Nat := 0
  callsInlined : Nat := 0
  loopsUnrolled : Nat := 0
  iterations : Nat := 0
deriving DecidableEq, Repr

/-- The state of a sequence of passes. -/
structure Lowering where
  counters : PassCounters := {}
  notes : Array Note := #[]
deriving Repr

namespace Lowering

/-- Leaves notes. -/
def addNotes (notes : Array Note) : Pass Lowering Unit :=
  modify fun s => { s with notes := s.notes ++ notes }

/-- Expands the inline functions of a script with a new inliner. -/
def inline (fold : Bool) (stmts : List Stmt) : Pass Lowering (List Stmt) := do
  let (result, inliner) := (Inliner.run stmts).run.run (Inliner.new fold)
  addNotes inliner.notes
  let stmts ← result
  modify fun s =>
    { s with counters :=
      { s.counters with
        functionsInlined := s.counters.functionsInlined + inliner.functionsInlined
        callsInlined := s.counters.callsInlined + inliner.callsInlined } }
  return stmts

/-- Unrolls the loops of a script with a new unroller. -/
def unroll (maxIterations : Nat) (stmts : List Stmt) : Pass Lowering (List Stmt) := do
  let (result, unroller) := (Unroller.run stmts).run.run (Unroller.new maxIterations)
  addNotes unroller.notes
  let stmts ← result
  modify fun s =>
    { s with counters :=
      { s.counters with
        loopsUnrolled := s.counters.loopsUnrolled + unroller.loopsUnrolled
        iterations := s.counters.iterations + unroller.iterations } }
  return stmts

/-- One pass. -/
def runPass (pass : LoweringPass) (stmts : List Stmt) : Pass Lowering (List Stmt) := do
  addNotes #[.runningPass pass.name]
  match pass with
  | .folding => return Stmt.foldAll stmts
  | .inlining fold => inline fold stmts
  | .unrolling maxIterations => unroll maxIterations stmts

/-- Passes one after the other; the first that fails is the last. -/
def runPasses : List LoweringPass → List Stmt → Pass Lowering (List Stmt)
  | [], stmts => return stmts
  | pass :: rest, stmts => do
    let stmts ← runPass pass stmts
    runPasses rest stmts

end Lowering

end EdgeScript
