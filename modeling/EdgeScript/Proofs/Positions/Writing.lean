import EdgeScript.Proofs.Captures.Misplaced
import EdgeScript.Proofs.Output.Related
import EdgeScript.Proofs.Positions.Lowering

/-!
# The places of what cannot be written

Writing looks for captures that are read where they may not be, and then goes through the script.
Both refuse what they cannot write at a place of the script.  The way through the script is that of
`ComparedWhole`, with one and the same limit on both sides.
-/

set_option autoImplicit false

namespace EdgeScript

open Pass

variable {P : Span → Prop}

theorem CaptureScope.Misplaces.located {r : Except Error Unit} (h : Misplaces P r) :
    LocatedResult P r fun _ => True := by
  cases r with
  | ok a => trivial
  | error e =>
    obtain ⟨what, span, rfl, hspan⟩ := h
    exact .of_span rfl hspan

namespace Markup

/-- What is refused is refused at a place of the script, whatever the limit. -/
theorem compared_located (P : Span → Prop) (functions : List String) (n : Nat) :
    ComparedWhole P functions n n fun x _ => LocatedResult P x fun _ => True where
  ok _ := trivial
  bind hx hrest := hx.bind fun a _ => hrest a
  refused _ _ _ h := .of_span rfl h
  leftover _ _ _ h := .of_span rfl h
  range first last span h := by
    unfold renderRange
    split
    · split
      · exact .of_span rfl h
      · trivial
    · exact .of_span rfl h

/-- **What cannot be written is refused at a place of the script.** -/
theorem locates_ofProgram (options : Options) {stmts : List Stmt} (h : Stmt.LocatedAll P stmts) :
    Locates P (fun _ => True) (ofProgram options stmts) fun _ => True := by
  refine (locates_lift (CaptureScope.misplaces_checkStmts _ h).located).seq fun _ => ?_
  refine Locates.seq (Q := fun _ => True) ⟨fun notes _ => ?_⟩ fun _ => locates_pure trivial
  have hwritten :=
    (compared_located P (Stmt.declaredFunctionsAll stmts) options.maxLoopIterations).ofStmts h notes
  exact hwritten.mono (fun _ => id) fun _ _ => ⟨trivial, trivial⟩

end Markup

end EdgeScript
