import EdgeScript.Proofs.Leftover.Place
import EdgeScript.Proofs.Parsing.Stmt

/-!
# What a script may have where

The grammar keeps track of the place of a statement: a `break` is read in a loop only, a `return` in
a function only, and raw output is read with literals only.  So the script that a text spells out
has nothing outside of its functions that a unit may not have (`Program.cleanResult_parse`).
-/

set_option autoImplicit false

namespace EdgeScript

/-- What may stand at a place of a unit. -/
def Grammar.Place.allowed (place : Place) : Allowed :=
  ⟨true, place.inLoop, place.inFunction, true⟩

namespace Scheme

/-- What is read at a place may stand there, and no complaint is of something left over. -/
def clean : Scheme where
  span _ := True
  name _ := True
  outside _ := True
  error e := e.isLeftover = false
  expr _ _ _ := True
  stmt place s := s.within place.allowed = true

theorem withinAll_of_stmts {place : Grammar.Place} {stmts : List Stmt}
    (h : clean.stmts place stmts) : Stmt.withinAll place.allowed stmts = true :=
  Stmt.withinAll_eq_true_iff.2 h

instance : clean.Closed where
  merge _ _ := trivial
  complaint he _ := by cases he <;> rfl
  expr_span _ := trivial
  target_span _ := trivial
  args_span _ _ _ := trivial
  outside_expr _ _ := trivial
  lit _ := trivial
  ident _ := trivial
  unary _ _ := trivial
  binary _ _ _ := trivial
  test _ _ _ := trivial
  capture _ _ _ _ _ := trivial
  call _ _ _ := trivial
  index _ _ _ := trivial
  range _ _ _ := trivial
  array _ _ := trivial
  dict _ _ := trivial
  declare _ _ _ := rfl
  ret hplace _ _ := hplace
  breakLoop hplace _ := hplace
  require _ := rfl
  inclusion _ _ _ _ := rfl
  comment _ := rfl
  exprStmt _ := rfl
  output {_ kind _ _ _ _} _ hraw _ := by
    cases kind with
    | printRaw => exact List.all_eq_true.2 (hraw rfl)
    | _ => rfl
  assign _ _ _ := rfl
  assignEntry _ _ _ := rfl
  block hbody _ := withinAll_of_stmts hbody
  function _ _ _ _ _ := rfl
  ifChain hbranches hotherwise _ := by
    refine (Stmt.within_ifChain ..).trans
      (Bool.and_eq_true_iff.2 ⟨?_, withinAll_of_stmts hotherwise⟩)
    exact Stmt.withinBranches_eq_true_iff.2 fun b hb => withinAll_of_stmts (hbranches b hb).2.2
  forLoop _ _ hbody _ := withinAll_of_stmts hbody
  attempt hbody hhandler _ :=
    (Stmt.within_attempt ..).trans
      (Bool.and_eq_true_iff.2 ⟨withinAll_of_stmts hbody, withinAll_of_stmts hhandler⟩)

end Scheme

/-! ## Texts -/

theorem Lexer.cleanResult_next (l : Lexer) : CleanResult l.next.1 fun _ => True := by
  rw [next]
  split
  · rw [token]
    split
    · trivial
    · dsimp only
      split
      · trivial
      · rfl
  · rfl

theorem Lexer.cleanResult_all (l : Lexer) : CleanResult l.all.1 fun _ => True := by
  fun_induction Lexer.all l with
  | case1 l e l' h =>
    have hnext := l.cleanResult_next
    rwa [h] at hnext
  | case2 => trivial
  | case3 => trivial
  | case4 l t l' h ht hlt e l'' hall ih => rwa [hall] at ih

/-- **A script has nothing outside of its functions that a unit may not have.** -/
theorem Program.cleanResult_parse (text : String) (file : Nat) :
    CleanResult (Program.parse text file) fun p => Stmt.withinAll .unit p.body = true := by
  refine (Lexer.cleanResult_all _).bind fun tokens _ => ?_
  have htokens : ∀ t ∈ tokens, Scheme.clean.token t :=
    fun _ _ => ⟨trivial, fun _ _ => trivial⟩
  obtain ⟨hok, herror⟩ := ofTokens_obeys trivial htokens trivial
  cases hread : ofTokens tokens with
  | error e => exact herror e hread
  | ok program => exact Scheme.withinAll_of_stmts (hok program hread)

end EdgeScript
