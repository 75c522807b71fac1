import EdgeScript.Markup.Generate
import EdgeScript.Proofs.Reading.Stmt

/-!
# What a condition binds

A condition has at most one capture, wherever it stands in it.  The search for it
(`Expr.captureName?`) goes through the operands of operators and tests only: it finds the first of
the captures that operators alone lead to (`Expr.captureName?_eq_head?`).  So the capture of a
condition is written on its tag, and can be read in its branch, if operators alone lead to it, and
neither if it stands in an argument, an index, a bound of a range, an array or a dictionary.
-/

set_option autoImplicit false

namespace EdgeScript

/-! ## The search for a capture -/

namespace Expr

/-- The expression, its operands and theirs, each in front of its own. -/
def operands : Expr → List Expr
  | .binary op left right span => .binary op left right span :: (operands left ++ operands right)
  | .unary op operand span => .unary op operand span :: operands operand
  | .test op subject pattern capture span =>
    .test op subject pattern capture span :: (operands subject ++ operands pattern)
  | e => [e]

/-- The captures that operators alone lead to. -/
def operandCaptures (e : Expr) : List Ident := e.operands.filterMap ownCapture?

/-- The operands of a condition are some of its parts, in order. -/
theorem operands_sublist (e : Expr) : e.operands.Sublist e.subterms := by
  fun_induction operands e with
  | case1 op left right span ihl ihr => exact (ihl.append ihr).cons_cons _
  | case2 op operand span ih => exact ih.cons_cons _
  | case3 op subject pattern capture span ihs ihp => exact (ihs.append ihp).cons_cons _
  | case4 e hbinary hunary htest =>
    have hself : e ∈ e.subterms := by cases e <;> simp [subterms]
    exact List.singleton_sublist.2 hself

/-- So the captures that count are some of its captures. -/
theorem operandCaptures_sublist (e : Expr) : e.operandCaptures.Sublist e.captures :=
  e.operands_sublist.filterMap _

section Parts

variable {op : BinOp} {matchOp : MatchOp} {left right : Expr} {capture : Option Ident} {span : Span}

theorem operandCaptures_binary : (binary op left right span).operandCaptures =
    left.operandCaptures ++ right.operandCaptures := by
  rw [operandCaptures, operands, List.filterMap_cons_none rfl, List.filterMap_append]
  rfl

theorem operandCaptures_test : (test matchOp left right capture span).operandCaptures =
    capture.toList ++ (left.operandCaptures ++ right.operandCaptures) := by
  rw [operandCaptures, operands, List.filterMap_cons, List.filterMap_append]
  cases capture <;> rfl

/-- The first capture of an operator is that of its left side, or else of its right side. -/
theorem captureName?_binary : (binary op left right span).captureName? =
    left.captureName?.or right.captureName? := by
  rw [captureName?]
  cases left.captureName? <;> rfl

theorem captureName?_test : (test matchOp left right capture span).captureName? =
    (capture.map Ident.name).or (left.captureName?.or right.captureName?) := by
  cases capture with
  | some name => rw [captureName?, Option.map_some, Option.some_or]
  | none =>
    rw [captureName?, Option.map_none, Option.none_or]
    cases left.captureName? <;> rfl

end Parts

/-- **The search finds the first capture that operators alone lead to.** -/
theorem captureName?_eq_head? (e : Expr) :
    e.captureName? = e.operandCaptures.head?.map Ident.name := by
  fun_induction operands e with
  | case1 op left right span ihl ihr =>
    rw [captureName?_binary, operandCaptures_binary, List.head?_append, Option.map_or, ihl, ihr]
  | case2 op operand span ih =>
    rw [captureName?, ih]
    rfl
  | case3 op subject pattern capture span ihs ihp =>
    rw [captureName?_test, operandCaptures_test, List.head?_append, List.head?_append,
      Option.map_or, Option.map_or, Option.head?_toList, ihs, ihp]
  | case4 e hbinary hunary htest =>
    cases e with
    | binary op left right span => exact absurd rfl (hbinary op left right span)
    | unary op operand span => exact absurd rfl (hunary op operand span)
    | test op subject pattern capture span =>
      exact absurd rfl (htest op subject pattern capture span)
    | _ => rfl

end Expr

/-! ## The branches of a script -/

namespace Stmt

mutual

/-- All branches in a statement, at any depth and in the bodies of functions too. -/
def branches : Stmt → List (Branch Stmt)
  | .function _ _ _ body _ => branchesAll body
  | .ifChain chain (some body) _ => branchesOf chain ++ branchesAll body
  | .ifChain chain none _ => branchesOf chain
  | .forLoop _ _ body _ => branchesAll body
  | .attempt body (some handler) _ => branchesAll body ++ branchesAll handler
  | .attempt body none _ => branchesAll body
  | .block body _ => branchesAll body
  | .atom _ | .breakLoop _ | .require .. => []

/-- All branches in the statements. -/
def branchesAll : List Stmt → List (Branch Stmt)
  | [] => []
  | s :: rest => branches s ++ branchesAll rest

/-- The branches of a chain and all branches in them. -/
def branchesOf : List (Branch Stmt) → List (Branch Stmt)
  | [] => []
  | ⟨cond, body, span⟩ :: rest => ⟨cond, body, span⟩ :: (branchesAll body ++ branchesOf rest)

end

end Stmt

namespace Rule

variable {r : Rule} {b : Branch Stmt}

mutual

/-- A rule that holds of a script holds of all its conditions. -/
theorem Holds.cond_of_mem : ∀ {s}, r.Holds s → b ∈ s.branches → r.cond b.cond
  | .function .., h, hb => HoldsAll.cond_of_mem h hb
  | .ifChain _ (some _) _, h, hb =>
    (List.mem_append.1 hb).elim (HoldsBranches.cond_of_mem h.1) (HoldsAll.cond_of_mem h.2)
  | .ifChain _ none _, h, hb => HoldsBranches.cond_of_mem h hb
  | .forLoop .., h, hb => HoldsAll.cond_of_mem h hb
  | .attempt _ (some _) _, h, hb =>
    (List.mem_append.1 hb).elim (HoldsAll.cond_of_mem h.1) (HoldsAll.cond_of_mem h.2)
  | .attempt _ none _, h, hb => HoldsAll.cond_of_mem h hb
  | .block .., h, hb => HoldsAll.cond_of_mem h hb
  | .atom _, _, hb => absurd hb List.not_mem_nil
  | .breakLoop _, _, hb => absurd hb List.not_mem_nil
  | .require .., _, hb => absurd hb List.not_mem_nil

/-- A rule that holds of a script holds of every condition in it. -/
theorem HoldsAll.cond_of_mem :
    ∀ {stmts}, r.HoldsAll stmts → b ∈ Stmt.branchesAll stmts → r.cond b.cond
  | [], _, hb => absurd hb List.not_mem_nil
  | _ :: _, h, hb => (List.mem_append.1 hb).elim (Holds.cond_of_mem h.1) (HoldsAll.cond_of_mem h.2)

theorem HoldsBranches.cond_of_mem :
    ∀ {chain}, r.HoldsBranches chain → b ∈ Stmt.branchesOf chain → r.cond b.cond
  | [], _, hb => absurd hb List.not_mem_nil
  | ⟨_, _, _⟩ :: _, h, hb => by
    rcases List.mem_cons.1 hb with rfl | hb
    · exact h.1
    · exact (List.mem_append.1 hb).elim (HoldsAll.cond_of_mem h.2.1)
        (HoldsBranches.cond_of_mem h.2.2)

end

end Rule

/-! ## What is made of a binding -/

/-- The search finds this name, or none, for the condition of a branch; the name is written on the
tag of the branch as it is, and it is what can be read in the branch beside what can be read around
it. -/
structure Branch.Binds (b : Branch Stmt) (name : Option String) : Prop where
  found : b.cond.captureName? = name
  written : ∀ ctx rest, Markup.ofBranches ctx (b :: rest) = do
    let test ← b.cond.render ctx .expression
    let content ← Markup.ofStmts ctx b.body
    let rest ← Markup.ofBranches ctx rest
    return .element "when" (Attribute.processed "test" test ::
      (name.map (Attribute.mk "matchname")).toList) content :: rest
  readable : ∀ scope rest, CaptureScope.checkBranches scope (b :: rest) = do
    CaptureScope.checkExpr scope b.cond
    CaptureScope.checkStmts { scope with visible := scope.visible ++ name.toList } b.body
    CaptureScope.checkBranches scope rest

/-- Where there is no double quote, none is replaced. -/
theorem Markup.replaceQuotes_of_notMem {text : String} (replacement : String)
    (h : '"' ∉ text.toList) : replaceQuotes replacement text = text := by
  have hmap : (text.toList.map fun c => if c = '"' then replacement else c.toString) =
      text.toList.map Char.toString := by
    refine List.map_congr_left fun c hc => if_neg ?_
    rintro rfl
    exact h hc
  rw [replaceQuotes, hmap]
  apply String.toList_inj.1
  rw [String.toList_join]
  simp [List.flatMap_map]

/-- What is found is what is bound, if it is a name. -/
theorem Branch.binds_captureName? {b : Branch Stmt}
    (h : ∀ name ∈ b.cond.captureName?, '"' ∉ name.toList) : b.Binds b.cond.captureName? := by
  obtain ⟨cond, body, span⟩ := b
  refine ⟨rfl, fun ctx rest => ?_, fun scope rest => ?_⟩
  · have hattribute : cond.captureName?.map (Attribute.processed "matchname") =
        cond.captureName?.map (Attribute.mk "matchname") := by
      refine Option.map_congr fun name hname => ?_
      rw [Attribute.processed, Markup.replaceQuotes_of_notMem _ (h name hname)]
    rw [Markup.ofBranches]
    simp only [Markup.branchAttributes, hattribute]
  · have hinside : scope.inside cond =
        { scope with visible := scope.visible ++ cond.captureName?.toList } := by
      rw [CaptureScope.inside]
      cases cond.captureName? <;> simp
    rw [CaptureScope.checkBranches, hinside]

/-! ## Conditions that have been read -/

/-- The captures of an expression have names if all of it has. -/
theorem Expr.Named.isName_of_mem_captures {e : Expr} (h : e.Named) {c : Ident}
    (hc : c ∈ e.captures) : Lexeme.IsName c.name := by
  obtain ⟨x, hx, hown⟩ := List.mem_filterMap.1 hc
  refine h x hx c.name ?_
  cases x with
  | test op subject pattern capture span =>
    obtain rfl : capture = some c := hown
    simp [ownNames]
  | _ => cases hown

/-- **The capture of a condition is bound if operators alone lead to it**, and without a capture
nothing is bound.  A condition has no second capture. -/
theorem conditions_bind_captures_of_operands {text : String} {file : Nat} {program : Program}
    (hparse : Program.parse text file = .ok program) {b : Branch Stmt}
    (hb : b ∈ Stmt.branchesAll program.body) :
    (b.cond.captures = [] → b.Binds none) ∧
      ∀ c ∈ b.cond.captures, b.cond.captures = [c] ∧
        (c ∈ b.cond.operandCaptures → b.Binds (some c.name)) ∧
        (c ∉ b.cond.operandCaptures → b.Binds none) := by
  obtain ⟨hnamed, hcount⟩ := (Program.holdsAll_of_parse hparse).cond_of_mem hb
  have hsublist := b.cond.operandCaptures_sublist
  have hbinds : b.Binds (b.cond.operandCaptures.head?.map Ident.name) := by
    rw [← Expr.captureName?_eq_head?]
    refine b.binds_captureName? fun name hname => ?_
    rw [Expr.captureName?_eq_head?] at hname
    obtain ⟨c, hc, rfl⟩ := Option.map_eq_some_iff.1 hname
    exact (hnamed.isName_of_mem_captures (hsublist.subset (List.mem_of_head? hc))).quote_notMem
  refine ⟨fun hnone => ?_, fun c hc => ?_⟩
  · rw [hnone, List.sublist_nil] at hsublist
    rwa [hsublist] at hbinds
  · have hcaptures : b.cond.captures = [c] := by
      obtain ⟨d, hd⟩ := List.length_eq_one_iff.1
        (Nat.le_antisymm hcount (List.length_pos_of_mem hc))
      rw [hd, List.mem_singleton] at hc
      rw [hd, hc]
    have hoperands : b.cond.operandCaptures = [] ∨ b.cond.operandCaptures = [c] := by
      rw [hcaptures, List.sublist_cons_iff] at hsublist
      rcases hsublist with h | ⟨l, hl, h⟩
      · exact .inl (List.sublist_nil.1 h)
      · exact .inr (by rw [hl, List.sublist_nil.1 h])
    refine ⟨hcaptures, fun hin => ?_, fun hout => ?_⟩ <;>
      rcases hoperands with h | h <;> rw [h] at hbinds
    · rw [h] at hin
      cases hin
    · exact hbinds
    · exact hbinds
    · rw [h, List.mem_singleton] at hout
      exact absurd rfl hout

/-- A capture under a negation, beside another operand. -/
theorem conditions_bind_captures_of_operands_negation : ∃ program b,
    Program.parse "if (b || !(a matches '(x)' as m)) \x7b print(m[1]); \x7d" 0 = .ok program ∧
      b ∈ Stmt.branchesAll program.body ∧ b.cond.captures.map Ident.name = ["m"] ∧
      b.Binds (some "m") := by
  have hread : Pass.succeeds
      (Program.parse "if (b || !(a matches '(x)' as m)) \x7b print(m[1]); \x7d" 0)
      (fun program => (Stmt.branchesAll program.body).any fun b =>
        b.cond.captures.map Ident.name == ["m"] && b.cond.operandCaptures.map Ident.name == ["m"]) =
      true := by decide +kernel
  obtain ⟨program, hparse, hany⟩ := Pass.exists_of_succeeds hread
  obtain ⟨b, hb, hnames⟩ := List.any_eq_true.1 hany
  obtain ⟨hcaptures, hoperands⟩ : b.cond.captures.map Ident.name = ["m"] ∧
      b.cond.operandCaptures.map Ident.name = ["m"] := by simpa using hnames
  obtain ⟨c, hc, hname⟩ : ∃ c ∈ b.cond.operandCaptures, c.name = "m" :=
    List.mem_map.1 (hoperands ▸ List.mem_singleton_self _)
  have hbinds := (conditions_bind_captures_of_operands hparse hb).2 c
    (b.cond.operandCaptures_sublist.subset hc)
  exact ⟨program, b, hparse, hb, hcaptures, hname ▸ hbinds.2.1 hc⟩

/-- A capture in an argument is not found, so that its groups cannot be read. -/
theorem capture_in_argument_is_not_bound : ∃ program b,
    Program.parse "if (f(a matches 'x' as m)) \x7b print(m[1]); \x7d" 0 = .ok program ∧
      b ∈ Stmt.branchesAll program.body ∧ b.cond.captures.map Ident.name = ["m"] ∧
      b.cond.captureName? = none := by
  have hread : Pass.succeeds
      (Program.parse "if (f(a matches 'x' as m)) \x7b print(m[1]); \x7d" 0)
      (fun program => (Stmt.branchesAll program.body).any fun b =>
        b.cond.captures.map Ident.name == ["m"] && b.cond.captureName? == none) = true := by
    decide +kernel
  obtain ⟨program, hparse, hany⟩ := Pass.exists_of_succeeds hread
  obtain ⟨b, hb, hnames⟩ := List.any_eq_true.1 hany
  obtain ⟨hcaptures, hfound⟩ : b.cond.captures.map Ident.name = ["m"] ∧
      b.cond.captureName? = none := by simpa using hnames
  exact ⟨program, b, hparse, hb, hcaptures, hfound⟩

end EdgeScript
