import EdgeScript.Proofs.Parsing.Stmt
import EdgeScript.Proofs.Positions.Located
import EdgeScript.Proofs.Positions.Text

/-!
# The places of a script

A parser makes spans out of the spans of tokens by covering two of them, and two places in a text
are covered by a third one.  Hence the places in the script that a text spells out, and the place at
which a text is not a script, are places in the text (`Program.locatedResult_parse`).
-/

set_option autoImplicit false

namespace EdgeScript

variable {file : Nat} {text : String}

namespace Scheme

/-- All places are places in the text of a unit. -/
def located (file : Nat) (text : String) : Scheme where
  span := Span.Within file text.toList
  name _ := True
  outside _ := True
  error e := e.Located (Span.Within file text.toList)
  expr _ e _ := e.Located (Span.Within file text.toList)
  stmt _ s := s.Located (Span.Within file text.toList)

theorem located_of_plain {e : Expr} (h : (located file text).plain e) :
    e.Located (Span.Within file text.toList) := by
  obtain ⟨_, _, _, he⟩ := h
  exact he

theorem locatedAll_of_stmts {place : Grammar.Place} {stmts : List Stmt}
    (h : (located file text).stmts place stmts) :
    Stmt.LocatedAll (Span.Within file text.toList) stmts :=
  Stmt.locatedAll_iff.2 h

theorem locatedBranches_of_branch {place : Grammar.Place} {branches : List (Branch Stmt)}
    (h : ∀ b ∈ branches, (located file text).branch place b) :
    Stmt.LocatedBranches (Span.Within file text.toList) branches := by
  refine Stmt.locatedBranches_iff.2 fun b hb => ?_
  obtain ⟨hspan, ⟨_, hcond⟩, hbody⟩ := h b hb
  exact ⟨hspan, hcond, locatedAll_of_stmts hbody⟩

/-- An atom is in a text if its own places and its expressions are. -/
theorem located_atom {place : Grammar.Place} {a : Atom}
    (hspans : ∀ span ∈ a.ownSpans, Span.Within file text.toList span)
    (hexprs : ∀ e ∈ a.exprs, e.Located (Span.Within file text.toList)) :
    (located file text).stmt place (.atom a) :=
  Stmt.located_atom.2 (Atom.located_iff.2 ⟨hspans, hexprs⟩)

instance : (located file text).Closed where
  merge := Span.Within.merge
  complaint he h := by cases he <;> exact .of_span rfl h
  expr_span h := h.span
  target_span h := (Expr.located_index.1 h).2.1.span
  args_span h e he := ((Expr.located_call.1 h).2.2 e he).span
  outside_expr _ _ := trivial
  lit h := Expr.located_lit.2 h
  ident h := Expr.located_ident.2 h.2
  unary h hspan := Expr.located_unary.2 ⟨hspan, h⟩
  binary hleft hright hspan := Expr.located_binary.2 ⟨hspan, hleft, hright⟩
  test hleft hright hspan := Expr.located_test.2 ⟨hspan, by simp, hleft, hright⟩
  capture _ hleft hright hid hspan :=
    Expr.located_test.2 ⟨hspan, fun _ hmem => Option.mem_some.1 hmem ▸ hid.2, hleft, hright⟩
  call hcallee hargs hspan :=
    Expr.located_call.2 ⟨hspan, Expr.located_ident.1 hcallee, hargs.forall_mem id⟩
  index h hkey hspan := Expr.located_index.2 ⟨hspan, h, hkey⟩
  range hfirst hlast hspan := Expr.located_range.2 ⟨hspan, hfirst, hlast⟩
  array h hspan := Expr.located_array.2 ⟨hspan, h.forall_mem id⟩
  dict h hspan := Expr.located_dict.2 ⟨hspan, h.forall_mem fun hentry => hentry.elim fun _ => id⟩
  declare hname hvalue hspan := by
    refine located_atom (List.forall_mem_cons.2 ⟨hspan, List.forall_mem_singleton.2 hname.2⟩) ?_
    exact fun e he => located_of_plain (hvalue e (Option.mem_toList.1 he))
  ret _ hvalue hspan :=
    located_atom (List.forall_mem_singleton.2 hspan) fun e he =>
      located_of_plain (hvalue e (Option.mem_toList.1 he))
  breakLoop _ hspan := Stmt.located_breakLoop.2 hspan
  require hspan := Stmt.located_require.2 hspan
  inclusion hoptions _ _ hspan := by
    refine located_atom (List.forall_mem_cons.2 ⟨hspan, List.forall_mem_map.2 ?_⟩) ?_
    · exact fun o ho => (hoptions o ho).1
    · exact List.forall_mem_map.2 fun o ho => located_of_plain (hoptions o ho).2
  comment hspan := located_atom (List.forall_mem_singleton.2 hspan) fun _ he => nomatch he
  exprStmt h :=
    located_atom (fun _ hmem => nomatch hmem) (List.forall_mem_singleton.2 (located_of_plain h))
  output h _ hspan :=
    located_atom (List.forall_mem_singleton.2 hspan) (Expr.located_call.1 (located_of_plain h)).2.2
  assign htarget hvalue hspan := by
    have htarget := Expr.located_ident.1 (located_of_plain htarget)
    refine located_atom (List.forall_mem_cons.2 ⟨hspan, List.forall_mem_singleton.2 htarget⟩) ?_
    exact List.forall_mem_singleton.2 (located_of_plain hvalue)
  assignEntry htarget hvalue hspan := by
    obtain ⟨-, htarget, hkey⟩ := Expr.located_index.1 (located_of_plain htarget)
    have htarget := Expr.located_ident.1 htarget
    refine located_atom (List.forall_mem_cons.2 ⟨hspan, List.forall_mem_singleton.2 htarget⟩) ?_
    exact List.forall_mem_cons.2 ⟨hkey, List.forall_mem_singleton.2 (located_of_plain hvalue)⟩
  block hbody hspan := Stmt.located_block.2 ⟨hspan, locatedAll_of_stmts hbody⟩
  function hname hparams _ hbody hspan := by
    refine Stmt.located_function.2 ⟨hspan, hname.2, fun p hp => ?_, locatedAll_of_stmts hbody⟩
    obtain ⟨hname, hspan, hdefault⟩ := hparams p hp
    refine List.forall_mem_cons.2 ⟨hspan,
      List.forall_mem_cons.2 ⟨hname.2, List.forall_mem_map.2 ?_⟩⟩
    exact fun value hvalue => hdefault value (Option.mem_toList.1 hvalue)
  ifChain hbranches hotherwise hspan :=
    Stmt.located_ifChain.2
      ⟨hspan, locatedBranches_of_branch hbranches, locatedAll_of_stmts hotherwise⟩
  forLoop hvar hcollection hbody hspan :=
    Stmt.located_forLoop.2
      ⟨hspan, fun id hid => (hvar id hid).2, located_of_plain hcollection,
        locatedAll_of_stmts hbody⟩
  attempt hbody hhandler hspan :=
    Stmt.located_attempt.2 ⟨hspan, locatedAll_of_stmts hbody, locatedAll_of_stmts hhandler⟩

end Scheme

/-- The end of a script that is cut off behind a token is the end of that token. -/
theorem Stream.within_splitEnd {tokens : List Token} (hne : tokens ≠ [])
    (h : ∀ t ∈ tokens, t.span.Within file text.toList) :
    (splitEnd tokens).2.Within file text.toList := by
  obtain ⟨last, hlast⟩ : ∃ last, tokens.getLast? = some last :=
    ⟨_, List.getLast?_eq_some_getLast hne⟩
  have hspan := h last (List.mem_of_getLast? hlast)
  rw [splitEnd, hlast]
  dsimp only
  split
  · exact hspan
  · exact hspan.ending

/-- **The places in a script are places in its text**, and so is the place at which a text is not a
script. -/
theorem Program.locatedResult_parse (text : String) (file : Nat) :
    LocatedResult (Span.Within file text.toList) (Program.parse text file)
      fun p => Stmt.LocatedAll (Span.Within file text.toList) p.body := by
  refine (locatedResult_tokenize text file).bind fun tokens htokens => ?_
  obtain ⟨hok, herror⟩ := ofTokens_obeys (S := .located file text) trivial
    (fun t ht => ⟨htokens.2 t ht, fun _ _ => trivial⟩) (Stream.within_splitEnd htokens.1 htokens.2)
  cases hread : ofTokens tokens with
  | error e => exact herror e hread
  | ok program => exact Scheme.locatedAll_of_stmts (hok program hread)

end EdgeScript
