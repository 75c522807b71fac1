import Mathlib.Algebra.Ring.Int.Defs
import EdgeScript.Proofs.Captures.Scope
import EdgeScript.Proofs.Lowering.Idempotent
import EdgeScript.Proofs.Output.Escapes
import EdgeScript.Proofs.Rendering.Plain

/-!
# Printed sums of literals

Two stages give `+` a meaning.  Folding computes it, as a sum of integers or as the strings in a
row; printing puts the texts of the operands beside each other.  On literals the two agree in two
cases only: if there is nothing to be added, and if all operands are strings and no tag is spread
over them (`printed_sums_agree_with_folding_iff`).

* Digits that are put beside each other are a number greater than the sum, or have a zero in front,
  or a sign inside (`texts_ne_text`).
* Strings are escaped one by one if they are not folded, and as a whole if they are
  (`Markup.flatMap_escapeText_eq_iff`).
-/

set_option autoImplicit false

namespace EdgeScript

open Pass

/-! ## Digits beside each other -/

/-- The sign of an integer, as it is written. -/
def signText (n : Int) : List Char :=
  if n < 0 then ['-'] else []

theorem toList_toString (n : Int) :
    (toString n).toList = signText n ++ Nat.toDigits 10 n.natAbs := by
  rw [Int.toString_eq_repr]
  cases n with
  | ofNat k => simp [signText, Int.repr]
  | negSucc k => simp [signText, Int.repr, Int.negSucc_lt_zero]

theorem isDigit_of_mem_toDigits {n : Nat} {c : Char} (h : c ∈ Nat.toDigits 10 n) :
    c.isDigit = true :=
  Nat.isDigit_of_mem_toDigits (by decide) (by decide) h

/-- The value of digits that are put beside each other: the sum at least, and no more than their
number allows. -/
theorem ofDigitChars_flatMap_toDigits (ks : List Nat) :
    ks.sum ≤ Nat.ofDigitChars 10 (ks.flatMap (Nat.toDigits 10)) 0 ∧
      Nat.ofDigitChars 10 (ks.flatMap (Nat.toDigits 10)) 0 <
        10 ^ (ks.flatMap (Nat.toDigits 10)).length := by
  induction ks with
  | nil => simp
  | cons k ks ih =>
    obtain ⟨hsum, hbound⟩ := ih
    rw [List.flatMap_cons, Nat.ofDigitChars_append, Nat.ofDigitChars_ten_toDigits,
      Nat.ofDigitChars_eq_ofDigitChars_zero, List.length_append, Nat.pow_add, List.sum_cons]
    have hk : k < 10 ^ (Nat.toDigits 10 k).length :=
      (Nat.length_toDigits_le_iff (by decide) Nat.length_toDigits_pos).1 (Nat.le_refl _)
    generalize 10 ^ (ks.flatMap (Nat.toDigits 10)).length = base at *
    constructor
    · have hbase : k ≤ base * k := Nat.le_mul_of_pos_left k (by omega)
      omega
    · calc base * k + Nat.ofDigitChars 10 (ks.flatMap (Nat.toDigits 10)) 0
          < base * k + base := by omega
        _ = (k + 1) * base := by rw [Nat.add_one_mul, Nat.mul_comm]
        _ ≤ 10 ^ (Nat.toDigits 10 k).length * base := Nat.mul_le_mul_right base hk

/-- Digits with others behind them are not the digits of the sum, or of less. -/
theorem toDigits_append_ne {m n : Nat} {ks : List Nat} (hks : ks ≠ []) (hn : n ≤ m + ks.sum) :
    Nat.toDigits 10 m ++ ks.flatMap (Nat.toDigits 10) ≠ Nat.toDigits 10 n := by
  intro h
  obtain ⟨hsum, hbound⟩ := ofDigitChars_flatMap_toDigits ks
  have hlength : 0 < (ks.flatMap (Nat.toDigits 10)).length := by
    obtain ⟨k, ks, rfl⟩ := List.exists_cons_of_ne_nil hks
    rw [List.flatMap_cons, List.length_append]
    exact Nat.add_pos_left Nat.length_toDigits_pos _
  have hvalue := congrArg (Nat.ofDigitChars 10 · 0) h
  simp only [Nat.ofDigitChars_append, Nat.ofDigitChars_ten_toDigits] at hvalue
  rw [Nat.ofDigitChars_eq_ofDigitChars_zero] at hvalue
  have hbase : 10 ≤ 10 ^ (ks.flatMap (Nat.toDigits 10)).length := Nat.le_self_pow hlength.ne' 10
  -- the first number counts ten times or more, so it is zero
  have hm : 10 * m ≤ 10 ^ (ks.flatMap (Nat.toDigits 10)).length * m := Nat.mul_le_mul_right m hbase
  obtain rfl : m = 0 := by omega
  -- and the digits of the rest are not enough for a zero in front
  have hfits : (Nat.toDigits 10 n).length ≤ (ks.flatMap (Nat.toDigits 10)).length :=
    (Nat.length_toDigits_le_iff (by decide) hlength).2 (by omega)
  have hzero : 0 < (Nat.toDigits 10 0).length := Nat.length_toDigits_pos
  rw [← h, List.length_append] at hfits
  omega

theorem natAbs_sum_le (ks : List Int) : ks.sum.natAbs ≤ (ks.map Int.natAbs).sum := by
  induction ks with
  | nil => simp
  | cons k ks ih =>
    rw [List.sum_cons, List.map_cons, List.sum_cons]
    exact (Int.natAbs_add_le k ks.sum).trans (Nat.add_le_add_left ih _)

theorem sign_notMem_toDigits (n : Nat) : '-' ∉ Nat.toDigits 10 n :=
  fun h => absurd (isDigit_of_mem_toDigits h) (by decide)

/-- Texts of integers that start alike have the same sign. -/
theorem toDigits_append_of_signText {m n : Int} {rest : List Char}
    (h : signText m ++ Nat.toDigits 10 m.natAbs ++ rest = signText n ++ Nat.toDigits 10 n.natAbs) :
    Nat.toDigits 10 m.natAbs ++ rest = Nat.toDigits 10 n.natAbs := by
  obtain ⟨d, ds, hdigits⟩ :=
    List.exists_cons_of_ne_nil (Nat.toDigits_ne_nil (b := 10) (n := m.natAbs))
  by_cases hm : m < 0 <;> by_cases hn : n < 0
  · simpa [signText, hm, hn] using h
  · have hsign : '-' ∈ Nat.toDigits 10 n.natAbs := by
      have hcons : '-' :: (Nat.toDigits 10 m.natAbs ++ rest) = Nat.toDigits 10 n.natAbs := by
        simpa [signText, hm, hn] using h
      rw [← hcons]
      exact List.mem_cons_self
    exact absurd hsign (sign_notMem_toDigits _)
  · have hsign : '-' ∈ Nat.toDigits 10 m.natAbs := by
      have hcons : d :: (ds ++ rest) = '-' :: Nat.toDigits 10 n.natAbs := by
        simpa [signText, hm, hn, hdigits] using h
      rw [hdigits, (List.cons.inj hcons).1]
      exact List.mem_cons_self
    exact absurd hsign (sign_notMem_toDigits _)
  · simpa [signText, hm, hn] using h

/-- **The texts of integers beside each other are not the text of their sum.** -/
theorem texts_ne_text {m : Int} {ks : List Int} (hks : ks ≠ []) :
    (toString m).toList ++ ks.flatMap (fun k => (toString k).toList) ≠
      (toString (m + ks.sum)).toList := by
  intro h
  simp only [toList_toString] at h
  have hdigits := toDigits_append_of_signText h
  have hpositive : ∀ k ∈ ks, signText k ++ Nat.toDigits 10 k.natAbs = Nat.toDigits 10 k.natAbs := by
    intro k hk
    have hsign : '-' ∉ signText k := by
      intro hmem
      refine sign_notMem_toDigits (m + ks.sum).natAbs ?_
      rw [← hdigits]
      exact List.mem_append_right _ (List.mem_flatMap.2 ⟨k, hk, List.mem_append_left _ hmem⟩)
    by_cases hneg : k < 0
    · simp [signText, hneg] at hsign
    · simp [signText, hneg]
  have hsum : (m + ks.sum).natAbs ≤ m.natAbs + (ks.map Int.natAbs).sum :=
    (Int.natAbs_add_le m ks.sum).trans (Nat.add_le_add_left (natAbs_sum_le ks) _)
  have habs : ks.map Int.natAbs ≠ [] := by simpa using hks
  refine toDigits_append_ne habs hsum ?_
  rw [← hdigits, List.flatMap_map, List.flatMap_congr hpositive]

/-! ## Sums of literals -/

/-- The expression is built from literals with `+` alone, and these are its literals, from left to
right. -/
inductive Expr.SumOf : Expr → List Literal → Prop
  | lit (value : Literal) (span : Span) : SumOf (.lit value span) [value]
  | add {left right : Expr} {values values' : List Literal} {span : Span}
      (hleft : SumOf left values) (hright : SumOf right values') :
      SumOf (.binary .add left right span) (values ++ values')

/-- What literals add up to where a sum is computed: integers to an integer, strings to a string. -/
inductive Literal.AddUp : List Literal → Literal → Prop
  | bool (b : Bool) : AddUp [.bool b] (.bool b)
  | int {ns : List Int64} {n : Int64} (h : (ns.map Int64.toInt).sum = n.toInt) :
      AddUp (ns.map .int) (.int n)
  | str (strings : List String) : AddUp (strings.map .str) (.str (String.join strings))

theorem Literal.AddUp.add {values values' : List Literal} {left right v : Literal}
    (hleft : AddUp values left) (hright : AddUp values' right)
    (h : binary? .add left right = some v) : AddUp (values ++ values') v := by
  cases hleft with
  | bool b => cases hright <;> cases h
  | int hl =>
    cases hright with
    | int hr =>
      obtain ⟨n, hn, rfl⟩ := Option.map_eq_some_iff.1 h
      rw [fit64?] at hn
      split at hn
      · rename_i hrange
        cases hn
        rw [← List.map_append]
        refine .int ?_
        rw [List.map_append, List.sum_append, hl, hr, Expr.toInt_ofInt hrange.1 hrange.2]
      · cases hn
    | bool | str => cases h
  | str strings =>
    cases hright with
    | str strings' =>
      cases h
      rw [← List.map_append, ← String.join_append]
      exact .str _
    | bool | int => cases h

namespace Expr

theorem value?_add {left right : Expr} {span : Span} {v : Literal}
    (h : value? (.binary .add left right span) = some v) :
    ∃ l lspan r rspan, left = .lit l lspan ∧ right = .lit r rspan ∧
      Literal.binary? .add l r = some v := by
  cases left with
  | lit l lspan =>
    cases right with
    | lit r rspan => exact ⟨l, lspan, r, rspan, rfl, rfl, h⟩
    | _ => cases h
  | _ => cases h

variable {e : Expr} {values : List Literal} {v : Literal} {span : Span}

theorem SumOf.addUp (h : e.SumOf values) (hfold : e.fold = .lit v span) :
    Literal.AddUp values v := by
  induction h generalizing v span with
  | lit value _ =>
    cases hfold
    cases value with
    | bool b => exact .bool b
    | int n => exact @Literal.AddUp.int [n] n (by simp)
    | str s => simpa using Literal.AddUp.str [s]
  | @add left right _ _ place hleft hright ihleft ihright =>
    have hnode : foldNode (.binary .add left.fold right.fold place) = .lit v span := hfold
    rw [foldNode] at hnode
    split at hnode
    · rename_i value hvalue
      cases hnode
      obtain ⟨l, lspan, r, rspan, hl, hr, hadd⟩ := value?_add hvalue
      exact (ihleft hl).add (ihright hr) hadd
    · cases hnode

theorem SumOf.ne_nil (h : e.SumOf values) : values ≠ [] := by
  induction h with
  | lit => exact List.cons_ne_nil _ _
  | add _ _ ihleft _ => exact List.append_ne_nil_of_left_ne_nil ihleft _

theorem SumOf.printed (h : e.SumOf values) : e.isConcatenation = true ∧
    e.printedPieces = values.map fun value => (value.render .text).toList := by
  induction h with
  | lit value span => exact ⟨rfl, rfl⟩
  | add _ _ ihleft ihright =>
    rw [isConcatenation, ihleft.1, ihright.1, printedPieces, ihleft.2, ihright.2, List.map_append]
    exact ⟨rfl, rfl⟩

theorem SumOf.checkExpr (h : e.SumOf values) (scope : CaptureScope) :
    scope.checkExpr e = .ok () := by
  induction h with
  | lit value span => rw [CaptureScope.checkExpr]
  | add _ _ ihleft ihright =>
    rw [CaptureScope.checkExpr, ihleft]
    exact ihright

end Expr

/-! ## From a script to its markup -/

/-- The passes and the writing that the options ask for make this text of the script. -/
def Options.Emits (options : Options) (stmts : List Stmt) (text : String) : Prop :=
  ∃ lowered t markup notes, Gives (Lowering.runPasses options.passes stmts) {} lowered t ∧
    Gives (Markup.ofProgram options lowered) #[] markup notes ∧ Markup.textAll markup = text

theorem Options.emits_of_succeeds {options : Options} {stmts : List Stmt} {text : String}
    (h : succeeds (outcome (Lowering.runPasses options.passes stmts) {}).1 (fun lowered =>
      succeeds (outcome (Markup.ofProgram options lowered) #[]).1 fun markup =>
        Markup.textAll markup == text) = true) : options.Emits stmts text := by
  obtain ⟨lowered, t, hlower, hbehind⟩ := exists_gives_of_succeeds h
  obtain ⟨markup, notes, hmarkup, htext⟩ := exists_gives_of_succeeds hbehind
  exact ⟨lowered, t, markup, notes, hlower, hmarkup, beq_iff_eq.1 htext⟩

/-- What the markup of a script starts with. -/
def Options.heading (options : Options) : String :=
  if options.warningBanner then Markup.textAll Markup.banner else ""

/-- If folding brings a script into the form of lowered scripts, the other passes have nothing to
do. -/
theorem Lowering.gives_runPasses_of_folded {options : Options} {stmts : List Stmt}
    (h : options.form.FitsAll (options.folded stmts)) (s : Lowering) :
    ∃ t, Gives (runPasses options.passes stmts) s (options.folded stmts) t := by
  have hrests := rests_of_fits h
  cases hfolding : options.folding with
  | false =>
    rw [Options.folded, hfolding, if_neg Bool.false_ne_true] at hrests ⊢
    exact ⟨_, gives_runPasses_of_rests hrests s⟩
  | true =>
    rw [Options.folded, hfolding, if_pos rfl] at hrests ⊢
    obtain ⟨rest, hpasses⟩ : ∃ rest, options.passes = .folding :: rest :=
      ⟨_, by rw [Options.passes, hfolding]; rfl⟩
    rw [hpasses] at hrests ⊢
    have hfold : Gives (runPass .folding stmts) s (Stmt.foldAll stmts) _ := rfl
    have hrest := gives_runPasses_of_rests (List.forall_mem_cons.1 hrests).2
    exact ⟨_, gives_bind.2 ⟨_, _, hfold, hrest _⟩⟩

theorem Markup.textAll_append (first second : List Markup) :
    textAll (first ++ second) = textAll first ++ textAll second := by
  induction first with
  | nil => simp [textAll]
  | cons m first ih => rw [List.cons_append, textAll, ih, textAll, String.append_assoc]

/-- An expression that is printed alone is written behind the heading. -/
theorem Markup.exists_gives_ofProgram_print {e : Expr} {text : String}
    (hcheck : ∀ scope : CaptureScope, scope.checkExpr e = .ok ())
    (hrender : ∀ ctx, e.render ctx .text = .ok text) (options : Options) (here : Span) :
    ∃ markup notes,
      Gives (ofProgram options [.atom (.output .print [e] here)]) #[] markup notes ∧
        textAll markup = options.heading ++ text := by
  have hcaptures : Stmt.checkCaptures [.atom (.output .print [e] here)] = .ok () := by
    rw [Stmt.checkCaptures, CaptureScope.checkStmts, CaptureScope.checkStmt, Atom.exprs,
      CaptureScope.checkExprs, hcheck]
    rfl
  have hcontent (ctx : RenderContext) :
      Gives (ofStmts ctx [.atom (.output .print [e] here)]) #[] [.plain text] #[] := by
    have houtput : ofOutput ctx .print [e] = .ok [.plain text] := by
      rw [ofOutput, List.mapM_cons, hrender]
      rfl
    refine gives_bind.2 ⟨[.plain text], #[], ?_, rfl⟩
    exact gives_lift.2 ⟨houtput, rfl⟩
  refine ⟨_, _, gives_bind.2 ⟨(), #[], gives_lift.2 ⟨hcaptures, rfl⟩,
    gives_bind.2 ⟨_, #[], hcontent _, gives_pure.2 ⟨rfl, rfl⟩⟩⟩, ?_⟩
  rw [Options.heading]
  cases options.warningBanner with
  | true => simp [textAll_append, textAll, Markup.text]
  | false => simp [textAll, Markup.text]

/-- **A print of an expression whose value is known emits the text of the value or of the
expression**, depending on whether the options ask for folding. -/
theorem Options.emits_print {e : Expr} {v : Literal} {span : Span} {text : String}
    (hfold : e.fold = .lit v span) (hcheck : ∀ scope : CaptureScope, scope.checkExpr e = .ok ())
    (hrender : ∀ ctx, e.render ctx .text = .ok text) (options : Options) (here : Span) :
    options.Emits [.atom (.output .print [e] here)]
      (options.heading ++ if options.folding then v.render .text else text) := by
  have hforms : options.form.FitsAll (options.folded [.atom (.output .print [e] here)]) := by
    have hunfolded : options.form.unfolded.FitsAll [.atom (.output .print [e] here)] :=
      ⟨Form.of_not_folded rfl, trivial⟩
    rw [Options.folded]
    split
    · exact hunfolded.fold
    · rename_i hfolding
      exact ⟨fun hfolded => absurd hfolded hfolding, trivial⟩
  obtain ⟨t, hlower⟩ := Lowering.gives_runPasses_of_folded hforms {}
  rw [Options.folded] at hlower
  split at hlower
  · rename_i hfolding
    have hlit : Stmt.foldAll [.atom (.output .print [e] here)] =
        [.atom (.output .print [.lit v span] here)] := by
      rw [← hfold]
      rfl
    rw [hlit] at hlower
    obtain ⟨markup, notes, hmarkup, htext⟩ :=
      Markup.exists_gives_ofProgram_print (e := .lit v span) (fun _ => rfl)
        (fun _ => rfl) options here
    exact ⟨_, t, markup, notes, hlower, hmarkup, by rw [htext, if_pos hfolding]⟩
  · rename_i hfolding
    obtain ⟨markup, notes, hmarkup, htext⟩ :=
      Markup.exists_gives_ofProgram_print hcheck hrender options here
    exact ⟨_, t, markup, notes, hlower, hmarkup, by rw [htext, if_neg hfolding]⟩

/-! ## Folded and unfolded text -/

theorem Markup.not_tagAcross_singleton (cs : List Char) : ¬ TagAcross [cs] :=
  (flatMap_escapeText_eq_iff [cs]).1 (by simp)

theorem Literal.AddUp.text_eq_iff {values : List Literal} {v : Literal} (h : AddUp values v)
    (hne : values ≠ []) :
    values.flatMap (fun value => (value.render .text).toList) = (v.render .text).toList ↔
      values = [v] ∨
        ∃ strings : List String, values = strings.map .str ∧
          ¬ Markup.TagAcross (strings.map String.toList) := by
  cases h with
  | bool b => exact iff_of_true (by simp) (.inl rfl)
  | @int ns n hsum =>
    obtain ⟨m, ks, rfl⟩ := List.exists_cons_of_ne_nil (by simpa using hne : ns ≠ [])
    cases ks with
    | nil =>
      obtain rfl : m = n := Int64.toInt_inj.1 (by simpa using hsum)
      exact iff_of_true (by simp) (.inl rfl)
    | cons k ks =>
      refine iff_of_false (fun htext => ?_) ?_
      · have hks : (k :: ks).map Int64.toInt ≠ [] := by simp
        refine texts_ne_text (m := m.toInt) hks ?_
        rw [← List.sum_cons, ← List.map_cons, hsum]
        simpa [List.flatMap_map, render, integerText] using htext
      · rintro (hone | ⟨strings, hstrings, -⟩)
        · simp at hone
        · cases strings <;> simp at hstrings
  | str strings =>
    have htext : (strings.map Literal.str).flatMap (fun value => (value.render .text).toList) =
        (strings.map String.toList).flatMap Markup.escapeText := by
      simp [List.flatMap_map, render]
    have hjoin : ((Literal.str (String.join strings)).render .text).toList =
        Markup.escapeText (strings.map String.toList).flatten := by
      simp [render, List.flatMap_def]
    rw [htext, hjoin, Markup.flatMap_escapeText_eq_iff]
    constructor
    · exact fun hacross => .inr ⟨strings, rfl, hacross⟩
    · rintro (hone | ⟨strings', hstrings, hacross⟩)
      · obtain ⟨s, rfl, -⟩ := List.map_eq_singleton_iff.1 hone
        exact Markup.not_tagAcross_singleton s.toList
      · rwa [(List.map_inj_right fun _ _ => Literal.str.inj).1 hstrings]

/-- **Printing agrees with folding where nothing is added and where strings are put together without
a tag across them.**  An expression that is built from literals with `+` alone, and that folds to a
literal, is printed as it is where the options ask for no folding, and as the literal where they do.
The two texts are the same if and only if the expression is that literal, or all its literals are
strings and no tag is spread over them. -/
theorem printed_sums_agree_with_folding_iff {e : Expr} {values : List Literal} {v : Literal}
    {span : Span} (he : e.SumOf values) (hfold : e.fold = .lit v span) :
    ∃ text folded, (∀ ctx, e.render ctx .text = .ok text) ∧
      (∀ ctx, e.fold.render ctx .text = .ok folded) ∧
      (∀ (options : Options) (here : Span), options.Emits [.atom (.output .print [e] here)]
        (options.heading ++ if options.folding then folded else text)) ∧
      (text = folded ↔ values = [v] ∨
        ∃ strings : List String, values = strings.map .str ∧
          ¬ Markup.TagAcross (strings.map String.toList)) := by
  obtain ⟨hconcatenation, hpieces⟩ := he.printed
  have hrender (ctx : RenderContext) :
      e.render ctx .text =
        .ok (String.ofList (values.flatMap fun value => (value.render .text).toList)) := by
    obtain ⟨text, htext, hlist⟩ := Expr.render_of_isConcatenation ctx hconcatenation
    rw [htext, List.flatMap_def, ← hpieces, ← hlist, String.ofList_toList]
  refine ⟨_, v.render .text, hrender, fun ctx => by rw [hfold]; rfl, ?_, ?_⟩
  · exact Options.emits_print hfold he.checkExpr hrender
  · rw [← (he.addUp hfold).text_eq_iff he.ne_nil, ← String.toList_inj, String.toList_ofList]

/-- Three strings with something to escape in each, and a tag in one of them. -/
theorem printed_sums_agree_with_folding_iff_strings :
    let here := Span.none
    let e : Expr := .binary .add (.lit (.str "a$") here)
      (.binary .add (.lit (.str "<esi:b") here) (.lit (.str "\\") here) here) here
    e.SumOf [.str "a$", .str "<esi:b", .str "\\"] ∧ e.fold = .lit (.str "a$<esi:b\\") here ∧
      ∃ text, ({} : Options).Emits [.atom (.output .print [e] here)] text ∧
        ({ optLevel := 0 } : Options).Emits [.atom (.output .print [e] here)] text := by
  intro here e
  have he : e.SumOf [.str "a$", .str "<esi:b", .str "\\"] :=
    .add (.lit _ _) (.add (.lit _ _) (.lit _ _))
  have hfold : e.fold = .lit (.str "a$<esi:b\\") here := by rfl
  obtain ⟨text, folded, -, -, hemits, hiff⟩ := printed_sums_agree_with_folding_iff he hfold
  have hacross : ¬ Markup.TagAcross (["a$", "<esi:b", "\\"].map String.toList) :=
    (Markup.flatMap_escapeText_eq_iff _).1 (by decide)
  have hsame : text = folded := hiff.2 (.inr ⟨_, rfl, hacross⟩)
  refine ⟨he, hfold, "" ++ folded, hemits {} here, ?_⟩
  have hplain := hemits { optLevel := 0 } here
  rwa [if_neg (by decide), hsame] at hplain

/-- A sum of integers is printed as their digits in a row, or computed, depending on the level. -/
theorem printed_sum_of_integers_depends_on_folding :
    let here := Span.none
    let e : Expr := .binary .add (.lit (.int 1) here) (.lit (.int 2) here) here
    e.SumOf [.int 1, .int 2] ∧ e.fold = .lit (.int 3) here ∧
      (∀ ctx, e.render ctx .text = .ok "12") ∧ (∀ ctx, e.fold.render ctx .text = .ok "3") ∧
      ∃ program, Program.parse "print(1 + 2);" 0 = .ok program ∧
        ({ optLevel := 0 } : Options).Emits program.body "12" ∧
        ({} : Options).Emits program.body "3" := by
  intro here e
  have hfold : e.fold = .lit (.int 3) here := by rfl
  have hruns : succeeds (Program.parse "print(1 + 2);" 0) (fun program =>
      (succeeds (outcome (Lowering.runPasses ({ optLevel := 0 } : Options).passes program.body)
        {}).1 fun lowered =>
        succeeds (outcome (Markup.ofProgram { optLevel := 0 } lowered) #[]).1 fun markup =>
          Markup.textAll markup == "12") &&
      succeeds (outcome (Lowering.runPasses ({} : Options).passes program.body) {}).1 fun lowered =>
        succeeds (outcome (Markup.ofProgram {} lowered) #[]).1 fun markup =>
          Markup.textAll markup == "3") = true := by
    decide +kernel
  obtain ⟨program, hparse, hemits⟩ := exists_of_succeeds hruns
  rw [Bool.and_eq_true] at hemits
  refine ⟨.add (.lit _ _) (.lit _ _), hfold, fun _ => by rfl, fun _ => by rw [hfold]; rfl, program,
    hparse, ?_, ?_⟩
  · exact Options.emits_of_succeeds hemits.1
  · exact Options.emits_of_succeeds hemits.2

end EdgeScript
