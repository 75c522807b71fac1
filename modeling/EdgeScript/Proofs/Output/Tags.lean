import Mathlib.Algebra.Ring.Parity
import Mathlib.Data.List.Infix
import EdgeScript.Markup.Generate
import EdgeScript.Proofs.Pass
import EdgeScript.Grammar.Stmt

/-!
# Tags in printed text

Text that is printed stands as it is in the markup, so a tag that is spelled out in it has to be
escaped.  A string is escaped by itself, before it is put beside its neighbours: backslashes are
doubled and one more is put in front of every tag in the string.  Whether a tag in the whole text is
escaped therefore depends on one thing alone, whether it lies in the text of one operand
(`odd_trailingBackslashes_iff`).  A tag that is put together from several operands is not seen.

The proof walks along the operands.  Each leaves an even number of backslashes behind it
(`Settled.even`), so the backslashes at the end of one operand never count for the next.
-/

set_option autoImplicit false

namespace EdgeScript

open Pass

namespace Markup

/-! ## Backslashes -/

/-- How many backslashes a text ends with. -/
def trailingBackslashes (cs : List Char) : Nat :=
  (cs.reverse.takeWhile (· == '\\')).length

@[simp]
theorem trailingBackslashes_nil : trailingBackslashes [] = 0 := rfl

theorem trailingBackslashes_concat (cs : List Char) (c : Char) :
    trailingBackslashes (cs ++ [c]) = if c = '\\' then trailingBackslashes cs + 1 else 0 := by
  by_cases hc : c = '\\' <;> simp [trailingBackslashes, hc]

/-- The start of a tag behind its bracket. -/
def tagName : List Char := ['e', 's', 'i', ':']

theorem tagStart_eq : tagStart = '<' :: tagName := rfl

/-- What every operand that is printed promises, whatever stands in front of it. -/
structure Settled (piece : List Char) : Prop where
  /-- The backslashes at its end belong together in pairs. -/
  even : ∀ {front}, Even (trailingBackslashes front) → Even (trailingBackslashes (front ++ piece))
  /-- A bracket in it is escaped if it starts a tag in the same operand, and only then. -/
  odd_iff : ∀ {front before after}, Even (trailingBackslashes front) →
    piece = before ++ '<' :: after →
    (Odd (trailingBackslashes (front ++ before)) ↔ tagName <+: after)

/-- A text without backslashes and brackets. -/
theorem settled_of_notMem {piece : List Char} (hbackslash : '\\' ∉ piece) (hbracket : '<' ∉ piece) :
    Settled piece where
  even {front} hfront := by
    rcases List.eq_nil_or_concat piece with rfl | ⟨init, last, rfl⟩
    · simpa using hfront
    · have hlast : last ≠ '\\' := fun h => hbackslash (by simp [h])
      rw [List.concat_eq_append, ← List.append_assoc, trailingBackslashes_concat, if_neg hlast]
      exact Even.zero
  odd_iff _ hpiece := absurd (by simp [hpiece]) hbracket

/-! ## Escaped strings -/

theorem isInterpreted_eq_false {c : Char} (cs : List Char) (hbackslash : c ≠ '\\')
    (hdollar : c ≠ '$') (hbracket : c ≠ '<') : isInterpreted c cs = false := by
  have htag : ('<' == c) = false := beq_false_of_ne hbracket.symm
  simp [isInterpreted, tagStart, List.isPrefixOf, hbackslash, hdollar, htag]

/-- A character that needs no escape is written where it stands. -/
theorem cons_prefix_escapeText {c : Char} {cs text : List Char} (hbackslash : c ≠ '\\')
    (hdollar : c ≠ '$') (hbracket : c ≠ '<') :
    c :: text <+: escapeText cs ↔ ∃ rest, cs = c :: rest ∧ text <+: escapeText rest := by
  constructor
  · intro h
    cases cs with
    | nil => simp [escapeText] at h
    | cons d rest =>
      rw [escapeText] at h
      split at h
      · exact absurd (List.cons_prefix_cons.1 h).1 hbackslash
      · obtain ⟨rfl, htext⟩ := List.cons_prefix_cons.1 h
        exact ⟨rest, rfl, htext⟩
  · rintro ⟨rest, rfl, htext⟩
    rw [escapeText, isInterpreted_eq_false rest hbackslash hdollar hbracket,
      if_neg Bool.false_ne_true]
    exact List.cons_prefix_cons.2 ⟨rfl, htext⟩

/-- The name of a tag is not changed by the escapes. -/
theorem tagName_prefix_escapeText (cs : List Char) :
    tagName <+: escapeText cs ↔ tagName <+: cs := by
  constructor
  · intro h
    obtain ⟨_, rfl, hs⟩ := (cons_prefix_escapeText (by decide) (by decide) (by decide)).1 h
    obtain ⟨_, rfl, hi⟩ := (cons_prefix_escapeText (by decide) (by decide) (by decide)).1 hs
    obtain ⟨_, rfl, hcolon⟩ := (cons_prefix_escapeText (by decide) (by decide) (by decide)).1 hi
    obtain ⟨rest, rfl, -⟩ := (cons_prefix_escapeText (by decide) (by decide) (by decide)).1 hcolon
    exact ⟨rest, rfl⟩
  · rintro ⟨rest, rfl⟩
    refine (cons_prefix_escapeText (by decide) (by decide) (by decide)).2 ⟨_, rfl, ?_⟩
    refine (cons_prefix_escapeText (by decide) (by decide) (by decide)).2 ⟨_, rfl, ?_⟩
    refine (cons_prefix_escapeText (by decide) (by decide) (by decide)).2 ⟨_, rfl, ?_⟩
    exact (cons_prefix_escapeText (by decide) (by decide) (by decide)).2 ⟨_, rfl, List.nil_prefix⟩

theorem isInterpreted_bracket (cs : List Char) :
    isInterpreted '<' cs = true ↔ tagName <+: cs := by
  simp [isInterpreted, tagStart_eq, List.isPrefixOf_iff_prefix]

/-- A character and the backslash in front of it leave pairs of backslashes. -/
theorem even_trailingBackslashes_escaped {front : List Char} (c : Char)
    (h : Even (trailingBackslashes front)) : Even (trailingBackslashes (front ++ ['\\', c])) := by
  rw [List.append_cons, trailingBackslashes_concat, trailingBackslashes_concat, if_pos rfl]
  split
  · simpa [Nat.even_add_one] using h
  · exact Even.zero

theorem even_trailingBackslashes_plain (front : List Char) {c : Char} (hc : c ≠ '\\') :
    Even (trailingBackslashes (front ++ [c])) := by
  rw [trailingBackslashes_concat, if_neg hc]
  exact Even.zero

theorem ne_backslash_of_not_isInterpreted {c : Char} {cs : List Char}
    (h : ¬ isInterpreted c cs = true) : c ≠ '\\' := by
  rintro rfl
  exact h rfl

theorem even_trailingBackslashes_escapeText (cs : List Char) :
    ∀ {front}, Even (trailingBackslashes front) →
      Even (trailingBackslashes (front ++ escapeText cs)) := by
  induction cs with
  | nil => simp [escapeText]
  | cons c cs ih =>
    intro front hfront
    rw [escapeText]
    split
    · simpa using ih (even_trailingBackslashes_escaped c hfront)
    · rename_i hc
      have hplain := even_trailingBackslashes_plain front (ne_backslash_of_not_isInterpreted hc)
      simpa using ih hplain

theorem odd_trailingBackslashes_escapeText (cs : List Char) :
    ∀ {front before after}, Even (trailingBackslashes front) →
      escapeText cs = before ++ '<' :: after →
      (Odd (trailingBackslashes (front ++ before)) ↔ tagName <+: after) := by
  induction cs with
  | nil => simp [escapeText]
  | cons c cs ih =>
    intro front before after hfront hsplit
    rw [escapeText] at hsplit
    split at hsplit
    · rename_i hc
      rcases before with _ | ⟨b, _ | ⟨d, before⟩⟩
      · simp at hsplit
      · -- the bracket of a tag, behind its own backslash
        obtain ⟨rfl, rfl, rfl⟩ : '\\' = b ∧ c = '<' ∧ escapeText cs = after := by simpa using hsplit
        have hodd : Odd (trailingBackslashes (front ++ ['\\'])) := by
          rw [trailingBackslashes_concat, if_pos rfl]
          exact hfront.add_one
        exact iff_of_true hodd ((tagName_prefix_escapeText cs).2 ((isInterpreted_bracket cs).1 hc))
      · obtain ⟨rfl, rfl, hrest⟩ : '\\' = b ∧ c = d ∧ escapeText cs = before ++ '<' :: after := by
          simpa using hsplit
        simpa using ih (even_trailingBackslashes_escaped c hfront) hrest
    · rename_i hc
      rcases before with _ | ⟨b, before⟩
      · -- a bracket that starts no tag
        obtain ⟨rfl, rfl⟩ : c = '<' ∧ escapeText cs = after := by simpa using hsplit
        rw [List.append_nil, tagName_prefix_escapeText]
        exact iff_of_false (Nat.not_odd_iff_even.2 hfront) fun h =>
          hc ((isInterpreted_bracket cs).2 h)
      · obtain ⟨rfl, hrest⟩ : c = b ∧ escapeText cs = before ++ '<' :: after := by
          simpa using hsplit
        have hplain := even_trailingBackslashes_plain front (ne_backslash_of_not_isInterpreted hc)
        simpa using ih hplain hrest

/-- A string is written as it is if nothing in it is escaped. -/
theorem escapeText_eq_self {cs : List Char} (h : '\\' ∉ escapeText cs) : escapeText cs = cs := by
  induction cs with
  | nil => rfl
  | cons c cs ih =>
    rw [escapeText] at h ⊢
    split at h
    · simp at h
    · rename_i hc
      rw [if_neg hc, ih (List.not_mem_of_not_mem_cons h)]

/-- What is written at the end of a string without escapes, the string ends with. -/
theorem suffix_of_suffix_escapeText {cs ending : List Char} (hending : '\\' ∉ ending)
    (h : ending <:+ escapeText cs) : ending <:+ cs := by
  induction cs with
  | nil => exact h
  | cons c cs ih =>
    have hbehind (h : ending <:+ c :: escapeText cs) : ending <:+ c :: cs := by
      rcases List.suffix_cons_iff.1 h with rfl | h
      · exact ⟨[], by
          rw [escapeText_eq_self (List.not_mem_of_not_mem_cons hending), List.nil_append]⟩
      · exact (ih h).trans (List.suffix_cons c cs)
    rw [escapeText] at h
    split at h
    · rcases List.suffix_cons_iff.1 h with rfl | h
      · simp at hending
      · exact hbehind h
    · exact hbehind h

theorem settled_escapeText (cs : List Char) : Settled (escapeText cs) where
  even := even_trailingBackslashes_escapeText cs
  odd_iff := odd_trailingBackslashes_escapeText cs

/-! ## Operands one after the other -/

theorem even_trailingBackslashes_flatten {pieces : List (List Char)} (h : ∀ p ∈ pieces, Settled p) :
    ∀ front, Even (trailingBackslashes front) →
      Even (trailingBackslashes (front ++ pieces.flatten)) := by
  induction pieces with
  | nil => simp
  | cons p pieces ih =>
    intro front hfront
    rw [List.forall_mem_cons] at h
    rw [List.flatten_cons, ← List.append_assoc]
    exact ih h.2 _ (h.1.even hfront)

/-- The operand that a character of the text stands in. -/
theorem exists_piece_of_flatten {pieces : List (List Char)} {before after : List Char} {c : Char}
    (h : pieces.flatten = before ++ c :: after) :
    ∃ ps x z qs, pieces = ps ++ (x ++ c :: z) :: qs ∧ before = ps.flatten ++ x ∧
      after = z ++ qs.flatten := by
  induction pieces generalizing before with
  | nil => simp at h
  | cons p pieces ih =>
    rw [List.flatten_cons, List.append_eq_append_iff] at h
    rcases h with ⟨x, rfl, hrest⟩ | ⟨z, rfl, hz⟩
    · obtain ⟨ps, x, z, qs, rfl, rfl, rfl⟩ := ih hrest
      exact ⟨p :: ps, x, z, qs, by simp⟩
    · cases z with
      | nil =>
        have hrest : pieces.flatten = [] ++ c :: after := hz.symm
        obtain ⟨ps, x, z, qs, rfl, hx, rfl⟩ := ih hrest
        exact ⟨before :: ps, x, z, qs, by simp [← hx]⟩
      | cons d z =>
        obtain ⟨rfl, rfl⟩ := List.cons.inj hz
        exact ⟨[], before, z, pieces, by simp⟩

/-- The tag behind `before` lies in the text of one operand. -/
def LiesInPiece (pieces : List (List Char)) (before : List Char) : Prop :=
  ∃ ps x y qs, pieces = ps ++ (x ++ tagStart ++ y) :: qs ∧ before = ps.flatten ++ x

section Pieces

variable {pieces : List (List Char)} (h : ∀ p ∈ pieces, Settled p)
include h

/-- **A tag is escaped if and only if it lies in the text of one operand.** -/
theorem odd_trailingBackslashes_iff {before after : List Char}
    (hsplit : pieces.flatten = before ++ tagStart ++ after) :
    Odd (trailingBackslashes before) ↔ LiesInPiece pieces before := by
  have hfront {ps : List (List Char)} (hps : ∀ p ∈ ps, p ∈ pieces) :
      Even (trailingBackslashes ps.flatten) :=
    even_trailingBackslashes_flatten (fun p hp => h p (hps p hp)) [] Even.zero
  constructor
  · intro hodd
    have hbracket : pieces.flatten = before ++ '<' :: (tagName ++ after) := by
      simpa [tagStart_eq] using hsplit
    obtain ⟨ps, x, z, qs, rfl, rfl, -⟩ := exists_piece_of_flatten hbracket
    have hpiece : Settled (x ++ '<' :: z) := h _ (by simp)
    obtain ⟨y, rfl⟩ := (hpiece.odd_iff (hfront fun p hp => by simp [hp]) rfl).1 hodd
    exact ⟨ps, x, y, qs, by simp [tagStart_eq], rfl⟩
  · rintro ⟨ps, x, y, qs, rfl, rfl⟩
    have hpiece : Settled (x ++ tagStart ++ y) := h _ (by simp)
    have hbracket : x ++ tagStart ++ y = x ++ '<' :: (tagName ++ y) := by simp [tagStart_eq]
    refine (hpiece.odd_iff (hfront fun p hp => by simp [hp]) hbracket).2 ?_
    exact List.prefix_append tagName y

omit h in
/-- A tag that does not lie in one operand starts at the end of one. -/
theorem liesInPiece_or_exists_suffix {before after : List Char}
    (hsplit : pieces.flatten = before ++ tagStart ++ after) :
    LiesInPiece pieces before ∨
      ∃ p ∈ pieces, ∃ start, start ≠ [] ∧ start ≠ tagStart ∧ start <+: tagStart ∧ start <:+ p := by
  have hbracket : pieces.flatten = before ++ '<' :: (tagName ++ after) := by
    simpa [tagStart_eq] using hsplit
  obtain ⟨ps, x, z, qs, rfl, rfl, hafter⟩ := exists_piece_of_flatten hbracket
  have hz : z <+: tagName ++ after := ⟨qs.flatten, hafter.symm⟩
  rcases List.prefix_or_prefix_of_prefix (List.prefix_append tagName after) hz with ⟨y, rfl⟩ | hz
  · exact .inl ⟨ps, x, y, qs, by simp [tagStart_eq], rfl⟩
  · by_cases htag : z = tagName
    · exact .inl ⟨ps, x, [], qs, by simp [tagStart_eq, htag], rfl⟩
    · refine .inr ⟨x ++ '<' :: z, by simp, '<' :: z, by simp, ?_, ?_, List.suffix_append x _⟩
      · simpa [tagStart_eq] using htag
      · simpa [tagStart_eq, List.cons_prefix_cons] using hz

end Pieces

end Markup

/-! ## Printed expressions -/

namespace Expr

/-- Whether an expression is made of literals and names with `+` between them. -/
def isConcatenation : Expr → Bool
  | .lit _ _ => true
  | .ident id => id.name.toList.all Lexeme.isNamePart
  | .binary .add left right _ => left.isConcatenation && right.isConcatenation
  | _ => false

/-- The texts of the operands of `+`, from left to right. -/
def printedPieces : Expr → List (List Char)
  | .lit value _ => [(value.render .text).toList]
  | .ident id => [("$(" ++ id.name ++ ")").toList]
  | .binary .add left right _ => left.printedPieces ++ right.printedPieces
  | _ => []

/-- The strings among the operands of `+`. -/
def printedStrings : Expr → List String
  | .lit (.str s) _ => [s]
  | .binary .add left right _ => left.printedStrings ++ right.printedStrings
  | _ => []

theorem isDigit_of_mem_integerText (n : Int64) :
    ∀ c ∈ (integerText n).toList, c.isDigit = true ∨ c = '-' := by
  have hdigits (k : Nat) : ∀ c ∈ Nat.toDigits 10 k, c.isDigit = true := fun c hc =>
    Nat.isDigit_of_mem_toDigits (by decide) (by decide) hc
  intro c hc
  rw [integerText, Int.toString_eq_repr] at hc
  cases hn : n.toInt with
  | ofNat k => exact .inl (hdigits k c (by simpa [hn, Int.repr] using hc))
  | negSucc k =>
    rw [hn] at hc
    have hc : c = '-' ∨ c ∈ Nat.toDigits 10 k.succ := by simpa [Int.repr] using hc
    exact hc.symm.imp_left (hdigits k.succ c)

/-- A literal is an escaped string, or has nothing that could be a part of an escape or of a tag. -/
theorem text_of_literal (value : Literal) :
    (∃ s, value = .str s ∧ (value.render .text).toList = Markup.escapeText s.toList) ∨
      '\\' ∉ (value.render .text).toList ∧ '<' ∉ (value.render .text).toList := by
  cases value with
  | int n =>
    have hnotMem {c : Char} (hc : ¬ (c.isDigit = true ∨ c = '-')) : c ∉ (integerText n).toList :=
      fun hmem => hc (isDigit_of_mem_integerText n c hmem)
    exact .inr ⟨hnotMem (by decide), hnotMem (by decide)⟩
  | str s => exact .inl ⟨s, rfl, by rw [Literal.render, String.toList_ofList]⟩
  | bool b => cases b <;> exact .inr (by decide)

theorem text_of_name {name : String} (h : name.toList.all Lexeme.isNamePart = true) :
    '\\' ∉ ("$(" ++ name ++ ")").toList ∧ '<' ∉ ("$(" ++ name ++ ")").toList := by
  have hnotMem {c : Char} (hc : Lexeme.isNamePart c = false) : c ∉ name.toList := fun hmem =>
    Bool.false_ne_true (hc.symm.trans (List.all_eq_true.1 h c hmem))
  have hbackslash : '\\' ∉ name.toList := hnotMem (by decide)
  have hbracket : '<' ∉ name.toList := hnotMem (by decide)
  exact ⟨by simp [hbackslash], by simp [hbracket]⟩

theorem text_of_mem_printedPieces {e : Expr} (h : e.isConcatenation = true) :
    ∀ p ∈ e.printedPieces, (∃ s ∈ e.printedStrings, p = Markup.escapeText s.toList) ∨
      '\\' ∉ p ∧ '<' ∉ p := by
  fun_induction isConcatenation e with
  | case1 value span =>
    rw [printedPieces, List.forall_mem_singleton]
    refine (text_of_literal value).imp_left ?_
    rintro ⟨s, rfl, hs⟩
    exact ⟨s, by simp [printedStrings], hs⟩
  | case2 id =>
    rw [printedPieces, List.forall_mem_singleton]
    exact .inr (text_of_name h)
  | case3 left right span ihleft ihright =>
    rw [Bool.and_eq_true] at h
    rw [printedPieces, List.forall_mem_append]
    refine ⟨fun p hp => (ihleft h.1 p hp).imp_left ?_, fun p hp => (ihright h.2 p hp).imp_left ?_⟩
    · rintro ⟨s, hs, rfl⟩
      exact ⟨s, by simp [printedStrings, hs], rfl⟩
    · rintro ⟨s, hs, rfl⟩
      exact ⟨s, by simp [printedStrings, hs], rfl⟩
  | case4 => cases h

/-- `+` is written by putting its operands beside each other. -/
theorem render_of_isConcatenation (ctx : RenderContext) {e : Expr} (h : e.isConcatenation = true) :
    ∃ text, e.render ctx .text = .ok text ∧ text.toList = e.printedPieces.flatten := by
  fun_induction isConcatenation e with
  | case1 value span => exact ⟨_, rfl, by simp [printedPieces]⟩
  | case2 id => exact ⟨_, rfl, by simp [printedPieces]⟩
  | case3 left right span ihleft ihright =>
    rw [Bool.and_eq_true] at h
    obtain ⟨l, hl, hltext⟩ := ihleft h.1
    obtain ⟨r, hr, hrtext⟩ := ihright h.2
    refine ⟨l ++ r, ?_, by simp [printedPieces, hltext, hrtext]⟩
    rw [render, hl, hr]
    rfl
  | case4 => cases h

theorem mapM_render_of_isConcatenation (ctx : RenderContext) {args : List Expr}
    (h : ∀ e ∈ args, e.isConcatenation = true) :
    ∃ texts, args.mapM (render ctx .text) = .ok texts ∧
      (Markup.textAll (texts.map .plain)).toList = (args.flatMap printedPieces).flatten := by
  induction args with
  | nil => exact ⟨[], rfl, rfl⟩
  | cons e es ih =>
    rw [List.forall_mem_cons] at h
    obtain ⟨text, htext, hpieces⟩ := render_of_isConcatenation ctx h.1
    obtain ⟨texts, htexts, hrest⟩ := ih h.2
    refine ⟨text :: texts, ?_, ?_⟩
    · rw [List.mapM_cons, htext, htexts]
      rfl
    · simp [Markup.textAll, Markup.text, hpieces, hrest]

end Expr

/-- **A tag in printed text is escaped unless it is put together from several operands.**  `print`
writes literals and names as they stand, one after the other, and `printv` writes the same text in
an element of its own.  A tag that is found in this text has an odd number of backslashes in front
if and only if it lies in the text of one operand; and every tag does if no string among the
operands ends within a tag. -/
theorem printed_tags_are_escaped_within_operands (ctx : RenderContext) {args : List Expr}
    (hargs : ∀ e ∈ args, e.isConcatenation = true) :
    ∃ content, Markup.ofOutput ctx .print args = .ok content ∧
      Markup.ofOutput ctx .printVars args = .ok [.element "vars" [] content] ∧
      (Markup.textAll content).toList = (args.flatMap Expr.printedPieces).flatten ∧
      (∀ before after, (Markup.textAll content).toList = before ++ Markup.tagStart ++ after →
        (Odd (Markup.trailingBackslashes before) ↔
          Markup.LiesInPiece (args.flatMap Expr.printedPieces) before)) ∧
      ((∀ s ∈ args.flatMap Expr.printedStrings, ∀ start, start <+: Markup.tagStart →
          start <:+ s.toList → start = [] ∨ start = Markup.tagStart) →
        ∀ before after, (Markup.textAll content).toList = before ++ Markup.tagStart ++ after →
          Odd (Markup.trailingBackslashes before)) := by
  obtain ⟨texts, htexts, htext⟩ := Expr.mapM_render_of_isConcatenation ctx hargs
  have hpieces : ∀ p ∈ args.flatMap Expr.printedPieces,
      (∃ s ∈ args.flatMap Expr.printedStrings, p = Markup.escapeText s.toList) ∨
        '\\' ∉ p ∧ '<' ∉ p := by
    intro p hp
    obtain ⟨e, he, hp⟩ := List.mem_flatMap.1 hp
    refine (Expr.text_of_mem_printedPieces (hargs e he) p hp).imp_left ?_
    rintro ⟨s, hs, rfl⟩
    exact ⟨s, List.mem_flatMap.2 ⟨e, he, hs⟩, rfl⟩
  have hsettled : ∀ p ∈ args.flatMap Expr.printedPieces, Markup.Settled p := by
    intro p hp
    rcases hpieces p hp with ⟨s, -, rfl⟩ | ⟨hbackslash, hbracket⟩
    · exact Markup.settled_escapeText s.toList
    · exact Markup.settled_of_notMem hbackslash hbracket
  have hiff (before after : List Char)
      (hsplit : (Markup.textAll (texts.map .plain)).toList = before ++ Markup.tagStart ++ after) :=
    Markup.odd_trailingBackslashes_iff hsettled (htext.symm.trans hsplit)
  refine ⟨texts.map .plain, ?_, ?_, htext, hiff, fun hstrings before after hsplit => ?_⟩
  · rw [Markup.ofOutput, htexts]
    rfl
  · rw [Markup.ofOutput, htexts]
    rfl
  · refine (hiff before after hsplit).2 ?_
    refine (Markup.liesInPiece_or_exists_suffix (htext.symm.trans hsplit)).resolve_right ?_
    rintro ⟨p, hp, start, hnil, htag, hstart, hsuffix⟩
    have hmem {c : Char} (hc : c ∉ Markup.tagStart) : c ∉ start := fun h => hc (hstart.subset h)
    rcases hpieces p hp with ⟨s, hs, rfl⟩ | ⟨-, hbracket⟩
    · have hend := Markup.suffix_of_suffix_escapeText (hmem (by decide)) hsuffix
      exact (hstrings s hs start hstart hend).elim hnil htag
    · cases start with
      | nil => exact hnil rfl
      | cons c start =>
        obtain rfl : c = '<' := (List.cons_prefix_cons.1 hstart).1
        exact hbracket (hsuffix.subset (List.mem_cons_self ..))

/-- `print('a<esi:b', n + '\\\\<esi:c' + 7)`: one tag in a string, and one behind a backslash. -/
theorem printed_tags_are_escaped_within_operands_twoTags :
    let here := Span.none
    let args : List Expr :=
      [.lit (.str "a<esi:b") here,
        .binary .add (.binary .add (.ident ⟨"n", here⟩) (.lit (.str "\\<esi:c") here) here)
          (.lit (.int 7) here) here]
    ∃ content, Markup.ofOutput ⟨[], 0⟩ .print args = .ok content ∧
      Markup.textAll content = "a\\<esi:b$(n)\\\\\\<esi:c7" ∧
      ∀ before after, (Markup.textAll content).toList = before ++ Markup.tagStart ++ after →
        Odd (Markup.trailingBackslashes before) := by
  intro here args
  have hargs : ∀ e ∈ args, e.isConcatenation = true := by decide
  have hstrings : ∀ s ∈ args.flatMap Expr.printedStrings, ∀ start ∈ Markup.tagStart.inits,
      start <:+ s.toList → start = [] ∨ start = Markup.tagStart := by decide +kernel
  obtain ⟨content, hprint, -, htext, -, hescaped⟩ :=
    printed_tags_are_escaped_within_operands ⟨[], 0⟩ hargs
  refine ⟨content, hprint, String.toList_inj.1 (htext.trans (by decide +kernel)), hescaped ?_⟩
  exact fun s hs start hstart => hstrings s hs start ((List.mem_inits ..).2 hstart)

/-- A tag that is spread over two arguments is not escaped. -/
theorem tag_over_two_arguments_is_not_escaped : ∃ program markup notes,
    Program.parse "print('<es', 'i:vars>');" 0 = .ok program ∧
      Gives (Markup.ofProgram {} program.body) #[] markup notes ∧
      Markup.textAll markup = "<esi:vars>" ∧
      ∃ before after, (Markup.textAll markup).toList = before ++ Markup.tagStart ++ after ∧
        ¬ Odd (Markup.trailingBackslashes before) := by
  have hrun : succeeds (Program.parse "print('<es', 'i:vars>');" 0) (fun program =>
      succeeds (outcome (Markup.ofProgram {} program.body) #[]).1 fun markup =>
        Markup.textAll markup == "<esi:vars>") = true := by
    decide +kernel
  obtain ⟨program, hparse, hgenerates⟩ := exists_of_succeeds hrun
  obtain ⟨markup, notes, hmarkup, htext⟩ := exists_gives_of_succeeds hgenerates
  rw [beq_iff_eq] at htext
  refine ⟨program, markup, notes, hparse, hmarkup, htext, [], "vars>".toList, ?_, ?_⟩
  · rw [htext]
    decide
  · decide

end EdgeScript
