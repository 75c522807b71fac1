import EdgeScript.Proofs.Output.Tags

/-!
# Escapes in printed text

A string is printed with a backslash in front of every character that would be interpreted.  Which
characters these are depends on what follows them in the string, so `marks` takes the text behind
along; `readEscapes` finds the same marks in the text that is written, one string after the other
(`readEscapes_flatMap_escapeText`).  A dollar sign is always marked, and the characters without the
marks are those of the strings.

Strings that are put together before they are escaped differ from strings that are escaped and then
put together in one thing only: a tag that starts in one of them and ends in another is not marked
(`flatMap_escapeText_eq_iff`).
-/

set_option autoImplicit false

namespace EdgeScript

namespace Markup

/-! ## Reading escapes -/

/-- The characters of a text, each with whether it is escaped.  The text is read from left to right,
and a backslash stands for the character behind it. -/
def readEscapes : List Char → List (Char × Bool)
  | [] => []
  | '\\' :: c :: cs => (c, true) :: readEscapes cs
  | c :: cs => (c, false) :: readEscapes cs

/-- The text without its escaping backslashes. -/
def removeEscapes (text : List Char) : List Char :=
  (readEscapes text).map Prod.fst

/-- The text of characters with a backslash in front of those that are marked. -/
def withEscapes (marked : List (Char × Bool)) : List Char :=
  marked.flatMap fun m => if m.2 then ['\\', m.1] else [m.1]

/-- Marks are found again, if backslashes are marked themselves. -/
theorem readEscapes_withEscapes {marked : List (Char × Bool)} (h : ('\\', false) ∉ marked) :
    readEscapes (withEscapes marked) = marked := by
  induction marked with
  | nil => rfl
  | cons m marked ih =>
    obtain ⟨c, escaped⟩ := m
    rw [List.mem_cons, not_or] at h
    rw [withEscapes, List.flatMap_cons, ← withEscapes]
    cases escaped with
    | true => exact congrArg ((c, true) :: ·) (ih h.2)
    | false =>
      have hc : c ≠ '\\' := fun hc => h.1 (by rw [hc])
      rw [if_neg Bool.false_ne_true, List.singleton_append, readEscapes, ih h.2]
      exact fun _ _ hbackslash => absurd hbackslash hc

/-! ## The marks of a string -/

/-- The characters of a string in front of the text `after`, each with whether it is interpreted
there. -/
def marks (after : List Char) : List Char → List (Char × Bool)
  | [] => []
  | c :: cs => (c, isInterpreted c (cs ++ after)) :: marks after cs

@[simp]
theorem map_fst_marks (after cs : List Char) : (marks after cs).map Prod.fst = cs := by
  induction cs with
  | nil => rfl
  | cons c cs ih => rw [marks, List.map_cons, ih]

@[simp]
theorem length_marks (after cs : List Char) : (marks after cs).length = cs.length := by
  rw [← List.length_map, map_fst_marks]

/-- Backslashes and dollar signs are interpreted wherever they stand. -/
theorem interpreted_of_mem_marks {after cs : List Char} {m : Char × Bool} (hm : m ∈ marks after cs)
    (hc : m.1 = '\\' ∨ m.1 = '$') : m.2 = true := by
  induction cs with
  | nil => cases hm
  | cons c cs ih =>
    rcases List.mem_cons.1 hm with rfl | hm
    · rcases hc with rfl | rfl <;> rfl
    · exact ih hm

theorem marks_append (after x y : List Char) :
    marks after (x ++ y) = marks (y ++ after) x ++ marks after y := by
  induction x with
  | nil => rfl
  | cons c x ih => rw [List.cons_append, marks, ih, marks, List.append_assoc, List.cons_append]

theorem escapeText_eq_withEscapes (cs : List Char) : escapeText cs = withEscapes (marks [] cs) := by
  induction cs with
  | nil => rfl
  | cons c cs ih =>
    rw [escapeText, ih, marks, List.append_nil]
    split
    · rename_i hc
      simp [withEscapes, hc]
    · rename_i hc
      simp [withEscapes, hc]

theorem flatMap_escapeText (pieces : List (List Char)) :
    pieces.flatMap escapeText = withEscapes (pieces.flatMap (marks [])) := by
  rw [withEscapes, List.flatMap_assoc, List.flatMap_congr fun cs _ => escapeText_eq_withEscapes cs]
  rfl

theorem backslash_notMem_flatMap_marks (pieces : List (List Char)) :
    ('\\', false) ∉ pieces.flatMap (marks []) := by
  intro h
  obtain ⟨cs, -, hm⟩ := List.mem_flatMap.1 h
  exact Bool.false_ne_true (interpreted_of_mem_marks hm (.inl rfl))

/-- **Strings that are escaped one after the other are read with the marks of each.** -/
theorem readEscapes_flatMap_escapeText (pieces : List (List Char)) :
    readEscapes (pieces.flatMap escapeText) = pieces.flatMap (marks []) := by
  rw [flatMap_escapeText, readEscapes_withEscapes (backslash_notMem_flatMap_marks pieces)]

theorem removeEscapes_flatMap_escapeText (pieces : List (List Char)) :
    removeEscapes (pieces.flatMap escapeText) = pieces.flatten := by
  rw [removeEscapes, readEscapes_flatMap_escapeText, List.map_flatMap]
  simp [List.flatMap_id']

/-! ## Strings put together -/

/-- A tag starts in one of the strings and goes on in the following ones. -/
def TagAcross (pieces : List (List Char)) : Prop :=
  ∃ ps before start rest qs, pieces = ps ++ (before ++ start) :: qs ∧ start ≠ [] ∧ rest ≠ [] ∧
    start ++ rest = tagStart ∧ rest <+: qs.flatten

theorem tagAcross_cons {p : List Char} {pieces : List (List Char)} :
    TagAcross (p :: pieces) ↔
      (∃ before start rest, p = before ++ start ∧ start ≠ [] ∧ rest ≠ [] ∧
        start ++ rest = tagStart ∧ rest <+: pieces.flatten) ∨ TagAcross pieces := by
  constructor
  · rintro ⟨ps, before, start, rest, qs, heq, htag⟩
    rcases List.cons_eq_append_iff.1 heq with ⟨rfl, hfirst⟩ | ⟨ps, rfl, rfl⟩
    · obtain ⟨rfl, rfl⟩ := List.cons.inj hfirst
      exact .inl ⟨before, start, rest, rfl, htag⟩
    · exact .inr ⟨ps, before, start, rest, qs, rfl, htag⟩
  · rintro (⟨before, start, rest, rfl, htag⟩ | ⟨ps, before, start, rest, qs, rfl, htag⟩)
    · exact ⟨[], before, start, rest, pieces, rfl, htag⟩
    · exact ⟨p :: ps, before, start, rest, qs, rfl, htag⟩

theorem isInterpreted_iff {c : Char} {cs : List Char} :
    isInterpreted c cs = true ↔ (c = '\\' ∨ c = '$') ∨ tagStart <+: c :: cs := by
  simp [isInterpreted, List.isPrefixOf_iff_prefix]

/-- What follows a string decides about a character in it if the character starts a tag that ends
behind the string. -/
theorem isInterpreted_append_ne_iff (c : Char) (cs after : List Char) :
    isInterpreted c (cs ++ after) ≠ isInterpreted c cs ↔
      ∃ rest, rest ≠ [] ∧ c :: cs ++ rest = tagStart ∧ rest <+: after := by
  rw [Ne, Bool.eq_iff_iff, isInterpreted_iff, isInterpreted_iff, ← List.cons_append]
  constructor
  · intro h
    have hsigns : ¬ (c = '\\' ∨ c = '$') := fun hc => h (iff_of_true (.inl hc) (.inl hc))
    have hinside : ¬ tagStart <+: c :: cs := fun htag =>
      h (iff_of_true (.inr (htag.trans (List.prefix_append ..))) (.inr htag))
    have htag : tagStart <+: c :: cs ++ after := by
      by_contra htag
      exact h (iff_of_false (not_or.2 ⟨hsigns, htag⟩) (not_or.2 ⟨hsigns, hinside⟩))
    obtain ⟨rest, hrest⟩ :=
      (List.prefix_or_prefix_of_prefix htag (List.prefix_append (c :: cs) after)).resolve_left
        hinside
    refine ⟨rest, ?_, hrest, ?_⟩
    · rintro rfl
      exact hinside ⟨[], by rw [← hrest, List.append_nil, List.append_nil]⟩
    · rwa [← hrest, List.prefix_append_right_inj] at htag
  · rintro ⟨rest, hrest, htag, hafter⟩ h
    have hsigns : ¬ (c = '\\' ∨ c = '$') := by
      obtain ⟨rfl, -⟩ := List.cons.inj (htag.trans tagStart_eq)
      decide
    have hinside : ¬ tagStart <+: c :: cs := by
      intro hle
      have hlength := hle.length_le
      rw [← htag, List.length_append] at hlength
      exact hrest (List.length_eq_zero_iff.1 (by omega))
    have hwhole : tagStart <+: c :: cs ++ after := by
      rwa [← htag, List.prefix_append_right_inj]
    exact (h.1 (.inr hwhole)).elim hsigns hinside

/-- The marks of a string depend on what follows it only through a tag that starts at its end. -/
theorem marks_ne_iff (after cs : List Char) :
    marks after cs ≠ marks [] cs ↔
      ∃ before start rest, cs = before ++ start ∧ start ≠ [] ∧ rest ≠ [] ∧
        start ++ rest = tagStart ∧ rest <+: after := by
  induction cs with
  | nil =>
    refine iff_of_false (fun h => h rfl) ?_
    rintro ⟨before, start, rest, hnil, hstart, -⟩
    exact hstart (List.append_eq_nil_iff.1 hnil.symm).2
  | cons c cs ih =>
    rw [marks, marks, Ne, List.cons.injEq, Prod.mk.injEq, List.append_nil, not_and_or]
    simp only [true_and, ← ne_eq, isInterpreted_append_ne_iff, ih]
    constructor
    · rintro (⟨rest, hrest, htag, hafter⟩ | ⟨before, start, rest, rfl, htag⟩)
      · exact ⟨[], c :: cs, rest, rfl, List.cons_ne_nil _ _, hrest, htag, hafter⟩
      · exact ⟨c :: before, start, rest, rfl, htag⟩
    · rintro ⟨before, start, rest, hcons, hstart, hrest, htag, hafter⟩
      rcases List.cons_eq_append_iff.1 hcons with ⟨rfl, rfl⟩ | ⟨before, rfl, rfl⟩
      · exact .inl ⟨rest, hrest, htag, hafter⟩
      · exact .inr ⟨before, start, rest, rfl, hstart, hrest, htag, hafter⟩

theorem flatMap_marks_eq_iff (pieces : List (List Char)) :
    pieces.flatMap (marks []) = marks [] pieces.flatten ↔ ¬ TagAcross pieces := by
  induction pieces with
  | nil =>
    refine iff_of_true rfl ?_
    rintro ⟨ps, before, start, rest, qs, hnil, -⟩
    simp at hnil
  | cons p pieces ih =>
    rw [tagAcross_cons, not_or, ← marks_ne_iff, ← ih, not_ne_iff, List.flatMap_cons,
      List.flatten_cons, marks_append, List.append_nil]
    constructor
    · intro h
      obtain ⟨hp, hpieces⟩ := List.append_inj h (by simp)
      exact ⟨hp.symm, hpieces⟩
    · rintro ⟨hp, hpieces⟩
      rw [hp, hpieces]

/-- **Escaping strings and putting them together can be exchanged unless a tag is spread over
them.** -/
theorem flatMap_escapeText_eq_iff (pieces : List (List Char)) :
    pieces.flatMap escapeText = escapeText pieces.flatten ↔ ¬ TagAcross pieces := by
  rw [← flatMap_marks_eq_iff]
  constructor
  · intro h
    have hread := congrArg readEscapes h
    rwa [readEscapes_flatMap_escapeText, ← List.flatMap_singleton escapeText,
      readEscapes_flatMap_escapeText, List.flatMap_singleton] at hread
  · intro h
    rw [flatMap_escapeText, h, escapeText_eq_withEscapes]

end Markup

/-! ## Printed strings -/

/-- **Printed strings are read back, and nothing in them is interpreted.**  `print` writes string
literals one after the other, each with its escapes, and `printv` writes the same text in an element
of its own.  Without the escaping backslashes this text is the strings in a row, and every dollar
sign in it is an escaped one. -/
theorem printed_strings_are_inert (ctx : RenderContext) (literals : List (String × Span)) :
    let args := literals.map fun l => Expr.lit (.str l.1) l.2
    ∃ content, Markup.ofOutput ctx .print args = .ok content ∧
      Markup.ofOutput ctx .printVars args = .ok [.element "vars" [] content] ∧
      (Markup.textAll content).toList = literals.flatMap (fun l => Markup.escapeText l.1.toList) ∧
      Markup.removeEscapes (Markup.textAll content).toList =
        literals.flatMap (fun l => l.1.toList) ∧
      ∀ m ∈ Markup.readEscapes (Markup.textAll content).toList, m.1 = '$' → m.2 = true := by
  intro args
  have hargs : ∀ e ∈ args, e.isConcatenation = true := List.forall_mem_map.2 fun _ _ => rfl
  obtain ⟨texts, htexts, hpieces⟩ := Expr.mapM_render_of_isConcatenation ctx hargs
  have htext : (Markup.textAll (texts.map .plain)).toList =
      (literals.map fun l => l.1.toList).flatMap Markup.escapeText := by
    rw [hpieces, List.flatMap_map, List.flatMap_map]
    simp [Expr.printedPieces, Literal.render, List.flatMap_def, List.flatten_flatten,
      Function.comp_def]
  refine ⟨texts.map .plain, ?_, ?_, ?_, ?_, fun m hm hdollar => ?_⟩
  · rw [Markup.ofOutput, htexts]
    rfl
  · rw [Markup.ofOutput, htexts]
    rfl
  · rw [htext, List.flatMap_map]
  · rw [htext, Markup.removeEscapes_flatMap_escapeText, List.flatMap_def]
  · rw [htext, Markup.readEscapes_flatMap_escapeText] at hm
    obtain ⟨cs, -, hmark⟩ := List.mem_flatMap.1 hm
    exact Markup.interpreted_of_mem_marks hmark (.inr hdollar)

end EdgeScript
