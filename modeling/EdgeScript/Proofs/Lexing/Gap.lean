import EdgeScript.Proofs.Rendering.Reader

/-!
# Gaps between tokens

What may stand between tokens is said here without counting: blanks, comments between marks, and
comments up to the end of their line (`Trivia.Gap`).  `Trivia.skip` counts such a gap whole and goes
on behind it (`skip_gap`), and every text is a gap in front of something that is none
(`exists_gap`).  So the count is the length of the longest gap.
-/

set_option autoImplicit false

namespace EdgeScript.Trivia

/-- A comment that is skipped, in front of `rest`.  One that runs to the end of its line has no
other end, so a line's end or the end of the text follows; and it does not start like a comment that
is carried into the output. -/
inductive IsComment (rest : List Char) : List Char → Prop
  | block {body : List Char} (hbody : ¬ ['*', '/'] <:+: body) :
      IsComment rest ('/' :: '*' :: (body ++ ['*', '/']))
  | line {body : List Char} (hbody : '\n' ∉ body) (hmark : ¬ ['#', '#', '#'] <+: body)
      (hend : ∀ c ∈ rest.head?, c = '\n') : IsComment rest ('/' :: '/' :: body)

/-- Blanks and comments in front of `rest`. -/
inductive Gap (rest : List Char) : List Char → Prop
  | nil : Gap rest []
  | blank {c : Char} {gap : List Char} (hc : c ∈ [' ', '\t', '\r', '\n']) (h : Gap rest gap) :
      Gap rest (c :: gap)
  | comment {comment gap : List Char} (hcomment : IsComment (gap ++ rest) comment)
      (h : Gap rest gap) : Gap rest (comment ++ gap)

theorem IsComment.ne_nil {rest comment : List Char} (h : IsComment rest comment) :
    comment ≠ [] := by
  cases h <;> exact List.cons_ne_nil _ _

theorem isBlank_iff {c : Char} : isBlank c = true ↔ c ∈ [' ', '\t', '\r', '\n'] := by
  simp [isBlank, or_assoc]

/-! ## Comments -/

/-- The end of a comment is the first pair of its closing marks. -/
theorem exists_of_blockLength? {cs : List Char} {n : Nat} (h : blockLength? cs = some n) :
    ∃ body rest, cs = body ++ '*' :: '/' :: rest ∧ n = body.length + 2 ∧
      ¬ ['*', '/'] <:+: body := by
  fun_induction blockLength? cs generalizing n with
  | case1 => cases h
  | case2 rest =>
    cases h
    exact ⟨[], rest, rfl, rfl, by simp⟩
  | case3 c cs hmark ih =>
    obtain ⟨m, hm, rfl⟩ := Option.map_eq_some_iff.1 h
    obtain ⟨body, rest, rfl, rfl, hbody⟩ := ih hm
    refine ⟨c :: body, rest, rfl, by simp, fun hinfix => ?_⟩
    rcases List.infix_cons_iff.1 hinfix with hstart | hinfix
    · obtain ⟨hc, hslash⟩ := List.cons_prefix_cons.1 hstart
      obtain ⟨after, rfl⟩ := hslash
      exact hmark _ hc.symm rfl
    · exact hbody hinfix

theorem blockLength?_append {body : List Char} (h : ¬ ['*', '/'] <:+: body) (rest : List Char) :
    blockLength? (body ++ '*' :: '/' :: rest) = some (body.length + 2) := by
  induction body with
  | nil => rfl
  | cons c body ih =>
    rw [List.infix_cons_iff, not_or] at h
    rw [List.cons_append, blockLength?, ih h.2]
    · rfl
    · rintro after rfl hafter
      cases body with
      | nil => cases hafter
      | cons d body =>
        cases hafter
        exact h.1 ⟨body, rfl⟩

theorem isOutputComment_cons_cons (cs : List Char) :
    isOutputComment ('/' :: '/' :: cs) = true ↔ ['#', '#', '#'] <+: cs := by
  rw [isOutputComment, List.isPrefixOf_iff_prefix, List.cons_prefix_cons, List.cons_prefix_cons]
  simp

theorem exists_of_leadingComment {text : List Char} {more : Nat}
    (h : leadingComment text = .complete more) :
    ∃ comment rest, text = comment ++ rest ∧ comment.length = more + 1 ∧
      IsComment rest comment := by
  unfold leadingComment at h
  split at h
  · rename_i cs
    split at h
    · cases h
    · rename_i hmark
      cases h
      refine ⟨'/' :: '/' :: cs.takeWhile (· != '\n'), cs.dropWhile (· != '\n'), ?_, ?_,
        .line ?_ ?_ ?_⟩
      · simp
      · simp only [List.length_cons]
        omega
      · intro hmem
        simpa using List.all_eq_true.1 List.all_takeWhile _ hmem
      · exact fun hstart =>
          hmark ((isOutputComment_cons_cons cs).2 (hstart.trans (List.takeWhile_prefix _)))
      · intro c hc
        have hstop := List.head?_dropWhile_not (· != '\n') cs
        rw [hc] at hstop
        simpa using hstop
  · split at h
    · rename_i cs n hlength
      cases h
      obtain ⟨body, rest, rfl, rfl, hbody⟩ := exists_of_blockLength? hlength
      refine ⟨'/' :: '*' :: (body ++ ['*', '/']), rest, by simp, ?_, .block hbody⟩
      simp only [List.length_cons, List.length_append, List.length_nil]
      omega
    · cases h
  · cases h

/-- What holds no line's end does not reach over one. -/
theorem isPrefix_of_append {mark word rest : List Char} (h : mark <+: word ++ rest)
    (hmark : '\n' ∉ mark) (hrest : ∀ c ∈ rest.head?, c = '\n') : mark <+: word := by
  rcases List.prefix_or_prefix_of_prefix h (List.prefix_append word rest) with hword | ⟨more, rfl⟩
  · exact hword
  · cases more with
    | nil => simp
    | cons c more =>
      obtain ⟨after, rfl⟩ := (List.prefix_append_right_inj word).1 h
      exact absurd (by simp [hrest c rfl]) hmark

theorem leadingComment_append {comment rest : List Char} (h : IsComment rest comment) :
    leadingComment (comment ++ rest) = .complete (comment.length - 1) := by
  cases h with
  | block hbody =>
    have hlength := blockLength?_append hbody rest
    simp only [List.cons_append, List.append_assoc, List.nil_append, leadingComment, hlength]
    simp [Nat.add_comm]
  | line hbody hmark hend =>
    rename_i body
    have hplain : ¬ isOutputComment ('/' :: '/' :: (body ++ rest)) = true := fun houtput =>
      hmark (isPrefix_of_append ((isOutputComment_cons_cons _).1 houtput) (by simp) hend)
    have hinside : ∀ c ∈ body, (c != '\n') = true :=
      fun c hc => bne_iff_ne.2 fun hn => hbody (hn ▸ hc)
    have hends : Markup.Ends (· != '\n') rest := fun c hc => by simp [hend c hc]
    rw [List.cons_append, List.cons_append, leadingComment, if_neg hplain,
      (Markup.takeWhile_append_of_ends hinside hends).1]
    simp [Nat.add_comm]

/-! ## Counting -/

/-- A count of characters that lie behind `k` others. -/
def shift (k : Nat) : Except Nat Nat → Except Nat Nat
  | .ok n => .ok (n + k)
  | .error n => .error (n + k)

theorem shift_shift (j k : Nat) (r : Except Nat Nat) : shift j (shift k r) = shift (k + j) r := by
  cases r <;> simp [shift, Nat.add_assoc]

theorem shift_zero (r : Except Nat Nat) : shift 0 r = r := by
  cases r <;> rfl

/-- What is passed over does not matter. -/
theorem skip_append {front : List Char} (rest : List Char) :
    skip front.length (front ++ rest) = shift front.length (skip 0 rest) := by
  induction front with
  | nil => exact (shift_zero _).symm
  | cons c front ih =>
    rw [List.length_cons, List.cons_append, skip, ih, ← shift_shift]
    cases shift front.length (skip 0 rest) <;> rfl

theorem skip_blank {c : Char} (hc : isBlank c = true) (cs : List Char) :
    skip 0 (c :: cs) = shift 1 (skip 0 cs) := by
  rw [skip, if_pos hc]
  cases skip 0 cs <;> rfl

theorem skip_comment {comment rest : List Char} (h : IsComment rest comment) :
    skip 0 (comment ++ rest) = shift comment.length (skip 0 rest) := by
  have hleading := leadingComment_append h
  obtain ⟨c, front, rfl⟩ := List.exists_cons_of_ne_nil h.ne_nil
  have hslash : isBlank c = false := by cases h <;> rfl
  rw [List.cons_append] at hleading ⊢
  rw [skip, hslash, if_neg Bool.false_ne_true, hleading, List.length_cons, Nat.add_sub_cancel]
  dsimp only
  rw [skip_append, ← shift_shift]
  cases shift front.length (skip 0 rest) <;> rfl

/-- **A gap is counted whole.** -/
theorem skip_gap {gap rest : List Char} (h : Gap rest gap) :
    skip 0 (gap ++ rest) = shift gap.length (skip 0 rest) := by
  induction h with
  | nil => exact (shift_zero _).symm
  | blank hc _ ih =>
    rw [List.cons_append, skip_blank (isBlank_iff.2 hc), ih, shift_shift, List.length_cons]
  | comment hcomment _ ih =>
    rw [List.append_assoc, skip_comment hcomment, ih, shift_shift, List.length_append,
      Nat.add_comm]

/-- No gap is in front of what does not start like a comment. -/
theorem leadingComment_eq_absent_iff {text : List Char} :
    leadingComment text = .absent ↔
      ¬ ['/', '*'] <+: text ∧ (['/', '/'] <+: text → isOutputComment text = true) := by
  fun_cases leadingComment text with
  | case1 cs hmark => simp [hmark, List.cons_prefix_cons]
  | case2 cs hmark => simp [hmark, List.cons_prefix_cons]
  | case3 cs n => simp [List.cons_prefix_cons]
  | case4 cs => simp [List.cons_prefix_cons]
  | case5 cs hline hblock =>
    refine iff_of_true rfl ⟨?_, ?_⟩
    · rintro ⟨rest, rfl⟩
      exact hblock rest rfl
    · rintro ⟨rest, rfl⟩
      exact absurd rfl (hline rest)

theorem skip_eq_zero_iff {c : Char} {cs : List Char} :
    skip 0 (c :: cs) = .ok 0 ↔ isBlank c = false ∧ leadingComment (c :: cs) = .absent := by
  have hshift (k : Nat) (r : Except Nat Nat) : shift (k + 1) r ≠ .ok 0 := by
    cases r <;> simp [shift]
  cases hblank : isBlank c with
  | true => simpa [skip_blank hblank] using hshift 0 _
  | false =>
    cases hleading : leadingComment (c :: cs) with
    | absent => simp [skip, hblank, hleading]
    | unclosed => simp [skip, hblank, hleading]
    | complete more =>
      obtain ⟨comment, rest, hsplit, hlength, hcomment⟩ := exists_of_leadingComment hleading
      rw [hsplit, skip_comment hcomment, hlength]
      simpa using hshift more _

/-- **Every text starts with a gap**, and what follows is the end of the text, a token or a comment
without an end. -/
theorem exists_gap (text : List Char) :
    ∃ gap rest, text = gap ++ rest ∧ Gap rest gap ∧
      (skip 0 rest = .ok 0 ∨ skip 0 rest = .error 0 ∧ ['/', '*'] <+: rest) := by
  cases text with
  | nil => exact ⟨[], [], rfl, .nil, .inl rfl⟩
  | cons c cs =>
    by_cases hblank : isBlank c = true
    · obtain ⟨gap, rest, rfl, hgap, hrest⟩ := exists_gap cs
      exact ⟨c :: gap, rest, rfl, .blank (isBlank_iff.1 hblank) hgap, hrest⟩
    · cases hleading : leadingComment (c :: cs) with
      | absent => exact ⟨[], c :: cs, rfl, .nil, .inl (by rw [skip, if_neg hblank, hleading])⟩
      | unclosed =>
        refine ⟨[], c :: cs, rfl, .nil, .inr ⟨by rw [skip, if_neg hblank, hleading], ?_⟩⟩
        unfold leadingComment at hleading
        split at hleading
        · split at hleading <;> cases hleading
        · rename_i hcons
          exact hcons ▸ ⟨_, rfl⟩
        · cases hleading
      | complete more =>
        obtain ⟨comment, behind, htext, hlength, hcomment⟩ := exists_of_leadingComment hleading
        have hshorter : behind.length ≤ cs.length := by
          have hsplit := congrArg List.length htext
          rw [List.length_cons, List.length_append] at hsplit
          omega
        obtain ⟨gap, rest, rfl, hgap, hrest⟩ := exists_gap behind
        exact ⟨comment ++ gap, rest, by rw [htext, List.append_assoc],
          .comment hcomment hgap, hrest⟩
termination_by text.length

end EdgeScript.Trivia
