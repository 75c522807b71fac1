import EdgeScript.Proofs.Lexing.Word
import EdgeScript.Proofs.Positions.Text

/-!
# Tokens tile their text

A text is cut into gaps and words, one behind the other, and nothing is left over: `Tiling` says so
without a lexer.  `Lexer.Finds` says what the lexer does at one place, whatever it finds there: it
passes over a gap and then takes a word, or stops at the end.  So the tokens of a text, if it has no
faults, are those of a tiling (`Lexer.tiling_all`).
-/

set_option autoImplicit false

namespace EdgeScript

/-! ## One token -/

/-- The word is read as a token of the kind, wherever it stands before a break. -/
def Lexeme.Spells (word : List Char) (kind : TokenKind) : Prop :=
  ∃ c cs, word = c :: cs ∧ ∀ rest, AtBreak rest →
    Trivia.skip 0 (word ++ rest) = .ok 0 ∧ read c (cs ++ rest) = ⟨.ok kind, cs.length⟩

/-- No token is spelled with an empty word. -/
theorem Lexeme.Spells.ne_nil {word : List Char} {kind : TokenKind} (h : Spells word kind) :
    word ≠ [] := by
  obtain ⟨c, cs, rfl, -⟩ := h
  exact List.cons_ne_nil _ _

theorem Lexeme.Spells.ne_eof {word : List Char} {kind : TokenKind} (h : Spells word kind) :
    kind ≠ .eof := by
  obtain ⟨c, cs, -, hread⟩ := h
  rintro rfl
  exact read_kind_ne_eof c (cs ++ []) (congrArg Lexeme.kind (hread [] (.inl rfl)).2)

namespace Lexer

theorem advance_advance (l : Lexer) (m n : Nat) : (l.advance m).advance n = l.advance (m + n) := by
  simp only [advance, List.take_add, utf8Length_append, List.drop_drop, Nat.add_assoc]

/-- Behind what has been passed over the rest begins. -/
theorem rest_advance {l : Lexer} {front rest : List Char} (h : l.rest = front ++ rest) :
    (l.advance front.length).rest = rest := by
  rw [advance, h, List.drop_left]

/-- Passing over characters adds their bytes to the offset. -/
theorem offset_advance {l : Lexer} {front rest : List Char} (h : l.rest = front ++ rest) :
    (l.advance front.length).offset = l.offset + utf8Length front := by
  rw [advance, h, List.take_left]

/-- What the lexer finds behind a gap, and where it stops: the end of the text, a word that is a
token or has a fault, or a comment without an end, which takes the rest of the text. -/
inductive Finds (l : Lexer) : Except Error Token → Lexer → Prop
  | finish (hgap : Trivia.Gap [] l.rest) :
      Finds l (.ok ⟨.eof, (l.advance l.rest.length).spanTo (l.advance l.rest.length)⟩)
        (l.advance l.rest.length)
  | token {gap word rest : List Char} {kind : TokenKind} (hrest : l.rest = gap ++ (word ++ rest))
      (hgap : Trivia.Gap (word ++ rest) gap) (hword : Lexeme.Spells word kind) :
      Finds l (.ok ⟨kind, (l.advance gap.length).spanTo (l.advance (gap ++ word).length)⟩)
        (l.advance (gap ++ word).length)
  | fault {gap word rest : List Char} {fault : LexFault} (hrest : l.rest = gap ++ (word ++ rest))
      (hgap : Trivia.Gap (word ++ rest) gap) (hword : word ≠ []) :
      Finds l (.error (.lex fault ((l.advance gap.length).spanTo (l.advance (gap ++ word).length))))
        (l.advance (gap ++ word).length)
  | unclosed {gap rest : List Char} (hrest : l.rest = gap ++ rest) (hgap : Trivia.Gap rest gap)
      (hopen : ['/', '*'] <+: rest) :
      Finds l
        (.error (.lex .unterminatedComment
          ((l.advance gap.length).spanTo (l.advance l.rest.length))))
        (l.advance l.rest.length)

/-- The next token is the one behind the gap. -/
theorem next_of_gap {l : Lexer} {gap text : List Char} (hrest : l.rest = gap ++ text)
    (hgap : Trivia.Gap text gap) (hskip : Trivia.skip 0 text = .ok 0) :
    l.next = (l.advance gap.length).token := by
  rw [next, hrest, Trivia.skip_gap hgap, hskip]
  simp [Trivia.shift]

/-- The next token is a word behind a gap, or the end behind one. -/
theorem finds_next (l : Lexer) : Finds l l.next.1 l.next.2 := by
  obtain ⟨gap, text, hrest, hgap, hskip | ⟨hskip, hopen⟩⟩ := Trivia.exists_gap l.rest
  · rw [next_of_gap hrest hgap hskip, token, rest_advance hrest]
    cases text with
    | nil =>
      rw [List.append_nil] at hrest
      rw [← hrest] at hgap ⊢
      exact .finish hgap
    | cons c cs =>
      obtain ⟨word, rest, rfl, hlength⟩ : ∃ word rest, cs = word ++ rest ∧
          (Lexeme.read c cs).more = word.length :=
        ⟨_, _, (List.take_append_drop (Lexeme.read c cs).more cs).symm,
          (List.length_take_of_le (Lexeme.more_le c cs)).symm⟩
      have hend : (l.advance gap.length).advance (word.length + 1) =
          l.advance (gap ++ c :: word).length := by
        rw [advance_advance, List.length_append, List.length_cons]
      dsimp only
      rw [hlength, hend]
      split
      · rename_i kind hkind
        have hread : Lexeme.read c (word ++ rest) = ⟨.ok kind, word.length⟩ := by
          rw [← hkind, ← hlength]
        refine .token hrest hgap ⟨c, word, rfl, fun rest' hbreak => ⟨?_, ?_⟩⟩
        · exact Lexeme.skip_of_atBreak hread hskip hbreak
        · exact Lexeme.read_of_atBreak hread hbreak
      · exact .fault hrest hgap (List.cons_ne_nil c word)
  · have hnext : l.next = (.error (.lex .unterminatedComment
        ((l.advance gap.length).spanTo (l.advance l.rest.length))), l.advance l.rest.length) := by
      rw [next, hrest, Trivia.skip_gap hgap, hskip]
      simp [Trivia.shift]
    rw [hnext]
    exact .unclosed hrest hgap hopen

theorem finds_of_next {l l' : Lexer} {r : Except Error Token} (h : l.next = (r, l')) :
    Finds l r l' := by
  have hfinds := finds_next l
  rwa [h] at hfinds

theorem all_of_next_eof {l l' : Lexer} {t : Token} (h : l.next = (.ok t, l')) (ht : t.kind = .eof) :
    l.all = (.ok [t], l') := by
  rw [all]
  split
  · rename_i hnext
    cases h.symm.trans hnext
  · rename_i hnext
    cases h.symm.trans hnext
    rw [dif_pos ht]

end Lexer

/-! ## All tokens -/

/-- The tokens stand in the text, which is cut into gaps and words.  Each token but the last one has
a word, which is as `IsWord` says, and the last one is the end of the text.  `offset` counts the
bytes in front. -/
inductive Tiling (file : Nat) (IsWord : List Char → TokenKind → Prop) : Nat → List Char →
  List Token → Prop
  | finish {offset : Nat} {gap : List Char} (hgap : Trivia.Gap [] gap) :
      Tiling file IsWord offset
        gap [⟨.eof, ⟨offset + utf8Length gap, offset + utf8Length gap, file⟩⟩]
  | token {offset : Nat} {gap word rest : List Char} {kind : TokenKind} {tokens : List Token}
      (hgap : Trivia.Gap (word ++ rest) gap) (hword : IsWord word kind)
      (h : Tiling file IsWord (offset + utf8Length gap + utf8Length word) rest tokens) :
      Tiling file IsWord offset (gap ++ (word ++ rest))
        (⟨kind, ⟨offset + utf8Length gap, offset + utf8Length gap + utf8Length word, file⟩⟩ ::
          tokens)

namespace Lexer

theorem finish_eq (l : Lexer) : (l.advance l.rest.length).spanTo (l.advance l.rest.length) =
    ⟨l.offset + utf8Length l.rest, l.offset + utf8Length l.rest, l.file⟩ := by
  rw [spanTo, offset_advance (List.append_nil _).symm]
  rfl

theorem span_eq {l : Lexer} {gap word rest : List Char} (h : l.rest = gap ++ (word ++ rest)) :
    (l.advance gap.length).spanTo (l.advance (gap ++ word).length) =
      ⟨l.offset + utf8Length gap, l.offset + utf8Length gap + utf8Length word, l.file⟩ := by
  rw [spanTo, offset_advance h, offset_advance (h.trans (List.append_assoc ..).symm),
    utf8Length_append, Nat.add_assoc]
  rfl

/-- All tokens tile what is left, by induction on the reading of tokens. -/
theorem tiling_all (l : Lexer) {tokens : List Token} (h : l.all.1 = .ok tokens) :
    Tiling l.file Lexeme.Spells l.offset l.rest tokens := by
  fun_induction Lexer.all l generalizing tokens with
  | case1 => cases h
  | case2 l t l' hnext ht =>
    cases h
    cases finds_of_next hnext with
    | finish hgap =>
      rw [finish_eq]
      exact .finish hgap
    | token hrest hgap hword => exact absurd ht hword.ne_eof
  | case3 l t l' hnext ht _ more l'' hall ih =>
    cases h
    have hmore := ih (congrArg Prod.fst hall)
    cases finds_of_next hnext with
    | finish hgap => exact absurd rfl ht
    | token hrest hgap hword =>
      have hrest' := hrest.trans (List.append_assoc ..).symm
      rw [rest_advance hrest', offset_advance hrest', utf8Length_append, ← Nat.add_assoc] at hmore
      rw [span_eq hrest, hrest]
      exact .token hgap hword hmore
  | case4 => cases h

end Lexer

/-- So they tile the text. -/
theorem tiling_tokenize {text : String} {file : Nat} {tokens : List Token}
    (h : tokenize text file = .ok tokens) : Tiling file Lexeme.Spells 0 text.toList tokens :=
  (Lexer.ofText text file).tiling_all h

namespace Tiling

variable {file offset : Nat} {IsWord IsWord' : List Char → TokenKind → Prop} {text : List Char}
  {tokens : List Token}

/-- A tiling is one by any weaker notion of a word. -/
theorem mono (h : Tiling file IsWord offset text tokens)
    (hword : ∀ word kind, IsWord word kind → IsWord' word kind) :
    Tiling file IsWord' offset text tokens := by
  induction h with
  | finish hgap => exact .finish hgap
  | token hgap hword' _ ih => exact .token hgap (hword _ _ hword') ih

/-- No token starts before the text does that it is cut from. -/
theorem offset_le (h : Tiling file IsWord offset text tokens) :
    ∀ t ∈ tokens, offset ≤ t.span.start := by
  induction h with
  | finish hgap => exact List.forall_mem_singleton.2 (Nat.le_add_right _ _)
  | token hgap hword _ ih =>
    refine List.forall_mem_cons.2 ⟨Nat.le_add_right _ _, fun t ht => ?_⟩
    have hle := ih t ht
    omega

/-- Each token ends before the next one starts. -/
theorem pairwise (h : Tiling file IsWord offset text tokens) :
    tokens.Pairwise fun s t => s.span.stop ≤ t.span.start := by
  induction h with
  | finish hgap => exact List.pairwise_singleton _ _
  | token hgap hword h ih => exact List.pairwise_cons.2 ⟨h.offset_le, ih⟩

/-- The last token is the end of the text, and each of the others has a word of its own. -/
theorem exists_front (h : Tiling file IsWord offset text tokens) :
    ∃ front, tokens = front ++
      [⟨.eof, ⟨offset + utf8Length text, offset + utf8Length text, file⟩⟩] ∧
      ∀ t ∈ front, ∃ before word after, text = before ++ word ++ after ∧ IsWord word t.kind ∧
        t.span = ⟨offset + utf8Length before, offset + utf8Length before + utf8Length word,
          file⟩ := by
  induction h with
  | finish hgap => exact ⟨[], rfl, fun _ ht => absurd ht List.not_mem_nil⟩
  | token hgap hword _ ih =>
    rename_i offset gap word rest kind tokens _
    obtain ⟨front, rfl, hfront⟩ := ih
    let first : Token :=
      ⟨kind, ⟨offset + utf8Length gap, offset + utf8Length gap + utf8Length word, file⟩⟩
    refine ⟨first :: front, ?_, List.forall_mem_cons.2 ⟨?_, fun t ht => ?_⟩⟩
    · simp only [utf8Length_append, Nat.add_assoc, List.cons_append, first]
    · exact ⟨gap, word, rest, (List.append_assoc ..).symm, hword, rfl⟩
    · obtain ⟨before, word', after, rfl, hword', hspan⟩ := hfront t ht
      refine ⟨gap ++ word ++ before, word', after, by simp, hword', ?_⟩
      rw [hspan]
      simp only [utf8Length_append, Nat.add_assoc]

end Tiling

theorem utf8Length_pos {cs : List Char} (h : cs ≠ []) : 0 < utf8Length cs := by
  obtain ⟨c, cs, rfl⟩ := List.exists_cons_of_ne_nil h
  exact Nat.add_pos_left c.utf8Size_pos _

/-- **Tokens tile their text.**  The text of a script without faults is cut into gaps and words, and
a gap is made of blanks, of comments between marks and of line comments that are not carried into
the output.  Each word is that of one token, and no two tokens share a character.  The last token is
the end of the text, behind its last byte. -/
theorem tokens_tile_the_text {text : String} {file : Nat} {tokens : List Token}
    (h : tokenize text file = .ok tokens) :
    Tiling file (fun word kind => word ≠ [] ∧ kind ≠ .eof) 0 text.toList tokens ∧
      (tokens.Pairwise fun s t => s.span.stop ≤ t.span.start) ∧
      ∃ front, tokens = front ++ [⟨.eof, ⟨text.utf8ByteSize, text.utf8ByteSize, file⟩⟩] ∧
        ∀ t ∈ front, t.kind ≠ .eof ∧ t.span.start < t.span.stop := by
  have htiling := tiling_tokenize h
  refine ⟨htiling.mono fun word kind hword => ⟨hword.ne_nil, hword.ne_eof⟩, htiling.pairwise, ?_⟩
  obtain ⟨front, htokens, hfront⟩ := htiling.exists_front
  rw [Nat.zero_add, utf8Length_toList] at htokens
  refine ⟨front, htokens, fun t ht => ?_⟩
  obtain ⟨before, word, after, -, hword, hspan⟩ := hfront t ht
  rw [hspan]
  exact ⟨hword.ne_eof, Nat.lt_add_of_pos_right (utf8Length_pos hword.ne_nil)⟩

/-- Gaps of all sorts, a letter of two bytes, and a comment of two lines that is one token. -/
theorem tokens_tile_the_text_gaps :
    tokenize "é/* */ //### a\n //### b\n//c" 0 =
        .ok [⟨.ident "é", ⟨0, 2, 0⟩⟩, ⟨.comment "a\nb", ⟨8, 24, 0⟩⟩, ⟨.eof, ⟨28, 28, 0⟩⟩] ∧
      Tiling 0 (fun word kind => word ≠ [] ∧ kind ≠ .eof) 0 "é/* */ //### a\n //### b\n//c".toList
        [⟨.ident "é", ⟨0, 2, 0⟩⟩, ⟨.comment "a\nb", ⟨8, 24, 0⟩⟩, ⟨.eof, ⟨28, 28, 0⟩⟩] := by
  have h : tokenize "é/* */ //### a\n //### b\n//c" 0 =
      .ok [⟨.ident "é", ⟨0, 2, 0⟩⟩, ⟨.comment "a\nb", ⟨8, 24, 0⟩⟩, ⟨.eof, ⟨28, 28, 0⟩⟩] := by
    decide +kernel
  exact ⟨h, (tokens_tile_the_text h).1⟩

end EdgeScript
