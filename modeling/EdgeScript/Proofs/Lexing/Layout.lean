import Mathlib.Data.String.Basic
import EdgeScript.Proofs.Lexing.Tiling
import EdgeScript.Proofs.Printing.Token

/-!
# The layout of tokens does not matter

The kind of a token depends on its word alone, so the words of a text may be moved apart or
together, as long as a blank line stays between them (`Layout`): the tokens are the same
(`Lexer.exists_all_of_layout`).  One blank line is always enough, whatever the two tokens are; a
single line's end is not, since comments that are carried into the output go on in the next line.
-/

set_option autoImplicit false

namespace EdgeScript

/-- The stretch of a text that a span covers. -/
def Span.slice (span : Span) (text : String) : String :=
  String.Pos.Raw.extract text ⟨span.start⟩ ⟨span.stop⟩

theorem Span.slice_append (before word after : List Char) (file : Nat) :
    (Span.mk (utf8Length before) (utf8Length before + utf8Length word) file).slice
      (String.ofList (before ++ word ++ after)) = String.ofList word := by
  have hlength (cs : List Char) : utf8Length cs = String.utf8Len cs := by
    rw [utf8Length_ofList, String.utf8ByteSize_ofList]
  rw [slice, hlength, hlength, String.extract_of_valid]

/-- The text holds the words in this order, with gaps in front of them and behind the last one.
Behind each word the text ends, or the gap starts with a blank line. -/
inductive Layout : List Char → List (List Char) → Prop
  | finish {gap : List Char} (hgap : Trivia.Gap [] gap) : Layout gap []
  | word {gap word rest : List Char} {words : List (List Char)}
      (hgap : Trivia.Gap (word ++ rest) gap) (hbreak : Lexeme.AtBreak rest)
      (h : Layout rest words) : Layout (gap ++ (word ++ rest)) (word :: words)

namespace Layout

theorem singleton (word : List Char) : Layout word [word] := by
  have h : Layout ([] ++ (word ++ [])) [word] := .word .nil (.inl rfl) (.finish .nil)
  rwa [List.nil_append, List.append_nil] at h

theorem intercalate_cons (word : List Char) (words : List (List Char)) :
    List.intercalate ['\n', '\n'] (word :: words) =
      [] ++ (word ++ words.flatMap ('\n' :: '\n' :: ·)) := by
  induction words generalizing word with
  | nil => simp
  | cons next words ih => simp [List.intercalate_cons_cons, ih]

/-- Words with blank lines between them. -/
theorem intercalate (words : List (List Char)) :
    Layout (List.intercalate ['\n', '\n'] words) words := by
  have hmore (words : List (List Char)) :
      Lexeme.AtBreak (words.flatMap ('\n' :: '\n' :: ·)) ∧
      Layout (words.flatMap ('\n' :: '\n' :: ·)) words := by
    induction words with
    | nil => exact ⟨.inl rfl, .finish .nil⟩
    | cons word words ih =>
      have h : Layout (['\n', '\n'] ++ (word ++ words.flatMap ('\n' :: '\n' :: ·)))
          (word :: words) :=
        .word (.blank (by simp) (.blank (by simp) .nil)) ih.1 ih.2
      exact ⟨.inr ⟨_, rfl⟩, h⟩
  cases words with
  | nil => exact .finish .nil
  | cons word words =>
    rw [intercalate_cons]
    exact .word .nil (hmore words).1 (hmore words).2

end Layout

namespace Lexer

/-- The next token is the word at the place. -/
theorem exists_next_of_spells {l : Lexer} {gap word rest : List Char} {kind : TokenKind}
    (hl : l.rest = gap ++ (word ++ rest)) (hgap : Trivia.Gap (word ++ rest) gap)
    (hword : Lexeme.Spells word kind) (hbreak : Lexeme.AtBreak rest) :
    ∃ t l', l.next = (.ok t, l') ∧ t.kind = kind ∧ l'.rest = rest := by
  obtain ⟨c, cs, rfl, hread⟩ := hword
  obtain ⟨hskip, hread⟩ := hread rest hbreak
  have hat : (l.advance gap.length).rest = c :: (cs ++ rest) := rest_advance hl
  let l' := (l.advance gap.length).advance (cs.length + 1)
  refine ⟨⟨kind, (l.advance gap.length).spanTo l'⟩, l', ?_, rfl, ?_⟩
  · rw [next_of_gap hl hgap hskip, token, hat]
    dsimp only
    rw [hread]
  · show ((l.advance gap.length).advance (cs.length + 1)).rest = rest
    rw [advance, hat]
    simp

theorem exists_next_of_gap {l : Lexer} (hgap : Trivia.Gap [] l.rest) :
    ∃ t l', l.next = (.ok t, l') ∧ t.kind = .eof := by
  have hl : l.rest = l.rest ++ [] := (List.append_nil _).symm
  let l' := l.advance l.rest.length
  refine ⟨⟨.eof, l'.spanTo l'⟩, l', ?_, rfl⟩
  rw [next_of_gap hl hgap rfl, token, rest_advance hl]

/-- **The words of a layout are the tokens of the text.** -/
theorem exists_all_of_layout {text : List Char} {words : List (List Char)} {kinds : List TokenKind}
    (h : Layout text words) (hwords : List.Forall₂ Lexeme.Spells words kinds) {l : Lexer}
    (hl : l.rest = text) :
    ∃ tokens, l.all.1 = .ok tokens ∧ tokens.map Token.kind = kinds ++ [.eof] := by
  induction h generalizing kinds l with
  | finish hgap =>
    cases hwords
    obtain ⟨t, l', hnext, ht⟩ := exists_next_of_gap (hl ▸ hgap)
    exact ⟨[t], congrArg Prod.fst (all_of_next_eof hnext ht), by
      rw [List.map_singleton, ht, List.nil_append]⟩
  | word hgap hbreak _ ih =>
    cases hwords with
    | cons hword hwords =>
      obtain ⟨t, l', hnext, rfl, hrest⟩ := exists_next_of_spells hl hgap hword hbreak
      obtain ⟨tokens, hall, hkinds⟩ := ih hwords hrest
      refine ⟨t :: tokens, all_of_next hnext hword.ne_eof hall, ?_⟩
      rw [List.map_cons, hkinds, List.cons_append]

end Lexer

theorem exists_tokenize_of_layout {text : String} {words : List (List Char)}
    {kinds : List TokenKind} (h : Layout text.toList words)
    (hwords : List.Forall₂ Lexeme.Spells words kinds) (file : Nat) :
    ∃ tokens, tokenize text file = .ok tokens ∧ tokens.map Token.kind = kinds ++ [.eof] :=
  Lexer.exists_all_of_layout h hwords rfl

/-- Each token is spelled by the stretch of the text that it covers. -/
theorem spells_slice {text : String} {file : Nat} {tokens : List Token}
    (h : tokenize text file = .ok tokens) :
    tokens.map Token.kind = tokens.dropLast.map Token.kind ++ [.eof] ∧
      ∀ t ∈ tokens.dropLast, Lexeme.Spells (t.span.slice text).toList t.kind := by
  obtain ⟨front, rfl, hfront⟩ := (tiling_tokenize h).exists_front
  rw [List.dropLast_concat]
  refine ⟨by rw [List.map_append, List.map_singleton], fun t ht => ?_⟩
  obtain ⟨before, word, after, htext, hword, hspan⟩ := hfront t ht
  rw [Nat.zero_add] at hspan
  have hslice : t.span.slice text = String.ofList word := by
    rw [hspan, ← String.ofList_toList (s := text), htext, Span.slice_append]
  rwa [hslice, String.toList_ofList]

theorem Lexeme.Spells.unique {word : List Char} {kind kind' : TokenKind} (h : Spells word kind)
    (h' : Spells word kind') : kind = kind' := by
  obtain ⟨c, cs, rfl, hread⟩ := h
  obtain ⟨c', cs', heq, hread'⟩ := h'
  cases heq
  have hkind := congrArg Lexeme.kind ((hread [] (.inl rfl)).2.symm.trans (hread' [] (.inl rfl)).2)
  exact Except.ok.inj hkind

/-- **Tokens are read from their own words, and layout does not matter.**  The stretch of a text
that a token covers is read as that token and nothing else, so tokens that are spelled alike, even
in different texts, are of one kind.  The stretches of all tokens, joined by blank lines, are read
as the same sequence of kinds, and so they are from every text that has them in this order with a
blank line, or more, behind each. -/
theorem tokens_are_read_from_their_words {text : String} {file : Nat} {tokens : List Token}
    (h : tokenize text file = .ok tokens) (file' : Nat) :
    let slices := tokens.dropLast.map fun t => t.span.slice text
    let kinds := tokens.dropLast.map Token.kind
    tokens.map Token.kind = kinds ++ [.eof] ∧
      (∀ t ∈ tokens.dropLast, ∃ read, tokenize (t.span.slice text) file' = .ok read ∧
        read.map Token.kind = [t.kind, .eof]) ∧
      (∃ read, tokenize ("\n\n".intercalate slices) file' = .ok read ∧
        read.map Token.kind = kinds ++ [.eof]) ∧
      (∀ text' : String, Layout text'.toList (slices.map String.toList) →
        ∃ read, tokenize text' file' = .ok read ∧ read.map Token.kind = kinds ++ [.eof]) ∧
      ∀ text' tokens', tokenize text' file' = .ok tokens' →
      ∀ t ∈ tokens.dropLast, ∀ t' ∈ tokens'.dropLast,
        t'.span.slice text' = t.span.slice text → t'.kind = t.kind := by
  intro slices kinds
  obtain ⟨hkinds, hspells⟩ := spells_slice h
  have hwords : List.Forall₂ Lexeme.Spells (slices.map String.toList) kinds := by
    rw [List.map_map, List.forall₂_map_left_iff, List.forall₂_map_right_iff, List.forall₂_same]
    exact hspells
  have hlayout (text' : String) (htext' : Layout text'.toList (slices.map String.toList)) :
      ∃ read, tokenize text' file' = .ok read ∧ read.map Token.kind = kinds ++ [.eof] :=
    exists_tokenize_of_layout htext' hwords file'
  refine ⟨hkinds, fun t ht => ?_, hlayout _ ?_, hlayout,
    fun text' tokens' h' t ht t' ht' hslice => ?_⟩
  · exact exists_tokenize_of_layout (.singleton _) (.cons (hspells t ht) .nil) file'
  · rw [String.toList_intercalate]
    exact .intercalate _
  · have hspells' := (spells_slice h').2 t' ht'
    rw [hslice] at hspells'
    exact hspells'.unique (hspells t ht)

/-- Tokens that touch, and a comment of two lines, are moved apart. -/
theorem tokens_are_read_from_their_words_touching :
    (tokenize "===='x'1..2//### a\n //### b" 0 = .ok
      [⟨.symbol .eqEq, ⟨0, 3, 0⟩⟩, ⟨.symbol .assign, ⟨3, 4, 0⟩⟩, ⟨.str "x", ⟨4, 7, 0⟩⟩,
        ⟨.int 1, ⟨7, 8, 0⟩⟩, ⟨.symbol .dotDot, ⟨8, 10, 0⟩⟩, ⟨.int 2, ⟨10, 11, 0⟩⟩,
        ⟨.comment "a\nb", ⟨11, 27, 0⟩⟩, ⟨.eof, ⟨27, 27, 0⟩⟩]) ∧
      ∃ read, tokenize "===\n\n=\n\n'x'\n\n1\n\n..\n\n2\n\n//### a\n //### b" 0 = .ok read ∧
        read.map Token.kind =
          [.symbol .eqEq, .symbol .assign, .str "x", .int 1, .symbol .dotDot, .int 2,
          .comment "a\nb", .eof] := by
  have h : tokenize "===='x'1..2//### a\n //### b" 0 = .ok
      [⟨.symbol .eqEq, ⟨0, 3, 0⟩⟩, ⟨.symbol .assign, ⟨3, 4, 0⟩⟩, ⟨.str "x", ⟨4, 7, 0⟩⟩,
        ⟨.int 1, ⟨7, 8, 0⟩⟩, ⟨.symbol .dotDot, ⟨8, 10, 0⟩⟩, ⟨.int 2, ⟨10, 11, 0⟩⟩,
        ⟨.comment "a\nb", ⟨11, 27, 0⟩⟩, ⟨.eof, ⟨27, 27, 0⟩⟩] := by
    decide +kernel
  exact ⟨h, (tokens_are_read_from_their_words h 0).2.2.1⟩

end EdgeScript
