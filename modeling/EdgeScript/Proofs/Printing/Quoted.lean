import EdgeScript.Proofs.Positions.Text
import EdgeScript.Proofs.Printing.Token

/-!
# Quoted strings are read back

In an expression of the markup a string stands between quotes, escaped or raw, and the choice is
made by its content.  The lexer of scripts makes the same choice by the characters it finds, and
from either form it reads the string that was written (`Lexeme.read_quoteString`).

The two forms are told apart behind the first quote.  An escaped string has no second quote there,
unless it is empty; then its closing quote is the second one, and a third would make it raw.  So a
quote must not follow.
-/

set_option autoImplicit false

namespace EdgeScript

open Markup (Ends escapeQuotes quoteString isRaw)

/-! ## One string -/

namespace Lexeme

/-- The escapes of a string are taken back up to the closing quote. -/
theorem stringBody_escapeQuotes (cs rest : List Char) :
    stringBody '\'' (escapeQuotes cs ++ '\'' :: rest) =
      (some cs, (escapeQuotes cs).length + 1) := by
  induction cs with
  | nil => simp [escapeQuotes, stringBody]
  | cons c cs ih =>
    rw [escapeQuotes]
    split
    · rename_i hc
      have hself : unescape c = c := by
        rw [Bool.or_eq_true, decide_eq_true_iff, decide_eq_true_iff] at hc
        rcases hc with rfl | rfl <;> rfl
      exact (stringBody_cons (.inl ⟨rfl, hself⟩) ih).trans (by simp)
    · rename_i hc
      rw [Bool.or_eq_true, decide_eq_true_iff, decide_eq_true_iff, not_or] at hc
      exact (stringBody_cons (.inr ⟨rfl, hc.2, hc.1⟩) ih).trans (by simp)

/-- A raw string goes up to the three quotes behind it, if it neither has such quotes nor ends with
one. -/
theorem rawBody_append {cs : List Char} (rest : List Char)
    (hinside : Text.occursIn ['\'', '\'', '\''] cs = false) (hlast : cs.getLast? ≠ some '\'') :
    rawBody (cs ++ '\'' :: '\'' :: '\'' :: rest) = (some cs, cs.length + 3) := by
  induction cs with
  | nil => rw [List.nil_append, rawBody, List.length_nil]
  | cons c cs ih =>
    obtain ⟨hinside', hlast'⟩ := Markup.raw_of_cons hinside hlast
    rw [List.cons_append, rawBody, ih hinside' hlast']
    · simp [Nat.add_right_comm]
    · exact fun after hc h => Markup.not_quotes_of_append hinside hlast hc h

/-- Behind the first quote of an escaped string there are no two more, if none follows the
string. -/
theorem not_quotes_prefix_escapeQuotes (cs : List Char) {rest : List Char}
    (hrest : Ends (· == '\'') rest) : ¬ ['\'', '\''] <+: escapeQuotes cs ++ '\'' :: rest := by
  cases cs with
  | nil =>
    cases rest with
    | nil => simp [escapeQuotes]
    | cons d rest =>
      have hd : d ≠ '\'' := by simpa using hrest d rfl
      simpa [escapeQuotes, List.cons_prefix_cons] using hd.symm
  | cons c cs =>
    rw [escapeQuotes]
    split
    · simp [List.cons_prefix_cons]
    · rename_i hc
      simp only [Bool.or_eq_true, decide_eq_true_iff, not_or] at hc
      simp [List.cons_prefix_cons, Ne.symm hc.2]

/-- **A quoted string is one token**, whichever way it is quoted, if no quote stands behind it. -/
theorem read_quoteString {cs quoted rest : List Char} (h : quoteString cs = '\'' :: quoted)
    (hrest : Ends (· == '\'') rest) :
    read '\'' (quoted ++ rest) = ⟨.ok (.str (String.ofList cs)), quoted.length⟩ := by
  rw [read, isOutputComment_of_ne (by decide), if_neg Bool.false_ne_true, if_neg (by decide),
    if_neg (by decide), if_pos (by decide), readString]
  rw [quoteString] at h
  split at h
  · rename_i hraw
    simp only [isRaw, Bool.and_eq_true, Bool.not_eq_true', bne_iff_ne] at hraw
    cases h
    have hbody := rawBody_append rest hraw.1.1.2 hraw.2
    simp [hbody, ofString]
    omega
  · cases h
    rw [List.append_assoc, List.singleton_append, if_neg, stringBody_escapeQuotes]
    · simp [ofString]
    · rw [Bool.and_eq_true, List.isPrefixOf_iff_prefix]
      exact fun hquotes => not_quotes_prefix_escapeQuotes cs hrest hquotes.2

end Lexeme

/-! ## Texts -/

namespace Lexer

/-- The next token is the string whose quoted form stands at the place, and the lexer stops behind
this form. -/
theorem next_of_quoteString {l : Lexer} {s : String} {rest : List Char}
    (hl : l.rest = quoteString s.toList ++ rest) (hrest : Ends (· == '\'') rest) :
    l.next = (.ok ⟨.str s, ⟨l.offset, l.offset + utf8Length (quoteString s.toList), l.file⟩⟩,
      l.advance (quoteString s.toList).length) := by
  obtain ⟨quoted, hquoted⟩ := Markup.exists_quoteString_eq_cons s.toList
  have hcons : l.rest = '\'' :: (quoted ++ rest) := by rw [hl, hquoted, List.cons_append]
  have hskip : Trivia.skip 0 l.rest = .ok 0 := by
    rw [hcons]
    exact Trivia.skip_of_ne (by decide) (by decide) _
  have hstay : l.advance 0 = l := by simp [advance, utf8Length]
  have hoffset : (l.advance (quoteString s.toList).length).offset =
      l.offset + utf8Length (quoteString s.toList) := by
    rw [advance, hl, List.take_left]
  have hlength : (quoteString s.toList).length = quoted.length + 1 := by
    rw [hquoted, List.length_cons]
  rw [next, hskip]
  dsimp only
  rw [hstay, token, hcons]
  dsimp only
  rw [Lexeme.read_quoteString hquoted hrest, String.ofList_toList, ← hlength]
  dsimp only
  rw [spanTo, hoffset]

end Lexer

/-- **Quoting is undone by the lexer.**  The quoted form of a string, whatever the string holds, is
read as the string and nothing else.  In front of any text that does not start with a single quote
it is the first token, with a span that covers the quoted form, and the rest of the text is left. -/
theorem quoted_strings_are_read_back (s : String) (file : Nat) :
    let quoted := (Literal.str s).render .expression
    let token : Token := ⟨.str s, ⟨0, quoted.utf8ByteSize, file⟩⟩
    (∃ finish, tokenize quoted file = .ok [token, finish] ∧ finish.kind = .eof) ∧
      ∀ rest : String, rest.toList.head? ≠ some '\'' →
        ∃ l, (Lexer.ofText (quoted ++ rest) file).next = (.ok token, l) ∧ l.rest = rest.toList := by
  intro quoted token
  have hquoted : quoted.toList = quoteString s.toList := String.toList_ofList
  have hnext {l : Lexer} {rest : List Char} (hfile : l.file = file) (hoffset : l.offset = 0)
      (hl : l.rest = quoteString s.toList ++ rest) (hrest : Ends (· == '\'') rest) :
      l.next = (.ok token, l.advance (quoteString s.toList).length) := by
    rw [Lexer.next_of_quoteString hl hrest, hfile, hoffset, Nat.zero_add, ← hquoted,
      utf8Length_toList]
  have hbehind {l : Lexer} {rest : List Char} (hl : l.rest = quoteString s.toList ++ rest) :
      (l.advance (quoteString s.toList).length).rest = rest := by
    rw [Lexer.advance, hl, List.drop_left]
  constructor
  · have hstart : (Lexer.ofText quoted file).rest = quoteString s.toList ++ [] := by
      rw [List.append_nil, ← hquoted, Lexer.ofText]
    obtain ⟨finish, hall, hfinish⟩ := Lexer.all_of_rest_eq_nil (hbehind hstart)
    refine ⟨finish, ?_, hfinish⟩
    exact Lexer.all_of_next (hnext rfl rfl hstart (by simp [Ends])) (by simp [token]) hall
  · intro rest hrest
    have hstart : (Lexer.ofText (quoted ++ rest) file).rest =
        quoteString s.toList ++ rest.toList := by
      rw [← hquoted, ← String.toList_append, Lexer.ofText]
    refine ⟨_, hnext rfl rfl hstart fun c hc => ?_, hbehind hstart⟩
    rw [beq_eq_false_iff_ne]
    rintro rfl
    exact hrest hc

/-- A string with a quote inside and a backslash at its end, in front of an operator. -/
theorem quoted_strings_are_read_back_backslashAtEnd :
    (Literal.str "it's\\").render .expression = "'''it's\\'''" ∧ " + x".toList.head? ≠ some '\'' ∧
      (∃ finish, tokenize "'''it's\\'''" 0 = .ok [⟨.str "it's\\", ⟨0, 11, 0⟩⟩, finish] ∧
        finish.kind = .eof) ∧
      ∃ l, (Lexer.ofText ("'''it's\\'''" ++ " + x") 0).next = (.ok ⟨.str "it's\\", ⟨0, 11, 0⟩⟩, l) ∧
        l.rest = " + x".toList := by
  have hquoted : (Literal.str "it's\\").render .expression = "'''it's\\'''" := by decide
  have hrest : " + x".toList.head? ≠ some '\'' := by decide
  have hread := quoted_strings_are_read_back "it's\\" 0
  rw [hquoted] at hread
  exact ⟨hquoted, hrest, hread.1, hread.2 " + x" hrest⟩

end EdgeScript
