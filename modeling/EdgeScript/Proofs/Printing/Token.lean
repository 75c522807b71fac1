import EdgeScript.Token.Lexer
import EdgeScript.Proofs.Rendering.Reader

/-!
# Writing tokens

Every token of an expression has a spelling, and a text of spellings with blanks between them is
read as the tokens it was written from (`exists_tokenize_textOf`).  A blank is enough to keep any
two tokens apart: whatever a token is, the reader takes exactly its spelling from a text in which a
blank or the end follows (`Lexeme.read_spelling`).
-/

set_option autoImplicit false

namespace EdgeScript

open Markup (Ends takeWhile_append_of_ends)

/-! ## Spellings -/

/-- Whether a text is a name and no keyword. -/
def Lexeme.IsIdentifier (name : String) : Prop :=
  ∃ c cs, name.toList = c :: cs ∧ isNameStart c = true ∧ cs.all isNamePart = true ∧
    Keyword.ofText? name = none

namespace TokenKind

/-- A character in a string: quotes and backslashes have a backslash in front. -/
def spellChar (c : Char) : List Char :=
  if c = '"' ∨ c = '\\' then ['\\', c] else [c]

/-- How a token is written.  Comments and the end of a text are not. -/
def spelling : TokenKind → List Char
  | .keyword k => k.text.toList
  | .symbol s => s.text.toList
  | .ident name => name.toList
  | .int value => Nat.toDigits 10 value.toInt.toNat
  | .str value => '"' :: (value.toList.flatMap spellChar ++ ['"'])
  | .comment _ | .eof => []

/-- The tokens that can be written: names have to be names, and numbers have no sign. -/
def Writable : TokenKind → Prop
  | .keyword _ | .symbol _ | .str _ => True
  | .ident name => Lexeme.IsIdentifier name
  | .int value => 0 ≤ value.toInt
  | .comment _ | .eof => False

end TokenKind

/-- What may follow a token: a blank or nothing. -/
def Apart (rest : List Char) : Prop := ∀ c ∈ rest.head?, c = ' '

theorem Apart.ends {rest : List Char} (h : Apart rest) {p : Char → Bool} (hp : p ' ' = false) :
    Ends p rest := by
  intro c hc
  rw [h c hc, hp]

/-! ## Reading a spelling -/

namespace Lexeme

open TokenKind

variable {rest : List Char}

theorem isOutputComment_of_ne {c : Char} (hc : c ≠ '/') (cs : List Char) :
    Trivia.isOutputComment (c :: cs) = false := by
  rw [Trivia.isOutputComment, List.isPrefixOf_cons_cons, beq_false_of_ne hc.symm, Bool.false_and]

theorem ne_slash_of_isNameStart {c : Char} (h : isNameStart c = true) : c ≠ '/' := by
  rintro rfl
  revert h
  decide

section Names

variable {c : Char} {cs : List Char} (hc : isNameStart c = true) (hcs : cs.all isNamePart = true)
  (hrest : Apart rest)
include hc hcs hrest

/-- A name is read up to the blank behind it. -/
theorem read_name :
    read c (cs ++ rest) = readName c (cs ++ rest) ∧ (cs ++ rest).takeWhile isNamePart = cs := by
  refine ⟨?_, (takeWhile_append_of_ends (List.all_eq_true.1 hcs) (hrest.ends (by decide))).1⟩
  rw [read, isOutputComment_of_ne (ne_slash_of_isNameStart hc), if_neg Bool.false_ne_true,
    if_pos hc]

theorem read_keyword {k : Keyword} (hk : Keyword.ofText? (String.ofList (c :: cs)) = some k) :
    read c (cs ++ rest) = ⟨.ok (.keyword k), cs.length⟩ := by
  obtain ⟨hread, htake⟩ := read_name hc hcs hrest
  rw [hread, readName, htake, hk]

theorem read_ident (hk : Keyword.ofText? (String.ofList (c :: cs)) = none) :
    read c (cs ++ rest) = ⟨.ok (.ident (String.ofList (c :: cs))), cs.length⟩ := by
  obtain ⟨hread, htake⟩ := read_name hc hcs hrest
  rw [hread, readName, htake, hk]

end Names

/-! ### Numbers -/

theorem mem_digits_of_isDigit {c : Char} (h : c.isDigit = true) :
    c ∈ ['0', '1', '2', '3', '4', '5', '6', '7', '8', '9'] := by
  have hrange := Char.isDigit_iff_toNat.1 h
  have hzero : '0'.toNat = 48 := rfl
  have hnine : '9'.toNat = 57 := rfl
  simp only [List.mem_cons, ← Char.toNat_inj, List.not_mem_nil, Char.reduceToNat]
  omega

/-- What holds of each digit holds of every character that is one. -/
theorem of_isDigit {p : Char → Bool}
    (hp : ['0', '1', '2', '3', '4', '5', '6', '7', '8', '9'].all p = true) {c : Char}
    (h : c.isDigit = true) : p c = true :=
  List.all_eq_true.1 hp c (mem_digits_of_isDigit h)

theorem digitValue?_of_isDigit {c : Char} (h : c.isDigit = true) :
    digitValue? 10 c = some (c.toNat - '0'.toNat) := by
  have hvalue :=
    of_isDigit (p := fun c => digitValue? 10 c == some (c.toNat - '0'.toNat)) (by decide) h
  exact beq_iff_eq.1 hvalue

theorem digitsValue?_eq {cs : List Char} (hcs : ∀ c ∈ cs, c.isDigit = true) (n : Nat) :
    digitsValue? 10 n cs = some (Nat.ofDigitChars 10 cs n) := by
  induction cs generalizing n with
  | nil => rfl
  | cons c cs ih =>
    rw [List.forall_mem_cons] at hcs
    rw [digitsValue?, digitValue?_of_isDigit hcs.1, Nat.ofDigitChars_cons, Nat.mul_comm]
    exact ih hcs.2 _

/-- A number is the value of its digits. -/
theorem integer?_toDigits {n : Nat} (h : n ≤ 9223372036854775807) :
    integer? 10 (Nat.toDigits 10 n) = some (Int64.ofNat n) := by
  have hdigits : ∀ c ∈ Nat.toDigits 10 n, c.isDigit = true := fun c hc =>
    Nat.isDigit_of_mem_toDigits (by decide) (by decide) hc
  have hfilter : (Nat.toDigits 10 n).filter (· != '_') = Nat.toDigits 10 n := by
    refine List.filter_eq_self.2 fun c hc => bne_iff_ne.2 ?_
    rintro rfl
    exact absurd (hdigits _ hc) (by decide)
  rw [integer?, hfilter]
  split
  · exact absurd ‹_› Nat.toDigits_ne_nil
  · rw [digitsValue?_eq hdigits, Nat.ofDigitChars_toDigits (by decide) (by decide)]
    exact if_pos h

/-- A number is read up to the blank behind it. -/
theorem read_toDigits {n : Nat} (h : n ≤ 9223372036854775807) {c : Char} {cs : List Char}
    (hn : Nat.toDigits 10 n = c :: cs) (hrest : Apart rest) :
    read c (cs ++ rest) = ⟨.ok (.int (Int64.ofNat n)), cs.length⟩ := by
  have hdigits : ∀ d ∈ c :: cs, d.isDigit = true := fun d hd =>
    Nat.isDigit_of_mem_toDigits (by decide) (by decide) (hn ▸ hd)
  have hc : c.isDigit = true := hdigits c List.mem_cons_self
  have hslash : c ≠ '/' := bne_iff_ne.1 (of_isDigit (p := (· != '/')) (by decide) hc)
  have hname : isNameStart c = false := by
    simpa using of_isDigit (p := fun c => !isNameStart c) (by decide) hc
  -- the character behind the first digit is a digit or a blank, and no mark of a hexadecimal number
  have hbehind : ∀ d ∈ (cs ++ rest).head?, d ≠ 'x' ∧ d ≠ 'X' := by
    cases cs with
    | nil =>
      intro d hd
      rw [hrest d hd]
      decide
    | cons d cs =>
      intro d' hd
      obtain rfl : d = d' := by simpa using hd
      have hd := of_isDigit (p := fun c => c != 'x' && c != 'X') (by decide) (hdigits d (by simp))
      simpa using hd
  have hmark : (c == '0' && ((cs ++ rest).head? == some 'x' || (cs ++ rest).head? == some 'X')) =
      false := by
    cases hhead : (cs ++ rest).head? with
    | none => simp
    | some d => simp [hbehind d hhead]
  have htake : (c :: cs ++ rest).takeWhile (fun c => (digitValue? 10 c).isSome || c == '_') =
      c :: cs := by
    refine (takeWhile_append_of_ends (fun d hd => ?_) (hrest.ends (by decide))).1
    rw [digitValue?_of_isDigit (hdigits d hd)]
    rfl
  have hafter : startsFraction rest = false ∧ stuckLetters rest = [] := by
    cases rest with
    | nil => exact ⟨rfl, rfl⟩
    | cons d rest =>
      obtain rfl : d = ' ' := hrest d rfl
      exact ⟨rfl, rfl⟩
  rw [read, isOutputComment_of_ne hslash, if_neg Bool.false_ne_true, hname,
    if_neg Bool.false_ne_true, if_pos hc, readNumber, hmark, if_neg Bool.false_ne_true, readDigits]
  rw [← List.cons_append, List.drop_zero, htake, List.drop_left, hafter.1, hafter.2]
  dsimp only
  rw [List.append_nil, ← hn, integer?_toDigits h, hn]
  simp

/-! ### Strings and symbols -/

/-- A character of a string is read from its escape, or from itself if it neither ends the string
nor escapes. -/
theorem stringBody_cons {quote c : Char} {spelled cs rest : List Char} {n : Nat}
    (hspelled : spelled = ['\\', c] ∧ unescape c = c ∨ spelled = [c] ∧ c ≠ quote ∧ c ≠ '\\')
    (h : stringBody quote rest = (some cs, n)) :
    stringBody quote (spelled ++ rest) = (some (c :: cs), n + spelled.length) := by
  rcases hspelled with ⟨rfl, hself⟩ | ⟨rfl, hquote, hbackslash⟩
  · simp [stringBody, h, hself]
  · rw [List.singleton_append, stringBody]
    · simp [h, hquote]
    · exact fun hc => absurd hc hbackslash
    · exact fun _ _ hc => absurd hc hbackslash

theorem stringBody_flatMap (cs rest : List Char) :
    stringBody '"' (cs.flatMap spellChar ++ '"' :: rest) =
      (some cs, (cs.flatMap spellChar).length + 1) := by
  induction cs with
  | nil => simp [stringBody]
  | cons c cs ih =>
    have hspelled : spellChar c = ['\\', c] ∧ unescape c = c ∨ spellChar c = [c] ∧ c ≠ '"' ∧
        c ≠ '\\' := by
      by_cases hc : c = '"' ∨ c = '\\'
      · exact .inl ⟨if_pos hc, by rcases hc with rfl | rfl <;> rfl⟩
      · exact .inr ⟨if_neg hc, not_or.1 hc⟩
    rw [List.flatMap_cons, List.append_assoc, stringBody_cons hspelled ih, List.length_append,
      Nat.add_right_comm, Nat.add_comm (cs.flatMap spellChar).length]

theorem read_string (cs : List Char) (rest : List Char) :
    read '"' ((cs.flatMap spellChar ++ ['"']) ++ rest) =
      ⟨.ok (.str (String.ofList cs)), (cs.flatMap spellChar ++ ['"']).length⟩ := by
  have hbody := stringBody_flatMap cs rest
  rw [read, isOutputComment_of_ne (by decide), if_neg Bool.false_ne_true, if_neg (by decide),
    if_neg (by decide), if_pos (by decide), readString, if_neg (by simp), List.append_assoc,
    List.singleton_append, hbody]
  simp [ofString]

theorem read_symbol (s : Symbol) {c : Char} {cs : List Char} (h : s.text.toList = c :: cs)
    (hrest : Apart rest) : read c (cs ++ rest) = ⟨.ok (.symbol s), cs.length⟩ := by
  cases rest with
  | nil => cases s <;> cases h <;> rfl
  | cons d rest =>
    obtain rfl : d = ' ' := hrest d rfl
    cases s <;> cases h <;> rfl

/-- **What is written is read again**, if a blank or the end of the text follows. -/
theorem read_spelling {k : TokenKind} (hk : k.Writable) {c : Char} {cs : List Char}
    (h : k.spelling = c :: cs) (hrest : Apart rest) : read c (cs ++ rest) = ⟨.ok k, cs.length⟩ := by
  cases k with
  | keyword k =>
    have hname : isNameStart c = true ∧ cs.all isNamePart = true ∧
        Keyword.ofText? (String.ofList (c :: cs)) = some k := by
      cases k <;> cases h <;> decide
    exact read_keyword hname.1 hname.2.1 hrest hname.2.2
  | symbol s => exact read_symbol s h hrest
  | ident name =>
    obtain ⟨_, _, hcons, hc, hcs, hkeyword⟩ := hk
    cases hcons.symm.trans h
    rw [← String.ofList_toList (s := name), hcons] at hkeyword
    rw [read_ident hc hcs hrest hkeyword, ← hcons, String.ofList_toList]
  | int value =>
    have hvalue : value.toInt.toNat ≤ 9223372036854775807 := by
      have hle : value.toInt ≤ 9223372036854775807 := value.toInt_le
      omega
    have hself : Int64.ofNat value.toInt.toNat = value := by
      rw [← Int64.ofInt_eq_ofNat, Int.toNat_of_nonneg hk, Int64.ofInt_toInt]
    rw [read_toDigits hvalue h hrest, hself]
  | str value =>
    cases h
    rw [read_string, String.ofList_toList]
  | comment _ | eof => cases hk

end Lexeme

/-! ## Texts of tokens -/

theorem Trivia.skip_of_ne {c : Char} (hblank : isBlank c = false) (hslash : c ≠ '/')
    (cs : List Char) : skip 0 (c :: cs) = .ok 0 := by
  have habsent : leadingComment (c :: cs) = .absent := by
    unfold leadingComment
    split <;> simp_all
  rw [skip, hblank, if_neg Bool.false_ne_true, habsent]

theorem Lexeme.not_isBlank_of_isNameStart {c : Char} (h : isNameStart c = true) :
    Trivia.isBlank c = false := by
  cases hblank : Trivia.isBlank c with
  | false => rfl
  | true =>
    simp only [Trivia.isBlank, Bool.or_eq_true, beq_iff_eq] at hblank
    rcases hblank with ((rfl | rfl) | rfl) | rfl <;> exact absurd h (by decide)

namespace TokenKind

variable {k : TokenKind} {rest : List Char}

theorem Writable.ne_eof (hk : k.Writable) : k ≠ .eof := by
  rintro rfl
  exact hk

theorem spelling_ne_nil (hk : k.Writable) : k.spelling ≠ [] := by
  cases k with
  | keyword k => cases k <;> exact List.cons_ne_nil _ _
  | symbol s => cases s <;> exact List.cons_ne_nil _ _
  | ident name =>
    obtain ⟨c, cs, hcons, -⟩ := hk
    rw [spelling, hcons]
    exact List.cons_ne_nil _ _
  | int value => exact Nat.toDigits_ne_nil
  | str value => exact List.cons_ne_nil _ _
  | comment _ | eof => cases hk

/-- No spelling starts with a blank or a comment. -/
theorem skip_spelling (hk : k.Writable) (hrest : Apart rest) :
    Trivia.skip 0 (k.spelling ++ rest) = .ok 0 := by
  cases k with
  | keyword k => cases k <;> exact Trivia.skip_of_ne (by decide) (by decide) _
  | symbol s =>
    cases rest with
    | nil => cases s <;> rfl
    | cons d rest =>
      obtain rfl : d = ' ' := hrest d rfl
      cases s <;> rfl
  | ident name =>
    obtain ⟨c, cs, hcons, hc, -⟩ := hk
    rw [spelling, hcons]
    exact Trivia.skip_of_ne (Lexeme.not_isBlank_of_isNameStart hc)
      (Lexeme.ne_slash_of_isNameStart hc) _
  | int value =>
    obtain ⟨c, cs, hcons⟩ :=
      List.exists_cons_of_ne_nil (Nat.toDigits_ne_nil (b := 10) (n := value.toInt.toNat))
    have hc : c.isDigit = true :=
      Nat.isDigit_of_mem_toDigits (by decide) (by decide) (hcons ▸ List.mem_cons_self)
    have hstart := Lexeme.of_isDigit (p := fun c => !Trivia.isBlank c && c != '/') (by decide) hc
    simp only [Bool.and_eq_true, Bool.not_eq_true', bne_iff_ne] at hstart
    rw [spelling, hcons]
    exact Trivia.skip_of_ne hstart.1 hstart.2 _
  | str value => exact Trivia.skip_of_ne (by decide) (by decide) _
  | comment _ | eof => cases hk

/-- The text of tokens behind others: each with a blank in front. -/
def moreText (kinds : List TokenKind) : List Char :=
  kinds.flatMap fun k => ' ' :: k.spelling

/-- The text of tokens, with blanks between them. -/
def textOf : List TokenKind → List Char
  | [] => []
  | k :: kinds => k.spelling ++ moreText kinds

theorem apart_moreText (kinds : List TokenKind) : Apart (moreText kinds) := by
  cases kinds with
  | nil => simp [Apart, moreText]
  | cons k kinds => simp [Apart, moreText]

end TokenKind

namespace Lexer

open TokenKind

variable {l : Lexer}

/-- The token at a place is the one that is written there, with or without a blank in front. -/
theorem exists_next {k : TokenKind} (hk : k.Writable) {rest : List Char} (hrest : Apart rest)
    (hl : l.rest = k.spelling ++ rest ∨ l.rest = ' ' :: (k.spelling ++ rest)) :
    ∃ t l', l.next = (.ok t, l') ∧ t.kind = k ∧ l'.rest = rest := by
  obtain ⟨c, cs, hcons⟩ := List.exists_cons_of_ne_nil (spelling_ne_nil hk)
  have hskip := skip_spelling hk hrest
  obtain ⟨n, hn, hdrop⟩ : ∃ n, Trivia.skip 0 l.rest = .ok n ∧
      l.rest.drop n = k.spelling ++ rest := by
    rcases hl with hl | hl
    · exact ⟨0, by rw [hl, hskip], by rw [hl, List.drop_zero]⟩
    · refine ⟨1, ?_, by rw [hl, List.drop_succ_cons, List.drop_zero]⟩
      rw [hl, Trivia.skip, if_pos (by decide), hskip]
  have hat : (l.advance n).rest = c :: (cs ++ rest) := by
    rw [advance, hdrop, hcons, List.cons_append]
  have hread := Lexeme.read_spelling hk hcons hrest
  refine ⟨⟨k, (l.advance n).spanTo ((l.advance n).advance (cs.length + 1))⟩,
    (l.advance n).advance (cs.length + 1), ?_, rfl, ?_⟩
  · rw [next, hn]
    dsimp only
    rw [token, hat]
    dsimp only
    rw [hread]
  · rw [advance, hat]
    simp

theorem all_of_next {l' : Lexer} {t : Token} {tokens : List Token} (h : l.next = (.ok t, l'))
    (ht : t.kind ≠ .eof) (hall : l'.all.1 = .ok tokens) : l.all.1 = .ok (t :: tokens) := by
  rw [all]
  split
  · rename_i hnext
    cases h.symm.trans hnext
  · rename_i hnext
    cases h.symm.trans hnext
    rw [dif_neg ht]
    cases hrest : l'.all with
    | mk result l'' =>
      rw [hrest] at hall
      cases hall
      rfl

theorem all_of_rest_eq_nil (h : l.rest = []) : ∃ t, l.all.1 = .ok [t] ∧ t.kind = .eof := by
  have hnext : l.next = (.ok ⟨.eof, (l.advance 0).spanTo (l.advance 0)⟩, l.advance 0) := by
    rw [next, h, Trivia.skip]
    dsimp only
    rw [token, advance, h]
    rfl
  refine ⟨⟨.eof, (l.advance 0).spanTo (l.advance 0)⟩, ?_, rfl⟩
  rw [all]
  split
  · rename_i hnext'
    cases hnext.symm.trans hnext'
  · rename_i hnext'
    cases hnext.symm.trans hnext'
    rw [dif_pos rfl]

theorem exists_all {kinds : List TokenKind} (hkinds : ∀ k ∈ kinds, k.Writable) {k : TokenKind}
    (hk : k.Writable) {l : Lexer}
    (hl : l.rest = k.spelling ++ moreText kinds ∨ l.rest = ' ' :: (k.spelling ++ moreText kinds)) :
    ∃ tokens, l.all.1 = .ok tokens ∧ tokens.map Token.kind = k :: kinds ++ [.eof] := by
  induction kinds generalizing k l with
  | nil =>
    obtain ⟨t, l', hnext, ht, hrest⟩ := exists_next hk (apart_moreText []) hl
    obtain ⟨finish, hall, hfinish⟩ := all_of_rest_eq_nil hrest
    refine ⟨[t, finish], all_of_next hnext (ht ▸ hk.ne_eof) hall, ?_⟩
    rw [List.map_cons, List.map_singleton, ht, hfinish, List.singleton_append]
  | cons next kinds ih =>
    rw [List.forall_mem_cons] at hkinds
    obtain ⟨t, l', hnext, ht, hrest⟩ := exists_next hk (apart_moreText (next :: kinds)) hl
    obtain ⟨tokens, hall, htokens⟩ := ih hkinds.2 hkinds.1 (.inr hrest)
    refine ⟨t :: tokens, all_of_next hnext (ht ▸ hk.ne_eof) hall, ?_⟩
    rw [List.map_cons, ht, htokens]
    rfl

end Lexer

/-- **A text of tokens is read as the tokens that it was written from.** -/
theorem exists_tokenize_textOf {kinds : List TokenKind} (hkinds : ∀ k ∈ kinds, k.Writable)
    (file : Nat) :
    ∃ tokens, tokenize (String.ofList (TokenKind.textOf kinds)) file = .ok tokens ∧
      tokens.map Token.kind = kinds ++ [.eof] := by
  have hstart : (Lexer.ofText (String.ofList (TokenKind.textOf kinds)) file).rest =
      TokenKind.textOf kinds :=
    String.toList_ofList
  cases kinds with
  | nil =>
    obtain ⟨t, hall, ht⟩ := Lexer.all_of_rest_eq_nil hstart
    exact ⟨[t], hall, by rw [List.map_singleton, ht, List.nil_append]⟩
  | cons k kinds =>
    rw [List.forall_mem_cons] at hkinds
    exact Lexer.exists_all hkinds.2 hkinds.1 (.inl hstart)

end EdgeScript
