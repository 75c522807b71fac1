import EdgeScript.Proofs.Lexing.Gap

/-!
# The text of a token

A token is read from the characters that it takes, its word, and from nothing behind them.  The
reader looks further than the word to find its end, by up to five characters; but where a blank line
or the end of the text follows, it finds the end there.  So a word is read as the same token
wherever it stands before a blank line (`Lexeme.read_of_atBreak`).

Nor does a reader count more characters than there are (`Lexeme.more_le`), whatever it finds.
-/

set_option autoImplicit false

namespace EdgeScript.Lexeme

open Markup (Ends takeWhile_append_of_ends)

/-! ## No word is longer than its text -/

/-- No word goes beyond the text.  These bounds are on what is read behind its first character. -/
theorem stringBody_le (quote : Char) (cs : List Char) : (stringBody quote cs).2 ≤ cs.length := by
  fun_induction stringBody quote cs <;> simp_all

theorem rawBody_le (cs : List Char) : (rawBody cs).2 ≤ cs.length := by
  fun_induction rawBody cs <;> simp_all

theorem commentLines_le (pass : Nat) (cs : List Char) : (commentLines pass cs).2 ≤ cs.length := by
  fun_induction commentLines pass cs <;> simp_all

theorem stuckLetters_le (cs : List Char) : (stuckLetters cs).length ≤ cs.length := by
  fun_cases stuckLetters cs with
  | case1 => exact Nat.le_refl _
  | case2 c cs => simpa using (List.takeWhile_prefix _).length_le
  | case3 => exact Nat.zero_le _

theorem takeWhile_le (p : Char → Bool) (cs : List Char) : (cs.takeWhile p).length ≤ cs.length :=
  (List.takeWhile_prefix p).length_le

/-- The digits, and what is read behind them, lie in the text. -/
theorem length_digits_le (p : Char → Bool) {mark more : Nat} {cs : List Char}
    (hmark : mark ≤ cs.length)
    (hmore : more ≤ ((cs.drop mark).drop ((cs.drop mark).takeWhile p).length).length) :
    mark + ((cs.drop mark).takeWhile p).length + more ≤ cs.length := by
  have hdigits := takeWhile_le p (cs.drop mark)
  rw [List.length_drop] at hdigits hmore
  rw [List.length_drop] at hmore
  omega

theorem readDigits_more_lt {base mark : Nat} {cs : List Char} (hmark : mark ≤ cs.length)
    (hcs : cs ≠ []) : (readDigits base mark cs).more < cs.length := by
  have hpos := List.length_pos_iff.2 hcs
  fun_cases readDigits base mark cs with
  | case1 body digits after hfraction fraction length =>
    have hpoint : after ≠ [] := by
      intro hnil
      have hnone : startsFraction [] = false := rfl
      rw [hnil, hnone, Bool.and_false] at hfraction
      exact Bool.false_ne_true hfraction
    have hlength : fraction.length ≤ (after.drop 1).length := takeWhile_le _ _
    have hone := List.length_pos_iff.2 hpoint
    rw [List.length_drop] at hlength
    have hmore : 1 + fraction.length ≤ after.length := by omega
    have hle : mark + digits.length + (1 + fraction.length) ≤ cs.length :=
      length_digits_le _ hmark hmore
    show mark + digits.length + 1 + fraction.length - 1 < cs.length
    omega
  | case2 body digits after _ stuck length | case3 body digits after _ stuck length =>
    have hle : length ≤ cs.length := length_digits_le _ hmark (stuckLetters_le after)
    dsimp only
    omega

/-- A number ends in the text. -/
theorem readNumber_more_le (c : Char) (cs : List Char) : (readNumber c cs).more ≤ cs.length := by
  rw [readNumber]
  split
  · rename_i hhex
    have hcs : cs ≠ [] := by
      rintro rfl
      simp at hhex
    have hpos := List.length_pos_iff.2 hcs
    have hlt : (readDigits 16 2 (c :: cs)).more < (c :: cs).length :=
      readDigits_more_lt (by simp only [List.length_cons]; omega) (List.cons_ne_nil _ _)
    exact Nat.le_of_lt_succ hlt
  · exact Nat.le_of_lt_succ (readDigits_more_lt (Nat.zero_le _) (List.cons_ne_nil _ _))

/-- So does a string, with three quotes or with one. -/
theorem readString_more_le (quote : Char) (cs : List Char) :
    (readString quote cs).more ≤ cs.length := by
  have hmore (value : Option (List Char)) (more : Nat) : (ofString value more).more = more := by
    cases value <;> rfl
  rw [readString]
  split
  · rename_i hraw
    rw [Bool.and_eq_true, List.isPrefixOf_iff_prefix] at hraw
    have hquotes := hraw.2.length_le
    have hbody := rawBody_le (cs.drop 2)
    rw [List.length_drop] at hbody
    simp only [hmore, List.length_cons, List.length_nil] at hquotes ⊢
    omega
  · rw [hmore]
    exact stringBody_le quote cs

/-- So does a comment that is put out. -/
theorem readComment_more_le {c : Char} {cs : List Char}
    (h : Trivia.isOutputComment (c :: cs) = true) : (readComment cs).more ≤ cs.length := by
  rw [Trivia.isOutputComment, List.isPrefixOf_iff_prefix] at h
  have hmark := h.length_le
  have hlines := commentLines_le 0 (cs.drop 4)
  rw [List.length_drop] at hlines
  simp only [readComment, List.length_cons, List.length_nil] at hmark ⊢
  omega

/-- So does a symbol. -/
theorem readSymbol_more_le (c : Char) (cs : List Char) : (readSymbol c cs).more ≤ cs.length := by
  rw [readSymbol]
  split
  · rename_i spelling symbol hfind
    have hfits : spelling.isPrefixOf (c :: cs) = true := by simpa using List.find?_some hfind
    have hspelling := (List.isPrefixOf_iff_prefix.1 hfits).length_le
    simp only [List.length_cons] at hspelling ⊢
    omega
  · exact Nat.zero_le _

/-- A name goes as far as its characters do. -/
theorem readName_more (c : Char) (cs : List Char) :
    (readName c cs).more = (cs.takeWhile isNamePart).length := by
  fun_cases readName c cs <;> rfl

/-- **A word is a part of the text**, also where something is wrong with it. -/
theorem more_le (c : Char) (cs : List Char) : (read c cs).more ≤ cs.length := by
  fun_cases read c cs with
  | case1 h => exact readComment_more_le h
  | case2 => exact readName_more c cs ▸ takeWhile_le _ _
  | case3 => exact readNumber_more_le c cs
  | case4 => exact readString_more_le c cs
  | case5 => exact readSymbol_more_le c cs

/-- The end of a text is no word. -/
theorem read_kind_ne_eof (c : Char) (cs : List Char) : (read c cs).kind ≠ .ok .eof := by
  have hdigits (base mark : Nat) (cs : List Char) : (readDigits base mark cs).kind ≠ .ok .eof := by
    fun_cases readDigits base mark cs <;> simp
  have hstring (value : Option (List Char)) (more : Nat) :
      (ofString value more).kind ≠ .ok .eof := by
    cases value <;> simp [ofString]
  fun_cases read c cs with
  | case1 => simp [readComment]
  | case2 => fun_cases readName c cs <;> simp
  | case3 => fun_cases readNumber c cs <;> exact hdigits _ _ _
  | case4 => fun_cases readString c cs <;> exact hstring _ _
  | case5 => fun_cases readSymbol c cs <;> simp

/-! ## A word does not depend on what follows -/

/-- The end of the text, or of a line in front of a blank one. -/
def AtBreak (rest : List Char) : Prop := rest = [] ∨ ∃ more, rest = '\n' :: '\n' :: more

variable {c : Char} {word rest rest' : List Char} {kind : TokenKind}

theorem AtBreak.head (h : AtBreak rest) : ∀ d ∈ rest.head?, d = '\n' := by
  rcases h with rfl | ⟨more, rfl⟩ <;> simp

/-- Nothing that excludes line breaks goes on at a break. -/
theorem AtBreak.ends (h : AtBreak rest) {p : Char → Bool} (hp : p '\n' = false) : Ends p rest := by
  intro d hd
  rw [h.head d hd, hp]

/-- A text is split behind its longest word of some characters. -/
theorem takeWhile_append_drop (p : Char → Bool) (cs : List Char) :
    cs.takeWhile p ++ cs.drop (cs.takeWhile p).length = cs ∧
      Ends p (cs.drop (cs.takeWhile p).length) := by
  have hsplit : cs.takeWhile p ++ cs.dropWhile p = cs := List.takeWhile_append_dropWhile
  have hdrop : cs.drop (cs.takeWhile p).length = cs.dropWhile p := by
    have hbehind := congrArg (List.drop (cs.takeWhile p).length) hsplit
    rw [List.drop_left] at hbehind
    exact hbehind.symm
  rw [hdrop]
  refine ⟨hsplit, fun d hd => ?_⟩
  have hstop := List.head?_dropWhile_not p cs
  rw [hd] at hstop
  exact hstop

/-- If a word is the longest one of some characters, it is so in front of a break. -/
theorem takeWhile_of_atBreak {p : Char → Bool}
    (h : ((word ++ rest).takeWhile p).length = word.length) (hbreak : AtBreak rest')
    (hp : p '\n' = false) :
    (word ++ rest).takeWhile p = word ∧ (word ++ rest').takeWhile p = word := by
  have hword : (word ++ rest).takeWhile p = word :=
    (List.prefix_of_prefix_length_le (List.takeWhile_prefix p) (List.prefix_append word rest)
      (Nat.le_of_eq h)).eq_of_length h
  refine ⟨hword, (takeWhile_append_of_ends (fun d hd => ?_) (hbreak.ends hp)).1⟩
  rw [← hword] at hd
  exact List.all_eq_true.1 List.all_takeWhile d hd

/-- A name is the same word in front of a break. -/
theorem readName_of_atBreak (h : readName c (word ++ rest) = ⟨.ok kind, word.length⟩)
    (hbreak : AtBreak rest') : readName c (word ++ rest') = ⟨.ok kind, word.length⟩ := by
  have hlength := readName_more c (word ++ rest)
  rw [h] at hlength
  obtain ⟨hword, hword'⟩ := takeWhile_of_atBreak hlength.symm hbreak (by decide)
  rw [readName, hword] at h
  rw [readName, hword', h]

/-! ### Numbers -/

theorem isSome_of_digitsValue? {base read n : Nat} {cs : List Char}
    (h : digitsValue? base read cs = some n) : ∀ d ∈ cs, (digitValue? base d).isSome = true := by
  fun_induction digitsValue? base read cs with
  | case1 => exact fun _ hd => absurd hd List.not_mem_nil
  | case2 read d cs value hvalue ih =>
    refine List.forall_mem_cons.2 ⟨?_, ih h⟩
    rw [hvalue]
    rfl
  | case3 => cases h

/-- All characters of a number are digits, but for underscores, and there is a digit. -/
theorem digits_of_integer? {base : Nat} {cs : List Char} {value : Int64}
    (h : integer? base cs = some value) :
    cs ≠ [] ∧ ∀ d ∈ cs, ((digitValue? base d).isSome || d == '_') = true := by
  rw [integer?] at h
  split at h
  · cases h
  · rename_i hne
    split at h
    · rename_i n hvalue
      constructor
      · rintro rfl
        exact hne rfl
      · intro d hd
        by_cases hunderscore : d = '_'
        · simp [hunderscore]
        · rw [isSome_of_digitsValue? hvalue d (List.mem_filter.2 ⟨hd, by simpa using hunderscore⟩),
            Bool.true_or]
    · cases h

/-- Where no letter follows, none is stuck to a number. -/
theorem stuckLetters_of_ends {cs : List Char} (h : Ends Text.isLetterOrNumeral cs) :
    stuckLetters cs = [] := by
  cases cs with
  | nil => rfl
  | cons d cs => rw [stuckLetters, h d rfl, if_neg Bool.false_ne_true]

/-- A digit of a number in the base, or an underscore. -/
def isDigitPart (base : Nat) (c : Char) : Bool := (digitValue? base c).isSome || c == '_'

/-- Letters that stick to a number make it none. -/
theorem stuckLetters_of_integer? {base : Nat} {digits after : List Char} {value : Int64}
    (hafter : Ends (isDigitPart base) after)
    (h : integer? base (digits ++ stuckLetters after) = some value) : stuckLetters after = [] := by
  cases after with
  | nil => rfl
  | cons d after =>
    rw [stuckLetters] at h ⊢
    split
    · rename_i hletter
      rw [if_pos hletter] at h
      have hdigit : isDigitPart base d = true := (digits_of_integer? h).2 d (by simp)
      exact absurd hdigit (by rw [hafter d rfl]; exact Bool.false_ne_true)
    · rfl

/-- The parts of a number: its mark, its digits, and what follows and does not belong to it. -/
structure IsNumber (base : Nat) (digits after : List Char) (value : Int64) : Prop where
  allDigits : ∀ d ∈ digits, isDigitPart base d = true
  ends : Ends (isDigitPart base) after
  noFraction : (base == 10 && startsFraction after) = false
  noLetters : stuckLetters after = []
  value : integer? base digits = some value

/-- The digits of a number are read as the number. -/
theorem readDigits_of_isNumber {base : Nat} (marks : List Char) {digits after : List Char}
    {value : Int64} (h : IsNumber base digits after value) :
    readDigits base marks.length (marks ++ (digits ++ after)) =
      ⟨.ok (.int value), marks.length + digits.length - 1⟩ := by
  have htake : (digits ++ after).takeWhile (isDigitPart base) = digits :=
    (takeWhile_append_of_ends h.allDigits h.ends).1
  unfold isDigitPart at htake
  rw [readDigits, List.drop_left]
  dsimp only
  rw [htake, List.drop_left, h.noFraction, if_neg Bool.false_ne_true, h.noLetters, List.append_nil,
    h.value]
  rfl

/-- Only the digits of a number are read as one. -/
theorem exists_isNumber {base mark : Nat} {cs : List Char}
    (h : (readDigits base mark cs).kind = .ok kind) :
    ∃ marks digits after value, cs = marks ++ (digits ++ after) ∧ marks.length = mark ∧
      digits ≠ [] ∧ IsNumber base digits after value := by
  revert h
  fun_cases readDigits base mark cs with
  | case1 =>
    intro h
    cases h
  | case3 =>
    intro h
    cases h
  | case2 body digits after hfraction stuck length value hvalue =>
    intro _
    obtain ⟨hsplit, hends⟩ : digits ++ after = body ∧ Ends (isDigitPart base) after :=
      takeWhile_append_drop (isDigitPart base) body
    have hstuck : stuck = [] := stuckLetters_of_integer? hends hvalue
    rw [hstuck, List.append_nil] at hvalue
    have hdigits := digits_of_integer? hvalue
    have hmark : mark ≤ cs.length := by
      refine Nat.le_of_not_lt fun hlt => hdigits.1 ?_
      have hbody : body = [] := List.drop_eq_nil_of_le (Nat.le_of_lt hlt)
      exact (List.append_eq_nil_iff.1 (hsplit.trans hbody)).1
    refine ⟨cs.take mark, digits, after, value, ?_, List.length_take_of_le hmark, hdigits.1,
      ⟨hdigits.2, hends, Bool.not_eq_true _ ▸ hfraction, hstuck, hvalue⟩⟩
    rw [hsplit, List.take_append_drop]

theorem startsFraction_of_atBreak (h : AtBreak rest) : startsFraction rest = false := by
  rcases h with rfl | ⟨more, rfl⟩ <;> rfl

theorem IsNumber.of_atBreak {base : Nat} {digits after : List Char} {value : Int64}
    (h : IsNumber base digits after value) (hbreak : AtBreak rest')
    (hbase : isDigitPart base '\n' = false) : IsNumber base digits rest' value where
  allDigits := h.allDigits
  ends := hbreak.ends hbase
  noFraction := by rw [startsFraction_of_atBreak hbreak, Bool.and_false]
  noLetters := stuckLetters_of_ends (hbreak.ends (by decide))
  value := h.value

/-- So digits are read the same in front of a break, -/
theorem readDigits_of_atBreak {base mark : Nat} (hword : word ≠ [])
    (h : readDigits base mark (word ++ rest) = ⟨.ok kind, word.length - 1⟩) (hbreak : AtBreak rest')
    (hbase : isDigitPart base '\n' = false) :
    mark < word.length ∧ readDigits base mark (word ++ rest') = ⟨.ok kind, word.length - 1⟩ := by
  obtain ⟨marks, digits, after, value, hcs, rfl, hdigits, hnumber⟩ :=
    exists_isNumber (congrArg Lexeme.kind h)
  have hread := readDigits_of_isNumber marks hnumber
  rw [← hcs, h, Lexeme.mk.injEq] at hread
  have hlength : word.length = (marks ++ digits).length := by
    have hpos := List.length_pos_iff.2 hword
    have hpos' := List.length_pos_iff.2 hdigits
    rw [List.length_append]
    omega
  rw [← List.append_assoc] at hcs
  obtain ⟨rfl, rfl⟩ := List.append_inj hcs hlength
  refine ⟨?_, ?_⟩
  · rw [List.length_append]
    exact Nat.lt_add_of_pos_right (List.length_pos_iff.2 hdigits)
  · rw [List.append_assoc, readDigits_of_isNumber marks (hnumber.of_atBreak hbreak hbase),
      Lexeme.mk.injEq]
    exact ⟨hread.1.symm, hread.2.symm⟩

/-- and a number is, with a base in front or without. -/
theorem readNumber_of_atBreak (h : readNumber c (word ++ rest) = ⟨.ok kind, word.length⟩)
    (hbreak : AtBreak rest') : readNumber c (word ++ rest') = ⟨.ok kind, word.length⟩ := by
  -- the mark of a hexadecimal number is looked for in the character behind the first one
  have hhead (hword : word ≠ []) : (word ++ rest').head? = (word ++ rest).head? := by
    rw [List.head?_append_of_ne_nil _ hword, List.head?_append_of_ne_nil _ hword]
  rw [readNumber] at h
  split at h
  · rename_i hhex
    obtain ⟨hmark, hread⟩ := readDigits_of_atBreak (List.cons_ne_nil c word) h hbreak (by decide)
    have hword : word ≠ [] := by
      rintro rfl
      simp at hmark
    rw [readNumber, hhead hword, if_pos hhex]
    exact hread
  · rename_i hdecimal
    obtain ⟨hmark, hread⟩ := readDigits_of_atBreak (List.cons_ne_nil c word) h hbreak (by decide)
    rw [readNumber, if_neg]
    · exact hread
    · by_cases hword : word = []
      · rcases hbreak with rfl | ⟨more, rfl⟩ <;> simp [hword]
      · rwa [hhead hword]

/-! ### Strings -/

/-- A string from behind its opening quote up to its closing one, and its value. -/
inductive IsString (quote : Char) : List Char → List Char → Prop
  | close (hquote : quote ≠ '\\') : IsString quote [quote] []
  | escape {d : Char} {word value : List Char} (h : IsString quote word value) :
      IsString quote ('\\' :: d :: word) (unescape d :: value)
  | plain {d : Char} {word value : List Char} (hbackslash : d ≠ '\\') (hquote : d ≠ quote)
      (h : IsString quote word value) : IsString quote (d :: word) (d :: value)

/-- The body of a string is read up to its quote, whatever comes behind it. -/
theorem stringBody_of_isString {quote : Char} {value : List Char} (h : IsString quote word value)
    (rest : List Char) : stringBody quote (word ++ rest) = (some value, word.length) := by
  induction h with
  | close hquote => 
    rw [List.singleton_append, stringBody, if_pos rfl]
    · rfl
    · exact fun hc => absurd hc hquote
    · exact fun _ _ hc => absurd hc hquote
  | escape _ ih => simp [stringBody, ih]
  | plain hbackslash hquote _ ih =>
    rw [List.cons_append, stringBody, if_neg hquote, ih]
    · rfl
    · exact fun hc => absurd hc hbackslash
    · exact fun _ _ hc => absurd hc hbackslash

/-- Only the body of a string is read as one. -/
theorem exists_isString {quote : Char} {cs value : List Char} {n : Nat}
    (h : stringBody quote cs = (some value, n)) :
    ∃ word rest, cs = word ++ rest ∧ n = word.length ∧ IsString quote word value := by
  fun_induction stringBody quote cs generalizing value n with
  | case1 => cases h
  | case2 => cases h
  | case3 d cs value' n' hbody ih =>
    rw [Prod.mk.injEq, Option.map_eq_some_iff] at h
    obtain ⟨⟨inner, rfl, rfl⟩, rfl⟩ := h
    obtain ⟨word, rest, rfl, rfl, hword⟩ := ih hbody
    exact ⟨'\\' :: d :: word, rest, rfl, rfl, .escape hword⟩
  | case4 cs hend hmore =>
    cases h
    refine ⟨[quote], cs, rfl, rfl, .close ?_⟩
    rintro rfl
    cases cs with
    | nil => exact hend rfl rfl
    | cons d cs => exact hmore d cs rfl rfl
  | case5 d cs hend hmore hquote value' n' hbody ih =>
    rw [Prod.mk.injEq, Option.map_eq_some_iff] at h
    obtain ⟨⟨inner, rfl, rfl⟩, rfl⟩ := h
    obtain ⟨word, rest, rfl, rfl, hword⟩ := ih hbody
    refine ⟨d :: word, rest, rfl, rfl, .plain ?_ hquote hword⟩
    rintro rfl
    cases hcs : word ++ rest with
    | nil => exact hend rfl hcs
    | cons d' cs => exact hmore d' cs rfl hcs

/-- A raw string from behind its opening quotes up to its closing ones, and its value. -/
inductive IsRaw : List Char → List Char → Prop
  | close : IsRaw ['\'', '\'', '\''] []
  | plain {d : Char} {word value : List Char} (hquotes : ¬ ['\'', '\'', '\''] <+: d :: word)
      (h : IsRaw word value) : IsRaw (d :: word) (d :: value)

theorem IsRaw.length_le {value : List Char} (h : IsRaw word value) : 3 ≤ word.length := by
  induction h with
  | close => exact Nat.le_refl 3
  | plain _ _ ih => exact Nat.le_succ_of_le ih

/-- The body of a raw string is read up to its last quote, whatever comes behind it. -/
theorem rawBody_of_isRaw {value : List Char} (h : IsRaw word value) (rest : List Char) :
    rawBody (word ++ rest) = (some value, word.length) := by
  induction h with
  | close => rfl
  | plain hquotes hword ih =>
    rw [List.cons_append, rawBody, ih]
    · rfl
    · rintro after rfl hafter
      -- the word behind the character is long enough to hold the other two quotes
      have hlength := hword.length_le
      rename_i word value
      have htwo : ['\'', '\''] <+: word :=
        List.prefix_of_prefix_length_le ⟨after, hafter.symm⟩ (List.prefix_append word rest)
          (Nat.le_trans (by decide) hlength)
      exact hquotes (List.cons_prefix_cons.2 ⟨rfl, htwo⟩)

/-- Only the body of a raw string is read as one. -/
theorem exists_isRaw {cs value : List Char} {n : Nat} (h : rawBody cs = (some value, n)) :
    ∃ word rest, cs = word ++ rest ∧ n = word.length ∧ IsRaw word value := by
  fun_induction rawBody cs generalizing value n with
  | case1 => cases h
  | case2 rest =>
    cases h
    exact ⟨['\'', '\'', '\''], rest, rfl, rfl, .close⟩
  | case3 d cs hquotes value' n' hbody ih =>
    rw [Prod.mk.injEq, Option.map_eq_some_iff] at h
    obtain ⟨⟨inner, rfl, rfl⟩, rfl⟩ := h
    obtain ⟨word, rest, rfl, rfl, hword⟩ := ih hbody
    refine ⟨d :: word, rest, rfl, rfl, .plain ?_ hword⟩
    rintro ⟨after, hafter⟩
    cases hafter
    exact hquotes _ rfl rfl

theorem exists_of_ofString {value : Option (List Char)} {n m : Nat}
    (h : ofString value n = ⟨.ok kind, m⟩) :
    ∃ cs, value = some cs ∧ n = m ∧ kind = .str (String.ofList cs) := by
  cases value with
  | none => cases h
  | some cs =>
    cases h
    exact ⟨cs, rfl, rfl, rfl⟩

/-- A string is the same word in front of a break, even an empty one, which one more quote would go
on. -/
theorem readString_of_atBreak {quote : Char}
    (h : readString quote (word ++ rest) = ⟨.ok kind, word.length⟩) (hbreak : AtBreak rest') :
    readString quote (word ++ rest') = ⟨.ok kind, word.length⟩ := by
  rw [readString] at h
  split at h
  · rename_i hraw
    rw [Bool.and_eq_true, beq_iff_eq, List.isPrefixOf_iff_prefix] at hraw
    obtain ⟨rfl, behind, hbehind⟩ := hraw
    rw [← hbehind, List.cons_append, List.cons_append, List.nil_append] at h
    obtain ⟨value, hvalue, hn, rfl⟩ := exists_of_ofString h
    obtain ⟨body, after, rfl, hlength, hbody⟩ := exists_isRaw (Prod.ext hvalue rfl)
    have hsplit : ('\'' :: '\'' :: body) ++ after = word ++ rest := hbehind
    have hword : word = '\'' :: '\'' :: body := by
      refine (List.append_inj hsplit ?_).1.symm
      rw [← hn, List.length_cons, List.length_cons, ← hlength]
      exact Nat.add_comm _ 2
    subst hword
    rw [List.cons_append, List.cons_append, readString, if_pos (by simp)]
    simp only [List.drop_succ_cons, List.drop_zero, rawBody_of_isRaw hbody, ofString,
      List.length_cons]
    rw [Nat.add_comm]
  · rename_i hplain
    rw [Bool.and_eq_true, List.isPrefixOf_iff_prefix] at hplain
    obtain ⟨value, hvalue, hn, rfl⟩ := exists_of_ofString h
    obtain ⟨body, after, hbody, hlength, hstring⟩ := exists_isString (Prod.ext hvalue rfl)
    obtain ⟨rfl, -⟩ := List.append_inj hbody (hn.symm.trans hlength)
    rw [readString, if_neg]
    · rw [stringBody_of_isString hstring]
      rfl
    · rw [Bool.and_eq_true, List.isPrefixOf_iff_prefix]
      rintro ⟨hquote, hquotes⟩
      have hword := Trivia.isPrefix_of_append hquotes (by simp) hbreak.head
      exact hplain ⟨hquote, hword.trans (List.prefix_append _ _)⟩

/-! ### Comments -/

/-- The blanks in front of the mark of a line that goes on with a comment. -/
def isIndent (c : Char) : Bool := c == ' ' || c == '\t' || c == '\r'

/-- The lines of a comment from behind its first mark.  Behind a line's end stand blanks and another
mark. -/
inductive IsLines : List Char → List (List Char) → Prop
  | nil : IsLines [] [[]]
  | char {d : Char} {word line : List Char} {lines : List (List Char)} (hd : d ≠ '\n')
      (h : IsLines word (line :: lines)) : IsLines (d :: word) ((d :: line) :: lines)
  | next {blanks word : List Char} {lines : List (List Char)}
      (hblanks : ∀ d ∈ blanks, isIndent d = true) (h : IsLines word lines) :
      IsLines ('\n' :: ((blanks ++ ['/', '/', '#', '#', '#']) ++ word)) ([] :: lines)

/-- Where a comment ends: at the end of the text, or of a line that no mark follows. -/
def EndsComment (rest : List Char) : Prop :=
  rest = [] ∨ ∃ more, rest = '\n' :: more ∧ continuation? more = none

/-- A comment that is put out is over at a break: a blank line has no mark. -/
theorem AtBreak.endsComment (h : AtBreak rest) : EndsComment rest := by
  rcases h with rfl | ⟨more, rfl⟩
  · exact .inl rfl
  · exact .inr ⟨_, rfl, rfl⟩

theorem continuation?_append {blanks : List Char} (hblanks : ∀ d ∈ blanks, isIndent d = true)
    (rest : List Char) :
    continuation? ((blanks ++ ['/', '/', '#', '#', '#']) ++ rest) = some (blanks.length + 5) := by
  have hends : Ends isIndent (['/', '/', '#', '#', '#'] ++ rest) := by
    simp [Ends, isIndent]
  have htake := (takeWhile_append_of_ends hblanks hends).1
  unfold isIndent at htake
  rw [continuation?, List.append_assoc, htake, List.drop_left, Trivia.isOutputComment,
    if_pos (List.isPrefixOf_iff_prefix.2 (List.prefix_append _ _))]

theorem exists_of_continuation? {cs : List Char} {n : Nat} (h : continuation? cs = some n) :
    ∃ blanks rest, cs = (blanks ++ ['/', '/', '#', '#', '#']) ++ rest ∧ n = blanks.length + 5 ∧
      ∀ d ∈ blanks, isIndent d = true := by
  rw [continuation?] at h
  split at h
  · rename_i hmark
    obtain ⟨rest, hrest⟩ := List.isPrefixOf_iff_prefix.1 hmark
    cases h
    refine ⟨_, rest, ?_, rfl, List.all_eq_true.1 List.all_takeWhile⟩
    rw [List.append_assoc, hrest]
    exact (List.prefix_iff_eq_append.1 (List.takeWhile_prefix _)).symm
  · cases h

/-- Passing over characters in a comment is counted and does nothing else. -/
theorem commentLines_append (front rest : List Char) :
    commentLines front.length (front ++ rest) =
      ((commentLines 0 rest).1, (commentLines 0 rest).2 + front.length) := by
  induction front with
  | nil => rfl
  | cons d front ih =>
    rw [List.length_cons, List.cons_append, commentLines, ih]
    rfl

theorem commentLines_next {blanks : List Char} (hblanks : ∀ d ∈ blanks, isIndent d = true)
    (rest : List Char) :
    commentLines 0 ('\n' :: ((blanks ++ ['/', '/', '#', '#', '#']) ++ rest)) =
      ([] :: (commentLines 0 rest).1, (commentLines 0 rest).2 + (blanks.length + 5) + 1) := by
  have hlength : blanks.length + 5 = (blanks ++ ['/', '/', '#', '#', '#']).length := by
    rw [List.length_append]
    rfl
  rw [commentLines, if_pos rfl, continuation?_append hblanks, hlength]
  dsimp only
  rw [commentLines_append]

/-- The lines of a comment are read as long as each begins with the mark. -/
theorem commentLines_of_isLines {lines : List (List Char)} (h : IsLines word lines)
    (hrest : EndsComment rest) : commentLines 0 (word ++ rest) = (lines, word.length) := by
  induction h with
  | nil =>
    rcases hrest with rfl | ⟨more, rfl, hmore⟩
    · rfl
    · rw [List.nil_append, commentLines, if_pos rfl, hmore]
      rfl
  | char hd _ ih =>
    rw [List.cons_append, commentLines, if_neg hd, ih]
    rfl
  | next hblanks _ ih =>
    rw [List.cons_append, List.append_assoc, commentLines_next hblanks, ih]
    simp [Nat.add_comm, Nat.add_left_comm]

/-- The lines end where no mark follows. -/
theorem exists_isLines (cs : List Char) :
    ∃ word rest lines, cs = word ++ rest ∧ IsLines word lines ∧ EndsComment rest := by
  cases cs with
  | nil => exact ⟨[], [], [[]], rfl, .nil, .inl rfl⟩
  | cons d cs =>
    by_cases hd : d = '\n'
    · subst hd
      cases hmore : continuation? cs with
      | none => exact ⟨[], '\n' :: cs, [[]], rfl, .nil, .inr ⟨cs, rfl, hmore⟩⟩
      | some n =>
        obtain ⟨blanks, behind, rfl, -, hblanks⟩ := exists_of_continuation? hmore
        have hshorter : behind.length <
            ('\n' :: ((blanks ++ ['/', '/', '#', '#', '#']) ++ behind)).length := by
          simp only [List.length_cons, List.length_append]
          omega
        obtain ⟨word, rest, lines, rfl, hword, hrest⟩ := exists_isLines behind
        exact ⟨_, rest, [] :: lines, by simp, .next hblanks hword, hrest⟩
    · obtain ⟨word, rest, lines, rfl, hword, hrest⟩ := exists_isLines cs
      have hlines : ∃ line more, lines = line :: more := by
        cases hword <;> exact ⟨_, _, rfl⟩
      obtain ⟨line, more, rfl⟩ := hlines
      exact ⟨d :: word, rest, (d :: line) :: more, rfl, .char hd hword, hrest⟩
termination_by cs.length

/-- A comment is the same word in front of a break. -/
theorem readComment_of_atBreak (h : readComment (word ++ rest) = ⟨.ok kind, word.length⟩)
    (hmark : Trivia.isOutputComment (c :: (word ++ rest)) = true) (hbreak : AtBreak rest') :
    Trivia.isOutputComment (c :: (word ++ rest')) = true ∧
      readComment (word ++ rest') = ⟨.ok kind, word.length⟩ := by
  rw [Trivia.isOutputComment, List.isPrefixOf_iff_prefix, List.cons_prefix_cons] at hmark ⊢
  obtain ⟨rfl, hmark⟩ := hmark
  have hlength := congrArg Lexeme.more h
  simp only [readComment] at hlength
  obtain ⟨word, rfl⟩ : ['/', '#', '#', '#'] <+: word :=
    List.prefix_of_prefix_length_le hmark (List.prefix_append word rest) (by simp; omega)
  simp only [List.cons_append, List.nil_append, readComment, List.drop_succ_cons, List.drop_zero]
    at h hlength ⊢
  obtain ⟨front, behind, lines, hsplit, hlines, hends⟩ := exists_isLines (word ++ rest)
  rw [hsplit, commentLines_of_isLines hlines hends] at h hlength
  obtain ⟨rfl, -⟩ := List.append_inj hsplit (by simp at hlength; omega)
  refine ⟨⟨trivial, List.prefix_append ['/', '#', '#', '#'] _⟩, ?_⟩
  rw [commentLines_of_isLines hlines hbreak.endsComment, h]

/-! ### Symbols -/

theorem spellings_ne_nil : ∀ entry ∈ Symbol.spellings, entry.1 ≠ [] := by decide

theorem newline_notMem_spellings : ∀ entry ∈ Symbol.spellings, '\n' ∉ entry.1 := by decide

section Spelling

variable {cs spelling : List Char} {symbol : Symbol} {front behind : List (List Char × Symbol)}

/-- The first spelling that fits is taken. -/
theorem readSymbol_of_spellings
    (hspellings : Symbol.spellings = front ++ (spelling, symbol) :: behind)
    (hfits : spelling <+: c :: cs) (hfront : ∀ entry ∈ front, ¬ entry.1 <+: c :: cs) :
    readSymbol c cs = ⟨.ok (.symbol symbol), spelling.length - 1⟩ := by
  rw [readSymbol,
    List.find?_eq_some_iff_append.2 ⟨?_, front, behind, hspellings, fun entry hentry => ?_⟩]
  · exact List.isPrefixOf_iff_prefix.2 hfits
  · rw [Bool.not_eq_true', ← Bool.not_eq_true, List.isPrefixOf_iff_prefix]
    exact hfront entry hentry

/-- The symbol that is read is the first in the list that the text starts with. -/
theorem exists_spelling {more : Nat} (h : readSymbol c cs = ⟨.ok kind, more⟩) :
    ∃ front spelling symbol behind, Symbol.spellings = front ++ (spelling, symbol) :: behind ∧
      spelling <+: c :: cs ∧ ∀ entry ∈ front, ¬ entry.1 <+: c :: cs := by
  rw [readSymbol] at h
  split at h
  · rename_i spelling symbol hfind
    obtain ⟨hfits, front, behind, hspellings, hfront⟩ := List.find?_eq_some_iff_append.1 hfind
    refine ⟨front, spelling, symbol, behind, hspellings, List.isPrefixOf_iff_prefix.1 hfits,
      fun entry hentry => ?_⟩
    have hunfit := hfront entry hentry
    rwa [Bool.not_eq_true', ← Bool.not_eq_true, List.isPrefixOf_iff_prefix] at hunfit
  · cases h

end Spelling

/-- A symbol is the same word in front of a break, as no symbol has a line break in it. -/
theorem readSymbol_of_atBreak (h : readSymbol c (word ++ rest) = ⟨.ok kind, word.length⟩)
    (hbreak : AtBreak rest') : readSymbol c (word ++ rest') = ⟨.ok kind, word.length⟩ := by
  obtain ⟨front, spelling, symbol, behind, hspellings, hfits, hfront⟩ := exists_spelling h
  have hread := readSymbol_of_spellings hspellings hfits hfront
  have hlength : word.length = spelling.length - 1 := congrArg Lexeme.more (h.symm.trans hread)
  have hne : 0 < spelling.length :=
    List.length_pos_iff.2 (spellings_ne_nil (spelling, symbol) (hspellings ▸ by simp))
  have hspelling : spelling = c :: word := by
    refine (List.prefix_of_prefix_length_le hfits
      (List.prefix_append (c :: word) rest) ?_).eq_of_length ?_ <;>
      rw [List.length_cons] <;> omega
  rw [← h, hread]
  refine readSymbol_of_spellings hspellings (hspelling ▸ List.prefix_append (c :: word) rest')
    fun entry hentry => ?_
  -- a spelling that comes first and fits now would have fitted before
  intro (hfits' : entry.1 <+: (c :: word) ++ rest')
  have hmem : entry ∈ Symbol.spellings := hspellings ▸ List.mem_append_left _ hentry
  have hword := Trivia.isPrefix_of_append hfits' (newline_notMem_spellings _ hmem) hbreak.head
  exact hfront entry hentry (hword.trans (List.prefix_append _ _))

/-! ### Any token -/

/-- **A word is read alike wherever it stands before a break.** -/
theorem read_of_atBreak (h : read c (word ++ rest) = ⟨.ok kind, word.length⟩)
    (hbreak : AtBreak rest') : read c (word ++ rest') = ⟨.ok kind, word.length⟩ := by
  rw [read] at h
  split at h
  · rename_i hmark
    obtain ⟨hmark', hread⟩ := readComment_of_atBreak h hmark hbreak
    rw [read, if_pos hmark', hread]
  · rename_i hmark
    have hmark' : ¬ Trivia.isOutputComment (c :: (word ++ rest')) = true := by
      rw [Trivia.isOutputComment, List.isPrefixOf_iff_prefix, ← List.cons_append] at hmark ⊢
      intro hstart
      have hword := Trivia.isPrefix_of_append hstart (by simp) hbreak.head
      exact hmark (hword.trans (List.prefix_append _ _))
    rw [read, if_neg hmark']
    split at h
    · rename_i hname
      rw [if_pos hname]
      exact readName_of_atBreak h hbreak
    · rename_i hname
      rw [if_neg hname]
      split at h
      · rename_i hdigit
        rw [if_pos hdigit]
        exact readNumber_of_atBreak h hbreak
      · rename_i hdigit
        rw [if_neg hdigit]
        split at h
        · rename_i hquote
          rw [if_pos hquote]
          exact readString_of_atBreak h hbreak
        · rename_i hquote
          rw [if_neg hquote]
          exact readSymbol_of_atBreak h hbreak

/-- Nor does a break make a comment of a word's beginning. -/
theorem skip_of_atBreak (h : read c (word ++ rest) = ⟨.ok kind, word.length⟩)
    (hskip : Trivia.skip 0 (c :: (word ++ rest)) = .ok 0) (hbreak : AtBreak rest') :
    Trivia.skip 0 (c :: (word ++ rest')) = .ok 0 := by
  rw [Trivia.skip_eq_zero_iff, Trivia.leadingComment_eq_absent_iff] at hskip ⊢
  obtain ⟨hblank, hblock, hline⟩ := hskip
  have hback {mark : List Char} (hmark : '\n' ∉ mark) (hstart : mark <+: (c :: word) ++ rest') :
      mark <+: c :: (word ++ rest) :=
    (Trivia.isPrefix_of_append hstart hmark hbreak.head).trans (List.prefix_append _ _)
  refine ⟨hblank, fun hstart => hblock (hback (by simp) hstart), fun hstart => ?_⟩
  have hmark := hline (hback (by simp) hstart)
  rw [read, if_pos hmark] at h
  exact (readComment_of_atBreak h hmark hbreak).1

end EdgeScript.Lexeme
