import Mathlib.Tactic.Tauto
import EdgeScript.Token.Lexer

/-!
# Names

The lexer makes names of letters, numerals and two signs (`Lexeme.IsName`), and makes nothing else a
name (`Lexer.named_of_all`).
-/

set_option autoImplicit false

namespace EdgeScript

namespace Lexeme

/-- The names of scripts: any text of the characters that names go on with. -/
def IsName (name : String) : Prop :=
  name.toList ≠ [] ∧ ∀ c ∈ name.toList, isNamePart c = true

-- Decided over the characters of the name: there may be other instances for a bounded quantifier.
instance (name : String) : Decidable (IsName name) :=
  decidable_of_iff (name.toList ≠ [] ∧ name.toList.all isNamePart = true)
    (and_congr_right' List.all_eq_true)

theorem isNamePart_of_isNameStart {c : Char} (h : isNameStart c = true) : isNamePart c = true := by
  simp only [isNameStart, isNamePart, Text.isLetterOrNumeral, Bool.or_eq_true] at h ⊢
  tauto

/-- There is no double quote in a name. -/
theorem IsName.quote_notMem {name : String} (h : IsName name) : '"' ∉ name.toList := by
  intro hquote
  have hpart : isNamePart '"' = false := by decide
  exact Bool.false_ne_true (hpart.symm.trans (h.2 _ hquote))

/-- What is read as a name is one. -/
theorem isName_of_readName {c : Char} {cs : List Char} {name : String} (hc : isNameStart c = true)
    (h : (readName c cs).kind = .ok (.ident name)) : IsName name := by
  simp only [readName] at h
  split at h
  · simp at h
  · simp only [Except.ok.injEq, TokenKind.ident.injEq] at h
    rw [IsName, ← h, String.toList_ofList]
    refine ⟨List.cons_ne_nil _ _, fun d hd => ?_⟩
    rw [List.mem_cons] at hd
    rcases hd with rfl | hd
    · exact isNamePart_of_isNameStart hc
    · exact List.all_eq_true.1 List.all_takeWhile d hd

/-- Digits are never read as a name. -/
theorem readDigits_kind_ne_ident (base mark : Nat) (cs : List Char) (name : String) :
    (readDigits base mark cs).kind ≠ .ok (.ident name) := by
  simp only [readDigits]
  split
  · simp
  · split <;> simp

/-- Only a name is read as a name. -/
theorem isName_of_read {c : Char} {cs : List Char} {name : String}
    (h : (read c cs).kind = .ok (.ident name)) : IsName name := by
  rw [read] at h
  split at h
  · simp [readComment] at h
  · split at h
    · exact isName_of_readName ‹_› h
    · split at h
      · rw [readNumber] at h
        split at h <;> exact absurd h (readDigits_kind_ne_ident _ _ _ _)
      · split at h
        · simp only [readString] at h
          split at h <;> simp only [ofString] at h <;> split at h <;> simp at h
        · simp only [readSymbol] at h
          split at h <;> simp at h

end Lexeme

/-- If a token is a name, it is one of scripts. -/
def Token.Named (t : Token) : Prop :=
  ∀ name, t.kind = .ident name → Lexeme.IsName name

namespace Lexer

/-- A token that is a name has a name for its text. -/
theorem named_of_token {l l' : Lexer} {t : Token} (h : l.token = (.ok t, l')) : t.Named := by
  intro name hname
  rw [token] at h
  split at h
  · simp only [Prod.mk.injEq, Except.ok.injEq] at h
    rw [← h.1] at hname
    simp at hname
  · dsimp only at h
    split at h
    · rename_i hkind
      simp only [Prod.mk.injEq, Except.ok.injEq] at h
      rw [← h.1] at hname
      exact Lexeme.isName_of_read (hkind.trans (congrArg Except.ok hname))
    · simp at h

theorem named_of_next {l l' : Lexer} {t : Token} (h : l.next = (.ok t, l')) : t.Named := by
  rw [next] at h
  split at h
  · exact named_of_token h
  · simp at h

/-- So have all tokens that are read. -/
theorem named_of_all (l : Lexer) {tokens : List Token} (h : l.all.1 = .ok tokens) :
    ∀ t ∈ tokens, t.Named := by
  fun_induction Lexer.all l generalizing tokens with
  | case1 => simp at h
  | case2 l t l' hnext =>
    simp only [Except.ok.injEq] at h
    subst h
    simpa using named_of_next hnext
  | case3 l t l' hnext _ _ rest l'' hall ih =>
    simp only [Except.ok.injEq] at h
    subst h
    rw [hall] at ih
    simpa using ⟨named_of_next hnext, ih rfl⟩
  | case4 => simp at h

end Lexer

end EdgeScript
