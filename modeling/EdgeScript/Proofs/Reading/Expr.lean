import Mathlib.Algebra.GroupWithZero.Nat
import EdgeScript.Proofs.Inlining.Expand
import EdgeScript.Proofs.Lexing.Name
import EdgeScript.Proofs.Parsing.Stmt

/-!
# Names and captures that are read

Every name of an expression that is read is one that the lexer has made (`Expr.Named`).  Only
matches capture, `matches` and `matches_i` (`Expr.CapturesOnMatches`).

The stream counts the captures of the condition being read, so that a second one can be refused.
`Spent` says how the count goes on while captures are read.
-/

set_option autoImplicit false

namespace EdgeScript

/-! ## Expressions -/

namespace Expr

/-- The names that a node itself writes. -/
def ownNames : Expr → List String
  | .ident id => [id.name]
  | .call callee _ _ => [callee.name]
  | .test _ _ _ capture _ => (capture.map Ident.name).toList
  | _ => []

/-- The capture of a node itself. -/
def ownCapture? : Expr → Option Ident
  | .test _ _ _ capture _ => capture
  | _ => none

/-- All captures in an expression, at any depth. -/
def captures (e : Expr) : List Ident := e.subterms.filterMap ownCapture?

/-- The number of captures in an expression. -/
def captureCount (e : Expr) : Nat := e.captures.length

/-- The test of a node that captures. -/
def capturing? : Expr → Option MatchOp
  | .test op _ _ capture _ => capture.map fun _ => op
  | _ => none

/-- All names in an expression are made of the characters of names. -/
def Named (e : Expr) : Prop := ∀ x ∈ e.subterms, ∀ name ∈ x.ownNames, Lexeme.IsName name

/-- Every test in an expression that captures is a match by a regular expression. -/
def CapturesOnMatches (e : Expr) : Prop :=
  ∀ x ∈ e.subterms, ∀ op ∈ x.capturing?, op = .pattern ∨ op = .patternIgnoringCase

/-- What holds of an expression that is read, whatever its place. -/
def Read (e : Expr) : Prop :=
  ∀ x ∈ e.subterms, (∀ name ∈ x.ownNames, Lexeme.IsName name) ∧
    ∀ op ∈ x.capturing?, op = .pattern ∨ op = .patternIgnoringCase

theorem Read.named {e : Expr} (h : e.Read) : e.Named := fun x hx => (h x hx).1

/-- What has been read captures only at tests by a pattern. -/
theorem Read.capturesOnMatches {e : Expr} (h : e.Read) : e.CapturesOnMatches :=
  fun x hx => (h x hx).2

section Parts

variable {op : BinOp} {unOp : UnOp} {matchOp : MatchOp} {e left right : Expr} {es : List Expr}
  {entries : List (Expr × Expr)} {value : Literal} {id : Ident} {capture : Option Ident}
  {span : Span}

@[simp]
theorem read_lit : (lit value span).Read := by
  simp [Read, subterms, ownNames, capturing?]

@[simp]
theorem read_ident : (ident id).Read ↔ Lexeme.IsName id.name := by
  simp [Read, subterms, ownNames, capturing?]

@[simp]
theorem read_binary : (binary op left right span).Read ↔ left.Read ∧ right.Read := by
  simp only [Read, subterms, List.forall_mem_cons, List.forall_mem_append]
  exact and_iff_right (by simp [ownNames, capturing?])

@[simp]
theorem read_unary : (unary unOp e span).Read ↔ e.Read := by
  simp only [Read, subterms, List.forall_mem_cons]
  exact and_iff_right (by simp [ownNames, capturing?])

/-- A test may have a capture if it is one by a pattern. -/
@[simp]
theorem read_test : (test matchOp left right capture span).Read ↔
    (∀ id ∈ capture, Lexeme.IsName id.name ∧
      (matchOp = .pattern ∨ matchOp = .patternIgnoringCase)) ∧ left.Read ∧ right.Read := by
  simp only [Read, subterms, List.forall_mem_cons, List.forall_mem_append]
  refine and_congr_left' ?_
  cases capture with
  | none => simp [ownNames, capturing?]
  | some id => simp [ownNames, capturing?]

@[simp]
theorem read_call : (call id es span).Read ↔ Lexeme.IsName id.name ∧ ∀ e ∈ es, e.Read := by
  simp only [Read, subterms, subtermsAll_eq_flatMap, List.forall_mem_cons, List.forall_mem_flatMap]
  exact and_congr_left' (by simp [ownNames, capturing?])

@[simp]
theorem read_index : (index left right span).Read ↔ left.Read ∧ right.Read := by
  simp only [Read, subterms, List.forall_mem_cons, List.forall_mem_append]
  exact and_iff_right (by simp [ownNames, capturing?])

@[simp]
theorem read_range : (range left right span).Read ↔ left.Read ∧ right.Read := by
  simp only [Read, subterms, List.forall_mem_cons, List.forall_mem_append]
  exact and_iff_right (by simp [ownNames, capturing?])

@[simp]
theorem read_array : (array es span).Read ↔ ∀ e ∈ es, e.Read := by
  simp only [Read, subterms, subtermsAll_eq_flatMap, List.forall_mem_cons, List.forall_mem_flatMap]
  exact and_iff_right (by simp [ownNames, capturing?])

@[simp]
theorem read_dict :
    (dict entries span).Read ↔ ∀ entry ∈ entries, entry.1.Read ∧ entry.2.Read := by
  simp only [Read, subterms, subtermsEntries_eq_flatMap, List.forall_mem_cons,
    List.forall_mem_flatMap, List.forall_mem_append]
  exact and_iff_right (by simp [ownNames, capturing?])

attribute [local simp] captureCount captures subterms subtermsAll_eq_flatMap
  subtermsEntries_eq_flatMap List.filterMap_flatMap List.length_flatMap

@[simp]
theorem captureCount_lit : (lit value span).captureCount = 0 := by
  simp [ownCapture?]

@[simp]
theorem captureCount_ident : (ident id).captureCount = 0 := by
  simp [ownCapture?]

@[simp]
theorem captureCount_binary :
    (binary op left right span).captureCount = left.captureCount + right.captureCount := by
  simp [List.filterMap_cons_none (show ownCapture? (binary op left right span) = none from rfl)]

@[simp]
theorem captureCount_unary : (unary unOp e span).captureCount = e.captureCount := by
  simp [List.filterMap_cons_none (show ownCapture? (unary unOp e span) = none from rfl)]

/-- Only a test adds a capture to those of its parts. -/
@[simp]
theorem captureCount_test : (test matchOp left right capture span).captureCount =
    left.captureCount + right.captureCount + capture.toList.length := by
  have hown : ownCapture? (test matchOp left right capture span) = capture := rfl
  cases capture <;> simp [hown]

@[simp]
theorem captureCount_call : (call id es span).captureCount = (es.map captureCount).sum := by
  rw [captureCount, captures, subterms, List.filterMap_cons_none rfl, subtermsAll_eq_flatMap,
    List.filterMap_flatMap, List.length_flatMap]
  rfl

@[simp]
theorem captureCount_index :
    (index left right span).captureCount = left.captureCount + right.captureCount := by
  simp [List.filterMap_cons_none (show ownCapture? (index left right span) = none from rfl)]

@[simp]
theorem captureCount_range :
    (range left right span).captureCount = left.captureCount + right.captureCount := by
  simp [List.filterMap_cons_none (show ownCapture? (range left right span) = none from rfl)]

@[simp]
theorem captureCount_array : (array es span).captureCount = (es.map captureCount).sum := by
  rw [captureCount, captures, subterms, List.filterMap_cons_none rfl, subtermsAll_eq_flatMap,
    List.filterMap_flatMap, List.length_flatMap]
  rfl

/-- Captures are counted in the keys and in the values of entries. -/
@[simp]
theorem captureCount_dict : (dict entries span).captureCount =
    (entries.map fun entry => entry.1.captureCount + entry.2.captureCount).sum := by
  simp [List.filterMap_cons_none (show ownCapture? (dict entries span) = none from rfl)]

end Parts

end Expr

/-! ## Counts of captures -/

/-- From one count of captures to another by `n`: there is at most one, and only in a condition. -/
def Spent (before : Option Nat) (n : Nat) (after : Option Nat) : Prop :=
  after = before.map (· + n) ∧ (n = 0 ∨ n = 1 ∧ before = some 0)

theorem Spent.zero (count : Option Nat) : Spent count 0 count := ⟨by simp, .inl rfl⟩

/-- Captures that are spent one after the other add up, as long as there is a count. -/
theorem Spent.trans {a b c : Option Nat} {m n : Nat} (h : Spent a m b) (h' : Spent b n c) :
    Spent a (m + n) c := by
  obtain ⟨rfl, hm⟩ := h
  obtain ⟨rfl, hn⟩ := h'
  refine ⟨by simp [Function.comp_def, Nat.add_assoc], ?_⟩
  rcases hn with rfl | ⟨rfl, hn⟩
  · exact hm
  · -- the second capture is the first one of the condition
    rcases hm with rfl | ⟨rfl, rfl⟩
    · exact .inr ⟨rfl, by simpa using hn⟩
    · simp at hn

/-- What is read one behind the other. -/
theorem Along.spent {α : Type} {R : Option Nat → α → Option Nat → Prop} {count : α → Nat}
    (hR : ∀ {c a d}, R c a d → Spent c (count a) d) {c d : Option Nat} {l : List α}
    (h : Along R c l d) : Spent c (l.map count).sum d := by
  induction h with
  | nil c => exact .zero c
  | cons ha _ ih => exact (hR ha).trans ih

end EdgeScript
