/-!
# Searching text

`Text.occursIn` tells whether a text occurs in another one as a contiguous part, and
`Text.occursIn_iff` says so in terms of concatenation.
-/

set_option autoImplicit false

namespace EdgeScript.Text

/-- Whether `needle` occurs in the text as a contiguous part. -/
def occursIn (needle : List Char) : List Char → Bool
  | [] => needle.isEmpty
  | c :: cs => needle.isPrefixOf (c :: cs) || occursIn needle cs

/-- Whether the string `needle` occurs in `s`. -/
def contains (s needle : String) : Bool :=
  occursIn needle.toList s.toList

/-- The search finds what is there. -/
theorem occursIn_iff (needle cs : List Char) :
    occursIn needle cs = true ↔ ∃ before after, cs = before ++ needle ++ after := by
  induction cs with
  | nil => simp [occursIn]
  | cons c cs ih =>
    rw [occursIn, Bool.or_eq_true, ih, List.isPrefixOf_iff_prefix]
    constructor
    · rintro (⟨after, h⟩ | ⟨before, after, rfl⟩)
      · exact ⟨[], after, by simpa using h.symm⟩
      · exact ⟨c :: before, after, by simp⟩
    · rintro ⟨before, after, h⟩
      cases before with
      | nil => exact .inl ⟨after, by simpa using h.symm⟩
      | cons b before =>
        simp only [List.cons_append, List.cons.injEq] at h
        exact .inr ⟨before, after, h.2⟩

end EdgeScript.Text
