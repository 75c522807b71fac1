import EdgeScript.Proofs.Parsing.Scheme

/-!
# Parsers that read on

A body that calls itself behind the place of its own call only (`Parser.Descends`) has one solution
of its equation, the one that `Parser.fix` gives, and the bound that `Parser.fix` puts on the depth
of the recursion is never reached (`Parser.Descends.eq_fix_iff`, `Parser.Descends.agree_fixAt_fix`).
-/

set_option autoImplicit false

namespace EdgeScript.Parser

variable {α β : Type} {k : β → Nat} {s : Stream} {body : (α → Parser β) → α → Parser β}

/-- A body that calls itself behind the place of its own call only, for the calls behind a place
decide what it does there.  With inner calls that read what `k` says, so does the body. -/
def Descends (k : β → Nat) (body : (α → Parser β) → α → Parser β) : Prop :=
  ∀ s again again', (∀ a s', s.Reaches 1 s' → Agree k s' (again a) (again' a)) →
    ∀ a, Agree k s (body again a) (body again' a)

/-- The depth of a recursion is at most the number of tokens that are left. -/
theorem Descends.agree_fixAt (h : Descends k body) {fuel fuel' : Nat} {a : α}
    (hfuel : s.tokens.length < fuel) (hfuel' : s.tokens.length < fuel') :
    Agree k s (fixAt body fuel a) (fixAt body fuel' a) := by
  induction fuel generalizing fuel' s a with
  | zero => omega
  | succ fuel ih =>
    cases fuel' with
    | zero => omega
    | succ fuel' =>
      refine h s _ _ (fun a s' hs => ih ?_ ?_) a
      · have hlength := hs.length_le
        omega
      · have hlength := hs.length_le
        omega

theorem Descends.agree_fixAt_fix (h : Descends k body) {fuel : Nat} (a : α)
    (hfuel : s.tokens.length < fuel) : Agree k s (fixAt body fuel a) (fix body a) := by
  have hagree := h.agree_fixAt hfuel (Nat.lt_succ_self s.tokens.length) (a := a)
  exact ⟨hagree.run_eq, hagree.reaches⟩

theorem Descends.fix_eq (h : Descends k body) (a : α) : fix body a = body (fix body) a := by
  refine funext fun s => (h s (fixAt body s.tokens.length) (fix body) (fun a s' hs => ?_) a).run_eq
  exact h.agree_fixAt_fix a (Nat.lt_of_succ_le hs.length_le)

/-- What a parser that calls itself does is given by its equation. -/
theorem Descends.eq_fix_iff (h : Descends k body) (g : α → Parser β) :
    g = fix body ↔ ∀ a, g a = body g a := by
  constructor
  · rintro rfl
    exact h.fix_eq
  · intro hg
    -- by induction on the tokens that are left: the calls inside stand behind, where fewer are
    have hagree (length : Nat) : ∀ a s, s.tokens.length < length →
        Agree k s (g a) (fix body a) := by
      induction length with
      | zero => exact fun _ _ hlength => absurd hlength (Nat.not_lt_zero _)
      | succ length ih =>
        intro a s hlength
        rw [hg, h.fix_eq]
        refine h s g (fix body) (fun a s' hs => ih a s' ?_) a
        have hless := hs.length_le
        omega
    exact funext fun a => funext fun s => (hagree _ a s (Nat.lt_succ_self s.tokens.length)).run_eq

/-- The rounds of a loop, each of which reads a token unless it is the last. -/
theorem descends_rounds {step : α → Parser (α ⊕ β)}
    (h : ∀ a s, Agree perRound s (step a) (step a)) : Descends (fun _ => 0) (rounds step) := by
  intro s again again' hagain a
  have hround : Obeys .any perRound s s.captures (step a) (step a)
      (Between (fun _ _ => True) fun _ _ => True) :=
    (h a s).obeys.mono (fun r => Nat.le_refl _) fun r _ _ => by cases r <;> trivial
  exact (obeys_rounds hround fun a s' _ hs _ => (hagain a s' hs).obeys).agree_any

end EdgeScript.Parser
