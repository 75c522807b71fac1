import Mathlib.Logic.Function.Basic
import EdgeScript.Proofs.Unrolling.Lookup

/-!
# Control paths

`Follows` describes the ways a run can take through a script, whatever its conditions come to: any
branch of a chain, the body of an attempt or its handler after any part of the body, any number of
rounds of a loop.  A way is the list of atoms that it executes, its `Trail`.

`Trail.held` tells what a variable holds at the end of a trail, as far as it is a collection that
can be read off: the value of the last atom that has set it, and whether that atom is certain.  An
atom is certain at a place if every way to the place executes it; the atoms of a chain or of an
attempt are not any more behind it.
-/

set_option autoImplicit false

namespace EdgeScript

/-- An atom that a run has executed. -/
structure Step where
  atom : Atom
  /-- Whether the run could not have avoided it. -/
  certain : Bool

/-- The atoms that a run has executed, from the first to the last. -/
abbrev Trail := List Step

namespace Trail

/-- The trail through the inside of a statement, seen from behind the statement. -/
def unsure (t : Trail) : Trail :=
  t.map fun step => { step with certain := false }

/-- Whether one of the atoms sets a variable. -/
def Sets (t : Trail) (x : String) : Prop :=
  ∃ step ∈ t, step.atom.assigned? = some x

theorem not_sets_nil (x : String) : ¬ Sets [] x :=
  fun ⟨_, h, _⟩ => nomatch h

/-- What is set on the way is set on its first part or on its second. -/
theorem sets_append {t u : Trail} {x : String} : Sets (t ++ u) x ↔ t.Sets x ∨ u.Sets x := by
  simp only [Sets, List.mem_append, or_and_right, exists_or]

theorem sets_unsure {t : Trail} {x : String} : t.unsure.Sets x ↔ t.Sets x := by
  simp only [Sets, unsure, List.mem_map]
  constructor
  · rintro ⟨_, ⟨step, hstep, rfl⟩, hx⟩
    exact ⟨step, hstep, hx⟩
  · rintro ⟨step, hstep, hx⟩
    exact ⟨_, ⟨step, hstep, rfl⟩, hx⟩

end Trail

/-! ## Paths -/

/-- `Follows ends stmts t`: a run can execute the atoms of `t` in the statements.  It comes to their
end if `ends` is true, and otherwise to some place inside of them. -/
inductive Follows : Bool → List Stmt → Trail → Prop
  | done : Follows true [] []
  | stop (stmts : List Stmt) : Follows false stmts []
  | seq {ends : Bool} {a b : List Stmt} {t u : Trail} (ha : Follows true a t)
      (hb : Follows ends b u) : Follows ends (a ++ b) (t ++ u)
  | inside {a b : List Stmt} {t : Trail} (ha : Follows false a t) : Follows false (a ++ b) t
  | atom (a : Atom) : Follows true [.atom a] [⟨a, true⟩]
  | function (name : Ident) (params : List Param) (isInline : Bool) (body : List Stmt)
      (span : Span) : Follows true [.function name params isInline body span] []
  | require (path : String) (force : Bool) (span : Span) :
      Follows true [.require path force span] []
  | block {ends : Bool} {body : List Stmt} {t : Trail} (span : Span) (h : Follows ends body t) :
      Follows ends [.block body span] t
  | branch {branches : List (Branch Stmt)} {b : Branch Stmt} {t : Trail} (hb : b ∈ branches)
      (otherwise : Option (List Stmt)) (span : Span) (h : Follows true b.body t) :
      Follows true [.ifChain branches otherwise span] t.unsure
  | inBranch {branches : List (Branch Stmt)} {b : Branch Stmt} {t : Trail} (hb : b ∈ branches)
      (otherwise : Option (List Stmt)) (span : Span) (h : Follows false b.body t) :
      Follows false [.ifChain branches otherwise span] t
  /-- No condition of a chain holds. -/
  | otherwise {otherwise : Option (List Stmt)} {t : Trail} (branches : List (Branch Stmt))
      (span : Span) (h : Follows true (otherwise.getD []) t) :
      Follows true [.ifChain branches otherwise span] t.unsure
  | inOtherwise {body : List Stmt} {t : Trail} (branches : List (Branch Stmt)) (span : Span)
      (h : Follows false body t) : Follows false [.ifChain branches (some body) span] t
  | attempt {body : List Stmt} {t : Trail} (handler : Option (List Stmt)) (span : Span)
      (h : Follows true body t) : Follows true [.attempt body handler span] t.unsure
  | inAttempt {body : List Stmt} {t : Trail} (handler : Option (List Stmt)) (span : Span)
      (h : Follows false body t) : Follows false [.attempt body handler span] t
  /-- The body of an attempt fails at some place. -/
  | handled {body : List Stmt} {handler : Option (List Stmt)} {t u : Trail} (span : Span)
      (hbody : Follows false body t) (hhandler : Follows true (handler.getD []) u) :
      Follows true [.attempt body handler span] (t.unsure ++ u.unsure)
  | inHandler {body handler : List Stmt} {t u : Trail} (span : Span) (hbody : Follows false body t)
      (hhandler : Follows false handler u) :
      Follows false [.attempt body (some handler) span] (t.unsure ++ u)
  /-- A loop has no more elements. -/
  | leave (var : Option Ident) (collection : Expr) (body : List Stmt) (span : Span) :
      Follows true [.forLoop var collection body span] []
  /-- A loop has one more round, which a `break` may end. -/
  | round {ends ends' : Bool} {body : List Stmt} {t u : Trail} {var : Option Ident}
      {collection : Expr} {span : Span} (hbody : Follows ends' body t)
      (h : Follows ends [.forLoop var collection body span] u) :
      Follows ends [.forLoop var collection body span] (t.unsure ++ u)

namespace Stmt

theorem assignedAll_append (a b : List Stmt) :
    assignedAll (a ++ b) = assignedAll a ++ assignedAll b := by
  induction a with
  | nil => rw [assignedAll, List.nil_append, List.nil_append]
  | cons s rest ih => rw [List.cons_append, assignedAll, assignedAll, ih, List.append_assoc]

theorem mem_assignedBranches {branches : List (Branch Stmt)} {b : Branch Stmt} (hb : b ∈ branches)
    {x : String} (hx : x ∈ assignedAll b.body) : x ∈ assignedBranches branches := by
  induction branches with
  | nil => cases hb
  | cons b' rest ih =>
    obtain ⟨cond, body, span⟩ := b'
    rw [assignedBranches, List.mem_append]
    rcases List.mem_cons.1 hb with rfl | hb
    · exact .inl hx
    · exact .inr (ih hb)

/-- A variable is set in a chain if it is set in a body of it. -/
theorem mem_assigned_ifChain {branches : List (Branch Stmt)} {otherwise : Option (List Stmt)}
    {span : Span} {x : String} :
    x ∈ assigned (.ifChain branches otherwise span) ↔
      x ∈ assignedBranches branches ∨ x ∈ assignedAll (otherwise.getD []) := by
  cases otherwise with
  | none => simp [assigned, assignedAll]
  | some body => rw [assigned, List.mem_append, Option.getD_some]

theorem mem_assigned_attempt {body : List Stmt} {handler : Option (List Stmt)} {span : Span}
    {x : String} :
    x ∈ assigned (.attempt body handler span) ↔
      x ∈ assignedAll body ∨ x ∈ assignedAll (handler.getD []) := by
  cases handler with
  | none => simp [assigned, assignedAll]
  | some body => rw [assigned, List.mem_append, Option.getD_some]

end Stmt

namespace Follows

variable {ends : Bool} {stmts : List Stmt} {t : Trail} {x : String}

/-- **A run sets only variables that the statements may set.** -/
theorem assigned (h : Follows ends stmts t) (hx : t.Sets x) : x ∈ Stmt.assignedAll stmts := by
  induction h with
  | done => exact absurd hx (Trail.not_sets_nil x)
  | stop => exact absurd hx (Trail.not_sets_nil x)
  | seq _ _ iha ihb =>
    rw [Stmt.assignedAll_append, List.mem_append]
    exact (Trail.sets_append.1 hx).imp iha ihb
  | inside _ ih =>
    rw [Stmt.assignedAll_append, List.mem_append]
    exact .inl (ih hx)
  | atom a =>
    obtain ⟨step, hstep, hx⟩ := hx
    rw [List.mem_singleton.1 hstep] at hx
    rw [Stmt.assignedAll_singleton, Stmt.assigned, Option.mem_toList]
    exact hx
  | function => exact absurd hx (Trail.not_sets_nil x)
  | require => exact absurd hx (Trail.not_sets_nil x)
  | block span _ ih =>
    rw [Stmt.assignedAll_singleton, Stmt.assigned]
    exact ih hx
  | branch hb _ _ _ ih =>
    rw [Stmt.assignedAll_singleton, Stmt.mem_assigned_ifChain]
    exact .inl (Stmt.mem_assignedBranches hb (ih (Trail.sets_unsure.1 hx)))
  | inBranch hb _ _ _ ih =>
    rw [Stmt.assignedAll_singleton, Stmt.mem_assigned_ifChain]
    exact .inl (Stmt.mem_assignedBranches hb (ih hx))
  | otherwise _ _ _ ih =>
    rw [Stmt.assignedAll_singleton, Stmt.mem_assigned_ifChain]
    exact .inr (ih (Trail.sets_unsure.1 hx))
  | inOtherwise _ _ _ ih =>
    rw [Stmt.assignedAll_singleton, Stmt.mem_assigned_ifChain]
    exact .inr (ih hx)
  | attempt _ _ _ ih =>
    rw [Stmt.assignedAll_singleton, Stmt.mem_assigned_attempt]
    exact .inl (ih (Trail.sets_unsure.1 hx))
  | inAttempt _ _ _ ih =>
    rw [Stmt.assignedAll_singleton, Stmt.mem_assigned_attempt]
    exact .inl (ih hx)
  | handled _ _ _ ihbody ihhandler =>
    rw [Stmt.assignedAll_singleton, Stmt.mem_assigned_attempt]
    exact (Trail.sets_append.1 hx).imp (fun h => ihbody (Trail.sets_unsure.1 h))
      fun h => ihhandler (Trail.sets_unsure.1 h)
  | inHandler _ _ _ ihbody ihhandler =>
    rw [Stmt.assignedAll_singleton, Stmt.mem_assigned_attempt]
    exact (Trail.sets_append.1 hx).imp (fun h => ihbody (Trail.sets_unsure.1 h)) ihhandler
  | leave => exact absurd hx (Trail.not_sets_nil x)
  | round _ _ ihbody ih =>
    rcases Trail.sets_append.1 hx with hx | hx
    · rw [Stmt.assignedAll_singleton, Stmt.assigned]
      exact ihbody (Trail.sets_unsure.1 hx)
    · exact ih hx

/-- A way through a single statement is split only at one of its ends. -/
theorem split_singleton {s : Stmt} {a b : List Stmt} (h : Follows true [s] t) (hl : a ++ b = [s]) :
    ∃ t₁ t₂, Follows true a t₁ ∧ Follows true b t₂ ∧ t = t₁ ++ t₂ := by
  rcases List.append_eq_singleton_iff.1 hl with ⟨rfl, rfl⟩ | ⟨rfl, rfl⟩
  · exact ⟨[], t, .done, h, rfl⟩
  · exact ⟨t, [], h, .done, (List.append_nil t).symm⟩

/-- A run through a sequence is one through its first part and one through the rest. -/
theorem split {a b : List Stmt} (h : Follows true (a ++ b) t) :
    ∃ t₁ t₂, Follows true a t₁ ∧ Follows true b t₂ ∧ t = t₁ ++ t₂ := by
  generalize hl : a ++ b = stmts at h
  generalize he : true = ends at h
  induction h generalizing a b with
  | done =>
    obtain ⟨rfl, rfl⟩ := List.append_eq_nil_iff.1 hl
    exact ⟨[], [], .done, .done, rfl⟩
  | stop => cases he
  | seq ha hb iha ihb =>
    subst he
    rcases List.append_eq_append_iff.1 hl with ⟨c, rfl, rfl⟩ | ⟨c, rfl, rfl⟩
    · obtain ⟨t₁, t₂, h₁, h₂, rfl⟩ := iha rfl rfl
      exact ⟨t₁, _, h₁, .seq h₂ hb, List.append_assoc ..⟩
    · obtain ⟨t₁, t₂, h₁, h₂, rfl⟩ := ihb rfl rfl
      exact ⟨_, t₂, .seq ha h₁, h₂, (List.append_assoc ..).symm⟩
  | inside => cases he
  | atom step => exact split_singleton (.atom step) hl
  | function => exact split_singleton (.function ..) hl
  | require => exact split_singleton (.require ..) hl
  | block span h =>
    subst he
    exact split_singleton (.block span h) hl
  | branch hb otherwise span h => exact split_singleton (.branch hb otherwise span h) hl
  | inBranch => cases he
  | otherwise branches span h => exact split_singleton (.otherwise branches span h) hl
  | inOtherwise => cases he
  | attempt handler span h => exact split_singleton (.attempt handler span h) hl
  | inAttempt => cases he
  | handled span hbody hhandler => exact split_singleton (.handled span hbody hhandler) hl
  | inHandler => cases he
  | leave => exact split_singleton (.leave ..) hl
  | round hbody h =>
    subst he
    exact split_singleton (.round hbody h) hl

theorem eq_nil (h : Follows ends stmts t) (hl : stmts = []) : t = [] := by
  induction h with
  | done => rfl
  | stop => rfl
  | seq _ _ iha ihb =>
    obtain ⟨ha, hb⟩ := List.append_eq_nil_iff.1 hl
    rw [iha ha, ihb hb, List.nil_append]
  | inside _ ih => exact ih (List.append_eq_nil_iff.1 hl).1
  | _ => cases hl

theorem eq_of_atom {a : Atom} (h : Follows ends stmts t) (he : ends = true)
    (hl : stmts = [.atom a]) : t = [⟨a, true⟩] := by
  induction h with
  | stop => cases he
  | seq ha hb iha ihb =>
    rcases List.append_eq_singleton_iff.1 hl with ⟨ha', hb'⟩ | ⟨ha', hb'⟩
    · rw [ha.eq_nil ha', ihb he hb', List.nil_append]
    · rw [hb.eq_nil hb', iha rfl ha', List.append_nil]
  | inside => cases he
  | atom =>
    cases hl
    rfl
  | _ => cases hl

/-- A way through a block is one through its body. -/
theorem of_block {body : List Stmt} {span : Span} (h : Follows ends stmts t) (he : ends = true)
    (hl : stmts = [.block body span]) : Follows true body t := by
  induction h with
  | stop => cases he
  | seq ha hb iha ihb =>
    rcases List.append_eq_singleton_iff.1 hl with ⟨ha', hb'⟩ | ⟨ha', hb'⟩
    · rw [ha.eq_nil ha', List.nil_append]
      exact ihb he hb'
    · rw [hb.eq_nil hb', List.append_nil]
      exact iha rfl ha'
  | inside => cases he
  | block _ h =>
    cases hl
    exact he ▸ h
  | _ => cases hl

end Follows

/-! ## What variables hold -/

/-- What is known of a variable's value at some place on a path. -/
structure Held where
  /-- The collection that it is, if the text tells. -/
  collection : Option Collection
  /-- Whether the atom that has set it is certain. -/
  certain : Bool
deriving DecidableEq, Repr

/-- What all variables hold at some place on a path. -/
abbrev Holdings := String → Held

namespace Holdings

/-- Before the first statement. -/
def start : Holdings := fun _ => ⟨none, false⟩

/-- The collection that an expression is, given what the variables hold. -/
def valueOf (h : Holdings) : Expr → Option Collection
  | .ident id => (h id.name).collection
  | e => Collection.ofExpr? [] e

/-- What variables hold after an atom. -/
def step (h : Holdings) (s : Step) : Holdings :=
  match s.atom.assigned? with
  | some x => Function.update h x ⟨s.atom.value?.bind h.valueOf, s.certain⟩
  | none => h

/-- What variables hold at the end of a trail. -/
def after (h : Holdings) (t : Trail) : Holdings :=
  t.foldl step h

/-- What variables hold after a way is found step by step. -/
theorem after_append (h : Holdings) (t u : Trail) : h.after (t ++ u) = (h.after t).after u :=
  List.foldl_append

/-- A step that sets another variable leaves what a variable holds. -/
theorem step_of_ne (h : Holdings) {s : Step} {x : String} (hx : s.atom.assigned? ≠ some x) :
    h.step s x = h x := by
  rw [step]
  cases hs : s.atom.assigned? with
  | some y => exact Function.update_of_ne (fun hxy => hx (by rw [hs, hxy])) _ _
  | none => rfl

/-- A step that sets a variable makes it hold the value, if that is known. -/
theorem step_self (h : Holdings) {s : Step} {x : String} (hx : s.atom.assigned? = some x) :
    h.step s x = ⟨s.atom.value?.bind h.valueOf, s.certain⟩ := by
  rw [step, hx]
  exact Function.update_self ..

/-- A trail leaves alone the variables that it does not set. -/
theorem after_of_not_sets (h : Holdings) {t : Trail} {x : String} (hx : ¬ t.Sets x) :
    h.after t x = h x := by
  induction t generalizing h with
  | nil => rfl
  | cons s t ih =>
    have hs : s.atom.assigned? ≠ some x := fun hs => hx ⟨s, List.mem_cons_self, hs⟩
    have ht : ¬ Trail.Sets t x := fun ⟨s', hmem, hs'⟩ => hx ⟨s', List.mem_cons_of_mem s hmem, hs'⟩
    exact (ih (h.step s) ht).trans (h.step_of_ne hs)

end Holdings

/-- What a variable holds at the end of a trail from the beginning of a script. -/
def Trail.held (t : Trail) : Holdings :=
  Holdings.start.after t

end EdgeScript
