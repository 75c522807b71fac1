import EdgeScript.Proofs.Folding.Meaning
import EdgeScript.Proofs.Meaning.Collection
import EdgeScript.Proofs.Unrolling.Round
import EdgeScript.Proofs.Unrolling.Lookup

/-!
# Unrolling keeps meaning

What the unroller makes of a script does what the script does: it causes the same events and leaves
the same store, from every store and under every interpretation.

The proof has two parts.

* The copies of a loop's body do what the rounds of the loop do (`execAll_copies`), because a copy
  is the body with the element in the place of the variable, folded, unrolled and cut at its first
  `break`.
* The elements that a loop is expanded with are those that it runs through.  For a loop over a
  variable that is what `Known.Holds` says, and it is kept along all statements (`exec_unrollStmt`).

There are two gaps.  In the first part, a loop ends after `2 ^ 63` copies even if its range is
longer, and the theorem has to ask that no loop comes that far (`Counted`).  In the second part, a
copy starts from what was known before the loop, although earlier copies may have set a variable
since.  A loop over such a variable is expanded with elements that the variable had once, and the
theorem has to ask that it still has them (`Trusts`).
-/

set_option autoImplicit false

namespace EdgeScript

namespace Outcome

variable {V : Type}

/-- A sequence of two runs leaves a variable alone, if both do. -/
theorem store_andThen_eq {r : Outcome V} {next : Store V → Outcome V} {x : String} {v : V}
    (hr : r.store x = v) (hnext : ∀ τ : Store V, (next τ).store x = τ x) :
    (r.andThen next).store x = v := by
  rw [andThen]
  split
  · exact hr
  · exact (hnext r.store).trans hr

end Outcome

namespace Interp

variable {V : Type} (I : Interp V)

/-! ## Variables that are not set -/

theorem store_execAtom_of_not_assigned (ρ : String → V) (σ : Store V) {a : Atom} {x : String}
    (hx : a.assigned? ≠ some x) : (I.execAtom ρ σ a).store x = σ x := by
  cases a with
  | declare name value span => exact Function.update_of_ne (fun h => hx (congrArg some h.symm)) _ _
  | assign target key value span =>
    cases key with
    | none => exact Function.update_of_ne (fun h => hx (congrArg some h.symm)) _ _
    | some key => exact Function.update_of_ne (fun h => hx (congrArg some h.symm)) _ _
  | _ => rfl

theorem store_execAtom_of_value? (ρ : String → V) (σ : Store V) {a : Atom} {x : String} {e : Expr}
    (hx : a.assigned? = some x) (he : a.value? = some e) :
    (I.execAtom ρ σ a).store x = I.eval ρ e := by
  cases a with
  | declare name value span =>
    cases hx
    rw [Atom.value?] at he
    subst he
    exact Function.update_self ..
  | assign target key value span =>
    cases hx
    cases key with
    | none =>
      cases he
      exact Function.update_self ..
    | some key => cases he
  | _ => cases hx

theorem store_execRounds {round : V → Store V → Outcome V} {x : String}
    (hround : ∀ v τ, (round v τ).store x = τ x) (vs : List V) (σ : Store V) :
    (execRounds round vs σ).store x = σ x := by
  induction vs generalizing σ with
  | nil => rfl
  | cons v vs ih =>
    rw [execRounds]
    split
    · exact hround v σ
    · exact Outcome.store_andThen_eq (hround v σ) ih

mutual

theorem store_exec {x : String} :
    ∀ {s : Stmt}, x ∉ Stmt.assigned s → ∀ scope σ, (I.exec scope σ s).store x = σ x
  | .atom a, h, scope, σ => by
    rw [Stmt.assigned, Option.mem_toList] at h
    rw [exec]
    exact I.store_execAtom_of_not_assigned _ σ h
  | .function .., _, scope, σ => by rw [exec]; rfl
  | .ifChain branches (some body) span, h, scope, σ => by
    rw [Stmt.assigned, List.mem_append, not_or] at h
    rw [exec]
    exact store_execBranches h.1 scope σ (store_execAll h.2 scope σ)
  | .ifChain branches none span, h, scope, σ => by
    rw [Stmt.assigned] at h
    rw [exec]
    exact store_execBranches h scope σ rfl
  | .forLoop var collection body span, h, scope, σ => by
    rw [Stmt.assigned] at h
    rw [exec]
    exact store_execRounds (fun v τ => store_execAll h _ τ) _ σ
  | .breakLoop span, _, scope, σ => by rw [exec]
  | .attempt body (some handler) span, h, scope, σ => by
    rw [Stmt.assigned, List.mem_append, not_or] at h
    rw [exec]
    exact store_execAll h.1 scope σ
  | .attempt body none span, h, scope, σ => by
    rw [Stmt.assigned] at h
    rw [exec]
    exact store_execAll h scope σ
  | .require .., _, scope, σ => by rw [exec]
  | .block body span, h, scope, σ => by
    rw [Stmt.assigned] at h
    rw [exec]
    exact store_execAll h scope σ

/-- **A run leaves alone the variables that its statements do not set.** -/
theorem store_execAll {x : String} :
    ∀ {stmts : List Stmt}, x ∉ Stmt.assignedAll stmts →
      ∀ scope σ, (I.execAll scope σ stmts).store x = σ x
  | [], _, scope, σ => rfl
  | s :: rest, h, scope, σ => by
    rw [Stmt.assignedAll, List.mem_append, not_or] at h
    rw [execAll]
    exact Outcome.store_andThen_eq (store_exec h.1 scope σ) fun τ => store_execAll h.2 scope τ

theorem store_execBranches {x : String} :
    ∀ {branches : List (Branch Stmt)}, x ∉ Stmt.assignedBranches branches →
      ∀ scope σ {otherwise : Outcome V}, otherwise.store x = σ x →
        (I.execBranches scope σ otherwise branches).store x = σ x
  | [], _, scope, σ, otherwise, hother => by rw [execBranches]; exact hother
  | ⟨cond, body, span⟩ :: rest, h, scope, σ, otherwise, hother => by
    rw [Stmt.assignedBranches, List.mem_append, not_or] at h
    rw [execBranches]
    split
    · exact store_execAll h.1 scope σ
    · exact store_execBranches h.2 scope σ hother

end

end Interp

/-! ## What is known and not stale is true -/

namespace Known

variable {V : Type} {I : Interp V} {known : Known} {stale : String → Prop} {σ : Store V}

/-- A loop over a variable that is known and not stale runs through the elements of the known
collection. -/
def Holds (I : Interp V) (known : Known) (stale : String → Prop) (σ : Store V) : Prop :=
  known.Agrees (fun x c => I.elements (σ x) = c.elements.map I.lit) stale

theorem Holds.forget (h : Holds I known stale σ) (out : List Stmt) :
    Holds I (known.eraseAll (Stmt.assignedAll out)) (Stmt.StaleAll stale out)
      (I.execAll Scope.empty σ out).store :=
  Agrees.forget h fun x hx c hc => by rw [I.store_execAll hx Scope.empty σ, hc]

theorem Holds.overlook (h : Holds I known stale σ) (out : List Stmt) :
    Holds I known (fun x => stale x ∨ x ∈ Stmt.assignedAll out)
      (I.execAll Scope.empty σ out).store :=
  Agrees.overlook h fun x hx c hc => by rw [I.store_execAll hx Scope.empty σ, hc]

theorem Holds.after (h : Holds I known stale σ) (hE : I.Enumerates) (a : Atom) :
    Holds I (known.after a) (a.Stale stale) (I.execAtom σ σ a).store := by
  refine Agrees.after h (fun x ha c hc => ?_) fun x e c ha he hc hident => ?_
  · rw [I.store_execAtom_of_not_assigned σ σ ha, hc]
  · rw [I.store_execAtom_of_value? σ σ ha he]
    exact hE.elements_eval hc fun id hid _ => hident id hid

end Known

/-! ## Loops over variables that may be stale -/

namespace Unroller

open Pass Interp

variable {V : Type}

/-- The statements of all segments in their order. -/
def Past.stmts (past : Past) : List Stmt :=
  past.flatMap Segment.stmts

/-- The kinds of segments that are run before a place.  The handler of an attempt is run from the
store before the attempt. -/
def Kind.isRun : Kind → Bool
  | .ran | .copied => true
  | .tried => false

/-- The loop runs through the elements that it is expanded with, if a run comes to it. -/
def Lookup.Right (I : Interp V) (look : Lookup) (r : Outcome V) : Prop :=
  ∀ c, look.collection? = some c → r.broke = false →
    I.elements (r.store look.id.name) = c.elements.map I.lit

/-- Wherever the unroller looks up a stale variable, the loop is expanded with the right
elements. -/
def Trusts (I : Interp V) (depth : Nat) (known : Known) (s : Unroller) (stale : String → Prop)
    (σ : Store V) (stmts : List Stmt) : Prop :=
  ∀ past look, LooksUp depth known s stmts past look →
    (past.only Kind.isRun).Stale stale look.id.name →
      look.Right I (I.execAll Scope.empty σ (past.only Kind.isRun).stmts)

section Trusts

variable {I : Interp V} {depth : Nat} {known : Known} {s : Unroller} {stale : String → Prop}
  {σ : Store V}

/-- A run that comes to the end of its first part goes on from there. -/
theorem Lookup.right_append {look : Lookup} {first rest : List Stmt}
    (hfirst : (I.execAll Scope.empty σ first).broke = false)
    (h : look.Right I (I.execAll Scope.empty σ (first ++ rest))) :
    look.Right I (I.execAll Scope.empty (I.execAll Scope.empty σ first).store rest) := by
  intro c hc hrest
  rw [execAll_append] at h
  have := h c hc (Outcome.broke_andThen.2 ⟨hfirst, hrest⟩)
  rwa [Outcome.store_andThen hfirst] at this

theorem Trusts.later {stmt : Stmt} {first rest : List Stmt} {between : Known} {t : Unroller}
    (h : Trusts I (depth + 1) known s stale σ (stmt :: rest))
    (hfirst : Gives (unrollStmt (unrollAt depth) known stmt) s (first, between) t)
    (hbroke : (I.execAll Scope.empty σ first).broke = false) :
    Trusts I (depth + 1) between t (Stmt.StaleAll stale first)
      (I.execAll Scope.empty σ first).store rest :=
  fun _ _ hlook hstale => Lookup.right_append hbroke (h _ _ (.later hfirst hlook) hstale)

/-- In a copy of a loop's body, the variables that earlier copies have set are stale. -/
theorem Trusts.copy {var : Option Ident} {collection : Expr} {body rest : List Stmt} {span : Span}
    (h : Trusts I (depth + 1) known s stale σ (.forLoop var collection body span :: rest))
    {c : Collection} (hc : Collection.ofExpr? known collection.fold = some c) {task : Task}
    (htask : task = ⟨loopVariable var, c, collection.fold.span, body, span⟩) {i : Nat}
    {before : List Stmt} {t t' : Unroller} {e : Literal}
    (hrounds : Rounds (unrollAt depth) known task s i before t) (he : c.element? i = some e)
    (hcount : Gives (countIteration task.var span) t () t')
    (hbroke : (I.execAll Scope.empty σ before).broke = false) :
    Trusts I depth known t' (fun x => stale x ∨ x ∈ Stmt.assignedAll before)
      (I.execAll Scope.empty σ before).store
      (Stmt.foldAll (Stmt.substAll task.var (.lit e task.place) body)) :=
  fun _ _ hlook hstale =>
    Lookup.right_append hbroke (h _ _ (.copy hc htask hrounds he hcount hlook) hstale)

end Trusts

/-! ## The copies of a loop -/

/-- The number of copies that a note about an unrolled loop tells. -/
def rounds? : Note → Option Nat
  | .loopUnrolled _ n => some n
  | _ => none

/-- Every loop that a note tells of has made fewer than `2 ^ 63` copies, so that none has come to
where places in a range end. -/
def Counted (s : Unroller) : Prop :=
  ∀ note ∈ s.notes, ∀ n ∈ rounds? note, n < 2 ^ 63

instance (s : Unroller) : Decidable s.Counted :=
  inferInstanceAs (Decidable (∀ note ∈ s.notes, ∀ n ∈ rounds? note, n < 2 ^ 63))

theorem Counted.of_later {s s' : Unroller} (h : s'.Counted) (hlater : Later s s') : s.Counted :=
  fun note hnote => h note (hlater.notes note hnote)

/-- What is emitted for a sequence of statements does what they do, if no loop makes too many
copies. -/
def Preserves (I : Interp V) (depth : Nat) : Prop :=
  ∀ {known stmts s out s' stale σ}, Gives (unrollAt depth known stmts) s out s' → s'.Counted →
    Known.Holds I known stale σ → Trusts I depth known s stale σ stmts →
      I.execAll Scope.empty σ out = I.execAll Scope.empty σ stmts

section Copies

variable {I : Interp V} {depth : Nat} {known : Known} {s s' : Unroller} {stale : String → Prop}
  {σ : Store V}

/-- A copy of the body does what a round of the loop does. -/
theorem Preserves.execAll_round (hinner : Preserves I depth) (hI : I.Lawful) {x : String}
    {e : Literal} {place : Span} {body copy : List Stmt} {broke : Bool}
    (hround : Gives (round (unrollAt depth) known x (.lit e place) body) s (copy, broke) s')
    (hcounted : s'.Counted) (hholds : Known.Holds I known stale σ)
    (htrusts : Trusts I depth known s stale σ
      (Stmt.foldAll (Stmt.substAll x (.lit e place) body))) :
    I.execAll Scope.empty σ copy = (I.execAll (Scope.empty.bind x (I.lit e)) σ body).leave ∧
      broke = (I.execAll (Scope.empty.bind x (I.lit e)) σ body).broke := by
  obtain ⟨raw, hraw, hcut⟩ := gives_round.1 hround
  have hexec : I.execAll Scope.empty σ raw = I.execAll (Scope.empty.bind x (I.lit e)) σ body :=
    calc I.execAll Scope.empty σ raw
        = I.execAll Scope.empty σ (Stmt.foldAll (Stmt.substAll x (.lit e place) body)) :=
          hinner hraw hcounted hholds htrusts
      _ = I.execAll Scope.empty σ (Stmt.substAll x (.lit e place) body) :=
          hI.execAll_foldAll Scope.empty σ _
      _ = I.execAll (Scope.empty.bind x (I.lit e)) σ body :=
          I.execAll_substAll x e place Scope.empty σ body
  rw [← hexec]
  exact I.execAll_cutAtBreak Scope.empty σ hcut

/-- **The copies of a loop's body do what the rounds of the loop do**: those from element number `i`
on, after the copies of the first elements. -/
theorem Preserves.execAll_copies (hinner : Preserves I depth) (hI : I.Lawful)
    (hholds : Known.Holds I known stale σ) {var : Option Ident} {collection : Expr}
    {body rest : List Stmt} {span : Span}
    (htrusts : Trusts I (depth + 1) known s stale σ (.forLoop var collection body span :: rest))
    {c : Collection} (hc : Collection.ofExpr? known collection.fold = some c) {task : Task}
    (htask : task = ⟨loopVariable var, c, collection.fold.span, body, span⟩) {i : Nat}
    (hwhole : ∀ i before t, Rounds (unrollAt depth) known task s i before t →
      c.element? i = none → i < 2 ^ 63)
    {t t' : Unroller} {out : List Stmt} (h : Copies (unrollAt depth) known task i t out t')
    (hcounted : t'.Counted) {before : List Stmt}
    (hrounds : Rounds (unrollAt depth) known task s i before t)
    (hbroke : (I.execAll Scope.empty σ before).broke = false) :
    I.execAll Scope.empty (I.execAll Scope.empty σ before).store out =
      execRounds (fun v τ => I.execAll (Scope.empty.bind task.var v) τ body)
        ((c.elements.drop i).map I.lit) (I.execAll Scope.empty σ before).store := by
  have hbody : task.body = body := by rw [htask]
  have hcollection : task.collection = c := by rw [htask]
  have hspan : task.span = span := by rw [htask]
  -- a copy starts from what was known before the loop, and is stale where earlier copies have set
  -- variables
  have hholds' : Known.Holds I known (fun x => stale x ∨ x ∈ Stmt.assignedAll before)
      (I.execAll Scope.empty σ before).store :=
    hholds.overlook before
  induction h generalizing before with
  | done he =>
    rw [hcollection] at he
    rw [Collection.drop_elements_of_none (hwhole _ _ _ hrounds he) he]
    rfl
  | last he hcount hround =>
    rw [hcollection] at he
    rw [hspan] at hcount
    rw [hbody] at hround
    obtain ⟨hkept, hbreak⟩ := hinner.execAll_round hI hround (hcounted.of_later (Later.of_note _ _))
      hholds' (htrusts.copy hc htask hrounds he hcount hbroke)
    rw [hkept, Collection.drop_elements_of_some he, List.map_cons, execRounds, if_pos hbreak.symm]
  | @more i t u u' t' e copy out he hcount hround hmore ih =>
    have hrounds' := hrounds.succ he hcount hround
    rw [hcollection] at he
    rw [hspan] at hcount
    rw [hbody] at hround
    obtain ⟨hkept, hbreak⟩ := hinner.execAll_round hI hround
      (hcounted.of_later (hmore.later (unrollAt_forward depth))) hholds'
      (htrusts.copy hc htask hrounds he hcount hbroke)
    rw [leave_of_not_broke hbreak.symm] at hkept
    -- the store after this copy is the one from which the remaining copies are run
    have hbroke' : (I.execAll Scope.empty σ (before ++ copy)).broke = false := by
      rw [execAll_append, Outcome.broke_andThen, hkept]
      exact ⟨hbroke, hbreak.symm⟩
    have hstore : (I.execAll Scope.empty σ (before ++ copy)).store =
        (I.execAll Scope.empty (I.execAll Scope.empty σ before).store copy).store := by
      rw [execAll_append, Outcome.store_andThen hbroke]
    have hrest := ih hcounted hrounds' hbroke' (hholds.overlook _)
    rw [hstore, hkept] at hrest
    rw [execAll_append, hkept, Collection.drop_elements_of_some he, List.map_cons, execRounds,
      if_neg (by rw [← hbreak]; exact Bool.false_ne_true), Outcome.andThen, Outcome.andThen, hrest]

end Copies

/-! ## Statements -/

section Statements

variable {I : Interp V} {depth : Nat}

/-- A loop does what its copies do. -/
theorem Preserves.exec_forLoop (hinner : Preserves I depth) (hI : I.Lawful) (hE : I.Enumerates)
    {known : Known} {stale : String → Prop} {σ : Store V} {s s' : Unroller}
    (hholds : Known.Holds I known stale σ) {var : Option Ident} {collection : Expr}
    {body rest out : List Stmt} {span : Span}
    (htrusts : Trusts I (depth + 1) known s stale σ (.forLoop var collection body span :: rest))
    (h : Gives (unrollLoop (unrollAt depth) known var collection body span) s out s')
    (hcounted : s'.Counted) :
    I.execAll Scope.empty σ out = I.exec Scope.empty σ (.forLoop var collection body span) := by
  obtain ⟨c, t, hc, hcopies, hlater⟩ := copies_of_unrollLoop (unrollAt_forward depth) h
  have helements : I.elements (I.eval σ collection) = c.elements.map I.lit := by
    rw [← hI.eval_fold σ collection]
    refine hE.elements_eval hc fun id hid hknown => ?_
    -- a variable that is stale here is one whose elements are asked to be right
    by_cases hs : stale id.name
    · exact htrusts [] _ (.here hid) hs c hknown rfl
    · exact hholds id.name c hknown hs
  rw [exec, Scope.empty_reads, helements]
  exact hinner.execAll_copies hI hholds htrusts hc rfl
    (fun i before t hrounds he =>
      hcounted _ (noted_of_unrollLoop (unrollAt_forward depth) h hc hrounds he) i rfl)
    hcopies (hcounted.of_later hlater) .zero rfl

mutual

theorem Preserves.exec_unrollStmt (hinner : Preserves I depth) (hI : I.Lawful) (hE : I.Enumerates) :
    ∀ (stmt : Stmt) {known behind : Known} {s s' : Unroller} {out rest : List Stmt}
      {stale : String → Prop} {σ : Store V},
      Gives (unrollStmt (unrollAt depth) known stmt) s (out, behind) s' → s'.Counted →
      Known.Holds I known stale σ → Trusts I (depth + 1) known s stale σ (stmt :: rest) →
        I.execAll Scope.empty σ out = I.exec Scope.empty σ stmt ∧
          ((I.execAll Scope.empty σ out).broke = false →
            Known.Holds I behind (Stmt.StaleAll stale out) (I.execAll Scope.empty σ out).store)
  | .atom a, known, behind, s, s', out, rest, stale, σ, h, _, hholds, _ => by
    obtain ⟨hr, -⟩ := gives_unrollStmt_atom.1 h
    cases hr
    rw [execAll_singleton, exec, Scope.empty_reads]
    exact ⟨rfl, fun _ => hholds.after hE a⟩
  | .function .., known, behind, s, s', out, rest, stale, σ, h, _, hholds, _ => by
    obtain ⟨hr, -⟩ := gives_unrollStmt_function.1 h
    cases hr
    rw [execAll_singleton, exec]
    exact ⟨rfl, fun _ x c hx hfresh => hholds x c hx fun hs => hfresh ⟨nofun, hs⟩⟩
  | .breakLoop span, known, behind, s, s', out, rest, stale, σ, h, _, hholds, _ => by
    obtain ⟨hr, -⟩ := gives_unrollStmt_breakLoop.1 h
    cases hr
    rw [execAll_singleton, exec]
    exact ⟨rfl, nofun⟩
  | .require .., known, behind, s, s', out, rest, stale, σ, h, _, hholds, _ => by
    obtain ⟨hr, -⟩ := gives_unrollStmt_require.1 h
    cases hr
    rw [execAll_singleton, exec]
    exact ⟨rfl, fun _ x c hx hfresh => hholds x c hx fun hs => hfresh ⟨nofun, hs⟩⟩
  | .forLoop var collection body span, known, behind, s, s', out, rest, stale, σ, h, hcounted,
      hholds, htrusts => by
    obtain ⟨out, hloop, hr⟩ := gives_unrollStmt_forLoop.1 h
    cases hr
    exact ⟨hinner.exec_forLoop hI hE hholds htrusts hloop hcounted, fun _ => hholds.forget out⟩
  | .block body span, known, behind, s, s', out, rest, stale, σ, h, hcounted, hholds, htrusts => by
    obtain ⟨out, behind, hbody, hr⟩ := gives_unrollStmt_block.1 h
    cases hr
    rw [execAll_singleton, exec, exec]
    exact execAll_unrollStmts hinner hI hE body hbody hcounted hholds fun past look hlook =>
      htrusts past look (.block hlook)
  | .ifChain branches none span, known, behind, s, s', out, rest, stale, σ, h, hcounted, hholds,
      htrusts => by
    obtain ⟨branches', t, hbranches, out, behind, hnil, stmt, rfl, hr⟩ :=
      gives_unrollStmt_ifChain.1 h
    cases hr
    obtain ⟨-, rfl⟩ := gives_unrollStmts_nil.1 hnil
    rw [← Stmt.assignedAll_singleton]
    refine ⟨?_, fun _ => hholds.forget _⟩
    · rw [execAll_singleton, Option.map_none, exec, exec]
      refine execBranches_unrollBranches hinner hI hE branches hbranches hcounted hholds ?_ _
      rintro before b after rfl out' t' hbefore past look hlook
      exact htrusts past look (.branch hbefore hlook)
  | .ifChain branches (some body) span, known, behind, s, s', out, rest, stale, σ, h, hcounted,
      hholds, htrusts => by
    obtain ⟨branches', t, hbranches, out, behind, hbody, stmt, rfl, hr⟩ :=
      gives_unrollStmt_ifChain.1 h
    cases hr
    rw [← Stmt.assignedAll_singleton]
    refine ⟨?_, fun _ => hholds.forget _⟩
    · have helse :=
        (execAll_unrollStmts hinner hI hE body hbody hcounted hholds fun past look hlook =>
        htrusts past look (.otherwise hbranches hlook)).1
      rw [execAll_singleton, Option.map_some, exec, exec, helse]
      refine execBranches_unrollBranches hinner hI hE branches hbranches
        (hcounted.of_later (unrollStmts_later (unrollAt_forward depth) body hbody)) hholds ?_ _
      rintro before b after rfl out' t' hbefore past look hlook
      exact htrusts past look (.branch hbefore hlook)
  | .attempt body none span, known, behind, s, s', out, rest, stale, σ, h, hcounted, hholds,
      htrusts => by
    obtain ⟨out, behind, t, hbody, out', behind', hnil, stmt, rfl, hr⟩ :=
      gives_unrollStmt_attempt.1 h
    cases hr
    obtain ⟨-, rfl⟩ := gives_unrollStmts_nil.1 hnil
    rw [← Stmt.assignedAll_singleton]
    refine ⟨?_, fun _ => hholds.forget _⟩
    · have htry :=
        (execAll_unrollStmts hinner hI hE body hbody hcounted hholds fun past look hlook =>
        htrusts past look (.attempt hlook)).1
      rw [execAll_singleton, Option.map_none, exec, exec, htry]
  | .attempt body (some handler) span, known, behind, s, s', out, rest, stale, σ, h, hcounted,
      hholds, htrusts => by
    obtain ⟨out, behind, t, hbody, out', behind', hhandler, stmt, rfl, hr⟩ :=
      gives_unrollStmt_attempt.1 h
    cases hr
    rw [← Stmt.assignedAll_singleton]
    refine ⟨?_, fun _ => hholds.forget _⟩
    · have htry := (execAll_unrollStmts hinner hI hE body hbody
        (hcounted.of_later (unrollStmts_later (unrollAt_forward depth) handler hhandler)) hholds
        fun past look hlook =>
        htrusts past look (.attempt hlook)).1
      -- the body of the attempt is no part of what is run before the handler
      have hcatch := (execAll_unrollStmts hinner hI hE handler hhandler hcounted hholds
        fun past look hlook => htrusts (⟨.tried, out⟩ :: past) look (.handler hbody hlook)).1
      rw [execAll_singleton, Option.map_some, exec, exec, htry, hcatch]

theorem Preserves.execAll_unrollStmts (hinner : Preserves I depth) (hI : I.Lawful)
    (hE : I.Enumerates) :
    ∀ (stmts : List Stmt) {known behind : Known} {s s' : Unroller} {out : List Stmt}
      {stale : String → Prop} {σ : Store V},
      Gives (unrollStmts (unrollAt depth) known stmts) s (out, behind) s' → s'.Counted →
      Known.Holds I known stale σ → Trusts I (depth + 1) known s stale σ stmts →
        I.execAll Scope.empty σ out = I.execAll Scope.empty σ stmts ∧
          ((I.execAll Scope.empty σ out).broke = false →
            Known.Holds I behind (Stmt.StaleAll stale out) (I.execAll Scope.empty σ out).store)
  | [], known, behind, s, s', out, stale, σ, h, _, hholds, _ => by
    obtain ⟨hr, -⟩ := gives_unrollStmts_nil.1 h
    cases hr
    rw [Stmt.StaleAll]
    exact ⟨rfl, fun _ => hholds⟩
  | stmt :: rest, known, behind, s, s', out, stale, σ, h, hcounted, hholds, htrusts => by
    obtain ⟨first, between, t, hfirst, out, behind, hrest, hr⟩ := gives_unrollStmts_cons.1 h
    cases hr
    obtain ⟨hexec, hholds'⟩ := exec_unrollStmt hinner hI hE stmt hfirst
      (hcounted.of_later (unrollStmts_later (unrollAt_forward depth) rest hrest)) hholds htrusts
    rw [execAll_append, execAll, ← hexec, Stmt.staleAll_append]
    cases hbroke : (I.execAll Scope.empty σ first).broke with
    | true =>
      rw [Outcome.andThen_of_broke hbroke, Outcome.andThen_of_broke hbroke, hbroke]
      exact ⟨rfl, nofun⟩
    | false =>
      obtain ⟨hexec', hholds''⟩ := execAll_unrollStmts hinner hI hE rest hrest hcounted
        (hholds' hbroke) (htrusts.later hfirst hbroke)
      refine ⟨?_, fun h => ?_⟩
      · rw [Outcome.andThen, Outcome.andThen, hexec']
      · rw [Outcome.store_andThen hbroke]
        exact hholds'' (Outcome.broke_andThen.1 h).2

theorem Preserves.execBranches_unrollBranches (hinner : Preserves I depth) (hI : I.Lawful)
    (hE : I.Enumerates) :
    ∀ (branches : List (Branch Stmt)) {known : Known} {s s' : Unroller} {out : List (Branch Stmt)}
      {stale : String → Prop} {σ : Store V},
      Gives (unrollBranches (unrollAt depth) known branches) s out s' → s'.Counted →
      Known.Holds I known stale σ →
      (∀ before b after, branches = before ++ b :: after →
        ∀ out t, Gives (unrollBranches (unrollAt depth) known before) s out t →
          Trusts I (depth + 1) known t stale σ b.body) →
        ∀ otherwise, I.execBranches Scope.empty σ otherwise out =
          I.execBranches Scope.empty σ otherwise branches
  | [], known, s, s', out, stale, σ, h, _, _, _, otherwise => by
    obtain ⟨rfl, -⟩ := gives_unrollBranches_nil.1 h
    rfl
  | ⟨cond, body, span⟩ :: rest, known, s, s', out, stale, σ, h, hcounted, hholds, htrusts,
      otherwise => by
    obtain ⟨out, behind, t, hbody, rest', hrest, rfl⟩ := gives_unrollBranches_cons.1 h
    have hexec := (execAll_unrollStmts hinner hI hE body hbody
      (hcounted.of_later (unrollBranches_later (unrollAt_forward depth) rest hrest)) hholds
      (htrusts [] _ rest rfl [] s (gives_unrollBranches_nil.2 ⟨rfl, rfl⟩))).1
    have hexec' := execBranches_unrollBranches hinner hI hE rest hrest hcounted hholds
      (fun before b after hsplit out' t' hbefore =>
        htrusts (⟨cond, body, span⟩ :: before) b after (by rw [hsplit, List.cons_append]) _ t'
          (gives_unrollBranches_cons.2 ⟨_, _, _, hbody, out', hbefore, rfl⟩)) otherwise
    rw [execBranches, execBranches, hexec, hexec']

end

theorem preserves_unrollAt (hI : I.Lawful) (hE : I.Enumerates) (depth : Nat) :
    Preserves I depth := by
  induction depth with
  | zero =>
    intro known stmts s out s' stale σ h _ _ _
    rw [unrollAt, gives_pure] at h
    rw [h.1]
  | succ depth ih =>
    intro known stmts s out s' stale σ h hcounted hholds htrusts
    obtain ⟨behind, h⟩ := gives_unrollAt_succ.1 h
    exact (ih.execAll_unrollStmts hI hE stmts h hcounted hholds htrusts).1

/-- **Unrolling keeps meaning.**  Under every lawful interpretation and from every store, what the
unroller makes of a script does what the script does, provided that no loop makes `2 ^ 63` copies or
more, and that each loop over a variable that earlier copies of a loop around it have set finds
there the elements that it is expanded with. -/
theorem unrolling_keeps_meaning (hI : I.Lawful) (hE : I.Enumerates) {stmts out : List Stmt}
    {s s' : Unroller} (h : Gives (run stmts) s out s') (hcounted : s'.Counted) (σ : Store V)
    (htrusts : Trusts I (Stmt.loopDepthAll stmts + 1) [] s (fun _ => False) σ stmts) :
    I.execAll Scope.empty σ out = I.execAll Scope.empty σ stmts :=
  preserves_unrollAt hI hE _ h hcounted Known.Agrees.nil htrusts

end Statements

/-! ## Two scripts

The first sets a variable in a loop, but not the one that the inner loop is over. -/

/-- `c = [1..2]; for (x of [1..2]) { for (y of c) { print(y); break; } d = x; }` -/
def nestedLoops : List Stmt :=
  let here := Span.none
  let int (n : Int64) : Expr := .lit (.int n) here
  [.atom (.assign ⟨"c", here⟩ none (.range (int 1) (int 2) here) here),
    .forLoop (some ⟨"x", here⟩) (.range (int 1) (int 2) here)
      [.forLoop (some ⟨"y", here⟩) (.ident ⟨"c", here⟩)
          [.atom (.output .print [.ident ⟨"y", here⟩] here), .breakLoop here] here,
        .atom (.assign ⟨"d", here⟩ none (.ident ⟨"x", here⟩) here)]
      here]

theorem not_stale_of_looksUp_nestedLoops {past : Past} {look : Lookup}
    (h : LooksUp 3 [] (.new 10) nestedLoops past look) :
    ¬ (past.only Kind.isRun).Stale (fun _ => False) look.id.name := by
  cases h with
  | later hfirst h =>
    obtain ⟨hr, rfl⟩ := gives_unrollStmt_atom.1 hfirst
    cases hr
    cases h with
    | here hfold => cases hfold
    | later _ h => cases h
    | @copy _ _ _ _ _ _ _ _ _ _ _ task i before e past _ hc htask hrounds he hcount h =>
      cases hc
      subst htask
      -- the only loop over a variable is the first statement of the outer loop's body
      have hlook : past = [] ∧ look.id.name = "c" := by
        cases h with
        | here hfold =>
          cases hfold
          exact ⟨rfl, rfl⟩
        | later hfirst h =>
          cases h with
          | later hfirst h => cases h
        | copy _ htask _ _ _ h =>
          subst htask
          cases h with
          | later _ h =>
            cases h with
            | later _ h => cases h
      -- there is at most one copy of that body before it
      have hbefore : "c" ∉ Stmt.assignedAll before := by
        cases hrounds with
        | zero => exact nofun
        | succ h he' hcount hround =>
          cases h with
          | zero =>
            cases he'
            obtain ⟨-, rfl⟩ := gives_countIteration.1 hcount
            have hr := (hround.unique rfl).1
            cases hr
            decide
          | @succ j =>
            have hlt : j + 1 + 1 < 2 :=
              (List.getElem?_eq_some_iff.1 (Collection.getElem?_of_element? he)).1
            omega
      obtain ⟨rfl, hname⟩ := hlook
      rw [hname]
      rintro (hs | hs)
      · exact Stmt.not_staleAll _ (fun _ => id) _ hs
      · exact hbefore hs

theorem unrolling_keeps_meaning_nestedLoops :
    ∃ out s', Gives (run nestedLoops) (.new 10) out s' ∧ s'.Counted ∧
      Interp.basic.execAll Scope.empty (fun _ => .unknown) out =
        Interp.basic.execAll Scope.empty (fun _ => .unknown) nestedLoops := by
  have h : Gives (run nestedLoops) (.new 10) _ _ := rfl
  exact ⟨_, _, h, by decide, unrolling_keeps_meaning basic_lawful basic_enumerates h (by decide) _
    fun _ _ hlook hstale => absurd hstale (not_stale_of_looksUp_nestedLoops hlook)⟩

/-- `c = [1..2]; for (x of [1..2]) { for (y of c) { print(y); } c = [5..6]; }` -/
def resettingLoop : List Stmt :=
  let here := Span.none
  let int (n : Int64) : Expr := .lit (.int n) here
  [.atom (.assign ⟨"c", here⟩ none (.range (int 1) (int 2) here) here),
    .forLoop (some ⟨"x", here⟩) (.range (int 1) (int 2) here)
      [.forLoop (some ⟨"y", here⟩) (.ident ⟨"c", here⟩)
          [.atom (.output .print [.ident ⟨"y", here⟩] here)] here,
        .atom (.assign ⟨"c", here⟩ none (.range (int 5) (int 6) here) here)]
      here]

/-- The literals that are written one by one. -/
def written (events : List (Event Value)) : List Literal :=
  events.filterMap fun
    | .wrote _ [.known v] => some v
    | _ => none

/-- The second round of this loop runs through `5` and `6`, but its copy through `1` and `2`
again. -/
theorem unrolling_changes_meaning_resettingLoop :
    ∃ out s', Gives (run resettingLoop) (.new 10) out s' ∧
      written (Interp.basic.execAll Scope.empty (fun _ => .unknown) out).events =
        [.int 1, .int 2, .int 1, .int 2] ∧
      written (Interp.basic.execAll Scope.empty (fun _ => .unknown) resettingLoop).events =
        [.int 1, .int 2, .int 5, .int 6] :=
  ⟨_, _, rfl, by decide, by decide⟩

end Unroller

end EdgeScript
