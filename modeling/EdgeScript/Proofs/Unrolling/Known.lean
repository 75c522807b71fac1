import EdgeScript.Proofs.Unrolling.Path

/-!
# Known collections

Where a loop over a variable is expanded, the variable holds the collection that is used: on every
control path of the emitted statements to that place, the last atom that has set the variable is a
certain one, and its value is that collection.  Where that cannot be known the unroller fails.

* `Known.Sound` is the invariant, and `sound_unrollStmts` says that it is kept by what is emitted.
* `sound_of_looksUp` follows it to the loop, through all kinds of segments.
* `fails_of_looksUp`: a loop over a variable that is not known ends the whole run with an error.
* `place_of_looksUp`: the segments before the loop are those before its place in the emitted script.

The invariant holds of all variables that are not stale.  For those that are, an older collection is
used.
-/

set_option autoImplicit false

namespace EdgeScript

namespace Holdings

theorem valueOf_eq (h : Holdings) {known : Known} {e : Expr} {c : Collection}
    (hc : Collection.ofExpr? known e = some c)
    (hident : ∀ id, e = .ident id → (h id.name).collection = some c) : h.valueOf e = some c := by
  unfold Collection.ofExpr? at hc
  split at hc
  · exact hc
  · exact hc
  · exact hident _ rfl
  · cases hc

end Holdings

/-! ## The invariant -/

namespace Known

/-- What is known of the variables that are not stale is what they hold for certain. -/
def Sound (known : Known) (stale : String → Prop) (h : Holdings) : Prop :=
  known.Agrees (fun x c => h x = ⟨some c, true⟩) stale

variable {known : Known} {stale : String → Prop} {h : Holdings}

theorem Sound.forget (hs : known.Sound stale h) {ends : Bool} {out : List Stmt} {t : Trail}
    (ht : Follows ends out t) :
    (known.eraseAll (Stmt.assignedAll out)).Sound (Stmt.StaleAll stale out) (h.after t) :=
  Agrees.forget hs fun _ hx _ hc => by
    rw [h.after_of_not_sets fun hsets => hx (ht.assigned hsets), hc]

theorem Sound.of_idle (hs : known.Sound stale h) {ends : Bool} {out : List Stmt} {t : Trail}
    (ht : Follows ends out t) (hout : Stmt.assignedAll out = []) :
    known.Sound (Stmt.StaleAll stale out) (h.after t) := by
  have hforget := hs.forget ht
  have herase : known.eraseAll [] = known := List.filter_eq_self.2 fun _ _ => rfl
  rwa [hout, herase] at hforget

theorem Sound.overlook (hs : known.Sound stale h) {ends : Bool} {out : List Stmt} {t u : Trail}
    (ht : Follows ends out t) (hu : ∀ x, u.Sets x → t.Sets x) :
    known.Sound (fun x => stale x ∨ x ∈ Stmt.assignedAll out) (h.after u) :=
  Agrees.overlook hs fun x hx _ hc => by
    rw [h.after_of_not_sets fun hsets => hx (ht.assigned (hu x hsets)), hc]

theorem Sound.after (hs : known.Sound stale h) (a : Atom) :
    (known.after a).Sound (a.Stale stale) (h.step ⟨a, true⟩) := by
  refine Agrees.after hs (fun x ha c hc => ?_) fun x e c ha he hc hident => ?_
  · rw [h.step_of_ne ha, hc]
  · have hvalue : h.valueOf e = some c := h.valueOf_eq hc fun id hid => by rw [hident id hid]
    rw [h.step_self ha, he, Option.bind_some, hvalue]

end Known

namespace Unroller

open Pass

variable {inner : Inner}

mutual

theorem sound_unrollStmt :
    ∀ (stmt : Stmt) {known behind : Known} {s s' : Unroller} {out : List Stmt}
      {stale : String → Prop} {h : Holdings} {t : Trail},
      Gives (unrollStmt inner known stmt) s (out, behind) s' → known.Sound stale h →
        Follows true out t → behind.Sound (Stmt.StaleAll stale out) (h.after t)
  | .atom a, known, behind, s, s', out, stale, h, t, hgives, hs, ht => by
    obtain ⟨hr, -⟩ := gives_unrollStmt_atom.1 hgives
    cases hr
    rw [ht.eq_of_atom rfl rfl, Stmt.StaleAll, Stmt.StaleAll, Stmt.Stale]
    exact hs.after a
  | .function .., known, behind, s, s', out, stale, h, t, hgives, hs, ht => by
    obtain ⟨hr, -⟩ := gives_unrollStmt_function.1 hgives
    cases hr
    exact hs.of_idle ht rfl
  | .breakLoop span, known, behind, s, s', out, stale, h, t, hgives, hs, ht => by
    obtain ⟨hr, -⟩ := gives_unrollStmt_breakLoop.1 hgives
    cases hr
    exact hs.of_idle ht rfl
  | .require .., known, behind, s, s', out, stale, h, t, hgives, hs, ht => by
    obtain ⟨hr, -⟩ := gives_unrollStmt_require.1 hgives
    cases hr
    exact hs.of_idle ht rfl
  | .forLoop .., known, behind, s, s', out, stale, h, t, hgives, hs, ht => by
    obtain ⟨out, -, hr⟩ := gives_unrollStmt_forLoop.1 hgives
    cases hr
    exact hs.forget ht
  | .block body span, known, behind, s, s', out, stale, h, t, hgives, hs, ht => by
    obtain ⟨out, behind, hbody, hr⟩ := gives_unrollStmt_block.1 hgives
    cases hr
    rw [Stmt.StaleAll, Stmt.StaleAll, Stmt.Stale]
    exact sound_unrollStmts body hbody hs (ht.of_block rfl rfl)
  | .ifChain .., known, behind, s, s', out, stale, h, t, hgives, hs, ht => by
    obtain ⟨_, _, -, _, _, -, stmt, -, hr⟩ := gives_unrollStmt_ifChain.1 hgives
    cases hr
    rw [← Stmt.assignedAll_singleton]
    exact hs.forget ht
  | .attempt .., known, behind, s, s', out, stale, h, t, hgives, hs, ht => by
    obtain ⟨_, _, _, -, _, _, -, stmt, -, hr⟩ := gives_unrollStmt_attempt.1 hgives
    cases hr
    rw [← Stmt.assignedAll_singleton]
    exact hs.forget ht

/-- **What is known stays true** along every path through what is emitted. -/
theorem sound_unrollStmts :
    ∀ (stmts : List Stmt) {known behind : Known} {s s' : Unroller} {out : List Stmt}
      {stale : String → Prop} {h : Holdings} {t : Trail},
      Gives (unrollStmts inner known stmts) s (out, behind) s' → known.Sound stale h →
        Follows true out t → behind.Sound (Stmt.StaleAll stale out) (h.after t)
  | [], known, behind, s, s', out, stale, h, t, hgives, hs, ht => by
    obtain ⟨hr, -⟩ := gives_unrollStmts_nil.1 hgives
    cases hr
    exact hs.of_idle ht rfl
  | stmt :: rest, known, behind, s, s', out, stale, h, t, hgives, hs, ht => by
    obtain ⟨first, between, u, hfirst, out, behind, hrest, hr⟩ := gives_unrollStmts_cons.1 hgives
    cases hr
    obtain ⟨t₁, t₂, ht₁, ht₂, rfl⟩ := ht.split
    rw [Stmt.staleAll_append, h.after_append]
    exact sound_unrollStmts rest hrest (sound_unrollStmt stmt hfirst hs ht₁) ht₂

end

/-! ## The way to a loop -/

/-- `Reaches past t`: a run that comes to the place behind `past` can have executed the atoms of
`t`. -/
inductive Reaches : Past → Trail → Prop
  | nil : Reaches [] []
  | passed {kind : Kind} {stmts : List Stmt} {past : Past} {t u : Trail} (hkind : kind ≠ .tried)
      (ht : Follows true stmts t) (h : Reaches past u) : Reaches (⟨kind, stmts⟩ :: past) (t ++ u)
  /-- The handler of an attempt is entered after any part of its body. -/
  | tried {stmts : List Stmt} {past : Past} {t u : Trail} (ht : Follows false stmts t)
      (h : Reaches past u) : Reaches (⟨.tried, stmts⟩ :: past) (t.unsure ++ u)

/-- **A variable that is known and not stale holds what is known of it**, on every way to the loop.
The segments of kinds that are not in `kinds` may be left out of the way. -/
theorem sound_of_looksUp {depth : Nat} {known : Known} {s : Unroller} {stmts : List Stmt}
    {past : Past} {look : Lookup} (hlook : LooksUp depth known s stmts past look)
    {kinds : Kind → Bool} (hran : kinds .ran = true) {stale : String → Prop} {h : Holdings}
    (hs : known.Sound stale h) {t : Trail} (ht : Reaches (past.only kinds) t) {c : Collection}
    (hc : look.collection? = some c) (hfresh : ¬ (past.only kinds).Stale stale look.id.name) :
    h.after t look.id.name = ⟨some c, true⟩ := by
  induction hlook generalizing stale h t with
  | here _ =>
    cases ht
    exact hs _ c hc hfresh
  | @later _ _ _ _ _ stmt first _ past _ hfirst _ ih =>
    rw [Past.only_cons, if_pos hran] at ht hfresh
    cases ht with
    | passed _ ht₁ ht₂ =>
      rw [h.after_append]
      exact ih (sound_unrollStmt stmt hfirst hs ht₁) ht₂ hc hfresh
  | block _ ih => exact ih hs ht hc hfresh
  | branch _ _ ih => exact ih hs ht hc hfresh
  | otherwise _ _ ih => exact ih hs ht hc hfresh
  | attempt _ ih => exact ih hs ht hc hfresh
  | handler _ _ ih =>
    by_cases hkind : kinds .tried = true
    · rw [Past.only_cons, if_pos hkind] at ht hfresh
      cases ht with
      | passed hne _ _ => exact absurd rfl hne
      | tried ht₁ ht₂ =>
        rw [h.after_append]
        exact ih (hs.overlook ht₁ fun _ => Trail.sets_unsure.1) ht₂ hc hfresh
    · rw [Past.only_cons, if_neg hkind] at ht hfresh
      exact ih hs ht hc hfresh
  | copy _ _ _ _ _ _ ih =>
    by_cases hkind : kinds .copied = true
    · rw [Past.only_cons, if_pos hkind] at ht hfresh
      cases ht with
      | passed _ ht₁ ht₂ =>
        rw [h.after_append]
        exact ih (hs.overlook ht₁ fun _ => id) ht₂ hc hfresh
    · rw [Past.only_cons, if_neg hkind] at ht hfresh
      exact ih hs ht hc hfresh

/-! ## Loops over unknown variables -/

/-- **A loop over a variable that is not known is an error**, which is the one of the whole run. -/
theorem fails_of_looksUp {depth : Nat} {known : Known} {s : Unroller} {stmts : List Stmt}
    {past : Past} {look : Lookup} (hlook : LooksUp depth known s stmts past look)
    (hnone : look.collection? = none) :
    ∃ s', Fails (unrollAt depth known stmts) s (.unboundedLoop look.var look.id.span) s' := by
  induction hlook with
  | @here depth known s var collection id body span rest hfold =>
    have hunknown : Collection.ofExpr? known collection.fold = none := by rw [hfold]; exact hnone
    have hloop : Fails (unrollLoop (unrollAt depth) known var collection body span) s _ s :=
      fails_unrollLoop_of_unknown hunknown s var body span
    rw [hfold] at hloop
    exact ⟨s, fails_unrollAt_succ.2
      (fails_unrollStmts_of_first (fails_unrollStmt_forLoop hloop) rest)⟩
  | later hfirst _ ih =>
    obtain ⟨s', h⟩ := ih hnone
    exact ⟨s', fails_unrollAt_succ.2 (fails_unrollStmts_of_rest hfirst (fails_unrollAt_succ.1 h))⟩
  | block _ ih =>
    obtain ⟨s', h⟩ := ih hnone
    exact ⟨s', fails_unrollAt_succ.2
      (fails_unrollStmts_of_first (fails_unrollStmt_block (fails_unrollAt_succ.1 h) _) _)⟩
  | branch hbefore _ ih =>
    obtain ⟨s', h⟩ := ih hnone
    have hbranches := fails_unrollBranches hbefore (fails_unrollAt_succ.1 h)
    exact ⟨s', fails_unrollAt_succ.2
      (fails_unrollStmts_of_first (fails_unrollStmt_ifChain_of_branches (hbranches _) _ _) _)⟩
  | otherwise hbranches _ ih =>
    obtain ⟨s', h⟩ := ih hnone
    have helse := fails_unrollStmt_ifChain_of_otherwise hbranches (fails_unrollAt_succ.1 h)
    exact ⟨s', fails_unrollAt_succ.2 (fails_unrollStmts_of_first (helse _) _)⟩
  | attempt _ ih =>
    obtain ⟨s', h⟩ := ih hnone
    have hbody := fails_unrollStmt_attempt_of_body (fails_unrollAt_succ.1 h)
    exact ⟨s', fails_unrollAt_succ.2 (fails_unrollStmts_of_first (hbody _ _) _)⟩
  | handler hbody _ ih =>
    obtain ⟨s', h⟩ := ih hnone
    have hhandler := fails_unrollStmt_attempt_of_handler hbody (fails_unrollAt_succ.1 h)
    exact ⟨s', fails_unrollAt_succ.2 (fails_unrollStmts_of_first (hhandler _) _)⟩
  | @copy depth _ _ _ _ _ _ _ _ _ _ _ _ _ _ _ _ hc htask hrounds he hcount _ ih =>
    obtain ⟨s', h⟩ := ih hnone
    have hloop := fails_unrollLoop_of_copy (unrollAt_forward depth) hc htask hrounds he hcount h
    exact ⟨s', fails_unrollAt_succ.2
      (fails_unrollStmts_of_first (fails_unrollStmt_forLoop hloop) _)⟩

/-! ## The place of a loop in the emitted script -/

/-- `Place stmts past`: there is a place in the statements before which the segments of `past`
lie. -/
inductive Place : List Stmt → Past → Prop
  | here (stmts : List Stmt) : Place stmts []
  | after {kind : Kind} {rest : List Stmt} {past : Past} (hkind : kind ≠ .tried) (first : List Stmt)
      (h : Place rest past) : Place (first ++ rest) (⟨kind, first⟩ :: past)
  | block {body : List Stmt} {past : Past} (h : Place body past) (span : Span) (rest : List Stmt) :
      Place (.block body span :: rest) past
  | branch {branches : List (Branch Stmt)} {b : Branch Stmt} {past : Past} (hb : b ∈ branches)
      (h : Place b.body past) (otherwise : Option (List Stmt)) (span : Span) (rest : List Stmt) :
      Place (.ifChain branches otherwise span :: rest) past
  | otherwise {body : List Stmt} {past : Past} (h : Place body past) (branches : List (Branch Stmt))
      (span : Span) (rest : List Stmt) : Place (.ifChain branches (some body) span :: rest) past
  | attempt {body : List Stmt} {past : Past} (h : Place body past) (handler : Option (List Stmt))
      (span : Span) (rest : List Stmt) : Place (.attempt body handler span :: rest) past
  | handler {handler : List Stmt} {past : Past} (h : Place handler past) (body : List Stmt)
      (span : Span) (rest : List Stmt) :
      Place (.attempt body (some handler) span :: rest) (⟨.tried, body⟩ :: past)

namespace Place

variable {stmts : List Stmt} {past : Past} {t : Trail}

theorem append (h : Place stmts past) (rest : List Stmt) : Place (stmts ++ rest) past := by
  induction h with
  | here => exact .here _
  | after hkind first _ ih =>
    rw [List.append_assoc]
    exact .after hkind first ih
  | block h span rest' => exact .block h span _
  | branch hb h otherwise span rest' => exact .branch hb h otherwise span _
  | otherwise h branches span rest' => exact .otherwise h branches span _
  | attempt h handler span rest' => exact .attempt h handler span _
  | handler h body span rest' => exact .handler h body span _

/-- The ways to a place are ways into the script. -/
theorem follows (h : Place stmts past) (ht : Reaches past t) : Follows false stmts t := by
  induction h generalizing t with
  | here stmts =>
    cases ht
    exact .stop stmts
  | after hkind first _ ih =>
    cases ht with
    | passed _ ht₁ ht₂ => exact .seq ht₁ (ih ht₂)
    | tried => exact absurd rfl hkind
  | block _ span rest ih => exact .inside (.block span (ih ht))
  | branch hb _ otherwise span rest ih => exact .inside (.inBranch hb otherwise span (ih ht))
  | otherwise _ branches span rest ih => exact .inside (.inOtherwise branches span (ih ht))
  | attempt _ handler span rest ih => exact .inside (.inAttempt handler span (ih ht))
  | handler _ body span rest ih =>
    cases ht with
    | passed hkind => exact absurd rfl hkind
    | tried ht₁ ht₂ => exact .inside (.inHandler span ht₁ (ih ht₂))

end Place

/-- A statement that a cut keeps as it is. -/
theorem cutAtBreak_cons_of_kept {stmt : Stmt} {rest : List Stmt} {r : List Stmt × Bool}
    (hkept : ∀ {kept broke}, Stmt.cut stmt = .ok (kept, broke) → kept = [stmt] ∧ broke = false)
    (h : Stmt.cutAtBreak (stmt :: rest) = .ok r) :
    ∃ more, Stmt.cutAtBreak rest = .ok more ∧ r = (stmt :: more.1, more.2) := by
  rw [Stmt.cutAtBreak] at h
  split at h
  · cases h
  · rename_i hcut
    cases (hkept hcut).2
  · rename_i kept hcut
    obtain ⟨rfl, -⟩ := hkept hcut
    split at h
    · rename_i more broke hmore
      cases h
      exact ⟨_, hmore, rfl⟩
    · cases h

theorem cut_ifChain {branches : List (Branch Stmt)} {otherwise : Option (List Stmt)} {span : Span}
    {kept : List Stmt} {broke : Bool}
    (h : Stmt.cut (.ifChain branches otherwise span) = .ok (kept, broke)) :
    kept = [.ifChain branches otherwise span] ∧ broke = false := by
  rw [Stmt.cut] at h
  split at h
  · cases h
  · cases h
    exact ⟨rfl, rfl⟩

theorem cut_attempt {body : List Stmt} {handler : Option (List Stmt)} {span : Span}
    {kept : List Stmt} {broke : Bool}
    (h : Stmt.cut (.attempt body handler span) = .ok (kept, broke)) :
    kept = [.attempt body handler span] ∧ broke = false := by
  rw [Stmt.cut] at h
  split at h
  · cases h
  · cases h
    exact ⟨rfl, rfl⟩

theorem cutAtBreak_block {body rest : List Stmt} {span : Span} {r : List Stmt × Bool}
    (h : Stmt.cutAtBreak (.block body span :: rest) = .ok r) :
    ∃ inside more, Stmt.cutAtBreak body = .ok inside ∧ r.1 = .block inside.1 span :: more := by
  rw [Stmt.cutAtBreak, Stmt.cut] at h
  cases hbody : Stmt.cutAtBreak body with
  | error e =>
    rw [hbody] at h
    cases h
  | ok inside =>
    obtain ⟨body', broke⟩ := inside
    simp only [hbody] at h
    cases broke with
    | true =>
      cases h
      exact ⟨_, [], rfl, rfl⟩
    | false =>
      simp only at h
      split at h
      · cases h
        exact ⟨_, _, rfl, rfl⟩
      · cases h

/-- A cut keeps the statements that a run can come to the end of. -/
theorem cutAtBreak_of_follows {ends : Bool} {stmts : List Stmt} {t : Trail}
    (ht : Follows ends stmts t) (hends : ends = true) {rest : List Stmt} {r : List Stmt × Bool}
    (h : Stmt.cutAtBreak (stmts ++ rest) = .ok r) :
    ∃ more, Stmt.cutAtBreak rest = .ok more ∧ r = (stmts ++ more.1, more.2) := by
  induction ht generalizing rest r with
  | done => exact ⟨r, h, rfl⟩
  | seq _ _ iha ihb =>
    rw [List.append_assoc] at h
    obtain ⟨more, hmore, rfl⟩ := iha rfl h
    obtain ⟨more', hmore', rfl⟩ := ihb hends hmore
    exact ⟨more', hmore', by rw [List.append_assoc]⟩
  | @block _ body _ span _ ih =>
    refine cutAtBreak_cons_of_kept (fun {kept broke} hcut => ?_) h
    rw [Stmt.cut] at hcut
    split at hcut
    · rename_i body' broke' hbody
      cases hcut
      rw [← List.append_nil body] at hbody
      obtain ⟨more, hmore, hr⟩ := ih hends hbody
      rw [Stmt.cutAtBreak] at hmore
      cases hmore
      cases hr
      rw [List.append_nil]
      exact ⟨rfl, rfl⟩
    · cases hcut
  | branch | otherwise => exact cutAtBreak_cons_of_kept cut_ifChain h
  | attempt | handled => exact cutAtBreak_cons_of_kept cut_attempt h
  | atom | function | require | leave | round =>
    refine cutAtBreak_cons_of_kept (fun {kept broke} hcut => ?_) h
    rw [Stmt.cut] at hcut
    cases hcut
    exact ⟨rfl, rfl⟩
  | stop | inside | inBranch | inOtherwise | inAttempt | inHandler => cases hends

namespace Place

/-- A cut keeps the places that a run can come to. -/
theorem cutAtBreak {stmts : List Stmt} {past : Past} (h : Place stmts past) {t : Trail}
    (ht : Reaches past t) {r : List Stmt × Bool} (hcut : Stmt.cutAtBreak stmts = .ok r) :
    Place r.1 past := by
  induction h generalizing t r with
  | here => exact .here _
  | after hkind first _ ih =>
    cases ht with
    | passed _ ht₁ ht₂ =>
      obtain ⟨more, hmore, rfl⟩ := cutAtBreak_of_follows ht₁ rfl hcut
      exact .after hkind first (ih ht₂ hmore)
    | tried => exact absurd rfl hkind
  | block _ span rest ih =>
    obtain ⟨inside, more, hinside, hr⟩ := cutAtBreak_block hcut
    rw [hr]
    exact .block (ih ht hinside) span more
  | branch hb h otherwise span rest _ =>
    obtain ⟨more, -, rfl⟩ := cutAtBreak_cons_of_kept cut_ifChain hcut
    exact .branch hb h otherwise span _
  | otherwise h branches span rest _ =>
    obtain ⟨more, -, rfl⟩ := cutAtBreak_cons_of_kept cut_ifChain hcut
    exact .otherwise h branches span _
  | attempt h handler span rest _ =>
    obtain ⟨more, -, rfl⟩ := cutAtBreak_cons_of_kept cut_attempt hcut
    exact .attempt h handler span _
  | handler h body span rest _ =>
    obtain ⟨more, -, rfl⟩ := cutAtBreak_cons_of_kept cut_attempt hcut
    exact .handler h body span _

/-- A place in the next copy of a loop's body is one in all copies from there on. -/
theorem of_copies {inner : Inner} {known : Known} {task : Task} {i : Nat} {s t s' : Unroller}
    {out : List Stmt} (h : Copies inner known task i s out s') {e : Literal}
    (he : task.collection.element? i = some e)
    (hcount : Gives (countIteration task.var task.span) s () t) {past : Past}
    (hplace : ∀ {raw s'},
      Gives (inner known (Stmt.foldAll (Stmt.substAll task.var (.lit e task.place) task.body)))
        t raw s' → Place raw past)
    {u : Trail} (hu : Reaches past u) : Place out past := by
  cases h with
  | done he' =>
    rw [he] at he'
    cases he'
  | last he' hcount' hround =>
    obtain rfl : e = _ := Option.some.inj (he.symm.trans he')
    obtain ⟨-, rfl⟩ := hcount.unique hcount'
    obtain ⟨raw, hraw, hcut⟩ := gives_round.1 hround
    exact (hplace hraw).cutAtBreak hu hcut
  | more he' hcount' hround _ =>
    obtain rfl : e = _ := Option.some.inj (he.symm.trans he')
    obtain ⟨-, rfl⟩ := hcount.unique hcount'
    obtain ⟨raw, hraw, hcut⟩ := gives_round.1 hround
    exact ((hplace hraw).cutAtBreak hu hcut).append _

end Place

/-- **What the unroller has emitted before a loop lies before the loop's place in the whole emitted
script**, if a run can come there: only what is behind a `break` has no place any more. -/
theorem place_of_looksUp {depth : Nat} {known : Known} {s : Unroller} {stmts : List Stmt}
    {past : Past} {look : Lookup} (hlook : LooksUp depth known s stmts past look) {t : Trail}
    (ht : Reaches past t) {out : List Stmt} {s' : Unroller}
    (h : Gives (unrollAt depth known stmts) s out s') : Place out past := by
  induction hlook generalizing t out s' with
  | here => exact .here out
  | later hfirst _ ih =>
    obtain ⟨_, h⟩ := gives_unrollAt_succ.1 h
    obtain ⟨_, _, _, hfirst', out, behind, hrest, hr⟩ := gives_unrollStmts_cons.1 h
    obtain ⟨hr', rfl⟩ := hfirst'.unique hfirst
    cases hr'
    cases hr
    cases ht with
    | passed hkind _ ht => exact .after hkind _ (ih ht (gives_unrollAt_succ.2 ⟨_, hrest⟩))
  | block _ ih =>
    obtain ⟨_, h⟩ := gives_unrollAt_succ.1 h
    obtain ⟨_, _, _, hblock, _, _, -, hr⟩ := gives_unrollStmts_cons.1 h
    obtain ⟨body, behind, hbody, hr'⟩ := gives_unrollStmt_block.1 hblock
    cases hr'
    cases hr
    exact .block (ih ht (gives_unrollAt_succ.2 ⟨_, hbody⟩)) _ _
  | @branch _ _ _ _ _ _ _ b _ _ _ _ _ hbefore _ ih =>
    obtain ⟨_, h⟩ := gives_unrollAt_succ.1 h
    obtain ⟨_, _, _, hchain, _, _, -, hr⟩ := gives_unrollStmts_cons.1 h
    obtain ⟨_, _, hbranches, _, _, -, _, rfl, hr'⟩ := gives_unrollStmt_ifChain.1 hchain
    obtain ⟨outs, _, out', hbefore', hafter, rfl⟩ := gives_unrollBranches_append hbranches
    obtain ⟨-, rfl⟩ := hbefore'.unique hbefore
    obtain ⟨cond, body, span⟩ := b
    obtain ⟨body', _, _, hbody, rest, -, rfl⟩ := gives_unrollBranches_cons.1 hafter
    cases hr'
    cases hr
    have hmem : (⟨cond, body', span⟩ : Branch Stmt) ∈ outs ++ ⟨cond, body', span⟩ :: rest :=
      List.mem_append_right _ List.mem_cons_self
    exact .branch hmem (ih ht (gives_unrollAt_succ.2 ⟨_, hbody⟩)) _ _ _
  | otherwise hbranches _ ih =>
    obtain ⟨_, h⟩ := gives_unrollAt_succ.1 h
    obtain ⟨_, _, _, hchain, _, _, -, hr⟩ := gives_unrollStmts_cons.1 h
    obtain ⟨_, _, hbranches', _, _, hbody, _, rfl, hr'⟩ := gives_unrollStmt_ifChain.1 hchain
    obtain ⟨-, rfl⟩ := hbranches'.unique hbranches
    cases hr'
    cases hr
    exact .otherwise (ih ht (gives_unrollAt_succ.2 ⟨_, hbody⟩)) _ _ _
  | attempt _ ih =>
    obtain ⟨_, h⟩ := gives_unrollAt_succ.1 h
    obtain ⟨_, _, _, htry, _, _, -, hr⟩ := gives_unrollStmts_cons.1 h
    obtain ⟨_, _, _, hbody, _, _, -, _, rfl, hr'⟩ := gives_unrollStmt_attempt.1 htry
    cases hr'
    cases hr
    exact .attempt (ih ht (gives_unrollAt_succ.2 ⟨_, hbody⟩)) _ _ _
  | handler hbody _ ih =>
    obtain ⟨_, h⟩ := gives_unrollAt_succ.1 h
    obtain ⟨_, _, _, htry, _, _, -, hr⟩ := gives_unrollStmts_cons.1 h
    obtain ⟨_, _, _, hbody', _, _, hhandler, _, rfl, hr'⟩ := gives_unrollStmt_attempt.1 htry
    obtain ⟨hr'', rfl⟩ := hbody'.unique hbody
    cases hr''
    cases hr'
    cases hr
    cases ht with
    | passed hkind => exact absurd rfl hkind
    | tried _ ht => exact .handler (ih ht (gives_unrollAt_succ.2 ⟨_, hhandler⟩)) _ _ _
  | @copy depth _ _ _ _ _ _ _ _ _ _ task _ _ _ _ _ hc htask hrounds he hcount _ ih =>
    subst htask
    obtain ⟨_, h⟩ := gives_unrollAt_succ.1 h
    obtain ⟨_, _, _, hfor, _, _, -, hr⟩ := gives_unrollStmts_cons.1 h
    obtain ⟨_, hloop, hr'⟩ := gives_unrollStmt_forLoop.1 hfor
    cases hr'
    cases hr
    obtain ⟨c', _, hc', hcopies, -⟩ := copies_of_unrollLoop (unrollAt_forward depth) hloop
    obtain rfl : _ = c' := Option.some.inj (hc.symm.trans hc')
    obtain ⟨rest, hrest, rfl⟩ := hcopies.of_rounds hrounds
    cases ht with
    | passed hkind _ ht =>
      rw [List.append_assoc]
      exact .after hkind _ ((Place.of_copies hrest he hcount (fun hraw => ih ht hraw) ht).append _)

/-- **Known collections are held.**  Whenever the unroller comes to a loop over a variable, it fails
if the variable is not known.  Otherwise the collection that it uses is what the variable holds for
certain on every way through the segments that it keeps track of.  On a way through all segments,
which is a way into the emitted script, it is so too, unless the variable is stale. -/
theorem known_collections_are_held {stmts : List Stmt} {s : Unroller} {past : Past} {look : Lookup}
    (hlook : LooksUp (Stmt.loopDepthAll stmts + 1) [] s stmts past look) :
    (look.collection? = none ∧
      ∃ s', Fails (run stmts) s (.unboundedLoop look.var look.id.span) s') ∨
    ∃ c, look.collection? = some c ∧
      (∀ t, Reaches (past.only Kind.isRan) t → t.held look.id.name = ⟨some c, true⟩) ∧
      ∀ t, Reaches past t →
        (∀ out s', Gives (run stmts) s out s' → Place out past ∧ Follows false out t) ∧
        (¬ past.Stale (fun _ => False) look.id.name → t.held look.id.name = ⟨some c, true⟩) := by
  cases hc : look.collection? with
  | none => exact .inl ⟨rfl, fails_of_looksUp hlook hc⟩
  | some c =>
    have hstart : Known.Sound [] (fun _ => False) Holdings.start := Known.Agrees.nil
    have hfresh : ¬ (past.only Kind.isRan).Stale (fun _ => False) look.id.name :=
      past.not_stale_only_ran (fun _ => id) _
    have hall : past.only (fun _ => true) = past := List.filter_eq_self.2 fun _ _ => rfl
    refine .inr ⟨c, rfl, fun t ht => ?_, fun t ht => ⟨fun out s' h => ?_, fun hfresh => ?_⟩⟩
    · exact sound_of_looksUp hlook rfl hstart ht hc hfresh
    · have hplace := place_of_looksUp hlook ht h
      exact ⟨hplace, hplace.follows ht⟩
    · rw [← hall] at ht hfresh
      exact sound_of_looksUp hlook rfl hstart ht hc hfresh

/-- `c = [1..2]; for (x of [1..2]) { if (u) { d = c; } for (y of c) { print(y); } }` -/
def loopAfterCondition : List Stmt :=
  let here := Span.none
  let int (n : Int64) : Expr := .lit (.int n) here
  [.atom (.assign ⟨"c", here⟩ none (.range (int 1) (int 2) here) here),
    .forLoop (some ⟨"x", here⟩) (.range (int 1) (int 2) here)
      [.ifChain
          [⟨.ident ⟨"u", here⟩, [.atom (.assign ⟨"d", here⟩ none (.ident ⟨"c", here⟩) here)], here⟩]
          none here,
        .forLoop (some ⟨"y", here⟩) (.ident ⟨"c", here⟩)
          [.atom (.output .print [.ident ⟨"y", here⟩] here)] here]
      here]

/-- The inner loop in the second copy of the outer loop's body. -/
theorem known_collections_are_held_loopAfterCondition :
    ∃ past look, LooksUp 3 [] (.new 10) loopAfterCondition past look ∧
      past.map Segment.kind = [.ran, .copied, .ran] ∧
      ∀ t, Reaches past t → t.held "c" = ⟨some (.range 1 2), true⟩ := by
  have hlook : LooksUp 3 [] (.new 10) loopAfterCondition _ _ :=
    .later rfl (.copy rfl rfl (.succ .zero rfl rfl rfl) rfl rfl (.later rfl (.here rfl)))
  have hrun : LooksUp (Stmt.loopDepthAll loopAfterCondition + 1) [] _ loopAfterCondition _ _ :=
    hlook
  refine ⟨_, _, hlook, rfl, fun t ht => ?_⟩
  obtain ⟨hnone, -⟩ | ⟨c, hc, -, hheld⟩ := known_collections_are_held hrun
  · cases hnone
  · cases hc
    refine (hheld t ht).2 ?_
    rintro ⟨-, hs | hs⟩
    · exact Stmt.not_staleAll _ (fun _ => id) _ hs
    · revert hs
      decide

/-- `c = [1..2]; try { c = [5..6]; } catch (e) { for (y of c) { print(y); } }` -/
def resettingAttempt : List Stmt :=
  let here := Span.none
  let int (n : Int64) : Expr := .lit (.int n) here
  [.atom (.assign ⟨"c", here⟩ none (.range (int 1) (int 2) here) here),
    .attempt [.atom (.assign ⟨"c", here⟩ none (.range (int 5) (int 6) here) here)]
      (some [.forLoop (some ⟨"y", here⟩) (.ident ⟨"c", here⟩)
        [.atom (.output .print [.ident ⟨"y", here⟩] here)] here]) here]

/-- The handler of this attempt can be entered after `c` has been set, but its loop runs through the
elements that `c` had before. -/
theorem known_collection_is_not_held_resettingAttempt :
    ∃ out s' past look t, Gives (run resettingAttempt) (.new 10) out s' ∧
      LooksUp 2 [] (.new 10) resettingAttempt past look ∧
      Place out past ∧ Reaches past t ∧ look.collection? = some (.range 1 2) ∧
      t.held look.id.name = ⟨some (.range 5 6), false⟩ := by
  have hgives : Gives (run resettingAttempt) (.new 10) _ _ := rfl
  have hlook : LooksUp 2 [] (.new 10) resettingAttempt _ _ := .later rfl (.handler rfl (.here rfl))
  refine ⟨_, _, _, _, ?_, hgives, hlook, place_of_looksUp hlook ?reach hgives, ?reach, rfl, ?_⟩
  rotate_left
  · refine .passed ?_ (.atom _) (.tried (.seq (.atom _) (.stop [])) .nil)
    exact nofun
  · decide

end Unroller

end EdgeScript
