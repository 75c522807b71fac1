import EdgeScript.Proofs.Unrolling.Steps

/-!
# Loops over variables

A loop over a variable is expanded with the collection that the unroller knows of the variable when
it comes to the loop.  `LooksUp` says when it does so, and what it has emitted until then: the
`Segment`s of the past, from the first to the last.

What is known is kept up to date along the statements that a run has passed, but two kinds of
segments leave no mark on it.

* The copies that an enclosing loop has made so far: each copy starts from what was known before the
  loop.
* The body of an attempt, if the loop is in the handler: that too starts from what was known before
  the attempt.

A variable that such a segment sets is `Stale` until it is set again: what is known of it is older
than what it holds.  A variable that is set from a stale one is stale as well.
-/

set_option autoImplicit false

namespace EdgeScript

/-! ## What is known after a statement -/

/-- The whole value that an atom gives to the variable it sets. -/
def Atom.value? : Atom → Option Expr
  | .declare _ value _ => value
  | .assign _ none value _ => some value
  | _ => none

namespace Known

variable {known : Known} {x : String} {c : Collection}

theorem get?_filter (p : String → Bool) (known : Known) (x : String) :
    Known.get? (known.filter fun entry => p entry.1) x = if p x then known.get? x else none := by
  simp only [get?]
  induction known with
  | nil => simp
  | cons entry known ih =>
    obtain ⟨y, d⟩ := entry
    by_cases hx : x = y
    · subst hx
      by_cases hp : p x = true
      · rw [List.filter_cons_of_pos (by simpa using hp), List.lookup_cons, List.lookup_cons,
          if_pos hp]
        simp
      · rw [List.filter_cons_of_neg (by simpa using hp), ih, if_neg hp, if_neg hp]
    · have hne : (x == y) = false := beq_eq_false_iff_ne.2 hx
      by_cases hp : p y = true
      · rw [List.filter_cons_of_pos (by simpa using hp), List.lookup_cons, List.lookup_cons, hne,
          ih]
      · rw [List.filter_cons_of_neg (by simpa using hp), List.lookup_cons, hne, ih]

theorem get?_eraseAll {names : List String} :
    (known.eraseAll names).get? x = some c ↔ x ∉ names ∧ known.get? x = some c := by
  rw [eraseAll, get?_filter fun y => !names.contains y]
  by_cases h : x ∈ names
  · simp [h]
  · simp [h]

theorem get?_erase (name : String) :
    (known.erase name).get? x = if x = name then none else known.get? x := by
  rw [erase, get?_filter fun y => y != name]
  by_cases h : x = name
  · simp [h]
  · simp [h]

theorem get?_assign (name : String) (value : Option Expr) :
    (known.assign name value).get? x =
      if x = name then value.bind (Collection.ofExpr? known) else known.get? x := by
  rw [assign]
  cases h : value.bind (Collection.ofExpr? known) with
  | none => exact get?_erase name
  | some d =>
    show (known.insert name d).get? x = _
    rw [Known.insert, get?, List.lookup_cons]
    by_cases hx : x = name
    · simp [hx]
    · rw [if_neg hx, beq_eq_false_iff_ne.2 hx]
      exact (get?_erase name).trans (if_neg hx)

/-- What is known after an atom: of the variable it sets the collection that it is given, and of the
others what was known before. -/
theorem get?_after (a : Atom) :
    (known.after a).get? x =
      if a.assigned? = some x then a.value?.bind (Collection.ofExpr? known) else known.get? x := by
  cases a with
  | declare name value span =>
    rw [after, get?_assign, Atom.assigned?, Atom.value?]
    simp only [Option.some.injEq, eq_comm]
  | assign target key value span =>
    cases key with
    | none =>
      rw [after, get?_assign, Atom.assigned?, Atom.value?]
      simp only [Option.some.injEq, eq_comm]
    | some key =>
      rw [after, get?_erase, Atom.assigned?]
      simp only [Option.some.injEq, eq_comm]
      rfl
  | _ => rfl

end Known

/-! ## What is known too long -/

/-- The stale variables after an atom, given those before it. -/
def Atom.Stale (stale : String → Prop) (a : Atom) (x : String) : Prop :=
  if a.assigned? = some x then ∃ id, a.value? = some (.ident id) ∧ stale id.name else stale x

namespace Stmt

mutual

/-- The stale variables after a statement, given those before it.  Nothing is known of the variables
that statements inside of it may set, unless it is a block. -/
def Stale (stale : String → Prop) : Stmt → String → Prop
  | .atom a => a.Stale stale
  | .block body _ => StaleAll stale body
  | s => fun x => x ∉ assigned s ∧ stale x

/-- The stale variables after a sequence of statements. -/
def StaleAll (stale : String → Prop) : List Stmt → String → Prop
  | [] => stale
  | s :: rest => StaleAll (Stale stale s) rest

end

mutual

theorem stale_of_not_assigned {x : String} (stale : String → Prop) :
    ∀ {s}, x ∉ assigned s → (Stale stale s x ↔ stale x)
  | .atom a, h => by
    rw [assigned, Option.mem_toList] at h
    rw [Stale, Atom.Stale, if_neg h]
  | .block body span, h => by
    rw [assigned] at h
    rw [Stale]
    exact staleAll_of_not_assigned stale h
  | .function name params isInline body span, h => by simp only [Stale, h, not_false_iff, true_and]
  | .ifChain branches otherwise span, h => by simp only [Stale, h, not_false_iff, true_and]
  | .forLoop var collection body span, h => by simp only [Stale, h, not_false_iff, true_and]
  | .breakLoop span, h => by simp only [Stale, h, not_false_iff, true_and]
  | .attempt body handler span, h => by simp only [Stale, h, not_false_iff, true_and]
  | .require path force span, h => by simp only [Stale, h, not_false_iff, true_and]

/-- Statements leave alone what they do not set. -/
theorem staleAll_of_not_assigned {x : String} (stale : String → Prop) :
    ∀ {stmts}, x ∉ assignedAll stmts → (StaleAll stale stmts x ↔ stale x)
  | [], _ => by rw [StaleAll]
  | s :: rest, h => by
    rw [assignedAll, List.mem_append, not_or] at h
    rw [StaleAll, staleAll_of_not_assigned _ h.2, stale_of_not_assigned stale h.1]

end

mutual

theorem not_stale : ∀ (s : Stmt) {stale : String → Prop}, (∀ x, ¬ stale x) → ∀ x, ¬ Stale stale s x
  | .atom a, stale, h, x => by
    rw [Stale, Atom.Stale]
    split
    · rintro ⟨id, -, hid⟩
      exact h id.name hid
    · exact h x
  | .block body span, stale, h, x => by
    rw [Stale]
    exact not_staleAll body h x
  | .function .., stale, h, x => fun hs => h x hs.2
  | .ifChain .., stale, h, x => fun hs => h x hs.2
  | .forLoop .., stale, h, x => fun hs => h x hs.2
  | .breakLoop _, stale, h, x => fun hs => h x hs.2
  | .attempt .., stale, h, x => fun hs => h x hs.2
  | .require .., stale, h, x => fun hs => h x hs.2

/-- Statements that are passed make nothing stale. -/
theorem not_staleAll :
    ∀ (stmts : List Stmt) {stale : String → Prop}, (∀ x, ¬ stale x) → ∀ x, ¬ StaleAll stale stmts x
  | [], stale, h, x => h x
  | s :: rest, stale, h, x => by
    rw [StaleAll]
    exact not_staleAll rest (not_stale s h) x

end

theorem staleAll_append (stale : String → Prop) (a b : List Stmt) :
    StaleAll stale (a ++ b) = StaleAll (StaleAll stale a) b := by
  induction a generalizing stale with
  | nil => rw [List.nil_append, StaleAll]
  | cons s rest ih => rw [List.cons_append, StaleAll, StaleAll, ih]

theorem assignedAll_singleton (s : Stmt) : assignedAll [s] = assigned s := by
  rw [assignedAll, assignedAll, List.append_nil]

end Stmt

namespace Known

/-- What is known of the variables that are not stale is true, where `P x c` says that it is true of
the variable `x` that it has the collection `c`. -/
def Agrees (P : String → Collection → Prop) (known : Known) (stale : String → Prop) : Prop :=
  ∀ x c, known.get? x = some c → ¬ stale x → P x c

variable {P Q : String → Collection → Prop} {known : Known} {stale : String → Prop}

theorem Agrees.nil : Agrees P [] stale :=
  fun _ _ h => nomatch h

/-- After statements of whose variables nothing is known any more. -/
theorem Agrees.forget (h : Agrees P known stale) {out : List Stmt}
    (hframe : ∀ x ∉ Stmt.assignedAll out, ∀ c, P x c → Q x c) :
    Agrees Q (known.eraseAll (Stmt.assignedAll out)) (Stmt.StaleAll stale out) := by
  intro x c hx hfresh
  obtain ⟨hout, hx⟩ := get?_eraseAll.1 hx
  exact hframe x hout c
    (h x c hx fun hs => hfresh ((Stmt.staleAll_of_not_assigned stale hout).2 hs))

/-- After statements that leave no mark on what is known, so that the variables they set are
stale. -/
theorem Agrees.overlook (h : Agrees P known stale) {out : List Stmt}
    (hframe : ∀ x ∉ Stmt.assignedAll out, ∀ c, P x c → Q x c) :
    Agrees Q known fun x => stale x ∨ x ∈ Stmt.assignedAll out := by
  intro x c hx hfresh
  obtain ⟨hs, hout⟩ := not_or.1 hfresh
  exact hframe x hout c (h x c hx hs)

/-- After an atom that gives its variable a collection. -/
theorem Agrees.after (h : Agrees P known stale) {a : Atom}
    (hframe : ∀ x, a.assigned? ≠ some x → ∀ c, P x c → Q x c)
    (hvalue : ∀ x e c, a.assigned? = some x → a.value? = some e →
      Collection.ofExpr? known e = some c → (∀ id, e = .ident id → P id.name c) → Q x c) :
    Agrees Q (known.after a) (a.Stale stale) := by
  intro x c hx hfresh
  rw [get?_after] at hx
  rw [Atom.Stale] at hfresh
  by_cases ha : a.assigned? = some x
  · rw [if_pos ha] at hx hfresh
    obtain ⟨e, he, hc⟩ := Option.bind_eq_some_iff.1 hx
    refine hvalue x e c ha he hc fun id hid => ?_
    subst hid
    exact h id.name c hc fun hs => hfresh ⟨id, he, hs⟩
  · rw [if_neg ha] at hx hfresh
    exact hframe x ha c (h x c hx hfresh)

end Known

/-! ## The past of a loop -/

namespace Unroller

open Pass

/-- How a segment of the emitted statements lies before a place: it is passed on the way there, it
is made of the earlier copies of a loop around the place, or it is the body of the attempt whose
handler the place is in. -/
inductive Kind where
  | ran | copied | tried
deriving DecidableEq, Repr

/-- What is known is kept up to date along the segments of this kind only. -/
def Kind.isRan : Kind → Bool
  | .ran => true
  | .copied | .tried => false

/-- Emitted statements that lie before a place. -/
structure Segment where
  kind : Kind
  stmts : List Stmt
deriving Repr

/-- The stale variables behind a segment, given those before it. -/
def Segment.Stale (stale : String → Prop) : Segment → String → Prop
  | ⟨.ran, stmts⟩ => Stmt.StaleAll stale stmts
  | ⟨_, stmts⟩ => fun x => stale x ∨ x ∈ Stmt.assignedAll stmts

/-- All that was emitted before a place and lies before it, from the first segment to the last. -/
abbrev Past := List Segment

namespace Past

/-- The stale variables behind a past, given those before it. -/
def Stale (stale : String → Prop) (past : Past) : String → Prop :=
  past.foldl Segment.Stale stale

/-- The segments of the given kinds. -/
def only (past : Past) (kinds : Kind → Bool) : Past :=
  past.filter fun segment => kinds segment.kind

theorem only_cons (kind : Kind) (stmts : List Stmt) (past : Past) (kinds : Kind → Bool) :
    Past.only (⟨kind, stmts⟩ :: past) kinds =
      if kinds kind then ⟨kind, stmts⟩ :: past.only kinds else past.only kinds :=
  List.filter_cons

/-- What is known is up to date, if all segments are passed. -/
theorem not_stale_only_ran (past : Past) {stale : String → Prop} (h : ∀ x, ¬ stale x) (x : String) :
    ¬ (past.only Kind.isRan).Stale stale x := by
  induction past generalizing stale with
  | nil => exact h x
  | cons segment past ih =>
    obtain ⟨kind, stmts⟩ := segment
    rw [only_cons]
    cases kind with
    | ran => exact ih (Stmt.not_staleAll stmts h)
    | copied => exact ih h
    | tried => exact ih h

end Past

/-- A loop over a variable, and what is known when the unroller comes to it. -/
structure Lookup where
  known : Known
  /-- The variable of the loop. -/
  var : String
  /-- The variable that the loop is over. -/
  id : Ident

namespace Lookup

/-- The collection that the loop is expanded with. -/
def collection? (look : Lookup) : Option Collection :=
  Collection.ofExpr? look.known (.ident look.id)

end Lookup

/-- `LooksUp depth known s stmts past look`: in the course of `unrollAt depth known stmts`, run from
the state `s`, the unroller comes to the loop over a variable `look`, and what it has emitted before
it is `past`. -/
inductive LooksUp : Nat → Known → Unroller → List Stmt → Past → Lookup → Prop
  | here {depth : Nat} {known : Known} {s : Unroller} {var : Option Ident} {collection : Expr}
      {id : Ident} {body : List Stmt} {span : Span} {rest : List Stmt}
      (hfold : collection.fold = .ident id) :
      LooksUp (depth + 1) known s (.forLoop var collection body span :: rest) []
        ⟨known, loopVariable var, id⟩
  | later {depth : Nat} {known between : Known} {s t : Unroller} {stmt : Stmt}
      {first rest : List Stmt} {past : Past} {look : Lookup}
      (hfirst : Gives (unrollStmt (unrollAt depth) known stmt) s (first, between) t)
      (h : LooksUp (depth + 1) between t rest past look) :
      LooksUp (depth + 1) known s (stmt :: rest) (⟨.ran, first⟩ :: past) look
  | block {depth : Nat} {known : Known} {s : Unroller} {body : List Stmt} {span : Span}
      {rest : List Stmt} {past : Past} {look : Lookup}
      (h : LooksUp (depth + 1) known s body past look) :
      LooksUp (depth + 1) known s (.block body span :: rest) past look
  | branch {depth : Nat} {known : Known} {s t : Unroller} {before out after : List (Branch Stmt)}
      {b : Branch Stmt} {otherwise : Option (List Stmt)} {span : Span} {rest : List Stmt}
      {past : Past} {look : Lookup}
      (hbefore : Gives (unrollBranches (unrollAt depth) known before) s out t)
      (h : LooksUp (depth + 1) known t b.body past look) :
      LooksUp (depth + 1) known s (.ifChain (before ++ b :: after) otherwise span :: rest) past look
  | otherwise {depth : Nat} {known : Known} {s t : Unroller} {branches out : List (Branch Stmt)}
      {body : List Stmt} {span : Span} {rest : List Stmt} {past : Past} {look : Lookup}
      (hbranches : Gives (unrollBranches (unrollAt depth) known branches) s out t)
      (h : LooksUp (depth + 1) known t body past look) :
      LooksUp (depth + 1) known s (.ifChain branches (some body) span :: rest) past look
  | attempt {depth : Nat} {known : Known} {s : Unroller} {body : List Stmt}
      {handler : Option (List Stmt)} {span : Span} {rest : List Stmt} {past : Past} {look : Lookup}
      (h : LooksUp (depth + 1) known s body past look) :
      LooksUp (depth + 1) known s (.attempt body handler span :: rest) past look
  | handler {depth : Nat} {known behind : Known} {s t : Unroller} {body handler out : List Stmt}
      {span : Span} {rest : List Stmt} {past : Past} {look : Lookup}
      (hbody : Gives (unrollStmts (unrollAt depth) known body) s (out, behind) t)
      (h : LooksUp (depth + 1) known t handler past look) :
      LooksUp (depth + 1) known s (.attempt body (some handler) span :: rest)
        (⟨.tried, out⟩ :: past) look
  | copy {depth : Nat} {known : Known} {s t t' : Unroller} {var : Option Ident} {collection : Expr}
      {body : List Stmt} {span : Span} {rest : List Stmt} {c : Collection} {task : Task} {i : Nat}
      {out : List Stmt} {e : Literal} {past : Past} {look : Lookup}
      (hc : Collection.ofExpr? known collection.fold = some c)
      (htask : task = ⟨loopVariable var, c, collection.fold.span, body, span⟩)
      (hrounds : Rounds (unrollAt depth) known task s i out t) (he : c.element? i = some e)
      (hcount : Gives (countIteration task.var span) t () t')
      (h : LooksUp depth known t'
        (Stmt.foldAll (Stmt.substAll task.var (.lit e task.place) body)) past look) :
      LooksUp (depth + 1) known s (.forLoop var collection body span :: rest)
        (⟨.copied, out⟩ :: past) look

end Unroller

end EdgeScript
