import EdgeScript.Grammar.Stmt

/-!
# What is shown of all that is read

Several things are shown of everything that is read: that its places are places in the text, that
its names are names and its captures are counted, that it may stand where it stands, and that the
parsers that read it come to an end.  The grammar is gone through once for all of them.

* A `Scheme` is what is to be shown of expressions, statements and complaints, and `Scheme.Closed`
  says that it holds of what the grammar puts together from parts of which it holds.
* `Parser.Obeys` is the judgement by which the grammar is gone through, with a rule for each way
  to build parsers.  What is read is as the scheme says, and so is what is complained of.

Parsers call themselves, and what ends the recursion is that every call stands behind the one that
made it.  To see this, a parser is run next to another one that differs from it in these inner calls
alone (`Parser.Agree`): if the two do the same although the inner calls agree behind the place only,
there are no inner calls elsewhere.
-/

set_option autoImplicit false

namespace EdgeScript

open Grammar (Place)

/-! ## Places in a stream -/

namespace Stream

/-- From `s` one gets to `s'` by reading tokens, at least `n` of them and never the end.  The number
of captures may change on the way. -/
def Reaches (s : Stream) (n : Nat) (s' : Stream) : Prop :=
  ∃ front, s.tokens = front ++ s'.tokens ∧ s'.finish = s.finish ∧ n ≤ front.length ∧
    s'.previous = (front.getLast?.map Token.span).getD s.previous

variable {s s' s'' : Stream} {m n : Nat}

theorem reaches_captures (s : Stream) (captures : Option Nat) : s.Reaches 0 { s with captures } :=
  ⟨[], rfl, rfl, Nat.le_refl 0, rfl⟩

theorem Reaches.refl (s : Stream) : s.Reaches 0 s := s.reaches_captures s.captures

theorem Reaches.mono (h : s.Reaches n s') (hm : m ≤ n) : s.Reaches m s' := by
  obtain ⟨front, htokens, hfinish, hlength, hprevious⟩ := h
  exact ⟨front, htokens, hfinish, Nat.le_trans hm hlength, hprevious⟩

/-- Tokens that are read one after the other add up. -/
theorem Reaches.trans (h : s.Reaches m s') (h' : s'.Reaches n s'') : s.Reaches (m + n) s'' := by
  obtain ⟨front, htokens, hfinish, hlength, hprevious⟩ := h
  obtain ⟨more, htokens', hfinish', hlength', hprevious'⟩ := h'
  refine ⟨front ++ more, ?_, hfinish'.trans hfinish, ?_, ?_⟩
  · rw [htokens, htokens', List.append_assoc]
  · rw [List.length_append]
    exact Nat.add_le_add hlength hlength'
  · rw [hprevious', hprevious, List.getLast?_append]
    cases more.getLast? <;> rfl

/-- What has been read is missing from the stream. -/
theorem Reaches.length_le (h : s.Reaches n s') : s'.tokens.length + n ≤ s.tokens.length := by
  obtain ⟨front, htokens, -, hlength, -⟩ := h
  rw [htokens, List.length_append]
  omega

theorem reaches_advance_zero (s : Stream) : s.Reaches 0 s.advance := by
  cases htokens : s.tokens with
  | nil =>
    rw [advance, htokens]
    exact .refl s
  | cons t rest => refine ⟨[t], ?_, ?_, Nat.zero_le 1, ?_⟩ <;> simp [advance, htokens]

/-- Only the end of the script is never read. -/
theorem reaches_advance {t : Token} (ht : t = s.current) (h : t.kind ≠ .eof) :
    s.Reaches 1 s.advance := by
  cases htokens : s.tokens with
  | nil =>
    rw [ht, current, htokens] at h
    exact absurd rfl h
  | cons t rest => refine ⟨[t], ?_, ?_, Nat.le_refl 1, ?_⟩ <;> simp [advance, htokens]

@[simp]
theorem captures_advance (s : Stream) : s.advance.captures = s.captures := by
  rw [advance]
  split <;> rfl

end Stream

/-- A list is gone through from one state to another, element by element. -/
inductive Along {σ α : Type} (R : σ → α → σ → Prop) : σ → List α → σ → Prop
  | nil (c : σ) : Along R c [] c
  | cons {c d e : σ} {a : α} {l : List α} (h : R c a d) (hl : Along R d l e) : Along R c (a :: l) e

namespace Along

variable {σ α : Type} {R : σ → α → σ → Prop} {c d e : σ} {a : α} {l : List α}

theorem singleton (h : R c a d) : Along R c [a] d := .cons h (.nil d)

/-- One more element at the end. -/
theorem concat (h : Along R c l d) (ha : R d a e) : Along R c (l ++ [a]) e := by
  induction h with
  | nil => exact .singleton ha
  | cons h _ ih => exact .cons h (ih ha)

/-- A list of elements that change nothing. -/
theorem of_forall_mem (h : ∀ a ∈ l, R c a c) : Along R c l c := by
  induction l with
  | nil => exact .nil c
  | cons a l ih =>
    obtain ⟨ha, hl⟩ := List.forall_mem_cons.1 h
    exact .cons ha (ih hl)

/-- What holds of each element by the relation holds of all of them. -/
theorem forall_mem {P : α → Prop} (h : Along R c l d) (hP : ∀ {c a d}, R c a d → P a) :
    ∀ a ∈ l, P a := by
  induction h with
  | nil => exact fun _ ha => absurd ha List.not_mem_nil
  | cons h _ ih => exact List.forall_mem_cons.2 ⟨hP h, ih⟩

end Along

/-! ## Schemes -/

/-- What is to be shown of what is read.  Captures are counted while a condition is read:
`expr c e d` is about an expression `e` before which `c` captures were counted, and behind which
there are `d`. -/
structure Scheme where
  /-- What is known of the places of tokens. -/
  span : Span → Prop
  /-- What is known of the texts of names. -/
  name : String → Prop
  /-- What is known of the count where statements stand. -/
  outside : Option Nat → Prop
  /-- What is to be shown of the errors of the grammar. -/
  error : Error → Prop
  /-- What is to be shown of expressions. -/
  expr : Option Nat → Expr → Option Nat → Prop
  /-- What is to be shown of the statements at a place. -/
  stmt : Place → Stmt → Prop

/-- What the grammar complains of, and where. -/
inductive Grammar.Complaint : Error → Span → Prop
  | unexpectedToken (expected : String) (got : TokenKind) (span : Span) :
      Complaint (.unexpectedToken expected got span) span
  | expectedExpr (got : TokenKind) (span : Span) : Complaint (.expectedExpr got span) span
  | expectedIdent (got : TokenKind) (span : Span) : Complaint (.expectedIdent got span) span
  | misplaced (what : Misplacement) (span : Span) : Complaint (.misplaced what span) span
  | unknownOption (name : String) (meant : Option String) (span : Span) :
      Complaint (.unsupported (.unknownOption name meant) span) span
  | missingSource (span : Span) : Complaint (.unsupported .missingSource span) span

namespace Scheme

variable (S : Scheme)

/-- A name and its place. -/
def ident (id : Ident) : Prop := S.name id.name ∧ S.span id.span

/-- The place of a token, and its text if it is a name. -/
def token (t : Token) : Prop := S.span t.span ∧ ∀ name, t.kind = .ident name → S.name name

/-- Expressions, one behind the other. -/
def exprs : Option Nat → List Expr → Option Nat → Prop := Along S.expr

/-- The key and the value of an entry, one behind the other. -/
def entry (c : Option Nat) (entry : Expr × Expr) (e : Option Nat) : Prop :=
  ∃ d, S.expr c entry.1 d ∧ S.expr d entry.2 e

/-- An expression outside of conditions. -/
def plain (e : Expr) : Prop := ∃ c d, S.outside c ∧ S.expr c e d

/-- A condition, whose captures are counted from zero. -/
def cond (e : Expr) : Prop := ∃ d, S.expr (some 0) e d

/-- An option of an inclusion. -/
def option (o : InclusionOption) : Prop := S.span o.span ∧ S.plain o.value

/-- A parameter of a function; of a default value there is only a place to speak of. -/
def param (p : Param) : Prop :=
  S.ident p.name ∧ S.span p.span ∧ ∀ value ∈ p.default?, S.span value.2

/-- Statements that stand at a place. -/
def stmts (place : Place) (stmts : List Stmt) : Prop := ∀ stmt ∈ stmts, S.stmt place stmt

/-- A branch of an if chain that stands at a place. -/
def branch (place : Place) (b : Branch Stmt) : Prop :=
  S.span b.span ∧ S.cond b.cond ∧ S.stmts place b.body

/-- Behind a statement, or a part of one, the count is one that stands outside of conditions. -/
def leaves {α : Type} (P : α → Prop) (a : α) (d : Option Nat) : Prop := S.outside d ∧ P a

/-- The scheme holds of what the grammar makes of parts of which it holds, and of its complaints. -/
class Closed (S : Scheme) : Prop where
  merge {s t : Span} (hs : S.span s) (ht : S.span t) : S.span (s.merge t)
  complaint {e : Error} {span : Span} (he : Grammar.Complaint e span) (h : S.span span) : S.error e
  -- what is taken from expressions: places, and that nothing is captured outside of conditions
  expr_span {c d : Option Nat} {e : Expr} (h : S.expr c e d) : S.span e.span
  target_span {c d : Option Nat} {e key : Expr} {span : Span} (h : S.expr c (.index e key span) d) :
    S.span e.span
  args_span {c d : Option Nat} {callee : Ident} {args : List Expr} {span : Span}
    (h : S.expr c (.call callee args span) d) : ∀ e ∈ args, S.span e.span
  outside_expr {c d : Option Nat} {e : Expr} (hc : S.outside c) (h : S.expr c e d) : S.outside d
  -- expressions
  lit {c : Option Nat} {value : Literal} {span : Span} (h : S.span span) :
    S.expr c (.lit value span) c
  ident {c : Option Nat} {id : Ident} (h : S.ident id) : S.expr c (.ident id) c
  unary {c d : Option Nat} {op : UnOp} {e : Expr} {span : Span} (h : S.expr c e d)
    (hspan : S.span span) : S.expr c (.unary op e span) d
  binary {b c d : Option Nat} {op : BinOp} {left right : Expr} {span : Span}
    (hleft : S.expr b left c)
    (hright : S.expr c right d) (hspan : S.span span) : S.expr b (.binary op left right span) d
  test {b c d : Option Nat} {op : MatchOp} {left right : Expr} {span : Span}
    (hleft : S.expr b left c)
    (hright : S.expr c right d) (hspan : S.span span) : S.expr b (.test op left right none span) d
  /-- A match captures, if no other one in the condition has. -/
  capture {b c : Option Nat} {op : MatchOp} {left right : Expr} {id : Ident} {span : Span}
    (hop : op.canCapture = true) (hleft : S.expr b left c) (hright : S.expr c right (some 0))
    (hid : S.ident id) (hspan : S.span span) :
      S.expr b (.test op left right (some id) span) (some 1)
  call {b c d : Option Nat} {callee : Ident} {args : List Expr} {span : Span}
    (hcallee : S.expr b (.ident callee) c) (hargs : S.exprs c args d) (hspan : S.span span) :
    S.expr b (.call callee args span) d
  index {b c d : Option Nat} {e key : Expr} {span : Span} (h : S.expr b e c) (hkey : S.expr c key d)
    (hspan : S.span span) : S.expr b (.index e key span) d
  range {b c d : Option Nat} {first last : Expr} {span : Span} (hfirst : S.expr b first c)
    (hlast : S.expr c last d) (hspan : S.span span) : S.expr b (.range first last span) d
  array {c d : Option Nat} {elements : List Expr} {span : Span} (h : S.exprs c elements d)
    (hspan : S.span span) : S.expr c (.array elements span) d
  dict {c d : Option Nat} {entries : List (Expr × Expr)} {span : Span}
    (h : Along S.entry c entries d)
    (hspan : S.span span) : S.expr c (.dict entries span) d
  -- statements without statements inside
  declare {place : Place} {name : Ident} {value : Option Expr} {span : Span} (hname : S.ident name)
    (hvalue : ∀ e ∈ value, S.plain e) (hspan : S.span span) :
    S.stmt place (.atom (.declare name value span))
  ret {place : Place} {value : Option Expr} {span : Span} (hplace : place.inFunction = true)
    (hvalue : ∀ e ∈ value, S.plain e) (hspan : S.span span) : S.stmt place (.atom (.ret value span))
  breakLoop {place : Place} {span : Span} (hplace : place.inLoop = true) (hspan : S.span span) :
    S.stmt place (.breakLoop span)
  require {place : Place} {path : String} {force : Bool} {span : Span} (hspan : S.span span) :
    S.stmt place (.require path force span)
  /-- The options are different ones, and the source is among them. -/
  inclusion {place : Place} {kind : InclusionKind} {options : List InclusionOption} {span : Span}
    (hoptions : ∀ o ∈ options, S.option o) (hkeys : (options.map InclusionOption.key).Nodup)
    (hsource : ∃ o ∈ options, o.key = .src) (hspan : S.span span) :
    S.stmt place (.atom (.inclusion kind options span))
  comment {place : Place} {text : String} {span : Span} (hspan : S.span span) :
    S.stmt place (.atom (.comment text span))
  exprStmt {place : Place} {e : Expr} (h : S.plain e) : S.stmt place (.atom (.expr e))
  /-- A call of an output function; raw output is written from literals. -/
  output {place : Place} {kind : OutputKind} {callee : Ident} {args : List Expr} {span span' : Span}
    (h : S.plain (.call callee args span'))
    (hraw : kind = .printRaw → ∀ e ∈ args, e.literal?.isSome)
    (hspan : S.span span) : S.stmt place (.atom (.output kind args span))
  assign {place : Place} {target : Ident} {value : Expr} {span : Span}
    (htarget : S.plain (.ident target)) (hvalue : S.plain value) (hspan : S.span span) :
    S.stmt place (.atom (.assign target none value span))
  assignEntry {place : Place} {target : Ident} {key value : Expr} {span span' : Span}
    (htarget : S.plain (.index (.ident target) key span')) (hvalue : S.plain value)
    (hspan : S.span span) : S.stmt place (.atom (.assign target (some key) value span))
  -- statements with statements inside
  block {place : Place} {body : List Stmt} {span : Span} (hbody : S.stmts place body)
    (hspan : S.span span) : S.stmt place (.block body span)
  /-- Parameters with defaults come last, and the body is a place of its own. -/
  function {place : Place} {name : Ident} {params : List Param} {isInline : Bool} {body : List Stmt}
    {span : Span} (hname : S.ident name) (hparams : ∀ p ∈ params, S.param p)
    (hdefaults : params.Pairwise fun p q => p.default?.isSome → q.default?.isSome)
    (hbody : S.stmts ⟨false, true⟩ body) (hspan : S.span span) :
    S.stmt place (.function name params isInline body span)
  ifChain {place : Place} {branches : List (Branch Stmt)} {otherwise : Option (List Stmt)}
    {span : Span} (hbranches : ∀ b ∈ branches, S.branch place b)
    (hotherwise : S.stmts place (otherwise.getD [])) (hspan : S.span span) :
    S.stmt place (.ifChain branches otherwise span)
  forLoop {place : Place} {var : Option Ident} {collection : Expr} {body : List Stmt} {span : Span}
    (hvar : ∀ id ∈ var, S.ident id) (hcollection : S.plain collection)
    (hbody : S.stmts { place with inLoop := true } body) (hspan : S.span span) :
    S.stmt place (.forLoop var collection body span)
  attempt {place : Place} {body : List Stmt} {handler : Option (List Stmt)} {span : Span}
    (hbody : S.stmts place body) (hhandler : S.stmts place (handler.getD []))
    (hspan : S.span span) : S.stmt place (.attempt body handler span)

/-- Nothing is to be shown. -/
def any : Scheme where
  span _ := True
  name _ := True
  outside _ := True
  error _ := True
  expr _ _ _ := True
  stmt _ _ := True

instance : Closed any := by
  constructor <;> intros <;> trivial

end Scheme

/-- The stream has counted `c` captures, and of its tokens is known what the scheme says. -/
structure Stream.Fits (S : Scheme) (s : Stream) (c : Option Nat) : Prop where
  captures : s.captures = c
  previous : S.span s.previous
  tokens : ∀ t ∈ s.tokens, S.token t
  finish : S.span s.finish

namespace Stream

variable {S : Scheme} {s s' : Stream} {c : Option Nat} {n : Nat}

theorem fits_any (s : Stream) : s.Fits .any s.captures :=
  ⟨rfl, trivial, fun _ _ => ⟨trivial, fun _ _ => trivial⟩, trivial⟩

/-- The token to be read next is as the scheme knows tokens to be. -/
theorem Fits.current (h : s.Fits S c) : S.token s.current := by
  rw [Stream.current]
  split
  · exact h.tokens _ (by simp [*])
  · exact ⟨h.finish, fun _ hname => by cases hname⟩

/-- What is known of tokens stays known of those that are left. -/
theorem Fits.reaches (h : s.Fits S c) (hs : s.Reaches n s') : s'.Fits S s'.captures := by
  obtain ⟨front, htokens, hfinish, -, hprevious⟩ := hs
  refine ⟨rfl, ?_, fun t ht => h.tokens t ?_, hfinish ▸ h.finish⟩
  · rw [hprevious]
    cases hlast : front.getLast? with
    | none => exact h.previous
    | some t =>
      have ht : t ∈ s.tokens := htokens ▸ List.mem_append_left _ (List.mem_of_getLast? hlast)
      exact (h.tokens t ht).1
  · rw [htokens]
    exact List.mem_append_right front ht

/-- The stream of a token list starts outside of conditions. -/
theorem fits_ofTokens {tokens : List Token} (h : ∀ t ∈ tokens, S.token t)
    (hfinish : S.span (splitEnd tokens).2) : (ofTokens tokens).Fits S none := by
  have hfront : ∀ t ∈ (splitEnd tokens).1, S.token t := by
    intro t ht
    refine h t ?_
    rw [splitEnd] at ht
    split at ht
    · cases ht
    · split at ht
      · exact List.dropLast_subset _ ht
      · exact ht
  refine ⟨rfl, ?_, hfront, hfinish⟩
  show S.span (((splitEnd tokens).1.head?.map Token.span).getD (splitEnd tokens).2)
  cases hsplit : (splitEnd tokens).1 with
  | nil => exact hfinish
  | cons t rest => exact (hfront t (hsplit ▸ List.mem_cons_self)).1

end Stream

namespace Parser

variable {α β : Type}

/-! ## The judgement -/

/-- At `s` two parsers do the same, and if they give `a`, they have read at least `n a` tokens. -/
structure Agree (n : α → Nat) (s : Stream) (x y : Parser α) : Prop where
  run_eq : x.run s = y.run s
  reaches : ∀ a s', x.run s = .ok (a, s') → s.Reaches (n a) s'

/-- At a stream that fits the scheme and has counted `c` captures, two parsers agree.  What they
give is as `P` says, together with the captures counted behind it, and what they complain of is as
the scheme says. -/
structure Obeys (S : Scheme) (n : α → Nat) (s : Stream) (c : Option Nat) (x y : Parser α)
    (P : α → Option Nat → Prop) : Prop where
  agree : s.Fits S c → Agree n s x y
  gives : s.Fits S c → ∀ a s', x.run s = .ok (a, s') → P a s'.captures
  fails : s.Fits S c → ∀ e, x.run s = .error e → S.error e

/-- Nothing is captured, and the result is as `P` says. -/
def Quiet (c : Option Nat) (P : α → Prop) (a : α) (d : Option Nat) : Prop := d = c ∧ P a

variable {S : Scheme} {n m : α → Nat} {k : β → Nat} {s : Stream} {c : Option Nat} {x y : Parser α}
  {f g : α → Parser β} {P : α → Option Nat → Prop} {Q : β → Option Nat → Prop}

theorem Agree.obeys (h : Agree n s x y) : Obeys .any n s c x y fun _ _ => True :=
  ⟨fun _ => h, fun _ _ _ _ => trivial, fun _ _ _ => trivial⟩

theorem Obeys.agree_any (h : Obeys .any n s s.captures x y P) : Agree n s x y :=
  h.agree s.fits_any

/-! ## Rules -/

theorem obeys_pure {a : α} (hn : n a = 0) (h : P a c) : Obeys S n s c (pure a) (pure a) P := by
  refine ⟨fun _ => ⟨rfl, fun b s' hrun => ?_⟩, fun hs b s' hrun => ?_, fun _ e hrun => ?_⟩
  · cases hrun
    rw [hn]
    exact .refl s
  · cases hrun
    exact hs.captures ▸ h
  · cases hrun

theorem obeys_of_error {e : Error} (hrun : x.run s = .error e) (h : s.Fits S c → S.error e) :
    Obeys S n s c x x P := by
  refine ⟨fun _ => ⟨rfl, fun a s' hok => ?_⟩, fun _ a s' hok => ?_, fun hs e' herror => ?_⟩
  · cases hrun.symm.trans hok
  · cases hrun.symm.trans hok
  · cases hrun.symm.trans herror
    exact h hs

/-- Less may be said of a parser than is known of it. -/
theorem Obeys.mono {n' : α → Nat} {P' : α → Option Nat → Prop} (h : Obeys S n s c x y P)
    (hn : ∀ a, n' a ≤ n a) (hP : ∀ a d, P a d → P' a d) : Obeys S n' s c x y P' :=
  ⟨fun hs => ⟨(h.agree hs).run_eq, fun a s' hrun => ((h.agree hs).reaches a s' hrun).mono (hn a)⟩,
    fun hs a s' hrun => hP a _ (h.gives hs a s' hrun), h.fails⟩

theorem Obeys.weaken (h : Obeys S n s c x y P) : Obeys S (fun _ => 0) s c x y P :=
  h.mono (fun a => Nat.zero_le (n a)) fun _ _ => id

/-- Behind two parsers that agree, what each of them read counts. -/
theorem Obeys.bind {l : β → Nat} (hx : Obeys S m s c x y P)
    (hf : ∀ a s' d, s.Reaches (m a) s' → P a d → Obeys S k s' d (f a) (g a) Q)
    (hl : ∀ a b, l b ≤ m a + k b) : Obeys S l s c (x >>= f) (y >>= g) Q := by
  -- what follows the first parser starts at a stream that fits, too
  have hnext (hs : s.Fits S c) {a : α} {s' : Stream} (hrun : x.run s = .ok (a, s')) :
      s.Reaches (m a) s' ∧ s'.Fits S s'.captures ∧ Obeys S k s' s'.captures (f a) (g a) Q := by
    have hreaches := (hx.agree hs).reaches a s' hrun
    exact ⟨hreaches, hs.reaches hreaches, hf a s' _ hreaches (hx.gives hs a s' hrun)⟩
  have hbind (h' : α → Parser β) {a : α} {s' : Stream} (hrun : x.run s = .ok (a, s')) :
      (x >>= h').run s = (h' a).run s' := by
    rw [StateT.run_bind, hrun]
    rfl
  refine ⟨fun hs => ⟨?_, fun b s'' hb => ?_⟩, fun hs b s'' hb => ?_, fun hs e he => ?_⟩
  · rw [StateT.run_bind, StateT.run_bind, ← (hx.agree hs).run_eq]
    cases hrun : x.run s with
    | error e => rfl
    | ok r =>
      obtain ⟨-, hs', hobeys⟩ := hnext hs hrun
      exact (hobeys.agree hs').run_eq
  · cases hrun : x.run s with
    | error e =>
      rw [StateT.run_bind, hrun] at hb
      cases hb
    | ok r =>
      rw [hbind f hrun] at hb
      obtain ⟨hreaches, hs', hobeys⟩ := hnext hs hrun
      exact (hreaches.trans ((hobeys.agree hs').reaches b s'' hb)).mono (hl r.1 b)
  · cases hrun : x.run s with
    | error e =>
      rw [StateT.run_bind, hrun] at hb
      cases hb
    | ok r =>
      rw [hbind f hrun] at hb
      obtain ⟨-, hs', hobeys⟩ := hnext hs hrun
      exact hobeys.gives hs' b s'' hb
  · cases hrun : x.run s with
    | error e' =>
      rw [StateT.run_bind, hrun] at he
      cases he
      exact hx.fails hs e hrun
    | ok r =>
      rw [hbind f hrun] at he
      obtain ⟨-, hs', hobeys⟩ := hnext hs hrun
      exact hobeys.fails hs' e he

/-- The tokens that come later are enough. -/
theorem Obeys.seq (hx : Obeys S m s c x y P)
    (hf : ∀ a s' d, s.Reaches (m a) s' → P a d → Obeys S k s' d (f a) (g a) Q) :
    Obeys S k s c (x >>= f) (y >>= g) Q :=
  hx.bind hf fun a b => Nat.le_add_left (k b) (m a)

/-- The tokens that come first are enough. -/
theorem Obeys.first {j : Nat} (hx : Obeys S (fun _ => j) s c x y P)
    (hf : ∀ a s' d, s.Reaches j s' → P a d → Obeys S (fun _ => 0) s' d (f a) (g a) Q) :
    Obeys S (fun _ => j) s c (x >>= f) (y >>= g) Q :=
  hx.bind hf fun _ _ => Nat.le_refl j

section Quiet

variable {P : α → Prop}

/-- Behind a parser that captures nothing. -/
theorem Obeys.next (hx : Obeys S m s c x y (Quiet c P))
    (hf : ∀ a s', s.Reaches (m a) s' → P a → Obeys S k s' c (f a) (g a) Q) :
    Obeys S k s c (x >>= f) (y >>= g) Q :=
  hx.seq fun a s' _ hs ha => ha.1 ▸ hf a s' hs ha.2

/-- Behind a parser that captures nothing, where the tokens that come first are enough. -/
theorem Obeys.after {j : Nat} (hx : Obeys S (fun _ => j) s c x y (Quiet c P))
    (hf : ∀ a s', s.Reaches j s' → P a → Obeys S (fun _ => 0) s' c (f a) (g a) Q) :
    Obeys S (fun _ => j) s c (x >>= f) (y >>= g) Q :=
  hx.first fun a s' _ hs ha => ha.1 ▸ hf a s' hs ha.2

theorem obeys_done {a : α} (hn : n a = 0) (h : P a) :
    Obeys S n s c (pure a) (pure a) (Quiet c P) :=
  obeys_pure hn ⟨rfl, h⟩

end Quiet

/-- A parser that only looks at the stream. -/
theorem obeys_look {a : α} (h : x.run s = .ok (a, s))
    (hf : ∀ b, b = a → s.Fits S c → Obeys S k s c (f b) (g b) Q) :
    Obeys S k s c (x >>= f) (x >>= g) Q := by
  have hbind (h' : α → Parser β) : (x >>= h').run s = (h' a).run s := by
    rw [StateT.run_bind, h]
    rfl
  refine ⟨fun hs => ⟨?_, fun b s' hrun => ?_⟩, fun hs b s' hrun => ?_, fun hs e hrun => ?_⟩
  · rw [hbind, hbind]
    exact ((hf a rfl hs).agree hs).run_eq
  · rw [hbind] at hrun
    exact ((hf a rfl hs).agree hs).reaches b s' hrun
  · rw [hbind] at hrun
    exact (hf a rfl hs).gives hs b s' hrun
  · rw [hbind] at hrun
    exact (hf a rfl hs).fails hs e hrun

/-- A parser that decides obeys a scheme if it does in both cases. -/
theorem Obeys.ite {p : Prop} [Decidable p] {x' y' : Parser α} (hx : p → Obeys S n s c x x' P)
    (hy : ¬ p → Obeys S n s c y y' P) :
    Obeys S n s c (if p then x else y) (if p then x' else y') P := by
  split
  · exact hx ‹_›
  · exact hy ‹_›

variable [hS : S.Closed]

/-! ## Complaints -/

/-- A complaint at a known place is an error that the scheme knows of. -/
theorem obeys_throw {e : Error} {span : Span} (he : Grammar.Complaint e span) (h : S.span span) :
    Obeys S n s c (throw e) (throw e) P :=
  obeys_of_error rfl fun _ => hS.complaint he h

theorem obeys_unexpected (expected : String) :
    Obeys S n s c (unexpected expected) (unexpected expected) P :=
  obeys_of_error rfl fun hs => hS.complaint (.unexpectedToken _ _ _) hs.current.1

theorem obeys_misplaced (what : Misplacement) {span : Span} (h : S.span span) :
    Obeys S n s c (misplaced what span) (misplaced what span) P :=
  obeys_throw (.misplaced what span) h

/-- What does not pass a check is refused in place. -/
theorem Obeys.unless {p : Prop} [Decidable p] {what : Misplacement} {span : Span}
    {rest rest' : PUnit → Parser α} (hspan : S.span span)
    (h : ¬ p → Obeys S n s c (rest ⟨⟩) (rest' ⟨⟩) P) :
    Obeys S n s c (if p then misplaced what span >>= rest else rest ⟨⟩)
      (if p then misplaced what span >>= rest' else rest' ⟨⟩) P :=
  .ite (fun _ => (obeys_misplaced what hspan (n := fun _ => 0) (P := fun _ _ => False)).seq
    fun _ _ _ _ hfalse => hfalse.elim) h

/-! ## Single tokens -/

omit hS in
/-- Of the token to be read next is known what the scheme says. -/
theorem obeys_current {f g : Token → Parser β}
    (hf : ∀ t, t = s.current → S.token t → Obeys S k s c (f t) (g t) Q) :
    Obeys S k s c (current >>= f) (current >>= g) Q :=
  obeys_look rfl fun t ht hs => hf t ht (ht ▸ hs.current)

omit hS in
theorem obeys_advance {j : Nat} (h : s.Reaches j s.advance) :
    Obeys S (fun _ => j) s c advance advance (Quiet c S.token) := by
  refine ⟨fun _ => ⟨rfl, fun t s' hrun => ?_⟩, fun hs t s' hrun => ?_, fun _ e hrun => ?_⟩
  · cases hrun
    exact h
  · cases hrun
    exact ⟨s.captures_advance.trans hs.captures, hs.current⟩
  · cases hrun

/-- A token that is asked for is read, or its absence complained of. -/
theorem obeys_expect {kind : TokenKind} (hkind : kind ≠ .eof) (s : Stream) :
    Obeys S (fun _ => 1) s c (expect kind) (expect kind) (Quiet c S.token) := by
  refine obeys_look rfl fun b hb _ => .ite (fun htrue => obeys_advance ?_) fun _ =>
    obeys_unexpected _
  have hcurrent : s.current.kind = kind := eq_of_beq (hb.symm.trans htrue)
  exact Stream.reaches_advance rfl (hcurrent ▸ hkind)

theorem obeys_symbol (symbol : Symbol) (s : Stream) :
    Obeys S (fun _ => 1) s c (Parser.symbol symbol) (Parser.symbol symbol) (Quiet c S.token) :=
  obeys_expect (by simp) s

omit hS in
/-- A token that may be there is read if it is. -/
theorem obeys_consume {kind : TokenKind} (hkind : kind ≠ .eof) (s : Stream) :
    Obeys S Bool.toNat s c (consume kind) (consume kind) (Quiet c fun _ => True) := by
  refine obeys_look rfl fun b hb _ => .ite (fun htrue => ?_) fun _ => obeys_done rfl trivial
  have hcurrent : s.current.kind = kind := eq_of_beq (hb.symm.trans htrue)
  have hread := Stream.reaches_advance rfl (hcurrent ▸ hkind)
  exact ((obeys_advance hread).after fun _ _ _ _ => obeys_done rfl trivial).mono Bool.toNat_le
    fun _ _ => id

omit hS in
theorem obeys_consumeSymbol (symbol : Symbol) (s : Stream) :
    Obeys S Bool.toNat s c (consumeSymbol symbol) (consumeSymbol symbol)
      (Quiet c fun _ => True) :=
  obeys_consume (by simp) s

omit hS in
/-- A parser that sets the count of captures. -/
theorem obeys_count {x : Parser PUnit} {count : Option Nat}
    (h : x.run s = .ok (⟨⟩, { s with captures := count })) :
    Obeys S (fun _ => 0) s c x x fun _ d => d = count := by
  refine ⟨fun _ => ⟨rfl, fun _ s' hrun => ?_⟩, fun _ _ s' hrun => ?_, fun _ e hrun => ?_⟩
  · cases h.symm.trans hrun
    exact s.reaches_captures count
  · cases h.symm.trans hrun
    rfl
  · cases h.symm.trans hrun

/-- A node is made of its parts at the end of its text. -/
theorem obeys_spanned {start : Span} {f : Span → α} (s : Stream) (hstart : S.span start)
    (h : ∀ span, S.span span → P (f span) c) :
    Obeys S (fun _ => 0) s c (do return f (← spanFrom start))
      (do return f (← spanFrom start)) P := by
  refine obeys_look (a := start.merge s.previous) rfl fun span hspan hs =>
    obeys_pure rfl (h span ?_)
  rw [hspan]
  exact hS.merge hstart hs.previous

/-! ## Recursion -/

/-- Two bodies obey a scheme from a place on if they do with inner calls that obey it behind.  `I`
is what is known of the argument of every call. -/
theorem obeys_fix {body body' : (α → Parser β) → α → Parser β} {I : α → Option Nat → Prop}
    {Q : α → Option Nat → β → Option Nat → Prop}
    (h : ∀ s', s.Reaches 0 s' → ∀ again again',
      (∀ a s'' d, s'.Reaches 1 s'' → I a d → Obeys S k s'' d (again a) (again' a) (Q a d)) →
      ∀ a d, I a d → Obeys S k s' d (body again a) (body' again' a) (Q a d))
    {a : α} (ha : I a c) : Obeys S k s c (fix body a) (fix body' a) (Q a c) := by
  -- both are given the same fuel, so whether it is enough does not matter here
  have hfixAt (fuel : Nat) : ∀ a s' d, s.Reaches 0 s' → I a d →
      Obeys S k s' d (fixAt body fuel a) (fixAt body' fuel a) (Q a d) := by
    induction fuel with
    | zero => exact fun _ _ _ _ _ => obeys_unexpected _
    | succ fuel ih =>
      intro a s' d hs ha
      refine h s' hs _ _ (fun a s'' d hs' ha => ih a s'' d ?_ ha) a d ha
      exact (hs.trans hs').mono (Nat.zero_le _)
  exact obeys_look rfl fun _ _ _ => hfixAt _ a s c (.refl s) ha

/-- What a round of a loop reads at least: a token, if another round follows. -/
def perRound : α ⊕ β → Nat
  | .inl _ => 1
  | .inr _ => 0

theorem perRound_le (r : α ⊕ β) : perRound r ≤ 1 := by
  cases r <;> simp [perRound]

/-- What holds between the rounds of a loop, or of its result. -/
def Between (I : α → Option Nat → Prop) (Q : β → Option Nat → Prop) : α ⊕ β → Option Nat → Prop
  | .inl a, d => I a d
  | .inr b, d => Q b d

omit hS in
theorem Obeys.round {x y : Parser (α ⊕ β)} {P : α ⊕ β → Option Nat → Prop}
    (h : Obeys S (fun _ => 1) s c x y P) : Obeys S perRound s c x y P :=
  h.mono perRound_le fun _ _ => id

/-- One round of a loop and those behind it. -/
def rounds (step : α → Parser (α ⊕ β)) (again : α → Parser β) (a : α) : Parser β := do
  match ← step a with
  | .inl a => again a
  | .inr b => return b

theorem loop_eq_fix (step : α → Parser (α ⊕ β)) : loop step = fix (rounds step) := rfl

section Loop

variable {step step' : α → Parser (α ⊕ β)} {I : α → Option Nat → Prop}

omit hS in
/-- A loop obeys a scheme if a round does, and the rounds behind it on a shorter stream. -/
theorem obeys_rounds {again again' : α → Parser β} {a : α}
    (h : Obeys S perRound s c (step a) (step' a) (Between I Q))
    (hagain : ∀ a s' d, s.Reaches 1 s' → I a d →
      Obeys S (fun _ => 0) s' d (again a) (again' a) Q) :
    Obeys S (fun _ => 0) s c (rounds step again a) (rounds step' again' a) Q := by
  refine h.seq fun r s' d hs hr => ?_
  cases r with
  | inl a => exact hagain a s' d hs hr
  | inr b => exact obeys_pure rfl hr

/-- `I` holds before every round of a loop. -/
theorem obeys_loop
    (h : ∀ a s' d, s.Reaches 0 s' → I a d →
      Obeys S perRound s' d (step a) (step' a) (Between I Q))
    {a : α} (ha : I a c) : Obeys S (fun _ => 0) s c (loop step a) (loop step' a) Q := by
  rw [loop_eq_fix, loop_eq_fix]
  refine obeys_fix (I := I) (Q := fun _ _ => Q) (fun s' hs again again' hagain a d ha => ?_) ha
  exact obeys_rounds (h a s' d hs ha) hagain

/-- A loop whose last round reads a token, too. -/
theorem obeys_loop_of_reads
    (h : ∀ a s' d, s.Reaches 0 s' → I a d →
      Obeys S (fun _ => 1) s' d (step a) (step' a) (Between I Q))
    {a : α} (ha : I a c) : Obeys S (fun _ => 1) s c (loop step a) (loop step' a) Q := by
  rw [loop_eq_fix, loop_eq_fix]
  refine obeys_fix (I := I) (Q := fun _ _ => Q) (fun s' hs again again' hagain a d ha => ?_) ha
  refine (h a s' d hs ha).first fun r s'' d' hs' hr => ?_
  cases r with
  | inl a => exact (hagain a s'' d' hs' hr).weaken
  | inr b => exact obeys_pure rfl hr

end Loop

/-! ## Lists -/

/-- One item of a list with the comma behind it, or the end of the list. -/
def commaStep (closing : TokenKind) (item : List α → Parser α) (read : List α) :
    Parser (List α ⊕ List α) := do
  if (← check closing) || (← atEnd) then return .inr read
  let x ← item read
  if ← consumeSymbol .comma then return .inl (read ++ [x])
  else return .inr (read ++ [x])

theorem commaList_eq_loop (closing : TokenKind) (item : List α → Parser α) :
    commaList closing item = loop (commaStep closing item) [] := rfl

section CommaList

variable {closing : TokenKind} {item item' : List α → Parser α} {I : List α → Option Nat → Prop}

omit hS in
theorem obeys_commaStep {read : List α} (hread : I read c)
    (h : Obeys S (fun _ => 1) s c (item read) (item' read) fun x d => I (read ++ [x]) d) :
    Obeys S perRound s c (commaStep closing item read) (commaStep closing item' read)
      (Between I I) := by
  refine obeys_look rfl fun _ _ _ => obeys_look rfl fun _ _ _ =>
    .ite (fun _ => obeys_pure rfl hread) fun _ => ?_
  refine .round (h.first fun x s' d _ hx => (obeys_consumeSymbol .comma s').next
    fun _ _ _ _ => ?_)
  exact .ite (fun _ => obeys_pure rfl hx) fun _ => obeys_pure rfl hx

/-- `I` holds of the items read so far. -/
theorem obeys_commaList (hnil : I [] c)
    (h : ∀ read s' d, s.Reaches 0 s' → I read d →
      Obeys S (fun _ => 1) s' d (item read) (item' read) fun x e => I (read ++ [x]) e) :
    Obeys S (fun _ => 0) s c (commaList closing item) (commaList closing item') I := by
  rw [commaList_eq_loop, commaList_eq_loop]
  exact obeys_loop (fun read s' d hs hread => obeys_commaStep hread (h read s' d hs hread)) hnil

end CommaList

/-! ## Inner calls -/

/-- Two parsers obey a scheme, and read a token, at all places that are `j` or more tokens behind
`s` and where the count of captures is as `I` says.  What they give stands between the counts before
and behind it as `R` says. -/
def ObeysFrom (S : Scheme) (j : Nat) (s : Stream) (x y : Parser α) (I : Option Nat → Prop)
    (R : Option Nat → α → Option Nat → Prop) : Prop :=
  ∀ s' c, s.Reaches j s' → I c → Obeys S (fun _ => 1) s' c x y (R c)

section From

variable {I : Option Nat → Prop} {R : Option Nat → α → Option Nat → Prop} {i j : Nat} {s' : Stream}

omit hS

theorem ObeysFrom.here (h : ObeysFrom S 0 s x y I R) (hc : I c) :
    Obeys S (fun _ => 1) s c x y (R c) :=
  h s c (.refl s) hc

theorem ObeysFrom.weaken (h : ObeysFrom S 0 s x y I R) : ObeysFrom S j s x y I R :=
  fun s' c hs => h s' c (hs.mono (Nat.zero_le j))

theorem ObeysFrom.later (h : ObeysFrom S j s x y I R) (hs : s.Reaches i s') :
    ObeysFrom S j s' x y I R :=
  fun s'' c hs' => h s'' c ((hs.trans hs').mono (Nat.le_add_left j i))

theorem ObeysFrom.behind (h : ObeysFrom S j s x y I R) (hs : s.Reaches j s') :
    ObeysFrom S 0 s' x y I R :=
  fun s'' c hs' => h s'' c (hs.trans hs')

end From

/-- Expressions may stand inside and outside of conditions. -/
abbrev ExprFrom (S : Scheme) (j : Nat) (s : Stream) (x y : Parser Expr) : Prop :=
  ObeysFrom S j s x y (fun _ => True) S.expr

/-- Statements stand outside of conditions.  Nothing is given for an empty one. -/
abbrev StmtFrom (S : Scheme) (j : Nat) (s : Stream) (place : Place) (x y : Parser (Option Stmt)) :
    Prop :=
  ObeysFrom S j s x y S.outside fun _ => S.leaves fun o => ∀ stmt ∈ o, S.stmt place stmt

end Parser

end EdgeScript
