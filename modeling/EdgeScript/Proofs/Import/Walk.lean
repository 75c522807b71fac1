import EdgeScript.Import.Expand
import EdgeScript.Import.Requests
import EdgeScript.Proofs.Pass

/-!
# Walking through the requests of a script

The expansion of imports goes through a script and does something at its `require`s only.  It can
therefore be told in two parts: the `Request`s in the order of the walk (`Stmt.requestsIn`), which
are answered one after the other, and the script with the answers in the places of the requests
(`Stmt.fill`).  `Importer.expandStmts_eq` says so of `Importer.expandStmts`.

There are two orders.  In the order of the text the body of an attempt comes before its handler; the
expansion goes through the handler first.  The orders agree on a script in which no attempt has
requests on both sides (`Stmt.OneSided`).
-/

set_option autoImplicit false

namespace EdgeScript

/-- A `require` of a script. -/
structure Request where
  path : String
  force : Bool
  span : Span
deriving DecidableEq, Repr

/-- Which side of an attempt a walk takes first: the body, as in the text, or the handler. -/
inductive WalkOrder where
  | textual
  | handlerFirst
deriving DecidableEq, Repr

namespace WalkOrder

variable {α : Type}

/-- What is met in the body and in the handler of an attempt, in the order of the walk. -/
def join (order : WalkOrder) (body handler : List α) : List α :=
  match order with
  | .textual => body ++ handler
  | .handlerFirst => handler ++ body

/-- The inverse of `join`, given how much is met in the body and in the handler. -/
def split (order : WalkOrder) (body handler : Nat) (met : List α) : List α × List α :=
  match order with
  | .textual => (met.take body, met.drop body)
  | .handlerFirst => (met.drop handler, met.take handler)

theorem mem_join {order : WalkOrder} {body handler : List α} {a : α} :
    a ∈ order.join body handler ↔ a ∈ body ∨ a ∈ handler := by
  cases order with
  | textual => exact List.mem_append
  | handlerFirst => exact List.mem_append.trans or_comm

end WalkOrder

namespace Stmt

mutual

/-- The requests of a statement in the order of a walk. -/
def requestsIn (order : WalkOrder) : Stmt → List Request
  | .require path force span => [⟨path, force, span⟩]
  | .function _ _ _ body _ => requestsInAll order body
  | .ifChain branches (some body) _ =>
    requestsInBranches order branches ++ requestsInAll order body
  | .ifChain branches none _ => requestsInBranches order branches
  | .forLoop _ _ body _ => requestsInAll order body
  | .attempt body (some handler) _ =>
    order.join (requestsInAll order body) (requestsInAll order handler)
  | .attempt body none _ => requestsInAll order body
  | .block body _ => requestsInAll order body
  | .atom _ | .breakLoop _ => []

/-- The requests of a sequence of statements in the order of a walk. -/
def requestsInAll (order : WalkOrder) : List Stmt → List Request
  | [] => []
  | s :: rest => requestsIn order s ++ requestsInAll order rest

/-- The requests in the bodies of branches in the order of a walk. -/
def requestsInBranches (order : WalkOrder) : List (Branch Stmt) → List Request
  | [] => []
  | ⟨_, body, _⟩ :: rest => requestsInAll order body ++ requestsInBranches order rest

end

mutual

/-- In the order of the text, the requests of a statement are those that are listed of it. -/
theorem requests_eq_map : ∀ s, requests s = (requestsIn .textual s).map Request.path
  | .require path force span => by rw [requests, requestsIn]; rfl
  | .function name params isInline body span => by
    rw [requests, requestsIn, requestsAll_eq_map body]
  | .ifChain branches (some body) span => by
    rw [requests, requestsIn, List.map_append, requestsBranches_eq_map branches,
      requestsAll_eq_map body]
  | .ifChain branches none span => by
    rw [requests, requestsIn, requestsBranches_eq_map branches]
  | .forLoop var collection body span => by rw [requests, requestsIn, requestsAll_eq_map body]
  | .attempt body (some handler) span => by
    rw [requests, requestsIn, WalkOrder.join, List.map_append, requestsAll_eq_map body,
      requestsAll_eq_map handler]
  | .attempt body none span => by rw [requests, requestsIn, requestsAll_eq_map body]
  | .block body span => by rw [requests, requestsIn, requestsAll_eq_map body]
  | .atom a => by rw [requests, requestsIn]; rfl
  | .breakLoop span => by rw [requests, requestsIn]; rfl

/-- The textual order is that of the text. -/
theorem requestsAll_eq_map :
    ∀ stmts, requestsAll stmts = (requestsInAll .textual stmts).map Request.path
  | [] => by rw [requestsAll, requestsInAll]; rfl
  | s :: rest => by
    rw [requestsAll, requestsInAll, List.map_append, requests_eq_map s, requestsAll_eq_map rest]

theorem requestsBranches_eq_map :
    ∀ branches, requestsBranches branches = (requestsInBranches .textual branches).map Request.path
  | [] => by rw [requestsBranches, requestsInBranches]; rfl
  | ⟨cond, body, span⟩ :: rest => by
    rw [requestsBranches, requestsInBranches, List.map_append, requestsAll_eq_map body,
      requestsBranches_eq_map rest]

end

mutual

/-- A statement with `parts`, in the order of the walk, in the places of its requests. -/
def fill (order : WalkOrder) : Stmt → List (List Stmt) → List Stmt
  | .require .., parts => parts.headD []
  | .function name params isInline body span, parts =>
    [.function name params isInline (fillAll order body parts) span]
  | .ifChain branches (some body) span, parts =>
    let n := (requestsInBranches order branches).length
    [.ifChain (fillBranches order branches (parts.take n))
      (some (fillAll order body (parts.drop n))) span]
  | .ifChain branches none span, parts => [.ifChain (fillBranches order branches parts) none span]
  | .forLoop var collection body span, parts =>
    [.forLoop var collection (fillAll order body parts) span]
  | .attempt body (some handler) span, parts =>
    let sides := order.split (requestsInAll order body).length (requestsInAll order handler).length
      parts
    [.attempt (fillAll order body sides.1) (some (fillAll order handler sides.2)) span]
  | .attempt body none span, parts => [.attempt (fillAll order body parts) none span]
  | .block body span, parts => [.block (fillAll order body parts) span]
  | .atom a, _ => [.atom a]
  | .breakLoop span, _ => [.breakLoop span]

/-- Statements with `parts` in the places of their requests. -/
def fillAll (order : WalkOrder) : List Stmt → List (List Stmt) → List Stmt
  | [], _ => []
  | s :: rest, parts =>
    let n := (requestsIn order s).length
    fill order s (parts.take n) ++ fillAll order rest (parts.drop n)

/-- Branches with `parts` in the places of the requests in their bodies. -/
def fillBranches (order : WalkOrder) : List (Branch Stmt) → List (List Stmt) → List (Branch Stmt)
  | [], _ => []
  | ⟨cond, body, span⟩ :: rest, parts =>
    let n := (requestsInAll order body).length
    ⟨cond, fillAll order body (parts.take n), span⟩ :: fillBranches order rest (parts.drop n)

end

/-! ## Scripts on which the orders agree -/

mutual

/-- No attempt in the statement has requests both in its body and in its handler. -/
def OneSided : Stmt → Prop
  | .function _ _ _ body _ => OneSidedAll body
  | .ifChain branches (some body) _ => OneSidedBranches branches ∧ OneSidedAll body
  | .ifChain branches none _ => OneSidedBranches branches
  | .forLoop _ _ body _ => OneSidedAll body
  | .attempt body (some handler) _ =>
    OneSidedAll body ∧ OneSidedAll handler ∧ (requestsAll body = [] ∨ requestsAll handler = [])
  | .attempt body none _ => OneSidedAll body
  | .block body _ => OneSidedAll body
  | .atom _ | .breakLoop _ | .require .. => True

/-- No attempt in the statements has requests both in its body and in its handler. -/
def OneSidedAll : List Stmt → Prop
  | [] => True
  | s :: rest => OneSided s ∧ OneSidedAll rest

/-- No attempt in the bodies of the branches has requests both in its body and in its handler. -/
def OneSidedBranches : List (Branch Stmt) → Prop
  | [] => True
  | ⟨_, body, _⟩ :: rest => OneSidedAll body ∧ OneSidedBranches rest

end

mutual

/-- If no attempt has requests on both sides, both orders meet the same requests. -/
theorem OneSided.requestsIn_eq :
    ∀ {s}, OneSided s → requestsIn .textual s = requestsIn .handlerFirst s
  | .require .., _ => by rw [requestsIn, requestsIn]
  | .function _ _ _ body _, h => by
    rw [OneSided] at h
    rw [requestsIn, requestsIn, OneSidedAll.requestsIn_eq h]
  | .ifChain branches (some body) _, h => by
    rw [OneSided] at h
    rw [requestsIn, requestsIn, OneSidedBranches.requestsIn_eq h.1, OneSidedAll.requestsIn_eq h.2]
  | .ifChain branches none _, h => by
    rw [OneSided] at h
    rw [requestsIn, requestsIn, OneSidedBranches.requestsIn_eq h]
  | .forLoop _ _ body _, h => by
    rw [OneSided] at h
    rw [requestsIn, requestsIn, OneSidedAll.requestsIn_eq h]
  | .attempt body (some handler) _, h => by
    rw [OneSided, requestsAll_eq_map, requestsAll_eq_map, List.map_eq_nil_iff,
      List.map_eq_nil_iff] at h
    rw [requestsIn, requestsIn, ← OneSidedAll.requestsIn_eq h.1, ← OneSidedAll.requestsIn_eq h.2.1,
      WalkOrder.join, WalkOrder.join]
    rcases h.2.2 with hnil | hnil <;> rw [hnil, List.append_nil, List.nil_append]
  | .attempt body none _, h => by
    rw [OneSided] at h
    rw [requestsIn, requestsIn, OneSidedAll.requestsIn_eq h]
  | .block body _, h => by
    rw [OneSided] at h
    rw [requestsIn, requestsIn, OneSidedAll.requestsIn_eq h]
  | .atom _, _ => by rw [requestsIn, requestsIn]
  | .breakLoop _, _ => by rw [requestsIn, requestsIn]

theorem OneSidedAll.requestsIn_eq :
    ∀ {stmts}, OneSidedAll stmts → requestsInAll .textual stmts = requestsInAll .handlerFirst stmts
  | [], _ => by rw [requestsInAll, requestsInAll]
  | s :: rest, h => by
    rw [OneSidedAll] at h
    rw [requestsInAll, requestsInAll, OneSided.requestsIn_eq h.1, OneSidedAll.requestsIn_eq h.2]

theorem OneSidedBranches.requestsIn_eq :
    ∀ {branches}, OneSidedBranches branches →
      requestsInBranches .textual branches = requestsInBranches .handlerFirst branches
  | [], _ => by rw [requestsInBranches, requestsInBranches]
  | ⟨_, body, _⟩ :: rest, h => by
    rw [OneSidedBranches] at h
    rw [requestsInBranches, requestsInBranches, OneSidedAll.requestsIn_eq h.1,
      OneSidedBranches.requestsIn_eq h.2]

end

mutual

/-- In that case parts are put into the same places in both orders. -/
theorem OneSided.fill_eq :
    ∀ {s parts}, OneSided s → parts.length = (requestsIn .textual s).length →
      fill .textual s parts = fill .handlerFirst s parts
  | .require .., _, _, _ => by rw [fill, fill]
  | .function _ _ _ body _, _, h, hlen => by
    rw [OneSided] at h
    rw [requestsIn] at hlen
    rw [fill, fill, OneSidedAll.fill_eq h hlen]
  | .ifChain branches (some body) _, parts, h, hlen => by
    rw [OneSided] at h
    rw [requestsIn, List.length_append] at hlen
    simp only [fill]
    rw [← OneSidedBranches.requestsIn_eq h.1,
      OneSidedBranches.fill_eq h.1 (by rw [List.length_take]; omega),
      OneSidedAll.fill_eq h.2 (by rw [List.length_drop]; omega)]
  | .ifChain branches none _, _, h, hlen => by
    rw [OneSided] at h
    rw [requestsIn] at hlen
    rw [fill, fill, OneSidedBranches.fill_eq h hlen]
  | .forLoop _ _ body _, _, h, hlen => by
    rw [OneSided] at h
    rw [requestsIn] at hlen
    rw [fill, fill, OneSidedAll.fill_eq h hlen]
  | .attempt body (some handler) _, parts, h, hlen => by
    rw [OneSided, requestsAll_eq_map, requestsAll_eq_map, List.map_eq_nil_iff,
      List.map_eq_nil_iff] at h
    rw [requestsIn, WalkOrder.join, List.length_append] at hlen
    -- one side has no requests and gets no parts, whichever comes first
    have hsplit : WalkOrder.split .handlerFirst (requestsInAll .textual body).length
          (requestsInAll .textual handler).length parts =
        WalkOrder.split .textual (requestsInAll .textual body).length
          (requestsInAll .textual handler).length parts := by
      simp only [WalkOrder.split]
      rcases h.2.2 with hnil | hnil <;> simp only [hnil, List.length_nil] at hlen ⊢ <;>
        simp [List.take_of_length_le, List.drop_of_length_le, hlen]
    simp only [fill]
    rw [← OneSidedAll.requestsIn_eq h.1, ← OneSidedAll.requestsIn_eq h.2.1, hsplit,
      OneSidedAll.fill_eq h.1 (by simp [WalkOrder.split]; omega),
      OneSidedAll.fill_eq h.2.1 (by simp [WalkOrder.split]; omega)]
  | .attempt body none _, _, h, hlen => by
    rw [OneSided] at h
    rw [requestsIn] at hlen
    rw [fill, fill, OneSidedAll.fill_eq h hlen]
  | .block body _, _, h, hlen => by
    rw [OneSided] at h
    rw [requestsIn] at hlen
    rw [fill, fill, OneSidedAll.fill_eq h hlen]
  | .atom _, _, _, _ => by rw [fill, fill]
  | .breakLoop _, _, _, _ => by rw [fill, fill]

theorem OneSidedAll.fill_eq :
    ∀ {stmts parts}, OneSidedAll stmts → parts.length = (requestsInAll .textual stmts).length →
      fillAll .textual stmts parts = fillAll .handlerFirst stmts parts
  | [], _, _, _ => by rw [fillAll, fillAll]
  | s :: rest, parts, h, hlen => by
    rw [OneSidedAll] at h
    rw [requestsInAll, List.length_append] at hlen
    simp only [fillAll]
    rw [← OneSided.requestsIn_eq h.1, OneSided.fill_eq h.1 (by rw [List.length_take]; omega),
      OneSidedAll.fill_eq h.2 (by rw [List.length_drop]; omega)]

theorem OneSidedBranches.fill_eq :
    ∀ {branches parts}, OneSidedBranches branches →
      parts.length = (requestsInBranches .textual branches).length →
      fillBranches .textual branches parts = fillBranches .handlerFirst branches parts
  | [], _, _, _ => by rw [fillBranches, fillBranches]
  | ⟨_, body, _⟩ :: rest, parts, h, hlen => by
    rw [OneSidedBranches] at h
    rw [requestsInBranches, List.length_append] at hlen
    simp only [fillBranches]
    rw [← OneSidedAll.requestsIn_eq h.1, OneSidedAll.fill_eq h.1 (by rw [List.length_take]; omega),
      OneSidedBranches.fill_eq h.2 (by rw [List.length_drop]; omega)]

end

theorem OneSidedAll.requestsIn_congr {stmts : List Stmt} (h : OneSidedAll stmts)
    (order order' : WalkOrder) : requestsInAll order stmts = requestsInAll order' stmts := by
  cases order <;> cases order'
  · rfl
  · exact h.requestsIn_eq
  · exact h.requestsIn_eq.symm
  · rfl

theorem OneSidedAll.fill_congr {stmts : List Stmt} (h : OneSidedAll stmts)
    (order order' : WalkOrder) {parts : List (List Stmt)}
    (hlen : parts.length = (requestsInAll order stmts).length) :
    fillAll order stmts parts = fillAll order' stmts parts := by
  rw [h.requestsIn_congr order .textual] at hlen
  cases order <;> cases order'
  · rfl
  · exact h.fill_eq hlen
  · exact (h.fill_eq hlen).symm
  · rfl

end Stmt

/-! ## The expansion as a walk -/

namespace Importer

/-- Answers requests one after the other; the first that fails is the last. -/
def serve (require : String → Bool → Span → Pass Importer (List Stmt)) (requests : List Request) :
    Pass Importer (List (List Stmt)) :=
  requests.mapM fun r => require r.path r.force r.span

section Walk

variable {α β γ : Type} {require : String → Bool → Span → Pass Importer (List Stmt)}

/-- Requests are served one after the other. -/
theorem serve_cons (r : Request) (rest : List Request) :
    serve require (r :: rest) =
      (do
        let part ← require r.path r.force r.span
        (part :: ·) <$> serve require rest) := by
  rw [serve, List.mapM_cons]
  rfl

/-- Two walks, one after the other, are one walk. -/
theorem serve_append (f : List (List Stmt) → α) (g : List (List Stmt) → β) (k : α → β → γ)
    (first second : List Request) :
    (do
      let a ← f <$> serve require first
      let b ← g <$> serve require second
      pure (k a b) : Pass Importer γ) =
      (fun parts => k (f (parts.take first.length)) (g (parts.drop first.length))) <$>
        serve require (first ++ second) := by
  induction first generalizing f with
  | nil => simp [serve]
  | cons r rest ih =>
    have h := fun part => ih (fun parts => f (part :: parts))
    simp only [bind_map_left] at h ⊢
    simp only [List.cons_append, serve_cons, map_bind, bind_assoc, bind_map_left, Functor.map_map,
      List.length_cons, List.take_succ_cons, List.drop_succ_cons, h]

open Stmt

mutual

/-- Expanding a statement is serving its requests, with the handler of an attempt first, and filling
in what they give. -/
theorem expandStmt_eq : ∀ s, expandStmt require s =
    fill .handlerFirst s <$> serve require (requestsIn .handlerFirst s)
  | .require path force span => by
    rw [expandStmt, requestsIn, serve_cons]
    simp [serve, fill]
  | .block body span => by
    rw [expandStmt, expandStmts_eq body, requestsIn, bind_map_left, bind_pure_comp]
    rfl
  | .ifChain branches (some body) span => by
    rw [expandStmt, expandBranches_eq branches, expandStmts_eq body, requestsIn]
    exact serve_append _ _ (fun branches body => [Stmt.ifChain branches (some body) span]) _ _
  | .ifChain branches none span => by
    rw [expandStmt, expandBranches_eq branches, requestsIn, bind_map_left, bind_pure_comp]
    rfl
  | .attempt body (some handler) span => by
    rw [expandStmt, expandStmts_eq body, expandStmts_eq handler, requestsIn]
    exact serve_append _ _ (fun handler body => [Stmt.attempt body (some handler) span]) _ _
  | .attempt body none span => by
    rw [expandStmt, expandStmts_eq body, requestsIn, bind_map_left, bind_pure_comp]
    rfl
  | .forLoop var collection body span => by
    rw [expandStmt, expandStmts_eq body, requestsIn, bind_map_left, bind_pure_comp]
    rfl
  | .function name params isInline body span => by
    rw [expandStmt, expandStmts_eq body, requestsIn, bind_map_left, bind_pure_comp]
    rfl
  | .atom a => by
    rw [expandStmt, requestsIn]
    simp [serve, fill]
  | .breakLoop span => by
    rw [expandStmt, requestsIn]
    simp [serve, fill]

/-- **The expansion of statements is a walk through their requests**, the handlers of attempts
first. -/
theorem expandStmts_eq : ∀ stmts, expandStmts require stmts =
    fillAll .handlerFirst stmts <$> serve require (requestsInAll .handlerFirst stmts)
  | [] => by
    rw [expandStmts, requestsInAll]
    simp [serve, fillAll]
  | s :: rest => by
    rw [expandStmts, expandStmt_eq s, expandStmts_eq rest, requestsInAll]
    exact serve_append _ _ (fun first rest => first ++ rest) _ _

theorem expandBranches_eq : ∀ branches, expandBranches require branches =
    fillBranches .handlerFirst branches <$>
      serve require (requestsInBranches .handlerFirst branches)
  | [] => by
    rw [expandBranches, requestsInBranches]
    simp [serve, fillBranches]
  | ⟨cond, body, span⟩ :: rest => by
    rw [expandBranches, expandStmts_eq body, expandBranches_eq rest, requestsInBranches]
    exact serve_append _ _ (fun body rest => Branch.mk cond body span :: rest) _ _

end

end Walk

end Importer

end EdgeScript
