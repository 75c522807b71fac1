import Mathlib.Data.List.Forall2
import EdgeScript.Expr
import EdgeScript.Proofs.Pass

/-!
# Rebuilding trees

Folding, substitution and the expansion of calls go through an expression from its leaves up and put
something in the place of every node (`Expr.bottomUp`, and `Expr.bottomUpM` with effects).  To
relate the old tree to the new one it is enough to look at a single node: if the parts of the new
node stand in the relation to those of the old one (`Rebuilt`), then so does what is put in its
place.
-/

set_option autoImplicit false

namespace EdgeScript.Expr

/-- Two nodes that differ only in their parts, which stand in a relation. -/
inductive Rebuilt (R : Expr → Expr → Prop) : Expr → Expr → Prop
  | lit {value : Literal} {span : Span} : Rebuilt R (.lit value span) (.lit value span)
  | ident {id : Ident} : Rebuilt R (.ident id) (.ident id)
  | binary {op : BinOp} {left left' right right' : Expr} {span : Span} (hleft : R left left')
      (hright : R right right') :
      Rebuilt R (.binary op left right span) (.binary op left' right' span)
  | unary {op : UnOp} {operand operand' : Expr} {span : Span} (h : R operand operand') :
      Rebuilt R (.unary op operand span) (.unary op operand' span)
  | test {op : MatchOp} {subject subject' pattern pattern' : Expr} {capture : Option Ident}
      {span : Span} (hsubject : R subject subject') (hpattern : R pattern pattern') :
      Rebuilt R (.test op subject pattern capture span) (.test op subject' pattern' capture span)
  | call {callee : Ident} {args args' : List Expr} {span : Span} (h : List.Forall₂ R args args') :
      Rebuilt R (.call callee args span) (.call callee args' span)
  | index {target target' key key' : Expr} {span : Span} (htarget : R target target')
      (hkey : R key key') : Rebuilt R (.index target key span) (.index target' key' span)
  | range {first first' last last' : Expr} {span : Span} (hfirst : R first first')
      (hlast : R last last') : Rebuilt R (.range first last span) (.range first' last' span)
  | array {elements elements' : List Expr} {span : Span} (h : List.Forall₂ R elements elements') :
      Rebuilt R (.array elements span) (.array elements' span)
  | dict {entries entries' : List (Expr × Expr)} {span : Span}
      (h : List.Forall₂ (fun old new => R old.1 new.1 ∧ R old.2 new.2) entries entries') :
      Rebuilt R (.dict entries span) (.dict entries' span)

variable {R : Expr → Expr → Prop}

section Pure

variable {f : Expr → Expr}

mutual

/-- A relation that goes through the rebuilding of one node goes through all of an expression. -/
theorem rel_bottomUp (hf : ∀ {e e'}, Rebuilt R e e' → R e (f e')) : ∀ e, R e (bottomUp f e)
  | .lit _ _ => hf .lit
  | .ident _ => hf .ident
  | .binary _ left right _ => hf (.binary (rel_bottomUp hf left) (rel_bottomUp hf right))
  | .unary _ operand _ => hf (.unary (rel_bottomUp hf operand))
  | .test _ subject pattern _ _ => hf (.test (rel_bottomUp hf subject) (rel_bottomUp hf pattern))
  | .call _ args _ => hf (.call (rel_bottomUpAll hf args))
  | .index target key _ => hf (.index (rel_bottomUp hf target) (rel_bottomUp hf key))
  | .range first last _ => hf (.range (rel_bottomUp hf first) (rel_bottomUp hf last))
  | .array elements _ => hf (.array (rel_bottomUpAll hf elements))
  | .dict entries _ => hf (.dict (rel_bottomUpEntries hf entries))

theorem rel_bottomUpAll (hf : ∀ {e e'}, Rebuilt R e e' → R e (f e')) :
    ∀ es, List.Forall₂ R es (bottomUpAll f es)
  | [] => .nil
  | e :: es => .cons (rel_bottomUp hf e) (rel_bottomUpAll hf es)

theorem rel_bottomUpEntries (hf : ∀ {e e'}, Rebuilt R e e' → R e (f e')) :
    ∀ entries, List.Forall₂ (fun old new => R old.1 new.1 ∧ R old.2 new.2) entries
      (bottomUpEntries f entries)
  | [] => .nil
  | (key, value) :: entries =>
    .cons ⟨rel_bottomUp hf key, rel_bottomUp hf value⟩ (rel_bottomUpEntries hf entries)

end

end Pure

section Effects

open Pass

variable {σ : Type} {P : σ → Prop} {f : Expr → Pass σ Expr}

mutual

/-- The same with effects; `P` is what is known of the state at every node. -/
theorem rel_bottomUpM
    (hf : ∀ {e e' r s s'}, Rebuilt R e e' → P s → Gives (f e') s r s' → P s' ∧ R e r) :
    ∀ e {s r s'}, P s → Gives (bottomUpM f e) s r s' → P s' ∧ R e r
  | .lit value span, s, r, s', hs, h => by
    rw [bottomUpM] at h
    exact hf .lit hs h
  | .ident id, s, r, s', hs, h => by
    rw [bottomUpM] at h
    exact hf .ident hs h
  | .binary op left right span, s, r, s', hs, h => by
    rw [bottomUpM] at h
    obtain ⟨left', t, hleft, h⟩ := gives_bind.1 h
    obtain ⟨right', u, hright, h⟩ := gives_bind.1 h
    obtain ⟨ht, hleft⟩ := rel_bottomUpM hf left hs hleft
    obtain ⟨hu, hright⟩ := rel_bottomUpM hf right ht hright
    exact hf (.binary hleft hright) hu h
  | .unary op operand span, s, r, s', hs, h => by
    rw [bottomUpM] at h
    obtain ⟨operand', t, hoperand, h⟩ := gives_bind.1 h
    obtain ⟨ht, hoperand⟩ := rel_bottomUpM hf operand hs hoperand
    exact hf (.unary hoperand) ht h
  | .test op subject pattern capture span, s, r, s', hs, h => by
    rw [bottomUpM] at h
    obtain ⟨subject', t, hsubject, h⟩ := gives_bind.1 h
    obtain ⟨pattern', u, hpattern, h⟩ := gives_bind.1 h
    obtain ⟨ht, hsubject⟩ := rel_bottomUpM hf subject hs hsubject
    obtain ⟨hu, hpattern⟩ := rel_bottomUpM hf pattern ht hpattern
    exact hf (.test hsubject hpattern) hu h
  | .call callee args span, s, r, s', hs, h => by
    rw [bottomUpM] at h
    obtain ⟨args', t, hargs, h⟩ := gives_bind.1 h
    obtain ⟨ht, hargs⟩ := rel_bottomUpAllM hf args hs hargs
    exact hf (.call hargs) ht h
  | .index target key span, s, r, s', hs, h => by
    rw [bottomUpM] at h
    obtain ⟨target', t, htarget, h⟩ := gives_bind.1 h
    obtain ⟨key', u, hkey, h⟩ := gives_bind.1 h
    obtain ⟨ht, htarget⟩ := rel_bottomUpM hf target hs htarget
    obtain ⟨hu, hkey⟩ := rel_bottomUpM hf key ht hkey
    exact hf (.index htarget hkey) hu h
  | .range first last span, s, r, s', hs, h => by
    rw [bottomUpM] at h
    obtain ⟨first', t, hfirst, h⟩ := gives_bind.1 h
    obtain ⟨last', u, hlast, h⟩ := gives_bind.1 h
    obtain ⟨ht, hfirst⟩ := rel_bottomUpM hf first hs hfirst
    obtain ⟨hu, hlast⟩ := rel_bottomUpM hf last ht hlast
    exact hf (.range hfirst hlast) hu h
  | .array elements span, s, r, s', hs, h => by
    rw [bottomUpM] at h
    obtain ⟨elements', t, helements, h⟩ := gives_bind.1 h
    obtain ⟨ht, helements⟩ := rel_bottomUpAllM hf elements hs helements
    exact hf (.array helements) ht h
  | .dict entries span, s, r, s', hs, h => by
    rw [bottomUpM] at h
    obtain ⟨entries', t, hentries, h⟩ := gives_bind.1 h
    obtain ⟨ht, hentries⟩ := rel_bottomUpEntriesM hf entries hs hentries
    exact hf (.dict hentries) ht h

theorem rel_bottomUpAllM
    (hf : ∀ {e e' r s s'}, Rebuilt R e e' → P s → Gives (f e') s r s' → P s' ∧ R e r) :
    ∀ es {s rs s'}, P s → Gives (bottomUpAllM f es) s rs s' → P s' ∧ List.Forall₂ R es rs
  | [], s, rs, s', hs, h => by
    rw [bottomUpAllM] at h
    obtain ⟨rfl, rfl⟩ := gives_pure.1 h
    exact ⟨hs, .nil⟩
  | e :: es, s, rs, s', hs, h => by
    rw [bottomUpAllM] at h
    obtain ⟨e', t, he, h⟩ := gives_bind.1 h
    obtain ⟨es', u, hes, h⟩ := gives_bind.1 h
    obtain ⟨rfl, rfl⟩ := gives_pure.1 h
    obtain ⟨ht, he⟩ := rel_bottomUpM hf e hs he
    obtain ⟨hu, hes⟩ := rel_bottomUpAllM hf es ht hes
    exact ⟨hu, .cons he hes⟩

theorem rel_bottomUpEntriesM
    (hf : ∀ {e e' r s s'}, Rebuilt R e e' → P s → Gives (f e') s r s' → P s' ∧ R e r) :
    ∀ entries {s rs s'}, P s → Gives (bottomUpEntriesM f entries) s rs s' →
      P s' ∧ List.Forall₂ (fun old new => R old.1 new.1 ∧ R old.2 new.2) entries rs
  | [], s, rs, s', hs, h => by
    rw [bottomUpEntriesM] at h
    obtain ⟨rfl, rfl⟩ := gives_pure.1 h
    exact ⟨hs, .nil⟩
  | (key, value) :: entries, s, rs, s', hs, h => by
    rw [bottomUpEntriesM] at h
    obtain ⟨key', t, hkey, h⟩ := gives_bind.1 h
    obtain ⟨value', u, hvalue, h⟩ := gives_bind.1 h
    obtain ⟨entries', v, hentries, h⟩ := gives_bind.1 h
    obtain ⟨rfl, rfl⟩ := gives_pure.1 h
    obtain ⟨ht, hkey⟩ := rel_bottomUpM hf key hs hkey
    obtain ⟨hu, hvalue⟩ := rel_bottomUpM hf value ht hvalue
    obtain ⟨hv, hentries⟩ := rel_bottomUpEntriesM hf entries hu hentries
    exact ⟨hv, .cons ⟨hkey, hvalue⟩ hentries⟩

end

end Effects

end EdgeScript.Expr
