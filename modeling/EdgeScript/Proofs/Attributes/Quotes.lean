import EdgeScript.Proofs.Reading.Stmt
import EdgeScript.Proofs.Rendering.Plain
import EdgeScript.Proofs.Rule.Lowering

/-!
# Double quotes in attributes

The value of an attribute is written between double quotes, so it must not have one itself.  Values
of options, conditions and comments have their quotes replaced, and the value of an assignment is
written as the content of its tag if it has one.  The name on the tag of an assignment is written as
it is, with the key if there is one.  So the only quotes in attributes are those in the keys of
assignments, which are not replaced (`Markup.accountedAll_of_ofProgram`).
-/

set_option autoImplicit false

namespace EdgeScript

open Pass

/-! ## Attributes -/

namespace Markup

mutual

/-- All attributes in a piece of markup, each with its tag. -/
def attributes : Markup → List (String × Attribute)
  | .plain _ => []
  | .leaf tag own => own.map (tag, ·)
  | .element tag own content => own.map (tag, ·) ++ attributesAll content

/-- All attributes in pieces of markup. -/
def attributesAll : List Markup → List (String × Attribute)
  | [] => []
  | m :: rest => attributes m ++ attributesAll rest

end

attribute [local simp] attributes attributesAll

theorem attributesAll_append (first second : List Markup) :
    attributesAll (first ++ second) = attributesAll first ++ attributesAll second := by
  induction first with
  | nil => simp
  | cons m rest ih => simp [ih]

theorem attributesAll_plain (texts : List String) : attributesAll (texts.map .plain) = [] := by
  induction texts with
  | nil => simp
  | cons text rest ih => simp [ih]

/-- Where double quotes are replaced, none is left. -/
theorem quote_notMem_replaceQuotes {replacement : String} (h : '"' ∉ replacement.toList)
    (text : String) : '"' ∉ (replaceQuotes replacement text).toList := by
  rw [replaceQuotes, String.toList_join, List.mem_flatMap]
  rintro ⟨piece, hpiece, hquote⟩
  obtain ⟨c, -, rfl⟩ := List.mem_map.1 hpiece
  split at hquote
  · exact h hquote
  · rename_i hc
    exact hc (by simpa [eq_comm] using hquote)

end Markup

theorem Attribute.quote_notMem_processed (name value : String) :
    '"' ∉ (Attribute.processed name value).value.toList :=
  Markup.quote_notMem_replaceQuotes (by decide) value

namespace Stmt

mutual

/-- The atoms of a statement outside of the bodies of functions. -/
def atoms : Stmt → List Atom
  | .atom a => [a]
  | .ifChain branches (some body) _ => atomsBranches branches ++ atomsAll body
  | .ifChain branches none _ => atomsBranches branches
  | .forLoop _ _ body _ => atomsAll body
  | .attempt body (some handler) _ => atomsAll body ++ atomsAll handler
  | .attempt body none _ => atomsAll body
  | .block body _ => atomsAll body
  | .function .. | .breakLoop _ | .require .. => []

/-- The atoms of the statements of a sequence. -/
def atomsAll : List Stmt → List Atom
  | [] => []
  | s :: rest => atoms s ++ atomsAll rest

/-- The atoms of the bodies of branches. -/
def atomsBranches : List (Branch Stmt) → List Atom
  | [] => []
  | ⟨_, body, _⟩ :: rest => atomsAll body ++ atomsBranches rest

end

end Stmt

/-! ## What is written on tags -/

/-- The text by which an atom sets a variable, or an entry of one. -/
def Atom.SetsAs (ctx : RenderContext) : Atom → String → Prop
  | .declare name _ _, text => text = name.name
  | .assign target none _ _, text => text = target.name
  | .assign target (some key) _ _, text =>
    ∃ k, key.render ctx .expression = .ok k ∧ text = target.name ++ "\x7b" ++ k ++ "\x7d"
  | _, _ => False

namespace Markup

variable {ctx : RenderContext}

/-- The attribute has no double quote, or it is the name by which one of the atoms sets
something. -/
def Accounted (ctx : RenderContext) (atoms : List Atom) (x : String × Attribute) : Prop :=
  '"' ∉ x.2.value.toList ∨
    x.1 = "assign" ∧ x.2.name = "name" ∧ ∃ a ∈ atoms, a.SetsAs ctx x.2.value

/-- All attributes are accounted for. -/
def AccountedAll (ctx : RenderContext) (atoms : List Atom) (markup : List Markup) : Prop :=
  ∀ x ∈ attributesAll markup, Accounted ctx atoms x

theorem AccountedAll.mono {atoms atoms' : List Atom} {markup : List Markup}
    (h : AccountedAll ctx atoms markup) (hatoms : atoms ⊆ atoms') :
    AccountedAll ctx atoms' markup :=
  fun x hx => (h x hx).imp_right fun ⟨htag, hname, a, ha, hsets⟩ =>
    ⟨htag, hname, a, hatoms ha, hsets⟩

theorem accountedAll_nil {atoms : List Atom} : AccountedAll ctx atoms [] :=
  fun _ hx => absurd hx List.not_mem_nil

theorem accountedAll_append {atoms : List Atom} {first second : List Markup} :
    AccountedAll ctx atoms (first ++ second) ↔
      AccountedAll ctx atoms first ∧ AccountedAll ctx atoms second := by
  simp [AccountedAll, attributesAll_append, or_imp, forall_and]

/-- An element whose own attributes have no quotes. -/
theorem accountedAll_element {atoms : List Atom} {tag : String} {own : List Attribute}
    {content : List Markup} (hown : ∀ a ∈ own, '"' ∉ a.value.toList)
    (hcontent : AccountedAll ctx atoms content) :
    AccountedAll ctx atoms [.element tag own content] := by
  intro x hx
  rw [attributesAll, attributesAll, attributes, List.append_nil, List.mem_append] at hx
  rcases hx with hx | hx
  · obtain ⟨a, ha, rfl⟩ := List.mem_map.1 hx
    exact .inl (hown a ha)
  · exact hcontent x hx

/-- A tag without quotes in its attributes is accounted for. -/
theorem accountedAll_leaf {atoms : List Atom} {tag : String} {own : List Attribute}
    (hown : ∀ a ∈ own, '"' ∉ a.value.toList) : AccountedAll ctx atoms [.leaf tag own] := by
  intro x hx
  rw [attributesAll, attributesAll, attributes, List.append_nil] at hx
  obtain ⟨a, ha, rfl⟩ := List.mem_map.1 hx
  exact .inl (hown a ha)

theorem accountedAll_plain {atoms : List Atom} (texts : List String) :
    AccountedAll ctx atoms (texts.map .plain) := by
  intro x hx
  rw [attributesAll_plain] at hx
  cases hx

/-- The value of an assignment is written as an attribute only if it has no quote. -/
theorem accountedAll_assignment {a : Atom} {name : String} (h : a.SetsAs ctx name) (text : String) :
    AccountedAll ctx [a] [assignment name text] := by
  have hname : Accounted ctx [a] ("assign", ⟨"name", name⟩) :=
    .inr ⟨rfl, rfl, a, List.mem_singleton_self a, h⟩
  intro x hx
  unfold assignment at hx
  split at hx
  · obtain rfl : x = ("assign", ⟨"name", name⟩) := by simpa [attributesAll, attributes] using hx
    exact hname
  · rename_i hcontent
    obtain rfl | rfl : x = ("assign", ⟨"name", name⟩) ∨ x = ("assign", ⟨"value", text⟩) := by
      simpa [attributesAll, attributes] using hx
    · exact hname
    · have hquote : '"' ∉ text.toList ∧ '\n' ∉ text.toList := by simpa [needsContent] using hcontent
      exact .inl hquote.1

/-! ## Generation -/

theorem forall_mem_of_mapM {α β : Type} {f : α → Except Error β} {Q : β → Prop}
    (hf : ∀ x y, f x = .ok y → Q y) {l : List α} {ys : List β} (h : l.mapM f = .ok ys) :
    ∀ y ∈ ys, Q y := by
  induction l generalizing ys with
  | nil =>
    cases h
    simp
  | cons x l ih =>
    rw [List.mapM_cons] at h
    obtain ⟨y, hy, htail⟩ := Expr.bind_eq_ok.1 h
    obtain ⟨rest, hrest, hys⟩ := Expr.bind_eq_ok.1 htail
    cases hys
    exact List.forall_mem_cons.2 ⟨hf x y hy, ih hrest⟩

theorem quote_notMem_of_optionAttributes {options : List InclusionOption} {key : OptionKey}
    {own : List Attribute} (h : optionAttributes ctx options key = .ok own) :
    ∀ a ∈ own, '"' ∉ a.value.toList := by
  unfold optionAttributes at h
  split at h
  · cases h
    simp
  · split at h
    · refine forall_mem_of_mapM (fun value a ha => ?_) h
      obtain ⟨text, -, ha⟩ := Expr.bind_eq_ok.1 ha
      cases ha
      exact Attribute.quote_notMem_processed _ _
    · obtain ⟨text, -, hown⟩ := Expr.bind_eq_ok.1 h
      cases hown
      exact List.forall_mem_singleton.2 (Attribute.quote_notMem_processed _ _)

/-- The attributes of inclusions have all their quotes replaced. -/
theorem quote_notMem_of_inclusionAttributes {options : List InclusionOption} {own : List Attribute}
    (h : inclusionAttributes ctx options = .ok own) : ∀ a ∈ own, '"' ∉ a.value.toList := by
  obtain ⟨parts, hparts, hown⟩ := Expr.bind_eq_ok.1 h
  cases hown
  intro a ha
  obtain ⟨part, hpart, ha⟩ := List.mem_flatten.1 ha
  exact forall_mem_of_mapM (fun _ _ => quote_notMem_of_optionAttributes) hparts part hpart a ha

/-- The quotes in the attributes of an assignment are those of the name that it sets. -/
theorem accountedAll_of_ofAssign {a : Atom} {target : Ident} {key : Option Expr} {value : Expr}
    {m : Markup} (hsets : ∀ name, (match key with
      | none => name = target.name
      | some key => ∃ k, key.render ctx .expression = .ok k ∧
        name = target.name ++ "\x7b" ++ k ++ "\x7d") → a.SetsAs ctx name)
    (h : ofAssign ctx target key value = .ok m) : AccountedAll ctx [a] [m] := by
  obtain ⟨name, hname, h⟩ := Expr.bind_eq_ok.1 h
  obtain ⟨text, -, hm⟩ := Expr.bind_eq_ok.1 h
  cases hm
  refine accountedAll_assignment (hsets name ?_) text
  cases key with
  | none =>
    cases hname
    rfl
  | some key =>
    obtain ⟨k, hk, hname⟩ := Expr.bind_eq_ok.1 hname
    cases hname
    exact ⟨k, hk, rfl⟩

theorem accountedAll_of_ofOutput {kind : OutputKind} {args : List Expr} {markup : List Markup}
    {atoms : List Atom} (h : ofOutput ctx kind args = .ok markup) :
    AccountedAll ctx atoms markup := by
  cases kind with
  | printVars =>
    obtain ⟨texts, -, hm⟩ := Expr.bind_eq_ok.1 h
    cases hm
    exact accountedAll_element (by simp) (accountedAll_plain texts)
  | _ =>
    obtain ⟨texts, -, hm⟩ := Expr.bind_eq_ok.1 h
    cases hm
    exact accountedAll_plain texts

/-- What is written for an atom is accounted for by the atom. -/
theorem ensures_ofAtom (a : Atom) :
    Ensures (fun _ => True) (ofAtom ctx a) (AccountedAll ctx [a]) := by
  cases a with
  | declare name value span =>
    cases value with
    | none => exact ensures_pure accountedAll_nil
    | some value =>
      exact (ensures_lift fun m hm => accountedAll_of_ofAssign (fun _ h => h) hm).bind
        fun _ hm => ensures_pure hm
  | assign target key value span =>
    exact (ensures_lift fun m hm =>
      accountedAll_of_ofAssign (fun _ h => by cases key <;> exact h) hm).bind
      fun _ hm => ensures_pure hm
  | expr e =>
    refine (ensures_true _).bind fun text _ => ?_
    split
    · exact ensures_pure (accountedAll_element (by simp) (accountedAll_plain [text]))
    · exact (ensures_true _).bind fun _ _ => ensures_pure accountedAll_nil
  | ret value span => exact ensures_throw
  | inclusion kind options span =>
    refine (ensures_lift fun own h => quote_notMem_of_inclusionAttributes h).bind fun own hown => ?_
    exact ensures_pure (accountedAll_leaf hown)
  | output kind args span => exact ensures_lift fun m hm => accountedAll_of_ofOutput hm
  | comment text span =>
    refine ensures_pure (accountedAll_leaf ?_)
    exact List.forall_mem_singleton.2 (quote_notMem_replaceQuotes (by decide) text)

theorem accountedAll_otherwise {atoms : List Atom} {content : List Markup}
    (h : AccountedAll ctx atoms content) : AccountedAll ctx atoms (otherwise content) := by
  unfold otherwise
  split
  · exact accountedAll_nil
  · exact accountedAll_element (by simp) h

theorem quote_notMem_branchAttributes (cond : Expr) (test : String) :
    ∀ a ∈ branchAttributes cond test, '"' ∉ a.value.toList := by
  refine List.forall_mem_cons.2 ⟨Attribute.quote_notMem_processed _ _, fun a ha => ?_⟩
  obtain ⟨name, -, rfl⟩ := Option.map_eq_some_iff.1 (Option.mem_toList.1 ha)
  exact Attribute.quote_notMem_processed _ _

mutual

/-- What is written for a statement is accounted for by the atoms in it. -/
theorem ensures_ofStmt : ∀ s, Ensures (fun _ => True) (ofStmt ctx s) (AccountedAll ctx s.atoms)
  | .atom a => ensures_ofAtom a
  | .function _ _ isInline _ _ => by
    rw [ofStmt]
    split
    · exact (ensures_true _).bind fun _ _ => ensures_pure accountedAll_nil
    · exact ensures_pure accountedAll_nil
  | .ifChain branches (some body) _ =>
    (ensures_ofBranches branches).bind fun _ hwhens => (ensures_ofStmts body).bind fun _ hbody =>
      ensures_pure (accountedAll_element (by simp) (accountedAll_append.2
        ⟨hwhens.mono (List.subset_append_left ..),
          accountedAll_otherwise (hbody.mono (List.subset_append_right ..))⟩))
  | .ifChain branches none _ =>
    (ensures_ofBranches branches).bind fun _ hwhens =>
      ensures_pure (accountedAll_element (by simp) hwhens)
  | .attempt body (some handler) _ =>
    (ensures_ofStmts body).bind fun _ hbody => (ensures_ofStmts handler).bind fun _ hhandler =>
      ensures_pure (accountedAll_element (by simp) (accountedAll_append.2
        ⟨accountedAll_element (by simp) (hbody.mono (List.subset_append_left ..)),
          accountedAll_element (by simp) (hhandler.mono (List.subset_append_right ..))⟩))
  | .attempt body none _ =>
    (ensures_ofStmts body).bind fun _ hbody =>
      ensures_pure (accountedAll_element (by simp) (accountedAll_append.2
        ⟨accountedAll_element (by simp) hbody,
          accountedAll_element (by simp) accountedAll_nil⟩))
  | .block body _ => ensures_ofStmts body
  | .forLoop .. => ensures_throw
  | .breakLoop _ => ensures_throw
  | .require .. => ensures_throw

theorem ensures_ofStmts :
    ∀ stmts, Ensures (fun _ => True) (ofStmts ctx stmts) (AccountedAll ctx (Stmt.atomsAll stmts))
  | [] => ensures_pure accountedAll_nil
  | s :: rest =>
    (ensures_ofStmt s).bind fun _ hfirst => (ensures_ofStmts rest).bind fun _ hrest =>
      ensures_pure (accountedAll_append.2 ⟨hfirst.mono (List.subset_append_left ..),
        hrest.mono (List.subset_append_right ..)⟩)

theorem ensures_ofBranches :
    ∀ branches, Ensures (fun _ => True) (ofBranches ctx branches)
      (AccountedAll ctx (Stmt.atomsBranches branches))
  | [] => ensures_pure accountedAll_nil
  | ⟨cond, body, _⟩ :: rest =>
    (ensures_true _).bind fun test _ => (ensures_ofStmts body).bind fun _ hbody =>
      (ensures_ofBranches rest).bind fun _ hrest => ensures_pure (accountedAll_append.2
        ⟨accountedAll_element (quote_notMem_branchAttributes cond test)
            (hbody.mono (List.subset_append_left ..)),
          hrest.mono (List.subset_append_right ..)⟩)

end

/-- What is written for a script is accounted for by its atoms. -/
theorem accountedAll_of_ofProgram {options : Options} {stmts : List Stmt} {markup : List Markup}
    {notes notes' : Array Note} (h : Gives (ofProgram options stmts) notes markup notes') :
    AccountedAll ⟨Stmt.declaredFunctionsAll stmts, options.maxLoopIterations⟩ (Stmt.atomsAll stmts)
      markup := by
  have hensures : Ensures (fun _ => True) (ofProgram options stmts)
      (AccountedAll ⟨Stmt.declaredFunctionsAll stmts, options.maxLoopIterations⟩
        (Stmt.atomsAll stmts)) := by
    refine (ensures_true _).bind fun _ _ => (ensures_ofStmts stmts).bind fun content hcontent => ?_
    refine ensures_pure ?_
    split
    · exact accountedAll_append.2 ⟨accountedAll_append.2
        ⟨accountedAll_leaf (List.forall_mem_singleton.2 (by decide)), accountedAll_plain ["\n"]⟩,
          hcontent⟩
    · exact hcontent
  exact (hensures.run trivial h).2

end Markup

/-! ## The names of variables -/

/-- The half of `Rule.read` that lasts through lowering. -/
def Rule.named : Rule where
  atom := Rule.read.atom
  cond _ := True

theorem Atom.SetsName.congr {a a' : Atom} (h : a.SetsName) (ha : a'.assigned? = a.assigned?) :
    a'.SetsName := by
  rwa [SetsName, ha]

/-- Lowering does not touch the variables that are set, so their names stay names. -/
theorem Rule.lasting_named : Rule.named.Lasting where
  fold := ⟨fun {a} h => Atom.SetsName.congr h (a.assigned?_mapExprs _), fun h => h⟩
  subst _ _ _ := ⟨fun {a} h => Atom.SetsName.congr h (a.assigned?_mapExprs _), fun h => h⟩
  expandAtom a h :=
    (Atom.ensures_mapExprsM (fun _ => ensures_true _) a).mono fun _ hx => Atom.SetsName.congr h hx.2
  expandCond _ _ := ensures_true _

namespace Rule

variable {r : Rule} {a : Atom}

mutual

theorem Holds.atom_of_mem : ∀ {s}, r.Holds s → a ∈ s.atoms → r.atom a
  | .atom _, h, ha => List.mem_singleton.1 ha ▸ h
  | .ifChain _ (some _) _, h, ha =>
    (List.mem_append.1 ha).elim (HoldsBranches.atom_of_mem h.1) (HoldsAll.atom_of_mem h.2)
  | .ifChain _ none _, h, ha => HoldsBranches.atom_of_mem h ha
  | .forLoop .., h, ha => HoldsAll.atom_of_mem h ha
  | .attempt _ (some _) _, h, ha =>
    (List.mem_append.1 ha).elim (HoldsAll.atom_of_mem h.1) (HoldsAll.atom_of_mem h.2)
  | .attempt _ none _, h, ha => HoldsAll.atom_of_mem h ha
  | .block .., h, ha => HoldsAll.atom_of_mem h ha
  | .function .., _, ha => absurd ha List.not_mem_nil
  | .breakLoop _, _, ha => absurd ha List.not_mem_nil
  | .require .., _, ha => absurd ha List.not_mem_nil

/-- A rule that holds of a script holds of every atom in it. -/
theorem HoldsAll.atom_of_mem : ∀ {stmts}, r.HoldsAll stmts → a ∈ Stmt.atomsAll stmts → r.atom a
  | [], _, ha => absurd ha List.not_mem_nil
  | _ :: _, h, ha => (List.mem_append.1 ha).elim (Holds.atom_of_mem h.1) (HoldsAll.atom_of_mem h.2)

theorem HoldsBranches.atom_of_mem :
    ∀ {branches}, r.HoldsBranches branches → a ∈ Stmt.atomsBranches branches → r.atom a
  | [], _, ha => absurd ha List.not_mem_nil
  | ⟨_, _, _⟩ :: _, h, ha =>
    (List.mem_append.1 ha).elim (HoldsAll.atom_of_mem h.2.1) (HoldsBranches.atom_of_mem h.2.2)

end

end Rule

/-- The variables that are set in what has been read have names. -/
theorem Program.named_of_parse {text : String} {file : Nat} {program : Program}
    (h : Program.parse text file = .ok program) : Rule.named.HoldsAll program.body := by
  refine Rule.HoldsAll.mono (r := .read) ?_ ?_ (holdsAll_of_parse h)
  · exact fun _ ha => ha
  · exact fun _ _ => trivial

/-- The variables of a unit, and of all that it imports, keep their names through lowering. -/
theorem Compilation.named_of_gives_lower {options : Options} {loader : Loader} {file : Nat}
    {entry : Option Path} {s t : Compilation} {lowered : List Stmt}
    (h : Gives (lower options loader file entry) s lowered t) : Rule.named.HoldsAll lowered := by
  obtain ⟨program, expanded, hparsed, ⟨importer, himported⟩, hlowers⟩ := exists_stages h
  have hexpanded : Rule.named.HoldsAll expanded :=
    Importer.holdsAll_of_gives_run Program.named_of_parse (Program.named_of_parse hparsed) himported
  exact hexpanded.lowers Rule.lasting_named hlowers

/-- **The only double quotes in attributes are those in the keys of assignments**, as long as the
names of variables have none; and these never have one in what is made of a text and of the units it
requires, which are found by a loader of finitely many identities. -/
theorem quotes_in_attributes_come_from_keys (options : Options) :
    (∀ {stmts notes markup notes'}, Gives (Markup.ofProgram options stmts) notes markup notes' →
      (∀ a ∈ Stmt.atomsAll stmts, ∀ name ∈ a.assigned?, '"' ∉ name.toList) →
      ∀ x ∈ Markup.attributesAll markup, '"' ∈ x.2.value.toList →
        x.1 = "assign" ∧ x.2.name = "name" ∧ ∃ target key value span k,
          Atom.assign target (some key) value span ∈ Stmt.atomsAll stmts ∧
          key.render ⟨Stmt.declaredFunctionsAll stmts, options.maxLoopIterations⟩
            .expression = .ok k ∧
          '"' ∈ k.toList ∧ x.2.value = target.name ++ "\x7b" ++ k ++ "\x7d") ∧
    ∀ {loader file entry s stmts t}, Gives (Compilation.lower options loader file entry) s stmts t →
      ∀ a ∈ Stmt.atomsAll stmts, ∀ name ∈ a.assigned?, '"' ∉ name.toList := by
  refine ⟨fun {stmts _ markup _} hgives hnames x hx hquote => ?_,
    fun hlower a ha name hname => ((Compilation.named_of_gives_lower hlower).atom_of_mem ha name
      hname).quote_notMem⟩
  obtain ⟨htag, hname, a, ha, hsets⟩ :=
    (Markup.accountedAll_of_ofProgram hgives x hx).resolve_left fun h => h hquote
  refine ⟨htag, hname, ?_⟩
  have hnames := hnames a ha
  cases a with
  | declare name value span =>
    have hvalue : x.2.value = name.name := hsets
    exact absurd (hvalue ▸ hquote) (hnames name.name rfl)
  | assign target key value span =>
    have htarget := hnames target.name rfl
    cases key with
    | none =>
      have hvalue : x.2.value = target.name := hsets
      exact absurd (hvalue ▸ hquote) htarget
    | some key =>
      obtain ⟨k, hk, hvalue⟩ := hsets
      refine ⟨target, key, value, span, k, ha, hk, ?_, hvalue⟩
      rw [hvalue] at hquote
      simpa [htarget] using hquote
  | _ => exact hsets.elim

/-- The key of the entry that an atom sets. -/
def Atom.key? : Atom → Option Expr
  | .assign _ key _ _ => key
  | _ => none

/-- Quotes in a comment, a value, a condition, the options of an inclusion and a value of an
entry. -/
theorem quotes_in_attributes_come_from_keys_everywhereElse :
    let text :=
      "//### \"a\"\nx = '\"'; h['k'] = '\"'; if (x == '\"') \x7b include('\"', dca = '\"'); \x7d"
    let sources : SourceMap := ⟨#[⟨"main.js", none, text⟩]⟩
    ∃ stmts t markup notes,
      Gives (Compilation.lower {} (UnitTable.loader []) 0 none) { sources } stmts t ∧
      Gives (Markup.ofProgram {} stmts) #[] markup notes ∧
      (Markup.attributesAll markup).length = 6 ∧
      ∀ x ∈ Markup.attributesAll markup, '"' ∉ x.2.value.toList := by
  intro text sources
  have hrun : succeeds (outcome (Compilation.lower {} (UnitTable.loader []) 0 none) { sources }).1
      (fun stmts => succeeds (outcome (Markup.ofProgram {} stmts) #[]).1 fun markup =>
        (Markup.attributesAll markup).length == 6 &&
          ((Stmt.atomsAll stmts).filterMap Atom.key?).all fun key =>
            succeeds (key.render ⟨Stmt.declaredFunctionsAll stmts, 1024⟩ .expression) fun k =>
              !k.toList.contains '"') = true := by decide +kernel
  obtain ⟨stmts, t, hlower, hgenerates⟩ := exists_gives_of_succeeds hrun
  obtain ⟨markup, notes, hmarkup, hkeys⟩ := exists_gives_of_succeeds hgenerates
  rw [Bool.and_eq_true, beq_iff_eq, List.all_eq_true] at hkeys
  obtain ⟨hgenerate, hnames⟩ := quotes_in_attributes_come_from_keys {}
  refine ⟨stmts, t, markup, notes, hlower, hmarkup, hkeys.1, fun x hx hquote => ?_⟩
  obtain ⟨-, -, target, key, value, span, k, ha, hk, hkquote, -⟩ :=
    hgenerate hmarkup (hnames hlower) x hx hquote
  obtain ⟨k', hk', hkquote'⟩ := exists_of_succeeds (hkeys.2 key (List.mem_filterMap.2 ⟨_, ha, rfl⟩))
  obtain rfl : k' = k := Except.ok.inj (hk'.symm.trans hk)
  rw [List.contains_iff_mem.2 hkquote] at hkquote'
  cases hkquote'

/-- The quote in a key ends the attribute. -/
theorem quote_in_key_is_not_replaced : ∃ program markup notes,
    Program.parse "h['\"'] = 1;" 0 = .ok program ∧
      Gives (Markup.ofProgram {} program.body) #[] markup notes ∧
      Markup.textAll markup = "<esi:assign name=\"h\x7b'\"'\x7d\" value=\"1\"/>" ∧
      ∃ x ∈ Markup.attributesAll markup, '"' ∈ x.2.value.toList := by
  have hrun : succeeds (Program.parse "h['\"'] = 1;" 0) (fun program =>
      succeeds (outcome (Markup.ofProgram {} program.body) #[]).1 fun markup =>
        Markup.textAll markup == "<esi:assign name=\"h\x7b'\"'\x7d\" value=\"1\"/>" &&
          (Markup.attributesAll markup).any fun x => x.2.value.toList.contains '"') = true := by
    decide +kernel
  obtain ⟨program, hparse, hgenerates⟩ := exists_of_succeeds hrun
  obtain ⟨markup, notes, hmarkup, hquotes⟩ := exists_gives_of_succeeds hgenerates
  rw [Bool.and_eq_true, beq_iff_eq, List.any_eq_true] at hquotes
  obtain ⟨htext, x, hx, hquote⟩ := hquotes
  exact ⟨program, markup, notes, hparse, hmarkup, htext, x, hx, List.contains_iff_mem.1 hquote⟩

end EdgeScript
