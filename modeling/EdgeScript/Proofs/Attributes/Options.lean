import Mathlib.Data.List.Forall2
import Mathlib.Data.List.Nodup
import EdgeScript.Proofs.Attributes.Quotes

/-!
# The options of an inclusion

An inclusion is written with its options in a fixed order, whatever order they are given in.
Options are looked up by their keys (`Markup.option?`), so that only the set of options counts if no
key is given twice; `Markup.optionsOf` lists them in the order of keys.

What attributes an option has is said without the generator: `InclusionOption.WrittenAs` is the text
of an option that is no header, `InclusionOption.HasValues` the values of a header, and
`Attribute.Carries` how a text stands in an attribute.

* `Markup.inclusionAttributes_eq_ok_iff`: the attributes are those of the options that are no
  headers and then those of the values of headers.
* `Markup.text_leaf_inj`: attributes without quotes in their values can be told from the text of the
  tag, so none of them is taken for a part of another.
-/

set_option autoImplicit false

namespace EdgeScript

open Pass

/-! ## Looking options up -/

theorem OptionKey.mem_all (key : OptionKey) : key ∈ all := by
  cases key <;> decide

/-- Attributes of different options have different names. -/
theorem OptionKey.attributeName_injective : Function.Injective attributeName := by
  have hnodup : (all.map attributeName).Nodup := by decide
  intro key key' h
  exact List.inj_on_of_nodup_map hnodup key.mem_all key'.mem_all h

namespace Markup

variable {options : List InclusionOption}

/-- If no key is given twice, the option of a key is the one that is given. -/
theorem option?_eq_some_iff (hkeys : (options.map InclusionOption.key).Nodup) {key : OptionKey}
    {o : InclusionOption} : option? options key = some o ↔ o ∈ options ∧ o.key = key := by
  induction options with
  | nil => simp [option?]
  | cons first rest ih =>
    rw [List.map_cons, List.nodup_cons] at hkeys
    rw [option?, List.find?_cons]
    by_cases hkey : first.key = key
    · have hrest : ¬ (o ∈ rest ∧ o.key = key) := by
        rintro ⟨ho, rfl⟩
        exact hkeys.1 (hkey ▸ List.mem_map_of_mem ho)
      rw [beq_iff_eq.2 hkey, Option.some_inj, List.mem_cons]
      constructor
      · rintro rfl
        exact ⟨.inl rfl, hkey⟩
      · rintro ⟨rfl | ho, hokey⟩
        · rfl
        · exact absurd ⟨ho, hokey⟩ hrest
    · rw [beq_eq_false_iff_ne.2 hkey]
      refine (ih hkeys.2).trans (and_congr_left fun hokey => ?_)
      rw [List.mem_cons, or_iff_right]
      rintro rfl
      exact hkey hokey

/-- The order in which options are given does not matter. -/
theorem option?_perm {options' : List InclusionOption} (hperm : options'.Perm options)
    (hkeys : (options.map InclusionOption.key).Nodup) (key : OptionKey) :
    option? options' key = option? options key := by
  have hkeys' : (options'.map InclusionOption.key).Nodup :=
    (hperm.map InclusionOption.key).nodup_iff.2 hkeys
  refine Option.ext fun o => ?_
  rw [option?_eq_some_iff hkeys, option?_eq_some_iff hkeys', hperm.mem_iff]

/-- The options that are given of some keys, in the order of the keys. -/
def optionsOf (options : List InclusionOption) (keys : List OptionKey) : List InclusionOption :=
  keys.filterMap (option? options)

theorem key_of_option? {key : OptionKey} {o : InclusionOption} (h : option? options key = some o) :
    o.key = key := by
  simpa using List.find?_some h

theorem key_mem_of_mem_optionsOf {keys : List OptionKey} {o : InclusionOption}
    (h : o ∈ optionsOf options keys) : o.key ∈ keys := by
  obtain ⟨key, hkey, ho⟩ := List.mem_filterMap.1 h
  rwa [key_of_option? ho]

/-- Options that are looked up by keys come in the order of the keys. -/
theorem keys_optionsOf (keys : List OptionKey) :
    ((optionsOf options keys).map InclusionOption.key).Sublist keys := by
  have hkeys : (optionsOf options keys).map InclusionOption.key =
      keys.filter fun key => (option? options key).isSome := by
    rw [optionsOf, List.map_filterMap, ← List.filterMap_eq_filter]
    refine List.filterMap_congr fun key _ => ?_
    cases h : option? options key with
    | none => simp [Option.guard, h]
    | some o => simp [Option.guard, h, key_of_option? h]
  rw [hkeys]
  exact List.filter_sublist

/-- Looking up all keys finds every option once, if no key is given twice. -/
theorem perm_optionsOf_all (hkeys : (options.map InclusionOption.key).Nodup) :
    (optionsOf options OptionKey.all).Perm options := by
  have hnodup : (optionsOf options OptionKey.all).Nodup :=
    .of_map InclusionOption.key ((keys_optionsOf _).nodup (by decide))
  rw [List.perm_ext_iff_of_nodup hnodup (.of_map _ hkeys)]
  intro o
  rw [optionsOf, List.mem_filterMap]
  constructor
  · rintro ⟨key, -, ho⟩
    exact ((option?_eq_some_iff hkeys).1 ho).1
  · intro ho
    exact ⟨o.key, o.key.mem_all, (option?_eq_some_iff hkeys).2 ⟨ho, rfl⟩⟩

end Markup

/-! ## Attributes one by one -/

namespace OptionKey

/-- The options that are no headers, in the order of the attributes. -/
def plain : List OptionKey := all.filter fun key => !key.isHeader

/-- The headers, in the order of the attributes. -/
def headers : List OptionKey := all.filter isHeader

theorem plain_append_headers : plain ++ headers = all := by decide

end OptionKey

/-- The attribute has the name of the key, and its value is the text with a call in the place of
each double quote. -/
structure Attribute.Carries (key : OptionKey) (text : String) (a : Attribute) : Prop where
  name : a.name = key.attributeName
  value : a.value.toList =
    text.toList.flatMap fun c => if c = '"' then "$dquote()".toList else [c]

theorem Attribute.carries_iff {key : OptionKey} {text : String} {a : Attribute} :
    a.Carries key text ↔ a = .processed key.attributeName text := by
  have hvalue : (Attribute.processed key.attributeName text).value.toList =
      text.toList.flatMap fun c => if c = '"' then "$dquote()".toList else [c] := by
    rw [Attribute.processed, Markup.replaceQuotes, String.toList_join, List.flatMap_map]
    refine List.flatMap_congr fun c _ => ?_
    split
    · rfl
    · exact String.toList_singleton c
  constructor
  · rintro ⟨hname, hvalue'⟩
    cases a
    rw [Attribute.processed, Attribute.mk.injEq]
    exact ⟨hname, String.toList_inj.1 (hvalue'.trans hvalue.symm)⟩
  · rintro rfl
    exact ⟨rfl, hvalue⟩

namespace InclusionOption

/-- The option is the switch, and its literal says whether it is on. -/
def Switches (o : InclusionOption) (on : Bool) : Prop :=
  o.key = .noStore ∧ ∃ v span, o.value = .lit v span ∧ v.truth? = some on

/-- The text that an option which is no header is written as: `on` or `off` for the switch, and for
the others what their value is in text, in quotes if the processor would take it for the end of a
tag. -/
inductive WrittenAs (ctx : RenderContext) (o : InclusionOption) : String → Prop
  | on (h : o.Switches true) : WrittenAs ctx o "on"
  | off (h : o.Switches false) : WrittenAs ctx o "off"
  | quoted {text : String} (hkey : o.key = .dca) (h : o.value.render ctx .text = .ok text)
      (hend : '>' ∈ text.toList) : WrittenAs ctx o ("'" ++ text ++ "'")
  | plain {text : String} (hswitch : ∀ on, ¬ o.Switches on)
      (h : o.value.render ctx .text = .ok text) (hend : o.key = .dca → '>' ∉ text.toList) :
      WrittenAs ctx o text

/-- The values of a header: the elements if it is given an array, and else the one value. -/
def HasValues (o : InclusionOption) (values : List Expr) : Prop :=
  (∃ span, o.value = .array values span) ∨
    (∀ elements span, o.value ≠ .array elements span) ∧ values = [o.value]

/-- The values of a header are the elements of an array, or the value itself. -/
theorem hasValues_iff {o : InclusionOption} {values : List Expr} :
    o.HasValues values ↔ values = Markup.headerValues o.value := by
  rw [HasValues]
  cases o.value <;> simp [Markup.headerValues, eq_comm]

/-- Only storing is switched on and off, by a literal that has a truth value. -/
theorem switches_iff {o : InclusionOption} {on : Bool} :
    o.Switches on ↔ o.key = .noStore ∧ o.value.literal?.bind Literal.truth? = some on := by
  rw [Switches]
  cases o.value <;> simp [Expr.literal?]

/-- A switch is written as a word. -/
theorem writtenAs_of_switches {ctx : RenderContext} {o : InclusionOption} {on : Bool}
    (h : o.Switches on) {text : String} :
    o.WrittenAs ctx text ↔ text = if on then "on" else "off" := by
  have hother : ∀ on', o.Switches on' → on' = on := by
    intro on' h'
    rw [switches_iff] at h h'
    exact Option.some.inj (h'.2.symm.trans h.2)
  constructor
  · intro htext
    cases htext with
    | on h' => rw [← hother _ h', if_pos rfl]
    | off h' => rw [← hother _ h', if_neg Bool.false_ne_true]
    | quoted hkey => rw [h.1] at hkey; cases hkey
    | plain hswitch => exact absurd h (hswitch on)
  · rintro rfl
    cases on with
    | true => exact .on h
    | false => exact .off h

end InclusionOption

namespace Markup

variable {ctx : RenderContext} {options : List InclusionOption}

/-- The text of an option is the one that the specification asks for. -/
theorem optionText_eq_ok_iff {o : InclusionOption} {text : String} :
    optionText ctx o = .ok text ↔ o.WrittenAs ctx text := by
  rw [optionText, Expr.bind_eq_ok]
  split
  · rename_i on hkey htruth
    rw [InclusionOption.writtenAs_of_switches (InclusionOption.switches_iff.2 ⟨hkey, htruth⟩), hkey]
    constructor
    · rintro ⟨_, hword, htext⟩
      cases hword
      cases htext
      rfl
    · rintro rfl
      exact ⟨_, rfl, rfl⟩
  · rename_i hswitch
    have hswitch : ∀ on, ¬ o.Switches on := fun on h =>
      hswitch on (InclusionOption.switches_iff.1 h).1 (InclusionOption.switches_iff.1 h).2
    simp only [Bool.and_eq_true, decide_eq_true_eq, List.contains_eq_mem]
    constructor
    · rintro ⟨raw, hraw, htext⟩
      split at htext
      · rename_i hend
        cases htext
        exact .quoted hend.1 hraw hend.2
      · rename_i hend
        cases htext
        exact .plain hswitch hraw fun hkey hmem => hend ⟨hkey, hmem⟩
    · intro h
      cases h with
      | on h => exact absurd h (hswitch true)
      | off h => exact absurd h (hswitch false)
      | quoted hkey hraw hend => exact ⟨_, hraw, by rw [if_pos ⟨hkey, hend⟩]; rfl⟩
      | plain _ hraw hend => exact ⟨_, hraw, by rw [if_neg fun h => hend h.1 h.2]; rfl⟩

/-- The values of headers, each with its key. -/
def headerPairs (o : InclusionOption) : List (OptionKey × Expr) :=
  (headerValues o.value).map (o.key, ·)

/-- The attribute of an option that is no header. -/
def plainAttribute (ctx : RenderContext) (o : InclusionOption) : Except Error Attribute :=
  Attribute.processed o.key.attributeName <$> optionText ctx o

/-- The attribute of a value of a header. -/
def headerAttribute (ctx : RenderContext) (value : OptionKey × Expr) : Except Error Attribute :=
  Attribute.processed value.1.attributeName <$> value.2.render ctx .text

theorem mapM_flatMap {α β γ : Type} (f : β → Except Error γ) (g : α → List β) (l : List α) :
    (l.flatMap g).mapM f = (l.mapM fun x => (g x).mapM f) >>= fun parts => pure parts.flatten := by
  induction l with
  | nil => rfl
  | cons x l ih => simp [List.flatMap_cons, List.mapM_append, List.mapM_cons, ih]

/-- Writing what is looked up by keys is writing, key by key, what is found. -/
theorem mapM_optionsOf {β γ : Type} (f : β → Except Error γ) (g : InclusionOption → List β)
    (keys : List OptionKey) :
    ((optionsOf options keys).flatMap g).mapM f =
      (keys.mapM fun key => ((option? options key).toList.flatMap g).mapM f) >>= fun parts =>
        pure parts.flatten := by
  rw [optionsOf, List.filterMap_eq_flatMap_toList, List.flatMap_assoc, mapM_flatMap]

theorem optionAttributes_of_plain {key : OptionKey} (h : key.isHeader = false) :
    optionAttributes ctx options key =
      ((option? options key).toList.flatMap ([·])).mapM (plainAttribute ctx) := by
  rw [optionAttributes]
  cases ho : option? options key with
  | none => rfl
  | some o =>
    simp [h, plainAttribute, key_of_option? ho]

theorem optionAttributes_of_header {key : OptionKey} (h : key.isHeader = true) :
    optionAttributes ctx options key =
      ((option? options key).toList.flatMap headerPairs).mapM (headerAttribute ctx) := by
  rw [optionAttributes]
  cases ho : option? options key with
  | none => rfl
  | some o =>
    simp [h, headerPairs, List.mapM_map, Function.comp_def, headerAttribute, key_of_option? ho]

theorem mapM_congr_of_mem {α β : Type} {f g : α → Except Error β} {l : List α}
    (h : ∀ x ∈ l, f x = g x) : l.mapM f = l.mapM g := by
  induction l with
  | nil => rfl
  | cons x l ih =>
    obtain ⟨hx, hl⟩ := List.forall_mem_cons.1 h
    rw [List.mapM_cons, List.mapM_cons, hx, ih hl]

/-- **The attributes of an inclusion**: first the options that are no headers, then the values of
headers. -/
theorem inclusionAttributes_eq :
    inclusionAttributes ctx options = do
      let first ← (optionsOf options OptionKey.plain).mapM (plainAttribute ctx)
      let second ←
        ((optionsOf options OptionKey.headers).flatMap headerPairs).mapM (headerAttribute ctx)
      return first ++ second := by
  have hplain : ∀ key ∈ OptionKey.plain, optionAttributes ctx options key =
      ((option? options key).toList.flatMap ([·])).mapM (plainAttribute ctx) := by
    intro key hkey
    exact optionAttributes_of_plain (by simpa using List.of_mem_filter hkey)
  have hheaders : ∀ key ∈ OptionKey.headers, optionAttributes ctx options key =
      ((option? options key).toList.flatMap headerPairs).mapM (headerAttribute ctx) := by
    intro key hkey
    exact optionAttributes_of_header (List.of_mem_filter hkey)
  rw [inclusionAttributes, ← OptionKey.plain_append_headers, List.mapM_append,
    mapM_congr_of_mem hplain, mapM_congr_of_mem hheaders, mapM_optionsOf,
    ← List.flatMap_singleton' (optionsOf options OptionKey.plain), mapM_optionsOf]
  simp

/-- What one value after the other is written as. -/
theorem mapM_eq_ok_iff {α β : Type} {f : α → Except Error β} {l : List α} {ys : List β} :
    l.mapM f = .ok ys ↔ List.Forall₂ (fun x y => f x = .ok y) l ys := by
  induction l generalizing ys with
  | nil =>
    rw [List.forall₂_nil_left_iff, List.mapM_nil]
    exact ⟨fun h => by cases h; rfl, fun h => by rw [h]; rfl⟩
  | cons x l ih =>
    rw [List.mapM_cons, Expr.bind_eq_ok, List.forall₂_cons_left_iff]
    constructor
    · rintro ⟨y, hy, h⟩
      obtain ⟨rest, hrest, hys⟩ := Expr.bind_eq_ok.1 h
      cases hys
      exact ⟨y, rest, hy, ih.1 hrest, rfl⟩
    · rintro ⟨y, rest, hy, hrest, rfl⟩
      exact ⟨y, hy, Expr.bind_eq_ok.2 ⟨rest, ih.2 hrest, rfl⟩⟩

theorem map_processed_eq_ok_iff {key : OptionKey} {text : Except Error String} {a : Attribute} :
    Attribute.processed key.attributeName <$> text = .ok a ↔
      ∃ value, text = .ok value ∧ a.Carries key value := by
  simp only [Attribute.carries_iff]
  cases text with
  | error e =>
    refine iff_of_false (fun h => by cases h) ?_
    rintro ⟨value, hvalue, -⟩
    cases hvalue
  | ok value =>
    constructor
    · intro h
      cases h
      exact ⟨value, rfl, rfl⟩
    · rintro ⟨_, hvalue, rfl⟩
      cases hvalue
      rfl

/-- What is listed element by element comes in parts, one for each element. -/
theorem forall₂_flatMap_iff {α β γ : Type} {R : β → γ → Prop} {g : α → List β} {l : List α}
    {ys : List γ} :
    List.Forall₂ R (l.flatMap g) ys ↔
      ∃ parts, ys = parts.flatten ∧
        List.Forall₂ (fun x part => List.Forall₂ R (g x) part) l parts := by
  induction l generalizing ys with
  | nil => simp [List.forall₂_nil_left_iff]
  | cons x l ih =>
    rw [List.flatMap_cons]
    constructor
    · intro h
      have hpart := (List.forall₂_take_append ys (g x) (l.flatMap g) h.flip).flip
      obtain ⟨parts, hparts, hrest⟩ := ih.1 (List.forall₂_drop_append ys (g x) _ h.flip).flip
      refine ⟨ys.take (g x).length :: parts, ?_, .cons hpart hrest⟩
      rw [List.flatten_cons, ← hparts, List.take_append_drop]
    · rintro ⟨parts, rfl, h⟩
      obtain ⟨part, parts, hpart, hrest, rfl⟩ := List.forall₂_cons_left_iff.1 h
      exact List.rel_append hpart (ih.2 ⟨parts, rfl, hrest⟩)

/-- An attribute of a key stands for the value in text. -/
def Shows (ctx : RenderContext) (key : OptionKey) (value : Expr) (a : Attribute) : Prop :=
  ∃ text, value.render ctx .text = .ok text ∧ a.Carries key text

/-- The attributes are those of the plain options, one each, and then those of the headers, one for
each value. -/
theorem inclusionAttributes_eq_ok_iff {attributes : List Attribute} :
    inclusionAttributes ctx options = .ok attributes ↔
      ∃ first parts, attributes = first ++ parts.flatten ∧
        List.Forall₂ (fun o a => ∃ text, o.WrittenAs ctx text ∧ a.Carries o.key text)
          (optionsOf options OptionKey.plain) first ∧
        List.Forall₂ (fun o own => ∃ values, o.HasValues values ∧
          List.Forall₂ (Shows ctx o.key) values own)
            (optionsOf options OptionKey.headers) parts := by
  simp only [inclusionAttributes_eq, Expr.bind_eq_ok, mapM_eq_ok_iff, plainAttribute,
    headerAttribute, map_processed_eq_ok_iff, optionText_eq_ok_iff, forall₂_flatMap_iff,
    headerPairs, List.forall₂_map_left_iff, InclusionOption.hasValues_iff, exists_eq_left]
  constructor
  · rintro ⟨first, hfirst, _, ⟨parts, rfl, hparts⟩, h⟩
    cases h
    exact ⟨first, parts, rfl, hfirst, hparts⟩
  · rintro ⟨first, parts, rfl, hfirst, hparts⟩
    exact ⟨first, hfirst, _, ⟨parts, rfl, hparts⟩, rfl⟩

end Markup

/-! ## Telling attributes from the text -/

/-- The name of the attribute ends at the first `=` of its text, and its value before the last
quote. -/
structure Attribute.Readable (a : Attribute) : Prop where
  name : '=' ∉ a.name.toList
  value : '"' ∉ a.value.toList

theorem Attribute.toList_text (a : Attribute) :
    a.text.toList = ' ' :: (a.name.toList ++ '=' :: '"' :: (a.value.toList ++ ['"'])) := by
  simp [Attribute.text]

theorem Attribute.textAll_cons (a : Attribute) (rest : List Attribute) :
    Attribute.textAll (a :: rest) = a.text ++ Attribute.textAll rest := by
  simp [Attribute.textAll, String.join_cons]

namespace Markup

/-- Two texts that are cut at the same character, with none before, are cut at the same place. -/
theorem split_at {c : Char} {x x' y y' : List Char} (hx : c ∉ x) (hx' : c ∉ x')
    (h : x ++ c :: y = x' ++ c :: y') : x = x' ∧ y = y' := by
  rcases List.append_eq_append_iff.1 h with ⟨between, rfl, hrest⟩ | ⟨between, rfl, hrest⟩
  all_goals
    cases between with
    | nil => simp_all
    | cons d between =>
      obtain ⟨rfl, -⟩ := List.cons.inj hrest
      simp_all

/-- Attributes are known by their text, whatever ends the tag. -/
theorem textAll_append_inj {own own' : List Attribute} (hown : ∀ a ∈ own, a.Readable)
    (hown' : ∀ a ∈ own', a.Readable)
    (h : (Attribute.textAll own).toList ++ ['/', '>'] =
      (Attribute.textAll own').toList ++ ['/', '>']) : own = own' := by
  induction own generalizing own' with
  | nil =>
    cases own' with
    | nil => rfl
    | cons a' rest' => simp [Attribute.toList_text, Attribute.textAll] at h
  | cons a rest ih =>
    cases own' with
    | nil => simp [Attribute.toList_text, Attribute.textAll] at h
    | cons a' rest' =>
      obtain ⟨ha, hrest⟩ := List.forall_mem_cons.1 hown
      obtain ⟨ha', hrest'⟩ := List.forall_mem_cons.1 hown'
      simp only [Attribute.textAll_cons, String.toList_append, Attribute.toList_text,
        List.cons_append, List.append_assoc, List.cons.injEq, true_and] at h
      obtain ⟨hname, h⟩ := split_at ha.name ha'.name h
      obtain ⟨hvalue, h⟩ := split_at ha.value ha'.value (List.cons.inj h).2
      have hhead : a = a' := by
        cases a
        cases a'
        rw [Attribute.mk.injEq]
        exact ⟨String.toList_inj.1 hname, String.toList_inj.1 hvalue⟩
      rw [hhead, ih hrest hrest' (by simpa using h)]

/-- Two tags with one text have the same attributes, if these can be read. -/
theorem text_leaf_inj {tag : String} {own own' : List Attribute} (hown : ∀ a ∈ own, a.Readable)
    (hown' : ∀ a ∈ own', a.Readable) (h : text (.leaf tag own) = text (.leaf tag own')) :
    own = own' := by
  refine textAll_append_inj hown hown' ?_
  have htext := congrArg String.toList h
  simpa [text] using htext

theorem readable_of_carries {key : OptionKey} {text : String} {a : Attribute}
    (h : a.Carries key text) : a.Readable := by
  obtain rfl := Attribute.carries_iff.1 h
  refine ⟨?_, Attribute.quote_notMem_processed _ _⟩
  show '=' ∉ key.attributeName.toList
  cases key <;> decide

theorem readable_of_inclusionAttributes {ctx : RenderContext} {options : List InclusionOption}
    {own : List Attribute} (h : inclusionAttributes ctx options = .ok own) :
    ∀ a ∈ own, a.Readable := by
  rw [inclusionAttributes_eq] at h
  obtain ⟨first, hfirst, h⟩ := Expr.bind_eq_ok.1 h
  obtain ⟨second, hsecond, h⟩ := Expr.bind_eq_ok.1 h
  cases h
  have hreadable {key : OptionKey} {text : Except Error String} {a : Attribute}
      (ha : Attribute.processed key.attributeName <$> text = .ok a) : a.Readable := by
    obtain ⟨_, -, hcarries⟩ := map_processed_eq_ok_iff.1 ha
    exact readable_of_carries hcarries
  exact List.forall_mem_append.2
    ⟨forall_mem_of_mapM (fun _ _ => hreadable) hfirst,
      forall_mem_of_mapM (fun _ _ => hreadable) hsecond⟩

/-! ## Inclusions -/

/-- The order in which options are given does not show in the attributes. -/
theorem inclusionAttributes_perm {ctx : RenderContext} {options options' : List InclusionOption}
    (hperm : options'.Perm options) (hkeys : (options.map InclusionOption.key).Nodup) :
    inclusionAttributes ctx options' = inclusionAttributes ctx options := by
  have hattributes : optionAttributes ctx options' = optionAttributes ctx options := by
    funext key
    rw [optionAttributes, optionAttributes, option?_perm hperm hkeys]
  rw [inclusionAttributes, inclusionAttributes, hattributes]

theorem inclusionTag_eq (kind : InclusionKind) :
    inclusionTag kind = if kind = .insert then "include" else "eval" := by
  cases kind <;> rfl

/-- An inclusion is written as one tag, and nothing is noted. -/
theorem gives_ofAtom_inclusion {ctx : RenderContext} {kind : InclusionKind}
    {options : List InclusionOption} {span : Span} {notes notes' : Array Note}
    {markup : List Markup} :
    Gives (ofAtom ctx (.inclusion kind options span)) notes markup notes' ↔
      notes' = notes ∧ ∃ own, inclusionAttributes ctx options = .ok own ∧
        markup = [.leaf (inclusionTag kind) own] := by
  rw [ofAtom]
  simp only [gives_bind, gives_lift, gives_pure]
  constructor
  · rintro ⟨own, _, ⟨hown, rfl⟩, rfl, rfl⟩
    exact ⟨rfl, own, hown, rfl⟩
  · rintro ⟨rfl, own, hown, rfl⟩
    exact ⟨own, _, ⟨hown, rfl⟩, rfl, rfl⟩

/-- **Inclusions do not depend on the order of their options**, if no key is given twice: every
order gives the same markup or the same error.  There is markup if and only if all values can be
written.  Its tag then has one attribute for each option that is no header, with the text of the
option, and behind them one for each value of a header, in the fixed order of keys and in the order
of the elements for a header with several values.  No two options share the name of an attribute,
and the text of the tag can be read in this way only. -/
theorem inclusions_do_not_depend_on_option_order (ctx : RenderContext) (kind : InclusionKind)
    (span : Span) {options : List InclusionOption}
    (hkeys : (options.map InclusionOption.key).Nodup) :
    (∀ options', options'.Perm options → ∀ notes,
      outcome (ofAtom ctx (.inclusion kind options' span)) notes =
        outcome (ofAtom ctx (.inclusion kind options span)) notes) ∧
    ((options.map InclusionOption.key).map OptionKey.attributeName).Nodup ∧
    ∃ tag, tag = (if kind = .insert then "include" else "eval") ∧
    ∃ plain headers : List InclusionOption, (plain ++ headers).Perm options ∧
      ((plain ++ headers).map InclusionOption.key).Sublist OptionKey.all ∧
      (∀ o ∈ plain, o.key.isHeader = false) ∧ (∀ o ∈ headers, o.key.isHeader = true) ∧
      ∀ notes markup notes', Gives (ofAtom ctx (.inclusion kind options span)) notes markup notes' ↔
        notes' = notes ∧ ∃ first parts, markup = [.leaf tag (first ++ parts.flatten)] ∧
          List.Forall₂ (fun o a => ∃ text, o.WrittenAs ctx text ∧ a.Carries o.key text)
            plain first ∧
          List.Forall₂ (fun o own => ∃ values, o.HasValues values ∧
            List.Forall₂ (Shows ctx o.key) values own) headers parts ∧
          ∀ own, (∀ a ∈ own, a.Readable) →
            text (.leaf tag own) = text (.leaf tag (first ++ parts.flatten)) →
            own = first ++ parts.flatten := by
  have hall : optionsOf options OptionKey.plain ++ optionsOf options OptionKey.headers =
      optionsOf options OptionKey.all := by
    rw [optionsOf, optionsOf, ← List.filterMap_append, OptionKey.plain_append_headers, optionsOf]
  refine ⟨fun options' hperm notes => ?_, hkeys.map OptionKey.attributeName_injective, _, rfl,
    optionsOf options OptionKey.plain, optionsOf options OptionKey.headers, ?_, ?_, fun o ho => ?_,
    fun o ho => ?_, fun notes markup notes' => ?_⟩
  · rw [ofAtom, ofAtom, inclusionAttributes_perm hperm hkeys]
  · rw [hall]
    exact perm_optionsOf_all hkeys
  · rw [hall]
    exact keys_optionsOf _
  · simpa using List.of_mem_filter (key_mem_of_mem_optionsOf ho)
  · exact List.of_mem_filter (key_mem_of_mem_optionsOf ho)
  · rw [gives_ofAtom_inclusion, inclusionTag_eq]
    refine and_congr_right fun _ => ⟨?_, ?_⟩
    · rintro ⟨_, hown, rfl⟩
      obtain ⟨first, parts, rfl, hfirst, hparts⟩ := inclusionAttributes_eq_ok_iff.1 hown
      exact ⟨first, parts, rfl, hfirst, hparts, fun _ hreadable =>
        text_leaf_inj hreadable (readable_of_inclusionAttributes hown)⟩
    · rintro ⟨first, parts, rfl, hfirst, hparts, -⟩
      exact ⟨_, inclusionAttributes_eq_ok_iff.2 ⟨first, parts, rfl, hfirst, hparts⟩, rfl⟩

/-- A header with two values in front of the source, which is written first. -/
theorem inclusions_do_not_depend_on_option_order_header :
    let here := Span.none
    let str (s : String) : Expr := .lit (.str s) here
    let header : InclusionOption := ⟨.setHeader, .array [str "a: 1", str "b: 2"] here, here⟩
    let source : InclusionOption := ⟨.src, str "/x", here⟩
    ([header, source].map InclusionOption.key).Nodup ∧
    outcome (ofAtom ⟨[], 9⟩ (.inclusion .insert [header, source] here)) #[] =
      (.ok [.leaf "include" [⟨"src", "/x"⟩, ⟨"setheader", "a: 1"⟩, ⟨"setheader", "b: 2"⟩]],
        #[]) := by
  intro here str header source
  have hkeys : ([header, source].map InclusionOption.key).Nodup := by decide
  have hsorted : outcome (ofAtom ⟨[], 9⟩ (.inclusion .insert [source, header] here)) #[] =
      (.ok [.leaf "include" [⟨"src", "/x"⟩, ⟨"setheader", "a: 1"⟩, ⟨"setheader", "b: 2"⟩]],
        #[]) := by
    rfl
  exact ⟨hkeys, ((inclusions_do_not_depend_on_option_order ⟨[], 9⟩ .insert here hkeys).1 _
    (.swap ..) _).symm.trans hsorted⟩

end Markup

end EdgeScript
