import EdgeScript.Token.Lexer

/-!
# Places in a text

Offsets count bytes, and not every offset is a place: it may lie inside of a character, or behind
the end.  `SourceMap.Contains` says that a span is a stretch of the text of a loaded unit.  A lexer
moves over whole characters, so the spans of its tokens, and of what it finds wrong, are stretches
of its text (`locatedResult_tokenize`); and two stretches of one text are covered by a third
(`Span.Within.merge`).
-/

set_option autoImplicit false

namespace EdgeScript

/-! ## Boundaries of characters -/

theorem utf8Length_append (cs ds : List Char) :
    utf8Length (cs ++ ds) = utf8Length cs + utf8Length ds := by
  induction cs with
  | nil => rw [List.nil_append, utf8Length, Nat.zero_add]
  | cons c cs ih => rw [List.cons_append, utf8Length, utf8Length, ih, Nat.add_assoc]

theorem utf8Length_ofList (cs : List Char) : utf8Length cs = (String.ofList cs).utf8ByteSize := by
  induction cs with
  | nil => rfl
  | cons c cs ih =>
    have hsplit : String.ofList (c :: cs) = String.singleton c ++ String.ofList cs := by
      rw [String.singleton_eq_ofList, ← String.ofList_append, List.singleton_append]
    rw [utf8Length, ih, hsplit, String.utf8ByteSize_append, String.utf8ByteSize_singleton]

/-- The length of a text in bytes, counted character by character. -/
theorem utf8Length_toList (text : String) : utf8Length text.toList = text.utf8ByteSize := by
  rw [utf8Length_ofList, String.ofList_toList]

/-- The offset of a character of the text, or of its end. -/
def Boundary (text : List Char) (offset : Nat) : Prop :=
  ∃ before after, text = before ++ after ∧ offset = utf8Length before

/-- A boundary is not behind the end of the text. -/
theorem Boundary.le {text : List Char} {offset : Nat} (h : Boundary text offset) :
    offset ≤ utf8Length text := by
  obtain ⟨before, after, rfl, rfl⟩ := h
  rw [utf8Length_append]
  exact Nat.le_add_right _ _

/-- A boundary is a position between two characters. -/
theorem Boundary.isValid {text : String} {offset : Nat} (h : Boundary text.toList offset) :
    String.Pos.Raw.IsValid text ⟨offset⟩ := by
  obtain ⟨before, after, htext, rfl⟩ := h
  refine String.Pos.Raw.isValid_iff_exists_append.2 ⟨String.ofList before,
    String.ofList after, ?_, ?_⟩
  · rw [← String.ofList_append, ← htext, String.ofList_toList]
  · rw [utf8Length_ofList]
    rfl

namespace Span

/-- The span is a stretch of the text of a unit. -/
structure Within (file : Nat) (text : List Char) (span : Span) : Prop where
  file_eq : span.file = file
  start_le_stop : span.start ≤ span.stop
  start : Boundary text span.start
  stop : Boundary text span.stop

variable {file : Nat} {text : List Char}

/-- A place that goes from one place of a text to another lies in the text. -/
theorem Within.merge {s t : Span} (hs : s.Within file text) (ht : t.Within file text) :
    (s.merge t).Within file text where
  file_eq := hs.file_eq
  start_le_stop :=
    Nat.le_trans (Nat.min_le_left ..) (Nat.le_trans hs.start_le_stop (Nat.le_max_left ..))
  start := by
    rw [Span.merge]
    rcases Nat.le_total s.start t.start with h | h
    · rw [Nat.min_eq_left h]
      exact hs.start
    · rw [Nat.min_eq_right h]
      exact ht.start
  stop := by
    rw [Span.merge]
    rcases Nat.le_total s.stop t.stop with h | h
    · rw [Nat.max_eq_right h]
      exact ht.stop
    · rw [Nat.max_eq_left h]
      exact hs.stop

/-- The end of a stretch is a stretch without characters. -/
theorem Within.ending {s : Span} (h : s.Within file text) :
    Within file text ⟨s.stop, s.stop, s.file⟩ :=
  ⟨h.file_eq, Nat.le_refl _, h.stop, h.stop⟩

end Span

/-! ## Spans of loaded units -/

/-- **A place that exists**: the unit has been loaded, and the span runs from one character of its
text to a later one, or to the end. -/
structure SourceMap.Contains (m : SourceMap) (span : Span) : Prop where
  file_lt : span.file < m.size
  start_le_stop : span.start ≤ span.stop
  stop_le : span.stop ≤ (m.text span.file).utf8ByteSize
  start_isValid : String.Pos.Raw.IsValid (m.text span.file) ⟨span.start⟩
  stop_isValid : String.Pos.Raw.IsValid (m.text span.file) ⟨span.stop⟩

/-- Every unit of one source map is in the other too, with the same number. -/
def SourceMap.Extends (m m' : SourceMap) : Prop :=
  ∀ (file : Nat) (unit : SourceFile), m.files[file]? = some unit → m'.files[file]? = some unit

namespace SourceMap

variable {m m' m'' : SourceMap}

theorem Extends.refl (m : SourceMap) : m.Extends m := fun _ _ h => h

theorem Extends.trans (h : m.Extends m') (h' : m'.Extends m'') : m.Extends m'' :=
  fun file unit hunit => h' file unit (h file unit hunit)

/-- Adding a unit leaves the units that are there under their numbers. -/
theorem extends_add (m : SourceMap) (name : String) (path : Option Path) (text : String) :
    m.Extends (m.add name path text).1 := by
  intro file unit hunit
  obtain ⟨hlt, -⟩ := Array.getElem?_eq_some_iff.1 hunit
  rw [add, Array.getElem?_push_lt hlt, ← Array.getElem?_eq_getElem hlt]
  exact hunit

/-- A unit is added under the next number. -/
theorem getElem?_files_add (m : SourceMap) (name : String) (path : Option Path) (text : String) :
    (m.add name path text).1.files[m.files.size]? = some ⟨name, path, text⟩ := by
  rw [add]
  exact Array.getElem?_push_size

theorem text_of_getElem? {file : Nat} {unit : SourceFile} (h : m.files[file]? = some unit) :
    m.text file = unit.text := by
  rw [text, h]
  rfl

/-- A place in the text of a unit is one of the source map. -/
theorem contains_of_within {unit : SourceFile} {file : Nat} {span : Span}
    (hunit : m.files[file]? = some unit) (h : span.Within file unit.text.toList) :
    m.Contains span := by
  obtain ⟨hlt, -⟩ := Array.getElem?_eq_some_iff.1 hunit
  have htext : m.text span.file = unit.text := text_of_getElem? (h.file_eq ▸ hunit)
  refine ⟨h.file_eq ▸ hlt, h.start_le_stop, ?_, ?_, ?_⟩ <;> rw [htext]
  · exact utf8Length_toList unit.text ▸ h.stop.le
  · exact h.start.isValid
  · exact h.stop.isValid

theorem Contains.exists_unit {span : Span} (h : m.Contains span) :
    ∃ unit, m.files[span.file]? = some unit :=
  ⟨_, Array.getElem?_eq_getElem h.file_lt⟩

/-- Loading more units takes no place away. -/
theorem Contains.mono {span : Span} (hm : m.Extends m') (h : m.Contains span) :
    m'.Contains span := by
  obtain ⟨unit, hunit⟩ := h.exists_unit
  have hunit' := hm _ _ hunit
  obtain ⟨hlt, -⟩ := Array.getElem?_eq_some_iff.1 hunit'
  have htext : m'.text span.file = m.text span.file := by
    rw [text_of_getElem? hunit, text_of_getElem? hunit']
  refine ⟨hlt, h.start_le_stop, ?_, ?_, ?_⟩ <;> rw [htext]
  · exact h.stop_le
  · exact h.start_isValid
  · exact h.stop_isValid

end SourceMap

/-! ## Results -/

/-- `P` holds of the place of an error, if it has one. -/
def Error.Located (P : Span → Prop) (e : Error) : Prop := ∀ span ∈ e.span?, P span

/-- An error that is reported at one place has a good place if that is good. -/
theorem Error.Located.of_span {P : Span → Prop} {e : Error} {span : Span} (he : e.span? = some span)
    (h : P span) : e.Located P :=
  fun _ hmem => Option.some.inj (he.symm.trans hmem) ▸ h

/-- A result is as `Q` says, or it is an error at a place as `P` says. -/
def LocatedResult {α : Type} (P : Span → Prop) (r : Except Error α) (Q : α → Prop) : Prop :=
  match r with
  | .ok a => Q a
  | .error e => e.Located P

namespace LocatedResult

variable {α β : Type} {P P' : Span → Prop} {r : Except Error α} {Q Q' : α → Prop} {Q'' : β → Prop}

theorem mono (h : LocatedResult P r Q) (hP : ∀ span, P span → P' span) (hQ : ∀ a, Q a → Q' a) :
    LocatedResult P' r Q' := by
  cases r with
  | error e => exact fun span hspan => hP span (h span hspan)
  | ok a => exact hQ a h

theorem map {f : α → β} (h : LocatedResult P r fun a => Q'' (f a)) :
    LocatedResult P (r.map f) Q'' := by
  cases r with
  | error e => exact h
  | ok a => exact h

/-- One step after another: the second may rely on what the first gives. -/
theorem bind {f : α → Except Error β} (h : LocatedResult P r Q)
    (hf : ∀ a, Q a → LocatedResult P (f a) Q'') : LocatedResult P (r >>= f) Q'' := by
  cases r with
  | error e => exact h
  | ok a => exact hf a h

theorem foldlM {f : β → α → Except Error β} (h : ∀ b a, LocatedResult P (f b a) fun _ => True)
    (l : List α) (b : β) : LocatedResult P (l.foldlM f b) fun _ => True := by
  induction l generalizing b with
  | nil => trivial
  | cons a l ih => exact (h b a).bind fun b _ => ih b

end LocatedResult

/-! ## Tokens -/

namespace Lexer

/-- The lexer stands in the text of a unit, as many bytes behind its start as its offset says. -/
structure Reading (file : Nat) (text : List Char) (l : Lexer) : Prop where
  file_eq : l.file = file
  split : ∃ before, text = before ++ l.rest ∧ l.offset = utf8Length before

variable {file : Nat} {text : List Char} {l l' : Lexer}

/-- At first nothing of the text has been read. -/
theorem reading_ofText (text : String) (file : Nat) : (ofText text file).Reading file text.toList :=
  ⟨rfl, [], rfl, rfl⟩

/-- Reading on stays in the text, even past its end. -/
theorem Reading.advance (h : l.Reading file text) (n : Nat) : (l.advance n).Reading file text := by
  obtain ⟨before, htext, hoffset⟩ := h.split
  refine ⟨h.file_eq, before ++ l.rest.take n, ?_, ?_⟩
  · rw [List.append_assoc, Lexer.advance, List.take_append_drop]
    exact htext
  · rw [utf8Length_append, ← hoffset]
    rfl

theorem Reading.boundary (h : l.Reading file text) : Boundary text l.offset := by
  obtain ⟨before, htext, hoffset⟩ := h.split
  exact ⟨before, l.rest, htext, hoffset⟩

/-- What is read between two moments is a place of the text. -/
theorem Reading.spanTo (h : l.Reading file text) (h' : l'.Reading file text)
    (hle : l.offset ≤ l'.offset) : (l.spanTo l').Within file text :=
  ⟨h.file_eq, hle, h.boundary, h'.boundary⟩

theorem offset_advance_le_end (l : Lexer) (n : Nat) :
    (l.advance n).offset ≤ (l.advance l.rest.length).offset := by
  have hsplit := congrArg utf8Length (List.take_append_drop n l.rest)
  rw [utf8Length_append] at hsplit
  simp only [advance, List.take_length]
  omega

/-- The next token stands in the text, and so does what is wrong with it. -/
theorem locatedResult_token (h : l.Reading file text) :
    LocatedResult (Span.Within file text) l.token.1 (fun t => t.span.Within file text) ∧
      l.token.2.Reading file text := by
  rw [token]
  split
  · exact ⟨h.spanTo h (Nat.le_refl _), h⟩
  · rename_i c cs hrest
    have hnext := h.advance ((Lexeme.read c cs).more + 1)
    have hspan := h.spanTo hnext (Nat.le_add_right ..)
    dsimp only
    split
    · exact ⟨hspan, hnext⟩
    · exact ⟨.of_span rfl hspan, hnext⟩

theorem locatedResult_next (h : l.Reading file text) :
    LocatedResult (Span.Within file text) l.next.1 (fun t => t.span.Within file text) ∧
      l.next.2.Reading file text := by
  rw [next]
  split
  · exact locatedResult_token (h.advance _)
  · rename_i n _
    have hspan := (h.advance n).spanTo (h.advance l.rest.length) (l.offset_advance_le_end n)
    exact ⟨.of_span rfl hspan, h.advance _⟩

/-- So do all tokens, of which there is at least one. -/
theorem locatedResult_all (h : l.Reading file text) :
    LocatedResult (Span.Within file text) l.all.1
      fun tokens => tokens ≠ [] ∧ ∀ t ∈ tokens, t.span.Within file text := by
  fun_induction Lexer.all l with
  | case1 l e l' hnext =>
    have herror := (locatedResult_next h).1
    rwa [hnext] at herror
  | case2 l t l' hnext =>
    have htoken := (locatedResult_next h).1
    rw [hnext] at htoken
    exact ⟨List.cons_ne_nil _ _, List.forall_mem_singleton.2 htoken⟩
  | case3 l t l' hnext _ _ rest l'' hall ih =>
    obtain ⟨htoken, hreading⟩ := locatedResult_next h
    rw [hnext] at htoken hreading
    have hrest := ih hreading
    rw [hall] at hrest
    exact ⟨List.cons_ne_nil _ _, List.forall_mem_cons.2 ⟨htoken, hrest.2⟩⟩
  | case4 l t l' hnext _ _ e l'' hall ih =>
    have hreading := (locatedResult_next h).2
    rw [hnext] at hreading
    have herror := ih hreading
    rwa [hall] at herror

end Lexer

/-- **Tokens stand in their text**, and what is wrong with a text is wrong at a place in it. -/
theorem locatedResult_tokenize (text : String) (file : Nat) :
    LocatedResult (Span.Within file text.toList) (tokenize text file)
      fun tokens => tokens ≠ [] ∧ ∀ t ∈ tokens, t.span.Within file text.toList :=
  Lexer.locatedResult_all (Lexer.reading_ofText text file)

end EdgeScript
