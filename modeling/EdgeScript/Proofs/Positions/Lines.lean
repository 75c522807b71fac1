import Mathlib.Data.List.Induction
import EdgeScript.Proofs.Positions.Text

/-!
# Lines and columns

A binary search keeps its key bracketed: the entry on the left is not greater than the key, unless
it is the first, and those on the right are all greater (`Text.Bracketed`).  What it finds in
increasing entries is therefore the key, or the place between the smaller and the greater entries
(`Text.search_holds`).

The starts of the lines of a text increase, and the first of them is zero.  So the search for the
line of an offset never ends in front of the first line, and it finds the last line that does not
start behind the offset (`Text.LineAt`).  If the text in front of the offset is cut behind its last
line end (`Text.LineCut`), this is the line that starts there, and the stretch from there to the
offset holds the characters that a column counts.

Line and column are found for the offsets of characters and of the end, and for no other
(`Text.isSome_lineColumn?_iff`).  What a source map shows as the place of a span is therefore what
one counts in the text of the unit (`SourceMap.Contains.shows`, `SourceMap.locations_are_exact`).
-/

set_option autoImplicit false

namespace EdgeScript

namespace Text

/-! ## Searching increasing numbers -/

section Search

variable {entries : Array Nat} {key base size : Nat}

theorem lt_of_pairwise (hinc : entries.toList.Pairwise (· < ·)) {i j x y : Nat} (hij : i < j)
    (hx : entries[i]? = some x) (hy : entries[j]? = some y) : x < y := by
  obtain ⟨hi, rfl⟩ := Array.getElem?_eq_some_iff.1 hx
  obtain ⟨hj, rfl⟩ := Array.getElem?_eq_some_iff.1 hy
  exact List.pairwise_iff_getElem.1 hinc i j hi hj hij

/-- The key is looked for among the `size` entries from `base` on. -/
structure Bracketed (entries : Array Nat) (key base size : Nat) : Prop where
  size_pos : 0 < size
  end_le : base + size ≤ entries.size
  le_key : base = 0 ∨ ∃ entry, entries[base]? = some entry ∧ entry ≤ key
  key_lt : ∀ j entry, base + size ≤ j → entries[j]? = some entry → key < entry

theorem Bracketed.whole (h : 0 < entries.size) : Bracketed entries key 0 entries.size where
  size_pos := h
  end_le := by omega
  le_key := .inl rfl
  key_lt j entry hj hentry := by
    obtain ⟨hlt, -⟩ := Array.getElem?_eq_some_iff.1 hentry
    omega

/-- A greater entry in the middle leaves the first half; if the size is odd, that entry stays
too. -/
theorem Bracketed.left (hinc : entries.toList.Pairwise (· < ·))
    (h : Bracketed entries key base size) {middle : Nat}
    (hmiddle : entries[base + size / 2]? = some middle) (hkey : key < middle) :
    Bracketed entries key base (size - size / 2) where
  size_pos := by
    have := h.size_pos
    omega
  end_le := by
    have := h.end_le
    omega
  le_key := h.le_key
  key_lt j entry hj hentry := by
    -- the half that stays is at least as long as the one that goes, so `j` is not in front of the
    -- middle
    obtain hmid | hmid : base + size / 2 = j ∨ base + size / 2 < j := by omega
    · rw [hmid, hentry] at hmiddle
      cases hmiddle
      exact hkey
    · exact Nat.lt_trans hkey (lt_of_pairwise hinc hmid hmiddle hentry)

/-- Any other entry in the middle leaves the second half. -/
theorem Bracketed.right (h : Bracketed entries key base size) {middle : Nat}
    (hmiddle : entries[base + size / 2]? = some middle) (hkey : ¬key < middle) :
    Bracketed entries key (base + size / 2) (size - size / 2) where
  size_pos := by
    have := h.size_pos
    omega
  end_le := by
    have := h.end_le
    omega
  le_key := .inr ⟨middle, hmiddle, Nat.le_of_not_lt hkey⟩
  key_lt j entry hj := h.key_lt j entry (by omega)

/-- Halving goes on until a single entry is left. -/
theorem Bracketed.narrow (hinc : entries.toList.Pairwise (· < ·))
    (h : Bracketed entries key base size) (hend : base + size ≤ entries.size) :
    Bracketed entries key (Text.narrow entries key base size hend) 1 := by
  fun_induction Text.narrow entries key base size hend with
  | case1 base size _ hsize hmid hkey ih =>
    exact ih (h.left hinc (Array.getElem?_eq_getElem hmid) hkey)
  | case2 base size _ hsize hmid hkey ih => exact ih (h.right (Array.getElem?_eq_getElem hmid) hkey)
  | case3 base size _ hsize =>
    have hone : size = 1 := by
      have := h.size_pos
      omega
    exact hone ▸ h

/-- What the outcome of a search says about the entries. -/
def Sought.Holds (entries : Array Nat) (key : Nat) : Sought → Prop
  | .found i => entries[i]? = some key
  | .missing i => i ≤ entries.size ∧ (∀ j entry, j < i → entries[j]? = some entry → entry < key) ∧
      ∀ j entry, i ≤ j → entries[j]? = some entry → key < entry

theorem Bracketed.holds_behind (hinc : entries.toList.Pairwise (· < ·)) {i last : Nat}
    (h : Bracketed entries key i 1) (hlast : entries[i]? = some last) (hless : last < key) :
    (Sought.missing (i + 1)).Holds entries key := by
  refine ⟨h.end_le, fun j entry hj hentry => ?_, h.key_lt⟩
  rcases Nat.eq_or_lt_of_le (Nat.le_of_lt_succ hj) with rfl | hj
  · rw [hlast] at hentry
    cases hentry
    exact hless
  · exact Nat.lt_trans (lt_of_pairwise hinc hj hentry hlast) hless

/-- Only the first entry can be left and be greater than the key. -/
theorem Bracketed.holds_first {i first : Nat} (h : Bracketed entries key i 1)
    (hfirst : entries[i]? = some first) (hgreater : key < first) :
    (Sought.missing i).Holds entries key := by
  obtain rfl | ⟨entry, hentry, hle⟩ := h.le_key
  · refine ⟨Nat.zero_le _, fun j _ hj => absurd hj (Nat.not_lt_zero j), fun j entry _ hentry => ?_⟩
    cases j with
    | zero =>
      rw [hfirst] at hentry
      cases hentry
      exact hgreater
    | succ j => exact h.key_lt _ entry (by omega) hentry
  · rw [hfirst] at hentry
    cases hentry
    exact absurd hgreater (Nat.not_lt_of_le hle)

/-- **A search in increasing entries finds the key, or the place for it.** -/
theorem search_holds (hinc : entries.toList.Pairwise (· < ·)) (key : Nat) :
    (search entries key).Holds entries key := by
  rw [search]
  split
  · rename_i hnone
    -- halving ends at an entry, unless there is none at all
    have hempty : entries = #[] := by
      by_contra hne
      have hwhole : Bracketed entries key 0 entries.size := .whole (Array.size_pos_iff.2 hne)
      exact absurd (hwhole.narrow hinc _).end_le
        (Nat.not_lt_of_le (Array.getElem?_eq_none_iff.1 hnone))
    subst hempty
    exact ⟨Nat.zero_le _, fun _ _ _ hentry => absurd hentry (by simp),
      fun _ _ _ hentry => absurd hentry (by simp)⟩
  · rename_i entry hentry
    have hwhole : Bracketed entries key 0 entries.size :=
      .whole (Nat.zero_lt_of_lt (Array.getElem?_eq_some_iff.1 hentry).1)
    have h := hwhole.narrow hinc (Nat.le_of_eq (Nat.zero_add _))
    split
    · rename_i heq
      exact hentry.trans (congrArg some heq)
    · split
      · rename_i hless
        exact h.holds_behind hinc hentry hless
      · rename_i hne hless
        exact h.holds_first hentry (by omega)

end Search

/-! ## The line of an offset -/

/-- The last of the lines that do not start behind the offset, and its start. -/
structure LineAt (starts : Array Nat) (offset line start : Nat) : Prop where
  getElem?_eq : starts[line]? = some start
  start_le : start ≤ offset
  lt_next : ∀ j next, line < j → starts[j]? = some next → offset < next

variable {starts : Array Nat} {offset line start : Nat}

theorem LineAt.line_le {line' start' : Nat} (h : LineAt starts offset line start)
    (h' : LineAt starts offset line' start') : line' ≤ line :=
  Nat.le_of_not_lt fun hlt => Nat.not_lt_of_le h'.start_le (h.lt_next _ _ hlt h'.getElem?_eq)

/-- **The search never ends in front of the first line**, because no offset is smaller than its
start. -/
theorem search_ne_missing_zero (hinc : starts.toList.Pairwise (· < ·))
    (hfirst : starts[0]? = some 0) (offset : Nat) : search starts offset ≠ .missing 0 := by
  intro hsearch
  have h := search_holds hinc offset
  rw [hsearch] at h
  exact absurd (h.2.2 0 0 (Nat.le_refl _) hfirst) (Nat.not_lt_zero _)

theorem exists_lineAt (hinc : starts.toList.Pairwise (· < ·)) (hfirst : starts[0]? = some 0)
    (offset : Nat) :
    ∃ line start, lineIndex? starts offset = some line ∧ LineAt starts offset line start := by
  have h := search_holds hinc offset
  rw [lineIndex?]
  cases hsearch : search starts offset with
  | found i =>
    rw [hsearch] at h
    exact ⟨i, offset, rfl, h, Nat.le_refl _, fun j next hj => lt_of_pairwise hinc hj h⟩
  | missing i =>
    rw [hsearch] at h
    obtain ⟨hsize, hless, hgreater⟩ := h
    cases i with
    | zero => exact absurd hsearch (search_ne_missing_zero hinc hfirst offset)
    | succ i =>
      have hstart : starts[i]? = some starts[i] := Array.getElem?_eq_getElem hsize
      exact ⟨i, starts[i], rfl, hstart, Nat.le_of_lt (hless i _ (Nat.lt_succ_self i) hstart),
        hgreater⟩

theorem LineAt.lineIndex?_eq (hinc : starts.toList.Pairwise (· < ·)) (hfirst : starts[0]? = some 0)
    (h : LineAt starts offset line start) : lineIndex? starts offset = some line := by
  obtain ⟨line', start', hindex, h'⟩ := exists_lineAt hinc hfirst offset
  rw [hindex, Nat.le_antisymm (h.line_le h') (h'.line_le h)]

/-! ## The starts of lines -/

theorem lineStartsFrom_append (offset : Nat) (cs ds : List Char) :
    lineStartsFrom offset (cs ++ ds) =
      lineStartsFrom offset cs ++ lineStartsFrom (offset + utf8Length cs) ds := by
  induction cs generalizing offset with
  | nil => rfl
  | cons c cs ih =>
    rw [List.cons_append, lineStartsFrom, lineStartsFrom, ih, utf8Length, Nat.add_assoc]
    split <;> rfl

theorem length_lineStartsFrom (offset : Nat) (cs : List Char) :
    (lineStartsFrom offset cs).length = cs.count '\n' := by
  induction cs generalizing offset with
  | nil => rfl
  | cons c cs ih =>
    rw [lineStartsFrom]
    split
    · rename_i hc
      rw [List.length_cons, ih, hc, List.count_cons_self]
    · rename_i hc
      rw [ih, List.count_cons_of_ne hc]

theorem lt_of_mem_lineStartsFrom {offset : Nat} {cs : List Char} {start : Nat}
    (h : start ∈ lineStartsFrom offset cs) : offset < start := by
  induction cs generalizing offset with
  | nil => cases h
  | cons c cs ih =>
    have hpos := c.utf8Size_pos
    rw [lineStartsFrom] at h
    split at h
    · rcases List.mem_cons.1 h with rfl | h
      · omega
      · have := ih h
        omega
    · have := ih h
      omega

theorem pairwise_lineStartsFrom (offset : Nat) (cs : List Char) :
    (lineStartsFrom offset cs).Pairwise (· < ·) := by
  induction cs generalizing offset with
  | nil => exact .nil
  | cons c cs ih =>
    rw [lineStartsFrom]
    split
    · exact .cons (fun _ h => lt_of_mem_lineStartsFrom h) (ih _)
    · exact ih _

theorem lineStartsFrom_eq_nil {cs : List Char} (h : '\n' ∉ cs) (offset : Nat) :
    lineStartsFrom offset cs = [] := by
  rw [← List.length_eq_zero_iff, length_lineStartsFrom, List.count_eq_zero]
  exact h

theorem toList_lineStarts (text : String) :
    (lineStarts text).toList = 0 :: lineStartsFrom 0 text.toList :=
  rfl

theorem pairwise_lineStarts (text : String) : (lineStarts text).toList.Pairwise (· < ·) :=
  .cons (fun _ h => lt_of_mem_lineStartsFrom h) (pairwise_lineStartsFrom 0 text.toList)

theorem getElem?_lineStarts_zero (text : String) : (lineStarts text)[0]? = some 0 := rfl

/-! ## The last line in front of an offset -/

/-- A text cut behind its last line end. -/
structure LineCut (before earlier current : List Char) : Prop where
  eq_append : before = earlier ++ current
  earlier_ends : earlier = [] ∨ ∃ lines, earlier = lines ++ ['\n']
  not_mem : '\n' ∉ current

theorem exists_lineCut (before : List Char) :
    ∃ earlier current, LineCut before earlier current := by
  induction before using List.reverseRecOn with
  | nil => exact ⟨[], [], rfl, .inl rfl, List.not_mem_nil⟩
  | append_singleton before c ih =>
    by_cases hc : c = '\n'
    · exact ⟨before ++ [c], [], (List.append_nil _).symm, .inr ⟨before, by rw [hc]⟩,
        List.not_mem_nil⟩
    · obtain ⟨earlier, current, rfl, hends, hmem⟩ := ih
      refine ⟨earlier, current ++ [c], List.append_assoc .., hends, ?_⟩
      rw [List.mem_append, List.mem_singleton]
      exact fun h => h.elim hmem fun h => hc h.symm

namespace LineCut

variable {before earlier current : List Char}

theorem count_earlier (h : LineCut before earlier current) :
    earlier.count '\n' = before.count '\n' := by
  rw [h.eq_append, List.count_append, List.count_eq_zero.2 h.not_mem, Nat.add_zero]

/-- The characters of the last line are those that are met first from the end. -/
theorem takeWhile_reverse (h : LineCut before earlier current) :
    before.reverse.takeWhile (· != '\n') = current.reverse := by
  have hcurrent : ∀ c ∈ current.reverse, (c != '\n') = true := by
    intro c hc
    rw [bne_iff_ne]
    rintro rfl
    exact h.not_mem (List.mem_reverse.1 hc)
  have hearlier : earlier.reverse.takeWhile (· != '\n') = [] := by
    rcases h.earlier_ends with rfl | ⟨lines, rfl⟩
    · rfl
    · rw [List.reverse_append]
      rfl
  rw [h.eq_append, List.reverse_append, List.takeWhile_append_of_pos hcurrent, hearlier,
    List.append_nil]

/-- The last line starts behind the earlier ones. -/
theorem getElem?_starts (h : LineCut before earlier current) :
    (0 :: lineStartsFrom 0 earlier)[before.count '\n']? = some (utf8Length earlier) := by
  rw [← h.count_earlier]
  rcases h.earlier_ends with rfl | ⟨lines, rfl⟩
  · rfl
  · rw [List.count_append, List.count_singleton_self, List.getElem?_cons_succ,
      lineStartsFrom_append, ← length_lineStartsFrom 0 lines,
      List.getElem?_append_right (Nat.le_refl _), Nat.sub_self, utf8Length_append, Nat.zero_add]
    rfl

theorem lineAt {text : String} {after : List Char} (h : LineCut before earlier current)
    (htext : text.toList = before ++ after) :
    LineAt (lineStarts text) (utf8Length before) (before.count '\n') (utf8Length earlier) := by
  -- the current line has no line end, so the table is cut where the earlier lines end
  have hstarts : (lineStarts text).toList =
      (0 :: lineStartsFrom 0 earlier) ++ lineStartsFrom (utf8Length before) after := by
    rw [toList_lineStarts, htext, h.eq_append, lineStartsFrom_append, lineStartsFrom_append,
      lineStartsFrom_eq_nil h.not_mem, List.append_nil, Nat.zero_add, List.cons_append]
  have hlength : (0 :: lineStartsFrom 0 earlier).length = before.count '\n' + 1 := by
    rw [List.length_cons, length_lineStartsFrom, h.count_earlier]
  refine ⟨?_, ?_, fun j next hj hnext => ?_⟩
  · rw [← Array.getElem?_toList, hstarts, List.getElem?_append_left (by omega), h.getElem?_starts]
  · rw [h.eq_append, utf8Length_append]
    exact Nat.le_add_right _ _
  · rw [← Array.getElem?_toList, hstarts, List.getElem?_append_right (by omega)] at hnext
    exact lt_of_mem_lineStartsFrom (List.mem_of_getElem? hnext)

end LineCut

/-! ## Columns -/

theorem splitBytes?_append (before after : List Char) :
    splitBytes? (utf8Length before) (before ++ after) = some (before, after) := by
  induction before with
  | nil => rw [utf8Length, List.nil_append, splitBytes?]
  | cons c before ih =>
    obtain ⟨n, hn⟩ : ∃ n, c.utf8Size + utf8Length before = n + 1 :=
      Nat.exists_eq_add_one_of_ne_zero (by have := c.utf8Size_pos; omega)
    have hrest : n + 1 - c.utf8Size = utf8Length before := by omega
    rw [utf8Length, List.cons_append, hn, splitBytes?, if_neg (by omega), hrest, ih,
      Option.map_some]

theorem eq_append_of_splitBytes? {n : Nat} {text before after : List Char}
    (h : splitBytes? n text = some (before, after)) :
    text = before ++ after ∧ n = utf8Length before := by
  fun_induction splitBytes? n text generalizing before after with
  | case1 text =>
    cases h
    exact ⟨rfl, rfl⟩
  | case2 => cases h
  | case3 => cases h
  | case4 n c text hc ih =>
    obtain ⟨cut, hcut, heq⟩ := Option.map_eq_some_iff.1 h
    cases heq
    obtain ⟨htext, hn⟩ := ih hcut
    refine ⟨by rw [htext, List.cons_append], ?_⟩
    rw [utf8Length, ← hn]
    omega

/-- **A stretch can be taken out of a text exactly if it starts and ends between characters.** -/
theorem slice?_eq_some_iff {text stretch : List Char} {start stop : Nat} :
    slice? text start stop = some stretch ↔ ∃ before after, text = before ++ stretch ++ after ∧
      start = utf8Length before ∧ stop = utf8Length (before ++ stretch) := by
  constructor
  · intro h
    obtain ⟨⟨upto, after⟩, hstop, h⟩ := Option.bind_eq_some_iff.1 h
    obtain ⟨⟨before, _⟩, hstart, rfl⟩ := Option.map_eq_some_iff.1 h
    obtain ⟨rfl, rfl⟩ := eq_append_of_splitBytes? hstop
    obtain ⟨rfl, rfl⟩ := eq_append_of_splitBytes? hstart
    exact ⟨before, after, rfl, rfl, rfl⟩
  · rintro ⟨before, after, rfl, rfl, rfl⟩
    rw [slice?, splitBytes?_append, Option.bind_some, splitBytes?_append, Option.map_some]

namespace LineCut

variable {text : String} {before after earlier current : List Char}

theorem slice?_eq (h : LineCut before earlier current) (htext : text.toList = before ++ after) :
    slice? text.toList (utf8Length earlier) (utf8Length before) = some current :=
  slice?_eq_some_iff.2 ⟨earlier, after, by rw [htext, h.eq_append], rfl, by rw [h.eq_append]⟩

theorem lineColumn?_eq (h : LineCut before earlier current)
    (htext : text.toList = before ++ after) :
    lineColumn? text (utf8Length before) = some (before.count '\n' + 1, current.length + 1) := by
  have hline := h.lineAt htext
  rw [lineColumn?, hline.lineIndex?_eq (pairwise_lineStarts text) (getElem?_lineStarts_zero text)]
  show ((lineStarts text)[before.count '\n']? >>= _) = _
  rw [hline.getElem?_eq]
  show (slice? text.toList (utf8Length earlier) (utf8Length before) >>= _) = _
  rw [h.slice?_eq htext]
  rfl

end LineCut

theorem lineColumn?_eq_some_iff {text : String} {offset : Nat} {place : Nat × Nat} :
    lineColumn? text offset = some place ↔
      ∃ before after earlier current, text.toList = before ++ after ∧
      offset = utf8Length before ∧ LineCut before earlier current ∧
      place = (before.count '\n' + 1, current.length + 1) := by
  constructor
  · intro h
    obtain ⟨_, -, hplace⟩ := Option.bind_eq_some_iff.1 h
    obtain ⟨_, -, hplace⟩ := Option.bind_eq_some_iff.1 hplace
    obtain ⟨passed, hslice, -⟩ := Option.bind_eq_some_iff.1 hplace
    obtain ⟨before, after, htext, -, rfl⟩ := slice?_eq_some_iff.1 hslice
    obtain ⟨earlier, current, hcut⟩ := exists_lineCut (before ++ passed)
    exact ⟨_, after, earlier, current, htext, rfl, hcut,
      Option.some.inj (h.symm.trans (hcut.lineColumn?_eq htext))⟩
  · rintro ⟨before, after, earlier, current, htext, rfl, hcut, rfl⟩
    exact hcut.lineColumn?_eq htext

/-- The text in front of a boundary of characters, and its last line. -/
theorem exists_lineCut_of_isValid {text : String} {offset : Nat}
    (h : String.Pos.Raw.IsValid text ⟨offset⟩) :
    ∃ (before after : String) (earlier current : List Char), text = before ++ after ∧
      text.toList = before.toList ++ after.toList ∧ utf8Length before.toList = offset ∧
      LineCut before.toList earlier current := by
  obtain ⟨before, after, rfl, hoffset⟩ := String.Pos.Raw.isValid_iff_exists_append.1 h
  obtain ⟨earlier, current, hcut⟩ := exists_lineCut before.toList
  refine ⟨before, after, earlier, current, rfl, String.toList_append .., ?_, hcut⟩
  exact (utf8Length_toList before).trans (congrArg String.Pos.Raw.byteIdx hoffset.symm)

/-- **Line and column are found exactly for the offsets between characters.** -/
theorem isSome_lineColumn?_iff {text : String} {offset : Nat} :
    (lineColumn? text offset).isSome = true ↔ String.Pos.Raw.IsValid text ⟨offset⟩ := by
  rw [Option.isSome_iff_exists]
  constructor
  · rintro ⟨place, h⟩
    obtain ⟨before, after, -, -, htext, hoffset, -⟩ := lineColumn?_eq_some_iff.1 h
    exact Boundary.isValid ⟨before, after, htext, hoffset⟩
  · intro h
    obtain ⟨before, after, earlier, current, -, htext, hsize, hcut⟩ := exists_lineCut_of_isValid h
    exact ⟨_, lineColumn?_eq_some_iff.2 ⟨_, _, earlier, current, htext, hsize.symm, hcut, rfl⟩⟩

end Text

/-! ## Locations -/

/-- The place behind a text at the start of a unit. -/
def Location.behind (name : String) (before : List Char) : Location :=
  ⟨name, before.count '\n' + 1, (before.reverse.takeWhile (· != '\n')).length + 1⟩

/-- The location is that of a span in its unit: it has the name of the unit and counts the lines and
the characters of the text in front of the span. -/
def SourceMap.Shows (m : SourceMap) (span : Span) (location : Location) : Prop :=
  ∃ unit, m.files[span.file]? = some unit ∧ ∃ before after : String, unit.text = before ++ after ∧
    before.utf8ByteSize = span.start ∧ location = .behind unit.name before.toList

namespace SourceMap

variable {m : SourceMap} {span : Span} {unit : SourceFile}

theorem locate_of_lineColumn? {line column : Nat} (hunit : m.files[span.file]? = some unit)
    (h : Text.lineColumn? unit.text (min span.start unit.text.utf8ByteSize) = some (line, column)) :
    m.locate span = ⟨unit.name, line, column⟩ := by
  rw [locate, hunit]
  dsimp only
  rw [h]
  rfl

/-- **A place that exists is found.** -/
theorem Contains.shows (h : m.Contains span) : m.Shows span (m.locate span) := by
  obtain ⟨unit, hunit⟩ := h.exists_unit
  have hvalid := h.start_isValid
  have hle := Nat.le_trans h.start_le_stop h.stop_le
  rw [text_of_getElem? hunit] at hvalid hle
  obtain ⟨before, after, earlier, current, htext, hchars, hsize, hcut⟩ :=
    Text.exists_lineCut_of_isValid hvalid
  have hfound := hcut.lineColumn?_eq hchars
  rw [hsize, ← Nat.min_eq_left hle] at hfound
  refine ⟨unit, hunit, before, after, htext, (utf8Length_toList before).symm.trans hsize, ?_⟩
  rw [locate_of_lineColumn? hunit hfound, Location.behind, hcut.takeWhile_reverse,
    List.length_reverse]

/-- **Lines and columns are counted exactly**, for every unit of a source map and every span in it.

The search among the starts of the unit's lines never ends in front of the first one.  Let the start
of the span, or the end of the text if that comes first, be a boundary of characters; nothing is
found if it is not.  Let the text in front of it be cut behind its last line end, if it has one.
Then the search finds the line that starts there, the stretch from there on lies in the text, and
the location tells one more than the line ends in front of the span and one more than the characters
since the last of them. -/
theorem locations_are_exact (m : SourceMap) (span : Span) (unit : SourceFile)
    (hunit : m.files[span.file]? = some unit) :
    let starts := Text.lineStarts unit.text
    let offset := min span.start unit.text.utf8ByteSize
    Text.search starts offset ≠ .missing 0 ∧
    ((Text.lineColumn? unit.text offset).isSome = true ↔
      String.Pos.Raw.IsValid unit.text ⟨offset⟩) ∧
    (String.Pos.Raw.IsValid unit.text ⟨offset⟩ → ∃ earlier current after : String,
      unit.text = earlier ++ current ++ after ∧ (earlier ++ current).utf8ByteSize = offset ∧
      (earlier = "" ∨ ∃ lines, earlier = lines ++ "\n") ∧ '\n' ∉ current.toList ∧
      Text.lineIndex? starts offset = some ((earlier ++ current).toList.count '\n') ∧
      starts[(earlier ++ current).toList.count '\n']? = some earlier.utf8ByteSize ∧
      Text.slice? unit.text.toList earlier.utf8ByteSize offset = some current.toList ∧
      m.locate span = ⟨unit.name, 1 + (earlier ++ current).toList.count '\n',
        1 + current.length⟩) := by
  intro starts offset
  have hinc : starts.toList.Pairwise (· < ·) := Text.pairwise_lineStarts unit.text
  have hfirst : starts[0]? = some 0 := Text.getElem?_lineStarts_zero unit.text
  refine ⟨Text.search_ne_missing_zero hinc hfirst offset, Text.isSome_lineColumn?_iff,
    fun hvalid => ?_⟩
  obtain ⟨before, after, earlier, current, htext, hchars, hsize, hcut⟩ :=
    Text.exists_lineCut_of_isValid hvalid
  have hbefore : before = String.ofList earlier ++ String.ofList current := by
    rw [← String.ofList_append, ← hcut.eq_append, String.ofList_toList]
  have hline := hcut.lineAt hchars
  have hslice := hcut.slice?_eq hchars
  have hfound := hcut.lineColumn?_eq hchars
  rw [hsize] at hline hslice hfound
  refine ⟨String.ofList earlier, String.ofList current, after, ?_⟩
  rw [← hbefore, ← utf8Length_ofList, String.toList_ofList, String.length_ofList]
  refine ⟨htext, (utf8Length_toList before).symm.trans hsize, ?_, hcut.not_mem,
    hline.lineIndex?_eq hinc hfirst, hline.getElem?_eq, hslice, ?_⟩
  · rcases hcut.earlier_ends with rfl | ⟨lines, rfl⟩
    · exact .inl rfl
    · exact .inr ⟨String.ofList lines, String.ofList_append⟩
  · rw [locate_of_lineColumn? hunit hfound, Nat.add_comm 1, Nat.add_comm 1]

/-- A start in the second unit, behind a line end and characters of several bytes. -/
theorem locations_are_exact_second_unit :
    let text := "é\n日本 x\r\n😀y"
    let m := ((SourceMap.empty.add "main.js" none "x = 1;\n").1.add "u" none text).1
    let starts := Text.lineStarts text
    let offset := min 6 text.utf8ByteSize
    m.files[1]? = some ⟨"u", none, text⟩ ∧ String.Pos.Raw.IsValid text ⟨offset⟩ ∧
    Text.search starts offset ≠ .missing 0 ∧ (Text.lineColumn? text offset).isSome = true ∧
    ∃ earlier current after : String,
      text = earlier ++ current ++ after ∧ (earlier ++ current).utf8ByteSize = offset ∧
      (earlier = "" ∨ ∃ lines, earlier = lines ++ "\n") ∧ '\n' ∉ current.toList ∧
      Text.lineIndex? starts offset = some ((earlier ++ current).toList.count '\n') ∧
      starts[(earlier ++ current).toList.count '\n']? = some earlier.utf8ByteSize ∧
      Text.slice? text.toList earlier.utf8ByteSize offset = some current.toList ∧
      m.locate ⟨6, 9, 1⟩ =
        ⟨"u", 1 + (earlier ++ current).toList.count '\n', 1 + current.length⟩ := by
  intro text m starts offset
  have hunit : m.files[1]? = some ⟨"u", none, text⟩ := rfl
  have hvalid : String.Pos.Raw.IsValid text ⟨offset⟩ :=
    String.Pos.Raw.isValid_iff_exists_append.2 ⟨"é\n日",
      "本 x\r\n😀y", by decide +kernel, by decide +kernel⟩
  obtain ⟨hsearch, hsome, hfound⟩ := locations_are_exact m ⟨6, 9, 1⟩ ⟨"u", none, text⟩ hunit
  exact ⟨hunit, hvalid, hsearch, hsome.2 hvalid, hfound hvalid⟩

/-- Lines are counted by their ends, columns by characters, and what lies behind the end is at the
end. -/
example :
    let m := (SourceMap.empty.add "u" none "é\n日本 x\r\n😀y").1
    [0, 2, 3, 6, 13, 18, 99].map (fun start => (m.locate ⟨start, start, 0⟩).text) =
      ["u:1:1", "u:1:2", "u:2:1", "u:2:2", "u:3:1", "u:3:3", "u:3:3"] := by
  decide +kernel

end SourceMap

end EdgeScript
