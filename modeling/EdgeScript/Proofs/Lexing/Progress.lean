import EdgeScript.Proofs.Lexing.Tiling

/-!
# The lexer gets to the end

A lexer is asked for one token, for all of them, or to start again (`Lexer.Call`), in any order and
also after it has found a fault.  Whatever it was asked, it stands at a character of its text or at
the end (`Lexer.Standing`), and a call for tokens reaches the end or moves on (`Lexer.call_moves`).
So it has reached the end after as many calls as there are characters, and there it stays.
-/

set_option autoImplicit false

namespace EdgeScript.Lexer

/-! ## Calls -/

/-- What a lexer can be asked for. -/
inductive Call where
  | next | all | reset
deriving DecidableEq, Repr

/-- The tokens that a call gives, and the lexer after it. -/
def call (l : Lexer) : Call → Except Error (List Token) × Lexer
  | .next => (l.next.1.map ([·]), l.next.2)
  | .all => l.all
  | .reset => (.ok [], l.reset)

/-- The lexer after several calls. -/
def after (l : Lexer) (calls : List Call) : Lexer :=
  calls.foldl (fun l c => (l.call c).2) l

/-- The number of characters in front of the place. -/
def position (l : Lexer) : Nat := l.text.length - l.rest.length

/-- What was read ends with the end of the text. -/
def Ended (result : Except Error (List Token)) : Prop :=
  ∃ front t, result = .ok (front ++ [t]) ∧ t.kind = .eof

/-- The lexer stands in the text, behind as many bytes as its offset says. -/
structure Standing (file : Nat) (text : List Char) (l : Lexer) :
  Prop extends Reading file text l where
  text_eq : l.text = text

variable {file : Nat} {text : List Char} {l l' : Lexer}

theorem standing_ofText (text : String) (file : Nat) :
    (ofText text file).Standing file text.toList :=
  ⟨reading_ofText text file, rfl⟩

/-- Reading on leaves the text behind it in place. -/
theorem Standing.advance (h : l.Standing file text) (n : Nat) : (l.advance n).Standing file text :=
  ⟨h.toReading.advance n, h.text_eq⟩

/-- Position and offset count what has been read, in characters and in bytes. -/
theorem Standing.position_eq (h : l.Standing file text) :
    ∃ before, text = before ++ l.rest ∧ l.position = before.length ∧
      l.offset = utf8Length before := by
  obtain ⟨before, htext, hoffset⟩ := h.split
  refine ⟨before, htext, ?_, hoffset⟩
  rw [position, h.text_eq, htext, List.length_append, Nat.add_sub_cancel]

/-! ## One call -/

/-- A call has gone over some of the characters that are left: over all of them if it has come to
the end of the text, and over one at least if not. -/
def Moves (l : Lexer) (result : Except Error (List Token)) (l' : Lexer) : Prop :=
  ∃ n ≤ l.rest.length, l' = l.advance n ∧
    (n = l.rest.length ∧ Ended result ∨ 0 < n ∧ ¬ Ended result)

theorem not_ended_error (e : Error) : ¬ Ended (.error e) := by
  rintro ⟨front, t, h, -⟩
  cases h

/-- Reading has come to the end if the last token is the end. -/
theorem ended_concat {front : List Token} {t : Token} :
    Ended (.ok (front ++ [t])) ↔ t.kind = .eof := by
  constructor
  · rintro ⟨front', t', h, ht'⟩
    obtain ⟨-, heq⟩ := List.append_inj' (Except.ok.inj h) rfl
    cases heq
    exact ht'
  · exact fun ht => ⟨front, t, rfl, ht⟩

theorem ended_singleton {t : Token} : Ended (.ok [t]) ↔ t.kind = .eof := by
  rw [← List.nil_append [t], ended_concat]

theorem exists_of_ended_map {r : Except Error Token} (h : Ended (r.map ([·]))) :
    ∃ t, r = .ok t ∧ t.kind = .eof := by
  cases r with
  | error e => exact absurd h (not_ended_error e)
  | ok t => exact ⟨t, rfl, ended_singleton.1 h⟩

/-- Whether it has does not depend on the tokens before the last. -/
theorem ended_cons {t : Token} (ht : t.kind ≠ .eof) {tokens : List Token} :
    Ended (.ok (t :: tokens)) ↔ Ended (.ok tokens) := by
  rcases List.eq_nil_or_concat' tokens with rfl | ⟨front, last, rfl⟩
  · refine iff_of_false (fun h => ht (ended_singleton.1 h)) ?_
    rintro ⟨front, last, h, -⟩
    simp at h
  · rw [← List.cons_append, ended_concat, ended_concat]

/-- **A call for a token reaches the end or moves on**, whether it finds a token or a fault. -/
theorem next_moves (l : Lexer) : l.Moves (l.next.1.map ([·])) l.next.2 := by
  have hfits {gap word rest : List Char} (hrest : l.rest = gap ++ (word ++ rest))
      (hword : word ≠ []) :
      0 < (gap ++ word).length ∧ (gap ++ word).length ≤ l.rest.length := by
    have hpos := List.length_pos_iff.2 hword
    rw [hrest, ← List.append_assoc]
    simp only [List.length_append]
    omega
  generalize hnext : l.next = r
  obtain ⟨result, l'⟩ := r
  cases finds_of_next hnext with
  | finish hgap => exact ⟨_, Nat.le_refl _, rfl, .inl ⟨rfl, ended_singleton.2 rfl⟩⟩
  | token hrest hgap hword =>
    obtain ⟨hpos, hle⟩ := hfits hrest hword.ne_nil
    exact ⟨_, hle, rfl, .inr ⟨hpos, fun h => hword.ne_eof (ended_singleton.1 h)⟩⟩
  | fault hrest hgap hword =>
    obtain ⟨hpos, hle⟩ := hfits hrest hword
    exact ⟨_, hle, rfl, .inr ⟨hpos, not_ended_error _⟩⟩
  | unclosed hrest hgap hopen =>
    refine ⟨_, Nat.le_refl _, rfl, .inr ⟨?_, not_ended_error _⟩⟩
    have hlength := hopen.length_le
    rw [hrest, List.length_append]
    exact Nat.lt_of_lt_of_le (Nat.lt_of_lt_of_le Nat.zero_lt_two hlength) (Nat.le_add_left _ _)

/-- Moving on after a step is moving on from before it. -/
theorem Moves.trans {result result' : Except Error (List Token)} {l'' : Lexer} {n : Nat}
    (hn : n ≤ l.rest.length) (hpos : 0 < n) (h : (l.advance n).Moves result l'')
    (hresult : Ended result' ↔ Ended result) : l.Moves result' l'' := by
  obtain ⟨m, hm, rfl, hmoves⟩ := h
  rw [length_rest_advance] at hm hmoves
  rw [Moves, hresult]
  refine ⟨n + m, by omega, advance_advance .., ?_⟩
  rcases hmoves with ⟨hm, hended⟩ | ⟨hm, hended⟩
  · exact .inl ⟨by omega, hended⟩
  · exact .inr ⟨by omega, hended⟩

/-- Reading all tokens moves on, or stays at the end. -/
theorem all_moves (l : Lexer) : l.Moves l.all.1 l.all.2 := by
  fun_induction Lexer.all l with
  | case1 l e l' hnext =>
    have hmoves := l.next_moves
    rw [hnext] at hmoves
    exact hmoves
  | case2 l t l' hnext ht =>
    have hmoves := l.next_moves
    rw [hnext] at hmoves
    exact hmoves
  | case3 l t l' hnext ht _ ts l'' hall ih =>
    have hmoves := l.next_moves
    rw [hnext] at hmoves
    rw [hall] at ih
    obtain ⟨n, hn, rfl, ⟨-, hended⟩ | ⟨hpos, -⟩⟩ := hmoves
    · exact absurd (ended_singleton.1 hended) ht
    · exact .trans hn hpos ih (ended_cons ht)
  | case4 l t l' hnext ht _ e l'' hall ih =>
    have hmoves := l.next_moves
    rw [hnext] at hmoves
    rw [hall] at ih
    obtain ⟨n, hn, rfl, ⟨-, hended⟩ | ⟨hpos, -⟩⟩ := hmoves
    · exact absurd (ended_singleton.1 hended) ht
    · exact .trans hn hpos ih Iff.rfl

/-- So does every call but a reset. -/
theorem call_moves {c : Call} (hc : c ≠ .reset) (l : Lexer) :
    l.Moves (l.call c).1 (l.call c).2 := by
  cases c with
  | next => exact l.next_moves
  | all => exact l.all_moves
  | reset => exact absurd rfl hc

/-- What is left to be read gets shorter or is nothing. -/
theorem Moves.length_rest_le {result : Except Error (List Token)} (h : l.Moves result l') :
    l'.rest = [] ∨ l'.rest.length < l.rest.length := by
  obtain ⟨n, hn, rfl, ⟨hend, -⟩ | ⟨hpos, -⟩⟩ := h
  · refine .inl (List.length_eq_zero_iff.1 ?_)
    rw [length_rest_advance, hend, Nat.sub_self]
  · refine .inr ?_
    rw [length_rest_advance]
    omega

/-- Behind the end nothing is left. -/
theorem Moves.rest_eq_nil {result : Except Error (List Token)} (h : l.Moves result l')
    (hended : Ended result) : l'.rest = [] := by
  obtain ⟨n, hn, rfl, ⟨hend, -⟩ | ⟨-, hnot⟩⟩ := h
  · refine List.length_eq_zero_iff.1 ?_
    rw [length_rest_advance, hend, Nat.sub_self]
  · exact absurd hended hnot

/-- At the end of the text, every call for tokens gives the end, and the lexer stays. -/
theorem call_of_rest_eq_nil (h : l.rest = []) {c : Call} (hc : c ≠ .reset) :
    l.call c = (.ok [⟨.eof, ⟨l.offset, l.offset, l.file⟩⟩], l) := by
  have hnext : l.next = (.ok ⟨.eof, ⟨l.offset, l.offset, l.file⟩⟩, l) := by
    have hstay : l.advance 0 = l := by simp [advance, utf8Length]
    rw [next, h, Trivia.skip]
    dsimp only
    rw [hstay, token, h]
    rfl
  cases c with
  | next => 
    rw [call, hnext]
    rfl
  | all => rw [call, all_of_next_eof hnext rfl]
  | reset => exact absurd rfl hc

/-! ## Many calls -/

theorem after_cons (l : Lexer) (c : Call) (calls : List Call) :
    l.after (c :: calls) = (l.call c).2.after calls :=
  rfl

/-- At the end calls change nothing more. -/
theorem after_of_rest_eq_nil (h : l.rest = []) {calls : List Call} (hcalls : .reset ∉ calls) :
    l.after calls = l := by
  induction calls with
  | nil => rfl
  | cons c calls ih =>
    rw [List.mem_cons, not_or] at hcalls
    rw [after_cons, call_of_rest_eq_nil h (Ne.symm hcalls.1), ih hcalls.2]

/-- Each call takes one character at least, as long as there is one. -/
theorem length_rest_after (l : Lexer) {calls : List Call} (hcalls : .reset ∉ calls) :
    (l.after calls).rest = [] ∨ (l.after calls).rest.length + calls.length ≤ l.rest.length := by
  induction calls generalizing l with
  | nil => exact .inr (Nat.le_refl _)
  | cons c calls ih =>
    rw [List.mem_cons, not_or] at hcalls
    rw [after_cons, List.length_cons]
    rcases (call_moves (Ne.symm hcalls.1) l).length_rest_le with hnil | hlt
    · exact .inl (by rw [after_of_rest_eq_nil hnil hcalls.2, hnil])
    · refine (ih (l.call c).2 hcalls.2).imp_right fun hle => ?_
      omega

/-- As many calls as there are characters get to the end. -/
theorem rest_after_eq_nil (l : Lexer) {calls : List Call} (hcalls : .reset ∉ calls)
    (hlength : l.rest.length ≤ calls.length) : (l.after calls).rest = [] := by
  rcases l.length_rest_after hcalls with hnil | hle
  · exact hnil
  · exact List.length_eq_zero_iff.1 (by omega)

/-- **The lexer never leaves its text**, whatever it is asked for. -/
theorem Standing.after (h : l.Standing file text) (calls : List Call) :
    (l.after calls).Standing file text := by
  induction calls generalizing l with
  | nil => exact h
  | cons c calls ih =>
    rw [after_cons]
    by_cases hc : c = .reset
    · rw [hc]
      exact ih ⟨⟨h.file_eq, [], h.text_eq.symm, rfl⟩, h.text_eq⟩
    · obtain ⟨n, -, hn, -⟩ := call_moves hc l
      rw [hn]
      exact ih (h.advance n)

/-! ## All tokens -/

/-- A loop that calls for one token after another, up to the end of the text or a fault, ends after
so many rounds. -/
inductive Loop : Lexer → Nat → Except Error (List Token) → Lexer → Prop
  | fault {l l' : Lexer} {e : Error} (h : l.next = (.error e, l')) : Loop l 1 (.error e) l'
  | finish {l l' : Lexer} {t : Token} (h : l.next = (.ok t, l')) (ht : t.kind = .eof) :
      Loop l 1 (.ok [t]) l'
  | token {l l' l'' : Lexer} {t : Token} {rounds : Nat} {result : Except Error (List Token)}
      (h : l.next = (.ok t, l')) (ht : t.kind ≠ .eof) (more : Loop l' rounds result l'') :
      Loop l (rounds + 1) (result.map (t :: ·)) l''

/-- **Reading all tokens ends**, from every place and after at most one round for each character and
one more. -/
theorem exists_loop (l : Lexer) : ∃ rounds ≤ l.rest.length + 1, Loop l rounds l.all.1 l.all.2 := by
  fun_induction Lexer.all l with
  | case1 l e l' hnext => exact ⟨1, Nat.le_add_left _ _, .fault hnext⟩
  | case2 l t l' hnext ht => exact ⟨1, Nat.le_add_left _ _, .finish hnext ht⟩
  | case3 l t l' hnext ht hlt tokens l'' hall ih =>
    obtain ⟨rounds, hrounds, hloop⟩ := ih
    rw [hall] at hloop
    exact ⟨rounds + 1, by omega, .token hnext ht hloop⟩
  | case4 l t l' hnext ht hlt e l'' hall ih =>
    obtain ⟨rounds, hrounds, hloop⟩ := ih
    rw [hall] at hloop
    exact ⟨rounds + 1, by omega, .token hnext ht hloop⟩

/-! ## What is counted -/

/-- What the lexer counts at a place does not exceed the characters that are left: those of the gap,
those of the word behind it, and those in front of a comment without an end, which has two more at
least. -/
def CountsWithin (l : Lexer) : Prop :=
  (∀ n, Trivia.skip 0 l.rest = .ok n → n ≤ l.rest.length ∧
    ∀ c cs, l.rest.drop n = c :: cs → (Lexeme.read c cs).more + 1 ≤ (l.rest.drop n).length) ∧
  ∀ n, Trivia.skip 0 l.rest = .error n → n + 2 ≤ l.rest.length

/-- What is passed over and what is read lie in the text. -/
theorem countsWithin (l : Lexer) : l.CountsWithin := by
  obtain ⟨gap, text, hrest, hgap, hskip | ⟨hskip, hopen⟩⟩ := Trivia.exists_gap l.rest <;>
    rw [CountsWithin, hrest, Trivia.skip_gap hgap, hskip, Trivia.shift, Nat.zero_add]
  · refine ⟨fun n hn => ?_, fun n hn => ?_⟩
    · cases hn
      refine ⟨by simp, fun c cs hcs => ?_⟩
      rw [hcs]
      exact Nat.succ_le_succ (Lexeme.more_le c cs)
    · cases hn
  · refine ⟨fun n hn => ?_, fun n hn => ?_⟩
    · cases hn
    · cases hn
      rw [List.length_append]
      exact Nat.add_le_add_left hopen.length_le _

theorem Standing.length_rest (h : l.Standing file text) : l.rest.length ≤ text.length := by
  obtain ⟨before, htext, -⟩ := h.split
  rw [htext, List.length_append]
  exact Nat.le_add_left _ _

theorem Standing.position_advance (h : l.Standing file text) {n : Nat} (hn : n ≤ l.rest.length) :
    (l.advance n).position = l.position + n := by
  have hle := h.length_rest
  have htext : (l.advance n).text = l.text := rfl
  rw [position, position, length_rest_advance, htext, h.text_eq]
  omega

/-- What a lexer gives at the end of its text. -/
theorem Standing.call_of_rest_eq_nil (h : l.Standing file text) (hrest : l.rest = []) {c : Call}
    (hc : c ≠ .reset) : (l.call c).1 = .ok [⟨.eof, ⟨utf8Length text, utf8Length text, file⟩⟩] := by
  obtain ⟨before, htext, hoffset⟩ := h.split
  rw [hrest, List.append_nil] at htext
  rw [Lexer.call_of_rest_eq_nil hrest hc, hoffset, h.file_eq, htext]

/-- **The lexer always makes progress**, also after faults.  After any calls, it stands at a
character of its text or at the end, and what it counts lies in the text.  A call for a token gives
the end of the text, and then the lexer stands there, or moves on, whether it gives a token or a
fault.  So the end is given after as many calls as there are characters, unless the lexer starts
again; once given, it is given ever after; and reading all tokens ends. -/
theorem lexer_always_progresses (text : String) (file : Nat) (history : List Call) :
    let l := (ofText text file).after history
    let finish : Token := ⟨.eof, ⟨text.utf8ByteSize, text.utf8ByteSize, file⟩⟩
    (l.position ≤ text.length ∧ l.rest = text.toList.drop l.position ∧
        l.offset = utf8Length (text.toList.take l.position)) ∧
      l.CountsWithin ∧
      ((∃ t, l.next.1 = .ok t ∧ t.kind = .eof) ∧ l.next.2.position = text.length ∨
        l.position < l.next.2.position) ∧
      (∀ calls c, .reset ∉ calls → c ≠ .reset → text.length ≤ calls.length →
        ((l.after calls).call c).1 = .ok [finish]) ∧
      (∀ c calls d, Ended (l.call c).1 → .reset ∉ calls → d ≠ .reset →
        (((l.call c).2.after calls).call d).1 = .ok [finish]) ∧
      ∃ rounds ≤ text.length + 1, Loop l rounds l.all.1 l.all.2 := by
  intro l finish
  have hl : l.Standing file text.toList := (standing_ofText text file).after history
  have hlength := hl.length_rest
  have hfinish {l : Lexer} (hl : l.Standing file text.toList) (hrest : l.rest = []) {c : Call}
      (hc : c ≠ .reset) :
      (l.call c).1 = .ok [finish] := by
    rw [hl.call_of_rest_eq_nil hrest hc, utf8Length_toList]
  rw [String.length_toList] at hlength
  refine ⟨?_, l.countsWithin, ?_, fun calls c hcalls hc hmany => ?_,
    fun c calls d hended hcalls hd => ?_, ?_⟩
  · obtain ⟨before, htext, hposition, hoffset⟩ := hl.position_eq
    rw [hposition, hoffset, htext, List.drop_left, List.take_left, ← String.length_toList, htext,
      List.length_append]
    exact ⟨Nat.le_add_right _ _, rfl, rfl⟩
  · obtain ⟨n, hn, hnext, ⟨hend, hended⟩ | ⟨hpos, -⟩⟩ := l.next_moves
    · obtain ⟨before, htext, hposition, -⟩ := hl.position_eq
      refine .inl ⟨exists_of_ended_map hended, ?_⟩
      rw [hnext, hl.position_advance hn, hend, hposition, ← String.length_toList, htext,
        List.length_append]
    · refine .inr ?_
      rw [hnext, hl.position_advance hn]
      exact Nat.lt_add_of_pos_right hpos
  · exact hfinish (hl.after calls) (l.rest_after_eq_nil hcalls (Nat.le_trans hlength hmany)) hc
  · have hc : c ≠ .reset := by
      rintro rfl
      obtain ⟨front, t, h, -⟩ := hended
      simp [call] at h
    have hrest := (call_moves hc l).rest_eq_nil hended
    rw [after_of_rest_eq_nil hrest hcalls]
    exact hfinish (hl.after [c]) hrest hd
  · obtain ⟨rounds, hrounds, hloop⟩ := l.exists_loop
    exact ⟨rounds, Nat.le_trans hrounds (Nat.succ_le_succ hlength), hloop⟩

/-- A number with a fraction and a string without an end: the lexer gives two faults, and then the
end. -/
theorem lexer_always_progresses_faults :
    (.reset ∉ List.replicate 6 Call.next ∧ Call.all ≠ .reset ∧
      "1.5 'a".length ≤ (List.replicate 6 Call.next).length ∧
      ((((ofText "1.5 'a" 0).after [.next]).after (List.replicate 6 .next)).call .all).1 =
        .ok [⟨.eof, ⟨6, 6, 0⟩⟩]) ∧
      Ended (((ofText "1.5 'a" 0).after [.next, .next]).call .next).1 ∧ .reset ∉ [Call.all] ∧
        (((((ofText "1.5 'a" 0).after [.next, .next]).call .next).2.after [.all]).call .next).1 =
          .ok [⟨.eof, ⟨6, 6, 0⟩⟩] := by
  have hended : Ended (((ofText "1.5 'a" 0).after [.next, .next]).call .next).1 :=
    ⟨[], ⟨.eof, ⟨6, 6, 0⟩⟩, by decide +kernel, rfl⟩
  obtain ⟨-, -, -, hmany, -⟩ := lexer_always_progresses "1.5 'a" 0 [.next]
  obtain ⟨-, -, -, -, hagain, -⟩ := lexer_always_progresses "1.5 'a" 0 [.next, .next]
  exact ⟨⟨by decide, by decide, by decide, hmany _ .all (by decide) (by decide) (by decide)⟩,
    hended, by decide, hagain .next [.all] .next hended (by decide) (by decide)⟩

end EdgeScript.Lexer
