import Yanta.Fts5.Expression

/-!
# Tokens of texts put together

The lexer keeps the tokens it has read in front and goes on. Where a text does not end
inside quotes, a blank or a character that is a token by itself separates the tokens in
front from those behind, so the tokens of a text can be read off its parts.
-/

namespace Yanta.Fts5

open List Lexer

namespace Lexer

/-- The same place with further tokens in front. -/
def prepend (ts : List Token) : Lexer → Lexer
  | .between done => .between (ts ++ done)
  | .word done text => .word (ts ++ done) text
  | .quoted done text => .quoted (ts ++ done) text
  | .quote done text => .quote (ts ++ done) text
  | .failed => .failed

theorem start_prepend (ts done : List Token) (c : Char) :
    start (ts ++ done) c = (start done c).prepend ts := by
  unfold start
  split_ifs
  · rfl
  · rfl
  · rfl
  · cases charToken c with
    | none => rfl
    | some t => simp [prepend]

theorem step_prepend (ts : List Token) (l : Lexer) (c : Char) :
    (l.prepend ts).step c = (l.step c).prepend ts := by
  cases l with
  | between done => exact start_prepend ts done c
  | word | quote =>
    rw [prepend, step, step]
    split_ifs
    · rfl
    · rw [append_assoc, start_prepend]
  | quoted done text =>
    simp only [prepend, step]
    split_ifs <;> rfl
  | failed => rfl

theorem foldl_prepend (ts : List Token) (l : Lexer) (s : List Char) :
    s.foldl step (l.prepend ts) = (s.foldl step l).prepend ts := by
  induction s generalizing l with
  | nil => rfl
  | cons c s ih => rw [foldl_cons, foldl_cons, step_prepend, ih]

theorem finish_prepend (ts : List Token) (l : Lexer) :
    (l.prepend ts).finish = l.finish.map (ts ++ ·) := by
  cases l <;> simp [prepend, finish]

theorem foldl_failed (s : List Char) : s.foldl step .failed = .failed :=
  foldl_fixed' (fun _ => rfl) s

/-- The lexer is not inside quotes. -/
def closed : Lexer → Bool
  | .quoted _ _ => false
  | _ => true

end Lexer

/-- The text does not end inside quotes. -/
def Closed (s : List Char) : Prop := (s.foldl Lexer.step (.between [])).closed = true

/-- The character ends a token and stands for these tokens itself. -/
structure Delimiter (c : Char) (us : List Token) : Prop where
  start : ∀ done, Lexer.start done c = .between (done ++ us)
  not_bareword : isBareword c = false
  not_quote : c ≠ '"'

section

variable {c : Char} {us : List Token} {a b : List Char}

theorem delimiter_blank : Delimiter ' ' [] :=
  ⟨fun done => by simp [start, isBlank], by decide, by decide⟩

theorem delimiter_of_charToken {t : Token} (h : charToken c = some t)
    (hblank : isBlank c = false) (hbare : isBareword c = false) (hquote : c ≠ '"') :
    Delimiter c [t] :=
  ⟨fun done => by simp [start, hblank, hquote, hbare, h], hbare, hquote⟩

theorem delimiter_lparen : Delimiter '(' [.lparen] :=
  delimiter_of_charToken rfl rfl (by decide) (by decide)

theorem delimiter_rparen : Delimiter ')' [.rparen] :=
  delimiter_of_charToken rfl rfl (by decide) (by decide)

theorem delimiter_colon : Delimiter ':' [.colon] :=
  delimiter_of_charToken rfl rfl (by decide) (by decide)

theorem step_delimiter (hc : Delimiter c us) {l : Lexer} (hl : l.closed = true) :
    l.step c = match l.finish with
      | some ts => .between (ts ++ us)
      | none => .failed := by
  cases l with
  | between done => exact hc.start done
  | word done text =>
    simp only [step, hc.not_bareword]
    exact hc.start _
  | quoted done text => simp [closed] at hl
  | quote done text =>
    simp only [step, if_neg hc.not_quote]
    exact hc.start _
  | failed => rfl

theorem foldl_delimited (hc : Delimiter c us) (ha : Closed a) :
    (a ++ c :: b).foldl Lexer.step (.between []) =
      match lex a with
      | some ts => (b.foldl Lexer.step (.between [])).prepend (ts ++ us)
      | none => .failed := by
  rw [foldl_append, foldl_cons, step_delimiter hc ha]
  unfold lex
  cases (a.foldl step (.between [])).finish with
  | none => exact foldl_failed b
  | some ts =>
    have hbetween : between (ts ++ us) = (between []).prepend (ts ++ us) := by
      simp [prepend]
    simp [hbetween, foldl_prepend]

theorem lex_delimited (hc : Delimiter c us) (ha : Closed a) :
    lex (a ++ c :: b) =
      (lex a).bind fun ts => (lex b).map fun vs => ts ++ (us ++ vs) := by
  rw [lex, foldl_delimited hc ha]
  cases lex a with
  | none => rfl
  | some ts =>
    simp [finish_prepend, lex]

theorem Closed.delimited (hc : Delimiter c us) (ha : Closed a) (hb : Closed b) :
    Closed (a ++ c :: b) := by
  rw [Closed, foldl_delimited hc ha]
  cases lex a with
  | none => rfl
  | some ts =>
    rw [Closed] at hb
    cases hl : b.foldl step (.between []) <;> simp_all [prepend, closed]

theorem closed_nil : Closed [] := rfl

theorem lex_nil : lex [] = some [] := rfl

end

/-! ## Words and quoted strings -/

section

variable {w : List Char}

theorem isBlank_of_isBareword {c : Char} (h : isBareword c = true) :
    isBlank c = false ∧ c ≠ '"' := by
  constructor
  · by_contra hblank
    have hcases : c = ' ' ∨ c = '\t' ∨ c = '\n' ∨ c = '\r' := by
      by_contra hne
      simp only [not_or] at hne
      simp [isBlank, hne] at hblank
    rcases hcases with rfl | rfl | rfl | rfl <;> exact absurd h (by decide)
  · rintro rfl
    exact absurd h (by decide)

theorem foldl_word (done : List Token) (text : List Char)
    (h : ∀ c ∈ w, isBareword c = true) :
    w.foldl Lexer.step (.word done text) = .word done (text ++ w) := by
  induction w generalizing text with
  | nil => simp
  | cons c w ih =>
    have hc := h c mem_cons_self
    rw [foldl_cons, step, if_pos hc, ih (text ++ [c]) (forall_mem_cons.mp h).2,
      append_assoc, singleton_append]

theorem foldl_bareword (hne : w ≠ []) (h : ∀ c ∈ w, isBareword c = true) :
    w.foldl Lexer.step (.between []) = .word [] w := by
  obtain ⟨c, u, rfl⟩ := exists_cons_of_ne_nil hne
  have hc := h c mem_cons_self
  obtain ⟨hblank, hquote⟩ := isBlank_of_isBareword hc
  rw [foldl_cons, step, start, hblank, if_neg Bool.false_ne_true,
    if_neg hquote, if_pos hc, foldl_word _ _ (forall_mem_cons.mp h).2, singleton_append]

theorem lex_bareword (hne : w ≠ []) (h : ∀ c ∈ w, isBareword c = true) :
    lex w = some [wordToken w] := by
  rw [lex, foldl_bareword hne h]
  rfl

theorem closed_bareword (h : ∀ c ∈ w, isBareword c = true) : Closed w := by
  by_cases hne : w = []
  · rw [hne]
    rfl
  · rw [Closed, foldl_bareword hne h]
    rfl

theorem closed_operator (word : List Char) {a b : List Char} (ha : Closed a) (hb : Closed b)
    (hword : ∀ c ∈ word, isBareword c = true) : Closed (a ++ ' ' :: (word ++ ' ' :: b)) :=
  ha.delimited delimiter_blank ((closed_bareword hword).delimited delimiter_blank hb)

theorem closed_group {a : List Char} (ha : Closed a) : Closed ('(' :: (a ++ [')'])) :=
  closed_nil.delimited delimiter_lparen (ha.delimited delimiter_rparen closed_nil)

/-- A quoted string, with the quotes inside it doubled. -/
def quoteString (text : List Char) : List Char :=
  '"' :: (text.flatMap (fun c => if c = '"' then ['"', '"'] else [c]) ++ ['"'])

theorem foldl_quoted (done : List Token) (text rest : List Char) :
    (rest.flatMap fun c => if c = '"' then ['"', '"'] else [c]).foldl Lexer.step
      (.quoted done text) = .quoted done (text ++ rest) := by
  induction rest generalizing text with
  | nil => simp
  | cons c rest ih =>
    rw [flatMap_cons, foldl_append]
    by_cases hc : c = '"'
    · have htwo : ['"', '"'].foldl step (.quoted done text) =
          .quoted done (text ++ ['"']) := rfl
      rw [if_pos hc, htwo, ih, hc, append_assoc, singleton_append]
    · rw [if_neg hc, foldl_cons, step, if_neg hc, foldl_nil, ih,
        append_assoc, singleton_append]

theorem foldl_quoteString (text : List Char) :
    (quoteString text).foldl Lexer.step (.between []) = .quote [] text := by
  have hopen : (between []).step '"' = .quoted [] [] := rfl
  rw [quoteString, foldl_cons, hopen, foldl_append, foldl_quoted]
  rfl

theorem lex_quoteString (text : List Char) :
    lex (quoteString text) = some [.string text] := by
  rw [lex, foldl_quoteString]
  rfl

theorem closed_quoteString (text : List Char) : Closed (quoteString text) := by
  rw [Closed, foldl_quoteString]
  rfl

theorem closed_step {l : Lexer} {c : Char} (hl : l.closed = true) (hc : c ≠ '"') :
    (l.step c).closed = true := by
  have hstart : ∀ done, (start done c).closed = true := by
    intro done
    unfold start
    split_ifs
    · rfl
    · rfl
    · cases charToken c <;> rfl
  cases l with
  | between done => exact hstart done
  | word done text =>
    rw [step]
    split_ifs
    · rfl
    · exact hstart _
  | quoted done text => simp [closed] at hl
  | quote done text =>
    rw [step, if_neg hc]
    exact hstart _
  | failed => rfl

theorem closed_of_notMem {s : List Char} (h : '"' ∉ s) : Closed s := by
  have hfold : ∀ l : Lexer, l.closed = true → (s.foldl step l).closed = true := by
    induction s with
    | nil => exact fun l hl => hl
    | cons c s ih =>
      intro l hl
      have hc : c ≠ '"' := fun heq => h (heq ▸ mem_cons_self)
      exact ih (fun hs => h (mem_cons_of_mem c hs)) _ (closed_step hl hc)
  exact hfold _ rfl

end

end Yanta.Fts5
