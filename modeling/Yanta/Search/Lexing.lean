import Yanta.Search.Query

/-!
# Tokens of a query

How the lexer reads one token off a text: each token takes at least one character, a word
without the characters that end it is one token, and spaces are dropped.
-/

namespace Yanta.Search

open Go List Option Regexp Nat

/-! ## The lexer -/

section

variable {s : List Char} {r : Option Token × List Char}

theorem quotedText_length {r : List Char × List Char} (h : quotedText s = some r) :
    r.2.length < s.length := by
  fun_induction quotedText s generalizing r with
  | case1 | case3 | case5 => simp at h
  | case2 | case4 =>
    obtain rfl := Option.some.inj h
    simp
  | case6 d s hc hd ih =>
    obtain ⟨r', hr, rfl⟩ := map_eq_some_iff.mp h
    have hlt := ih hr
    simp only [length_cons]
    omega
  | case7 c d s hc hb ih =>
    obtain ⟨r', hr, rfl⟩ := map_eq_some_iff.mp h
    have hlt := ih hr
    simp only [length_cons] at hlt ⊢
    omega

theorem dropWhile_length_lt {p : Char → Bool} {c : Char} (hc : p c = true) (s : List Char) :
    ((c :: s).dropWhile p).length < (c :: s).length := by
  rw [dropWhile_cons_of_pos hc]
  exact lt_succ_of_le (dropWhile_sublist p).length_le

/-- A token takes at least one character. -/
theorem nextToken_length (h : nextToken s = some r) : r.2.length < s.length := by
  cases s with
  | nil => simp [nextToken] at h
  | cons c s =>
    rw [nextToken] at h
    split_ifs at h with hquote hor hand hident hpunct
    · obtain ⟨q, hq, hmap⟩ := bind_eq_some_iff.mp h
      obtain ⟨value, -, rfl⟩ := map_eq_some_iff.mp hmap
      exact lt_succ_of_lt (quotedText_length hq)
    · obtain rfl := Option.some.inj h
      simp only [length_drop, length_cons]
      omega
    · obtain rfl := Option.some.inj h
      simp only [length_drop, length_cons]
      omega
    · obtain rfl := Option.some.inj h
      exact dropWhile_length_lt hident s
    · obtain rfl := Option.some.inj h
      simp
    · obtain rfl := Option.some.inj h
      have hspace : space c = true := by
        have hnot : c ≠ ':' ∧ c ≠ '-' := not_or.mp hpunct
        simpa [identChar, hquote, hnot.1, hnot.2] using hident
      exact dropWhile_length_lt hspace s

theorem tokensFrom_eq {fuel : Nat} (h : s.length ≤ fuel) : tokensFrom fuel s = tokens s := by
  have hany : ∀ n m s, s.length ≤ n → s.length ≤ m → tokensFrom n s = tokensFrom m s := by
    intro n
    induction n with
    | zero =>
      intro m s hn hm
      obtain rfl := length_eq_zero_iff.mp (le_zero.mp hn)
      cases m <;> rfl
    | succ n ih =>
      intro m s hn hm
      cases s with
      | nil => cases m <;> rfl
      | cons c s =>
        cases m with
        | zero => simp at hm
        | succ m =>
          rw [tokensFrom, tokensFrom]
          cases hnext : nextToken (c :: s) with
          | none => rfl
          | some r =>
            have hlt := nextToken_length hnext
            simp only [bind_some]
            rw [ih m r.2 (by omega) (by omega)]
  exact hany fuel s.length s h (le_refl _)

theorem tokens_of_nextToken (h : nextToken s = some r) :
    tokens s = (tokens r.2).map fun ts => r.1.toList ++ ts := by
  have hlt := nextToken_length h
  cases s with
  | nil => simp at hlt
  | cons c s =>
    have hrest : r.2.length ≤ s.length := le_of_lt_succ hlt
    rw [tokens, length_cons, tokensFrom, h, bind_some, tokensFrom_eq hrest]

end

/-! ## Plain words -/

/-- A word that is one token: not a keyword, and without the characters that end one. -/
structure PlainWord (w : List Char) : Prop where
  ne_nil : w ≠ []
  chars : ∀ c ∈ w, identChar c = true
  not_or : startsWithKeyword ['O', 'R'] w = false
  not_and : startsWithKeyword ['A', 'N', 'D'] w = false

/-- The text ends a word that stands in front of it. -/
def EndsWord (s : List Char) : Prop := ∀ c ∈ s.head?, identChar c = false

section

variable {w s : List Char}

theorem word_eq_false_of_identChar {c : Char} (h : identChar c = false) :
    Regexp.word c = false := by
  have hcases : c = '\t' ∨ c = '\n' ∨ c = '\x0c' ∨ c = '\r' ∨ c = ' ' ∨ c = ':' ∨ c = '-' ∨
      c = '"' := by
    by_contra hne
    simp only [not_or] at hne
    simp [identChar, space, hne] at h
  rcases hcases with rfl | rfl | rfl | rfl | rfl | rfl | rfl | rfl <;> decide

/-- What ends a word does not make a keyword of it. -/
theorem startsWithKeyword_append {k : List Char} (hk : ∀ c ∈ k, identChar c = true)
    (hs : EndsWord s) : startsWithKeyword k (w ++ s) = startsWithKeyword k w := by
  induction k generalizing w with
  | nil =>
    cases w with
    | cons c w => rfl
    | nil =>
      cases s with
      | nil => rfl
      | cons c s =>
        have hc := word_eq_false_of_identChar (hs c rfl)
        simp [startsWithKeyword, hc]
  | cons x k ih =>
    cases w with
    | nil =>
      cases s with
      | nil => rfl
      | cons c s =>
        have hne : x ≠ c := by
          rintro rfl
          have hx := hk x mem_cons_self
          rw [hs x rfl] at hx
          exact Bool.false_ne_true hx
        simp [startsWithKeyword, hne]
    | cons c w =>
      have htail := ih (w := w) (forall_mem_cons.mp hk).2
      simp only [startsWithKeyword] at htail ⊢
      by_cases hxc : x = c
      · simpa [hxc] using htail
      · have hbeq : (x == c) = false := beq_false_of_ne hxc
        simp [List.isPrefixOf, hbeq]

theorem takeWhile_append_of_ends {p : Char → Bool} (hw : ∀ c ∈ w, p c = true)
    (hs : ∀ c ∈ s.head?, p c = false) :
    (w ++ s).takeWhile p = w ∧ (w ++ s).dropWhile p = s := by
  have hnil : s.takeWhile p = [] ∧ s.dropWhile p = s := by
    cases s with
    | nil => exact ⟨rfl, rfl⟩
    | cons c s =>
      have hc : ¬p c = true := by
        rw [hs c rfl]
        exact Bool.false_ne_true
      exact ⟨takeWhile_cons_of_neg hc, dropWhile_cons_of_neg hc⟩
  constructor
  · rw [takeWhile_append_of_pos hw, hnil.1, append_nil]
  · rw [dropWhile_append_of_pos hw, hnil.2]

theorem tokens_word (hw : PlainWord w) (hs : EndsWord s) :
    tokens (w ++ s) = (tokens s).map fun ts => ⟨.ident, w⟩ :: ts := by
  have hor : startsWithKeyword ['O', 'R'] (w ++ s) = false := by
    rw [startsWithKeyword_append (by simp [identChar, space]) hs, hw.not_or]
  have hand : startsWithKeyword ['A', 'N', 'D'] (w ++ s) = false := by
    rw [startsWithKeyword_append (by simp [identChar, space]) hs, hw.not_and]
  obtain ⟨htake, hdrop⟩ := takeWhile_append_of_ends hw.chars hs
  have hnext : nextToken (w ++ s) = some (some ⟨.ident, w⟩, s) := by
    obtain ⟨c, u, rfl⟩ := exists_cons_of_ne_nil hw.ne_nil
    have hc := hw.chars c mem_cons_self
    have hquote : c ≠ '"' := by
      rintro rfl
      exact absurd hc (by decide)
    simp only [cons_append] at hor hand htake hdrop ⊢
    rw [nextToken, if_neg hquote, if_neg (by simp [hor]), if_neg (by simp [hand]), if_pos hc,
      htake, hdrop]
  simpa using tokens_of_nextToken hnext

theorem tokens_punct {c : Char} (hc : c = ':' ∨ c = '-') :
    tokens (c :: s) = (tokens s).map fun ts => ⟨.punct, [c]⟩ :: ts := by
  have hnext : nextToken (c :: s) = some (some ⟨.punct, [c]⟩, s) := by
    rcases hc with rfl | rfl <;> simp [nextToken, startsWithKeyword, identChar]
  simpa using tokens_of_nextToken hnext

theorem tokens_spaces {n : Nat} (hs : ∀ c ∈ s.head?, Regexp.space c = false) :
    tokens (List.replicate (n + 1) ' ' ++ s) = tokens s := by
  have hspaces : ∀ c ∈ List.replicate (n + 1) ' ', space c = true := by
    intro c hc
    rw [eq_of_mem_replicate hc]
    rfl
  have hdrop := (takeWhile_append_of_ends hspaces hs).2
  have hnext : nextToken (List.replicate (n + 1) ' ' ++ s) = some (none, s) := by
    rw [replicate_succ, cons_append] at hdrop ⊢
    simp [nextToken, startsWithKeyword, identChar, space, hdrop]
  have htokens := tokens_of_nextToken hnext
  simpa using htokens

end

end Yanta.Search
