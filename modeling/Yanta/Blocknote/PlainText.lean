import Yanta.Blocknote.Markdown
import Yanta.Blocknote.Words
import Yanta.Go.CleanPaths

/-!
# Plain texts and printed lines

Words of letters and digits mean nothing to the Markdown parser: they have no inline
markers, and trimming leaves them as they are. A document is printed as lines with a
newline after each, and the lines are read back up to the blank ones at the end.
-/

namespace Yanta.Blocknote

open Go Support List

/-! ## Words -/

/-- The ASCII letters and digits, and every further character that is no white space. -/
def isWordChar (c : Char) : Bool :=
  let n := c.toNat
  (48 ≤ n && n ≤ 57) || (65 ≤ n && n ≤ 90) || (97 ≤ n && n ≤ 122) || (128 ≤ n && !isSpace c)

structure IsWord (w : Line) : Prop where
  ne_nil : w ≠ []
  chars : ∀ c ∈ w, isWordChar c = true

/-- Words with single spaces between them, or nothing. -/
def WordsOf (text : Line) : Prop :=
  ∃ words : List Line, (∀ w ∈ words, IsWord w) ∧ text = joinLines ' ' words

theorem isSpace_of_isWordChar {c : Char} (h : isWordChar c = true) : isSpace c = false := by
  simp only [isWordChar, Bool.or_eq_true, Bool.and_eq_true, decide_eq_true_eq,
    Bool.not_eq_true'] at h
  rcases h with h | h
  · simp only [isSpace, Bool.or_eq_false_iff, Bool.and_eq_false_iff, decide_eq_false_iff_not,
      beq_eq_false_iff_ne]
    omega
  · exact h.2

theorem ne_of_isWordChar {c d : Char} (h : isWordChar c = true) (hd : isWordChar d = false) :
    c ≠ d := by
  rintro rfl
  rw [h] at hd
  cases hd

section

variable {text : Line}

theorem WordsOf.mem (h : WordsOf text) {c : Char} (hc : c ∈ text) :
    c = ' ' ∨ isWordChar c = true := by
  obtain ⟨words, hwords, rfl⟩ := h
  rcases mem_intercalate hc with hsep | ⟨w, hw, hin⟩
  · exact .inl (mem_singleton.mp hsep)
  · exact .inr ((hwords w hw).chars c hin)

/-- A character that is neither in a word nor a space is not there. -/
theorem WordsOf.notMem (h : WordsOf text) {d : Char}
    (hspace : d ≠ ' ') (hd : isWordChar d = false) : d ∉ text := by
  intro hin
  rcases h.mem hin with rfl | hword
  · exact hspace rfl
  · exact ne_of_isWordChar hword hd rfl

theorem WordsOf.head (h : WordsOf text) : ∀ c ∈ text.head?, isWordChar c = true := by
  obtain ⟨words, hwords, rfl⟩ := h
  intro c hc
  cases words with
  | nil => cases hc
  | cons w words =>
    have hw := hwords w mem_cons_self
    obtain ⟨d, w, rfl⟩ := exists_cons_of_ne_nil hw.ne_nil
    obtain rfl : d = c := by
      cases words with
      | nil | cons => simpa [joinLines] using hc
    exact hw.chars d mem_cons_self

theorem WordsOf.last (h : WordsOf text) : ∀ c ∈ text.getLast?, isWordChar c = true := by
  obtain ⟨words, hwords, rfl⟩ := h
  intro c hc
  rcases eq_nil_or_concat' words with rfl | ⟨init, w, rfl⟩
  · cases hc
  · have hw := hwords w (mem_append_right init mem_cons_self)
    rw [joinLines, intercalate_concat, List.getLast?_append_of_ne_nil _ hw.ne_nil] at hc
    exact hw.chars c (mem_of_mem_getLast? hc)

/-- Trimming removes the spaces around the words only. -/
theorem WordsOf.trim (h : WordsOf text) {u v : Line} (hu : ∀ x ∈ u, isSpace x = true)
    (hv : ∀ x ∈ v, isSpace x = true) : trimSpaceChars (u ++ (text ++ v)) = text :=
  trimSpaceChars_padded hu hv (fun c hc => isSpace_of_isWordChar (h.head c hc))
    fun c hc => isSpace_of_isWordChar (h.last c hc)

end

/-! ## Inline text -/

/-- The characters at which the inline parser may find a span. -/
def spanStarts : List Char := ['`', '[', '*', '~', '_']

theorem nextSpan_of_notMem {c : Char} (h : c ∉ spanStarts) (cs : Line) :
    nextSpan (c :: cs) = none := by
  simp only [spanStarts, mem_cons, not_or] at h
  simp [nextSpan, h, Ne.symm h.2.2.1, Ne.symm h.2.2.2.1]

theorem parseFrom_of_notMem {fuel : Nat} {s : Line} (buf : Line) (h : ∀ c ∈ s, c ∉ spanStarts)
    (hfuel : s.length < fuel) : parseFrom fuel buf s = flush (buf ++ s) := by
  induction fuel generalizing buf s with
  | zero => exact absurd hfuel (Nat.not_lt_zero _)
  | succ fuel ih =>
    cases s with
    | nil => rw [parseFrom, append_nil]
    | cons c cs =>
      rw [forall_mem_cons] at h
      rw [parseFrom, nextSpan_of_notMem h.1]
      rw [ih (buf ++ [c]) h.2 (by simpa using hfuel), append_assoc]
      rfl

/-- Words are one text without styles. -/
theorem parseInline_words {text : Line} (h : WordsOf text) : parseInline text = flush text := by
  refine parseFrom_of_notMem [] ?_ (Nat.lt_succ_self _)
  intro c hc hstart
  have hall : spanStarts.all (fun d => decide (d ≠ ' ') && !isWordChar d) = true := by decide
  have hd := all_eq_true.mp hall c hstart
  simp only [Bool.and_eq_true, decide_eq_true_eq, Bool.not_eq_true'] at hd
  exact h.notMem hd.1 hd.2 hc

/-! ## Printed lines -/

/-- A line without the characters that end lines. -/
def OneLine (line : Line) : Prop := ∀ c ∈ line, c ≠ '\n' ∧ c ≠ '\r'

theorem oneLine_append {u v : Line} : OneLine (u ++ v) ↔ OneLine u ∧ OneLine v :=
  forall_mem_append

theorem oneLine_intercalate {sep : Line} {lines : List Line} (hsep : OneLine sep)
    (hlines : ∀ line ∈ lines, OneLine line) : OneLine (sep.intercalate lines) := by
  intro c hc
  rcases mem_intercalate hc with hin | ⟨line, hline, hin⟩
  · exact hsep c hin
  · exact hlines line hline c hin

theorem WordsOf.oneLine {text : Line} (h : WordsOf text) : OneLine text := by
  intro c hc
  constructor
  · rintro rfl
    exact h.notMem (by decide) (by decide) hc
  · rintro rfl
    exact h.notMem (by decide) (by decide) hc

theorem terminated_replicate_nil (sep : Char) (n : Nat) :
    terminated sep (List.replicate n []) = List.replicate n sep := by
  induction n with
  | zero => rfl
  | succ n ih => rw [replicate_succ, terminated_cons, ih]; rfl

/-- Printed lines are read back, without the blank lines at the end. -/
theorem linesOf_printed {lines : List Line} {last : Line} (hlines : ∀ l ∈ lines, OneLine l)
    (hlast : OneLine last) (hne : last ≠ []) (blanks : Nat) :
    linesOf (String.ofList (trimRightChars (· == '\n')
      (terminated '\n' (lines ++ [last] ++ List.replicate blanks [])))) = lines ++ [last] := by
  have hall : ∀ l ∈ lines ++ [last], OneLine l :=
    forall_mem_append.mpr ⟨hlines, forall_mem_singleton.mpr hlast⟩
  have htext : trimRightChars (· == '\n')
      (terminated '\n' (lines ++ [last] ++ List.replicate blanks [])) =
        joinLines '\n' (lines ++ [last]) := by
    rw [joinLines, intercalate_concat, terminated_append, terminated_append,
      terminated_replicate_nil, trimRightChars]
    obtain ⟨init, c, rfl⟩ := (eq_nil_or_concat' last).resolve_left hne
    have hc : c ≠ '\n' := (hlast c (by simp)).1
    have hreverse : (terminated '\n' lines ++ terminated '\n' [init ++ [c]] ++
        List.replicate blanks '\n').reverse =
          List.replicate (blanks + 1) '\n' ++ (c :: (terminated '\n' lines ++ init).reverse) := by
      simp [replicate_succ']
    have hdrop : ∀ x ∈ List.replicate (blanks + 1) '\n', (x == '\n') = true := by
      intro x hx
      rw [eq_of_mem_replicate hx]
      rfl
    rw [hreverse, dropWhile_append_of_pos hdrop, dropWhile_cons_of_neg (by simp [hc])]
    simp
  have hreturn : contains (String.ofList (joinLines '\n' (lines ++ [last]))) "\r\n" = false := by
    refine contains_eq_false_of_not_mem (c := '\r') (by decide) ?_
    rw [String.toList_ofList (l := joinLines '\n' (lines ++ [last]))]
    intro hin
    rcases mem_intercalate hin with hsep | ⟨l, hl, hin⟩
    · exact absurd (mem_singleton.mp hsep) (by decide)
    · exact (hall l hl _ hin).2 rfl
  rw [htext, linesOf, replaceAll_eq_self hreturn, String.toList_ofList]
  exact splitOn_intercalate '\n' (fun l hl hin => (hall l hl _ hin).1 rfl) (by simp)

end Yanta.Blocknote
