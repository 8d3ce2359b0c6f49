import Yanta.Blocknote.Scan

/-!
# Which lines a token is read from

Each pass of the line scanner reads at least one line and leaves the lines after those
it read. So the tokens of a text are those of its first lines followed by those of the
lines left, and every line is read once.
-/

namespace Yanta.Blocknote

open Go List Nat

variable {lines : List Line} {kind : ItemKind}

/-! ## One pass -/

theorem readCode_suffix (lang : Line) (rest : List Line) : (readCode lang rest).2 <:+ rest := by
  have hdrop := dropWhile_suffix (l := rest) fun line => !isFence line
  rw [readCode]
  cases hfence : rest.dropWhile fun line => !isFence line with
  | nil => exact nil_suffix
  | cons fence after =>
    rw [hfence] at hdrop
    exact (suffix_cons fence after).trans hdrop

variable (line : Line) (rest : List Line)

/-- The switch after its first three cases. -/
theorem nextToken_eq_ite {line : Line} (hfence : isFence line = false)
    (hblank : trimSpaceChars line ≠ [])
    (hheading : matchHeading (trimSpaceChars line) = none) :
    nextToken line rest =
      if matchThematic (trimSpaceChars line) then (.divider, rest)
      else if isTableStart (trimSpaceChars line) rest then
        (.table (splitTableRow (trimSpaceChars line) ::
            ((rest.drop 1).takeWhile isTableRow).map splitTableRow),
          (rest.drop 1).dropWhile isTableRow)
      else if isQuoteLine line then
        (.quote (((line :: rest).takeWhile isQuoteLine).map quoteText),
          (line :: rest).dropWhile isQuoteLine)
      else (lineToken (leadingIndent line) (trimSpaceChars line), rest) := by
  simp only [nextToken, hfence, hblank, hheading, Bool.false_eq_true, if_false]

/-- The cases of the switch: a fence, a blank line, a heading, or one of the others. -/
theorem nextToken_cases :
    (∃ lang, nextToken line rest = readCode lang rest) ∨ nextToken line rest = (.blank, rest) ∨
      (∃ level text, nextToken line rest = (.heading level text, rest)) ∨
      isFence line = false ∧ trimSpaceChars line ≠ [] ∧
        matchHeading (trimSpaceChars line) = none := by
  cases hfence : isFence line with
  | true =>
    refine .inl ⟨trimSpaceChars ((trimSpaceChars line).drop 3), ?_⟩
    simp only [nextToken, hfence, if_true]
  | false =>
    by_cases hblank : trimSpaceChars line = []
    · refine .inr (.inl ?_)
      simp only [nextToken, hfence, Bool.false_eq_true, hblank, if_false, if_true]
    · cases hheading : matchHeading (trimSpaceChars line) with
      | some found =>
        refine .inr (.inr (.inl ⟨min found.1 3, found.2, ?_⟩))
        simp only [nextToken, hfence, Bool.false_eq_true, hblank, hheading, if_false]
      | none => exact .inr (.inr (.inr ⟨rfl, hblank, rfl⟩))

/-- A pass reads the next line at least. -/
theorem nextToken_suffix : (nextToken line rest).2 <:+ rest := by
  rcases nextToken_cases line rest with ⟨lang, h⟩ | h | ⟨level, text, h⟩ |
    ⟨hfence, hblank, hheading⟩
  · rw [h]
    exact readCode_suffix lang rest
  · simp [h]
  · simp [h]
  · rw [nextToken_eq_ite rest hfence hblank hheading]
    split_ifs with hthematic htable hquote
    · exact suffix_rfl
    · exact (dropWhile_suffix isTableRow).trans (drop_suffix 1 rest)
    · simp only [dropWhile_cons, hquote]
      exact dropWhile_suffix isQuoteLine
    · exact suffix_rfl

theorem length_nextToken_le : (nextToken line rest).2.length ≤ rest.length :=
  (nextToken_suffix line rest).length_le

/-! ## All passes -/

/-- As many passes as there are lines are enough. -/
theorem tokensFrom_of_length_le {fuel : Nat} (h : lines.length ≤ fuel) :
    tokensFrom fuel lines = tokens lines := by
  have hany : ∀ fuel fuel' : Nat, ∀ lines : List Line, lines.length ≤ fuel →
      lines.length ≤ fuel' → tokensFrom fuel lines = tokensFrom fuel' lines := by
    intro fuel
    induction fuel with
    | zero =>
      intro fuel' lines hlines _
      obtain rfl := length_eq_zero_iff.mp (le_zero.mp hlines)
      cases fuel' <;> rfl
    | succ fuel ih =>
      intro fuel' lines hlines hlines'
      cases lines with
      | nil => cases fuel' <;> rfl
      | cons line rest =>
        obtain ⟨fuel', rfl⟩ : ∃ n, fuel' = n + 1 := by
          exact ⟨fuel' - 1, by simp only [length_cons] at hlines'; omega⟩
        have hle := length_nextToken_le line rest
        simp only [length_cons] at hlines hlines'
        rw [tokensFrom, tokensFrom, ih fuel' _ (by omega) (by omega)]
  exact hany fuel lines.length lines h (le_refl _)

@[simp] theorem tokens_nil : tokens [] = [] := rfl

/-- The tokens of a text are the next one and those of the lines it leaves. -/
theorem tokens_cons :
    tokens (line :: rest) = (nextToken line rest).1 :: tokens (nextToken line rest).2 := by
  have hle := length_nextToken_le line rest
  rw [← tokensFrom_of_length_le hle]
  rfl

/-! ## The lines of each token -/

/-- The lines that a pass reads. -/
def linesRead (line : Line) (rest : List Line) : List Line :=
  (line :: rest).take (rest.length + 1 - (nextToken line rest).2.length)

theorem linesRead_append :
    linesRead line rest ++ (nextToken line rest).2 = line :: rest := by
  obtain ⟨before, hbefore⟩ := nextToken_suffix line rest
  have hlength := congrArg List.length hbefore
  have hsplit : line :: rest = (line :: before) ++ (nextToken line rest).2 := by
    rw [cons_append, hbefore]
  rw [linesRead]
  conv_rhs => rw [hsplit]
  congr 1
  rw [hsplit, take_left']
  simp only [length_append, length_cons] at hlength ⊢
  omega

/-- The tokens, each with the lines it is read from. -/
def readingsFrom : Nat → List Line → List (Token × List Line)
  | 0, _ => []
  | _ + 1, [] => []
  | fuel + 1, line :: rest =>
    ((nextToken line rest).1, linesRead line rest) ::
      readingsFrom fuel (nextToken line rest).2

def readings (lines : List Line) : List (Token × List Line) := readingsFrom lines.length lines

theorem map_fst_readings (lines : List Line) : (readings lines).map Prod.fst = tokens lines := by
  have hany : ∀ (fuel : Nat) (lines : List Line),
      (readingsFrom fuel lines).map Prod.fst = tokensFrom fuel lines := by
    intro fuel
    induction fuel with
    | zero => exact fun _ => rfl
    | succ fuel ih =>
      intro lines
      cases lines with
      | nil => rfl
      | cons line rest => rw [readingsFrom, tokensFrom, map_cons, ih]
  exact hany lines.length lines

/-- Every line is read for one token, in order. -/
theorem flatMap_snd_readings (lines : List Line) :
    (readings lines).flatMap Prod.snd = lines := by
  have hany : ∀ (fuel : Nat) (lines : List Line), lines.length ≤ fuel →
      (readingsFrom fuel lines).flatMap Prod.snd = lines := by
    intro fuel
    induction fuel with
    | zero =>
      intro lines hlines
      obtain rfl := length_eq_zero_iff.mp (le_zero.mp hlines)
      rfl
    | succ fuel ih =>
      intro lines hlines
      cases lines with
      | nil => rfl
      | cons line rest =>
        have hle := length_nextToken_le line rest
        rw [length_cons] at hlines
        rw [readingsFrom, flatMap_cons, ih _ (by omega)]
        exact linesRead_append line rest
  exact hany lines.length lines (le_refl _)

/-- A list item is read from one line, whose indentation it has. -/
theorem nextToken_item {line : Line} {rest : List Line} {indent : Nat} {text : Line}
    (h : (nextToken line rest).1 = .item indent kind text) :
    linesRead line rest = [line] ∧ indent = leadingIndent line ∧
      matchItem (trimSpaceChars line) = some (kind, text) := by
  rcases nextToken_cases line rest with ⟨lang, hcode⟩ | hblank | ⟨level, text', hheading⟩ |
    ⟨hfence, hblank, hheading⟩
  · rw [hcode, readCode] at h
    split at h <;> cases h
  · rw [hblank] at h
    cases h
  · rw [hheading] at h
    cases h
  · have hnext := nextToken_eq_ite rest hfence hblank hheading
    rw [hnext] at h
    split_ifs at h hnext with hthematic htable hquote
    have hone : linesRead line rest = [line] := by
      rw [linesRead, hnext, Nat.add_sub_cancel_left]
      rfl
    rw [lineToken] at h
    cases hitem : matchItem (trimSpaceChars line) with
    | none =>
      rw [hitem] at h
      cases h
    | some found =>
      rw [hitem] at h
      obtain ⟨rfl, rfl, rfl⟩ := Token.item.inj h
      exact ⟨hone, rfl, rfl⟩

theorem readings_item {indent : Nat} {text : Line} {read : List Line}
    (h : (.item indent kind text, read) ∈ readings lines) :
    ∃ line, read = [line] ∧ indent = leadingIndent line ∧
      matchItem (trimSpaceChars line) = some (kind, text) := by
  have hany : ∀ (fuel : Nat) (lines : List Line),
      (Token.item indent kind text, read) ∈ readingsFrom fuel lines →
      ∃ line, read = [line] ∧ indent = leadingIndent line ∧
        matchItem (trimSpaceChars line) = some (kind, text) := by
    intro fuel
    induction fuel with
    | zero =>
      intro lines hin
      cases hin
    | succ fuel ih =>
      intro lines hin
      cases lines with
      | nil => cases hin
      | cons line rest =>
        rcases mem_cons.mp hin with heq | hrest
        · obtain ⟨htoken, rfl⟩ := Prod.mk.inj heq
          exact ⟨line, nextToken_item htoken.symm⟩
        · exact ih _ hrest
  exact hany _ _ h

end Yanta.Blocknote
