import Yanta.Go.CleanPaths
import Yanta.Go.Regexp

/-!
# Command lines

The parser of `internal/commandline`: handlers are registered with a pattern each, and the
first pattern that matches the trimmed command decides. All patterns have `^` in front.
-/

namespace Yanta.CommandLine

open Go Go.Regexp List

variable {fullCommand : String} {u : List Char}

structure Handler (η : Type) where
  pattern : Regexp
  handler : η

/-- What becomes of a command: its handler with the groups of the match and the trimmed
command, or one of the parser's own answers. -/
inductive Parsed (η : Type) where
  | empty
  | handled (handler : η) (groups : Captures) (fullCommand : String)
  | unknown (command : String)

variable {η : Type}

/-- The loop over the handlers, in the order of their registration. -/
def search (fullCommand : String) : List (Handler η) → Parsed η
  | [] => .unknown fullCommand
  | h :: handlers =>
    match h.pattern.findSubmatch fullCommand with
    | some groups => .handled h.handler groups fullCommand
    | none => search fullCommand handlers

/-- `Parser.Parse` up to the call of the handler. -/
def parse (handlers : List (Handler η)) (command : String) : Parsed η :=
  if trimSpace command = "" then .empty else search (trimSpace command) handlers

/-- `formatCommand`: the pattern of a command. -/
def formatCommand (command : String) (pattern : Regexp) : Regexp :=
  .seq (.text command.toList) pattern

/-- `\s+`. -/
def spaces : Regexp := .plus true (.set Regexp.space)

/-- `(.+)`. -/
def anything : Regexp := .group 1 (.plus true (.set Regexp.dot))

/-- `^(help|\?)$`. -/
def helpPattern : Regexp :=
  .seq (.group 1 (.alt (.text "help".toList) (.text "?".toList))) .eot

/-! ## Searching -/

theorem search_skip {h : Handler η} {handlers : List (Handler η)}
    (hnone : ∀ c t, (c, t) ∉ h.pattern.run [] fullCommand.toList) :
    search fullCommand (h :: handlers) = search fullCommand handlers := by
  rw [search, findSubmatch_eq_none hnone]

/-- The handler is taken, with groups of which all ways to match agree. -/
theorem search_take {h : Handler η} {handlers : List (Handler η)} {motive : Captures → Prop}
    {c : Captures} {t : List Char} (hmatch : (c, t) ∈ h.pattern.run [] fullCommand.toList)
    (hall : ∀ c t, (c, t) ∈ h.pattern.run [] fullCommand.toList → motive c) :
    ∃ groups, search fullCommand (h :: handlers) =
      .handled h.handler groups fullCommand ∧ motive groups := by
  obtain ⟨groups, hfind⟩ := exists_findSubmatch hmatch
  exact ⟨groups, by rw [search, hfind], findSubmatch_spec hall hfind⟩

/-- A handler that is called is registered, with a pattern that matches. -/
theorem search_eq_handled {fullCommand' : String} {handlers : List (Handler η)} {handler : η}
    {groups : Captures}
    (h : search fullCommand handlers = .handled handler groups fullCommand') :
    fullCommand' = fullCommand ∧ ∃ pattern t, ⟨pattern, handler⟩ ∈ handlers ∧
      (groups, t) ∈ pattern.run [] fullCommand.toList := by
  induction handlers with
  | nil => cases h
  | cons first handlers ih =>
    rw [search] at h
    cases hfind : first.pattern.findSubmatch fullCommand with
    | none =>
      rw [hfind] at h
      obtain ⟨hfull, pattern, t, hmem, hrun⟩ := ih h
      exact ⟨hfull, pattern, t, mem_cons_of_mem first hmem, hrun⟩
    | some groups' =>
      rw [hfind] at h
      injection h with hhandler hgroups hfull
      subst hhandler hgroups
      obtain ⟨⟨c, t⟩, hhead, rfl⟩ := Option.map_eq_some_iff.mp hfind
      exact ⟨hfull.symm, first.pattern, t, mem_cons_self, mem_of_head? hhead⟩

/-- A pattern for a command that the line does not start with does not match. -/
theorem search_other {name : String} {pattern : Regexp} {handler : η}
    {handlers : List (Handler η)} (h : ¬name.toList <+: fullCommand.toList) :
    search fullCommand (⟨formatCommand name pattern, handler⟩ :: handlers) =
      search fullCommand handlers := by
  apply search_skip
  intro c t hin
  obtain ⟨c₁, s₁, htext, -⟩ := mem_seq.mp hin
  exact h ⟨s₁, (mem_text.mp htext).2.symm⟩

theorem mem_formatCommand {name : String} {pattern : Regexp} {s : List Char}
    {c : Captures} {t : List Char} :
    (c, t) ∈ (formatCommand name pattern).run [] (name.toList ++ s) ↔
      (c, t) ∈ pattern.run [] s := by
  rw [formatCommand, mem_seq]
  constructor
  · rintro ⟨c₁, s₁, htext, hrest⟩
    obtain ⟨rfl, heq⟩ := mem_text.mp htext
    rw [append_cancel_left heq]
    exact hrest
  · intro h
    exact ⟨[], s, mem_text.mpr ⟨rfl, rfl⟩, h⟩

/-! ## White space between words -/

/-- At least one blank, and nothing else. -/
def Blank (s : List Char) : Prop := s ≠ [] ∧ ∀ c ∈ s, Regexp.space c = true

theorem blank_singleton : Blank [' '] :=
  ⟨cons_ne_nil _ _, forall_mem_singleton.mpr rfl⟩

/-- What a class takes up to the first character outside it. -/
theorem append_inj_of_class {p : Char → Bool} {v s t : List Char} (hu : ∀ c ∈ u, p c = true)
    (hv : ∀ c ∈ v, p c = true) (hs : ∀ c ∈ s.head?, p c = false)
    (ht : ∀ c ∈ t.head?, p c = false) (h : u ++ s = v ++ t) : u = v ∧ s = t := by
  have htake : ∀ {x y : List Char}, (∀ c ∈ x, p c = true) → (∀ c ∈ y.head?, p c = false) →
      (x ++ y).takeWhile p = x := by
    intro x y hx hy
    rw [takeWhile_append_of_pos hx]
    cases y with
    | nil => simp
    | cons c y => simp [hy c rfl]
  have huv : u = v := by rw [← htake hu hs, h, htake hv ht]
  subst huv
  exact ⟨rfl, append_cancel_left h⟩

theorem space_imp_isSpace {c : Char} (h : Regexp.space c = true) : isSpace c = true := by
  simp only [Regexp.space, Bool.or_eq_true, beq_iff_eq] at h
  rcases h with (((rfl | rfl) | rfl) | rfl) | rfl <;> decide

theorem Blank.space_head (h : Blank u) (v : List Char) :
    ∀ x ∈ (u ++ v).head?, Regexp.space x = true := by
  obtain ⟨y, u, rfl⟩ := exists_cons_of_ne_nil h.1
  simpa using h.2 y mem_cons_self

/-- Blanks in front of a text end before the text. -/
theorem exists_of_blank_append {sep text v : List Char} (hu : ∀ x ∈ u, Regexp.space x = true)
    (htext : ∀ x ∈ text.head?, isSpace x = false) (h : sep ++ text = u ++ v) :
    ∃ b, sep = u ++ b ∧ v = b ++ text := by
  rcases append_eq_append_iff.mp h with ⟨b, rfl, rfl⟩ | ⟨b, rfl, rfl⟩
  · cases b with
    | nil => exact ⟨[], by simp, rfl⟩
    | cons x b =>
      have hx := space_imp_isSpace (hu x (by simp))
      rw [htext x rfl] at hx
      exact absurd hx Bool.false_ne_true
  · exact ⟨b, rfl, rfl⟩

section

variable {c c' : Captures} {s t : List Char}

theorem mem_spaces {r : Regexp} :
    (c', t) ∈ (Regexp.seq spaces r).run c s ↔
      ∃ u s₁, Blank u ∧ s = u ++ s₁ ∧ (c', t) ∈ r.run c s₁ := by
  rw [mem_seq]
  constructor
  · rintro ⟨c₁, s₁, hspaces, hr⟩
    obtain ⟨rfl, u, hne, hu, rfl⟩ := mem_plus_set.mp hspaces
    exact ⟨u, s₁, ⟨hne, hu⟩, rfl, hr⟩
  · rintro ⟨u, s₁, hu, rfl, hr⟩
    exact ⟨c, s₁, mem_plus_set.mpr ⟨rfl, u, hu.1, hu.2, rfl⟩, hr⟩

theorem dot_iff : (∀ x ∈ u, Regexp.dot x = true) ↔ '\n' ∉ u := by
  constructor
  · intro h hmem
    have hdot := h '\n' hmem
    revert hdot
    decide
  · intro h x hx
    have hne : x ≠ '\n' := fun heq => h (heq ▸ hx)
    simpa [Regexp.dot] using hne

/-- One or more characters of a line, as a group. -/
theorem mem_lineGroup {n : Nat} {greedy : Bool} :
    (c', t) ∈ (Regexp.group n (.plus greedy (.set Regexp.dot))).run c s ↔
      ∃ u, u ≠ [] ∧ '\n' ∉ u ∧ s = u ++ t ∧ c' = (n, u) :: c := by
  rw [mem_group]
  constructor
  · rintro ⟨c₁, hdots, rfl⟩
    obtain ⟨rfl, u, hne, hu, rfl⟩ := mem_plus_set.mp hdots
    exact ⟨u, hne, dot_iff.mp hu, rfl, by rw [consumed_append]⟩
  · rintro ⟨u, hne, hu, rfl, rfl⟩
    exact ⟨c, mem_plus_set.mpr ⟨rfl, u, hne, dot_iff.mpr hu, rfl⟩,
      by rw [consumed_append]⟩

/-- The rest of the line behind blanks, as a group. -/
theorem mem_restGroup {n : Nat} {greedy : Bool} :
    (c', t) ∈ (Regexp.seq spaces
        (.seq (.group n (.plus greedy (.set Regexp.dot))) .eot)).run c s ↔
      ∃ u v, Blank u ∧ v ≠ [] ∧ '\n' ∉ v ∧ s = u ++ v ∧ c' = (n, v) :: c ∧ t = [] := by
  rw [mem_spaces]
  constructor
  · rintro ⟨u, s₁, hu, rfl, hrest⟩
    obtain ⟨c₁, s₂, hgroup, hend⟩ := mem_seq.mp hrest
    obtain ⟨v, hne, hline, rfl, rfl⟩ := mem_lineGroup.mp hgroup
    obtain ⟨rfl, rfl, rfl⟩ := mem_eot.mp hend
    exact ⟨u, v, hu, hne, hline, by rw [append_nil], rfl, rfl⟩
  · rintro ⟨u, v, hu, hne, hline, rfl, rfl, rfl⟩
    exact ⟨u, v, hu, rfl, mem_seq.mpr ⟨_, [],
      mem_lineGroup.mpr ⟨v, hne, hline, (append_nil v).symm, rfl⟩,
      mem_eot.mpr ⟨rfl, rfl, rfl⟩⟩⟩

end

end Yanta.CommandLine
