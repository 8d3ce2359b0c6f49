import Yanta.CommandLine.Parser
import Yanta.Vault.Tree

/-!
# Commands on projects

`ProjectCommands` of `internal/commandline/project.go`: which handler gets a command and
with which alias. The alias in the patterns is `@\w+`, while a valid alias may have
hyphens.
-/

namespace Yanta.CommandLine

open Go Vault List Regexp

inductive ProjectHandler where
  | new
  | archiveForce
  | archive
  | unarchive
  | rename
  | deleteWithFlags
  | deleteForce
  | deleteHard
  | delete
  | help
deriving DecidableEq, Repr

/-- `(@\w+)`. -/
def aliasPattern : Regexp :=
  .group 1 (.seq (.text ['@']) (.plus true (.set Regexp.word)))

/-- `\s+--(force|hard)`. -/
def flagPattern : Regexp :=
  .seq spaces (.seq (.text "--".toList)
    (.group 2 (.alt (.text "force".toList) (.text "hard".toList))))

/-- `\s+(@\w+)` and what follows it. -/
def afterAlias (rest : Regexp) : Regexp := .seq spaces (.seq aliasPattern rest)

/-- `\s+` and a word at the end. -/
def lastWord (word : String) : Regexp := .seq spaces (.seq (.text word.toList) .eot)

/-- The patterns of `registerCommands`, in order. -/
def projectCommands : List (Handler ProjectHandler) :=
  [⟨formatCommand "new" (.seq spaces (.seq anything .eot)), .new⟩,
    ⟨formatCommand "archive" (afterAlias (lastWord "--force")), .archiveForce⟩,
    ⟨formatCommand "archive" (afterAlias .eot), .archive⟩,
    ⟨formatCommand "unarchive" (afterAlias .eot), .unarchive⟩,
    ⟨formatCommand "rename" (afterAlias
      (.seq spaces (.seq (.group 2 (.plus true (.set Regexp.dot))) .eot))), .rename⟩,
    ⟨formatCommand "delete" (afterAlias (.seq (.plus true flagPattern) .eot)),
      .deleteWithFlags⟩,
    ⟨formatCommand "delete" (afterAlias (lastWord "--force")), .deleteForce⟩,
    ⟨formatCommand "delete" (afterAlias (lastWord "--hard")), .deleteHard⟩,
    ⟨formatCommand "delete" (afterAlias .eot), .delete⟩,
    ⟨helpPattern, .help⟩]

/-! ## Command lines -/

inductive Flag where
  | force
  | hard
deriving DecidableEq, Repr

variable {flags : List (List Char × Flag)}

def Flag.name : Flag → List Char
  | .force => "force".toList
  | .hard => "hard".toList

def Flag.text (flag : Flag) : List Char := '-' :: '-' :: flag.name

/-- Flags, each with the blanks in front of it. -/
def flagsText (flags : List (List Char × Flag)) : List Char :=
  flags.flatMap fun flag => flag.1 ++ flag.2.text

/-- What a user may ask of a project. -/
inductive ProjectLine where
  | archive
  | unarchive
  | rename (sep name : List Char)
  | delete
  | deleteWithFlags (flags : List (List Char × Flag))

namespace ProjectLine

def command : ProjectLine → String
  | archive => "archive"
  | unarchive => "unarchive"
  | rename _ _ => "rename"
  | delete => "delete"
  | deleteWithFlags _ => "delete"

/-- What follows the alias. -/
def tail : ProjectLine → List Char
  | archive | unarchive | delete => []
  | rename sep name => sep ++ name
  | deleteWithFlags flags => flagsText flags

def handler : ProjectLine → ProjectHandler
  | archive => .archive
  | unarchive => .unarchive
  | rename _ _ => .rename
  | delete => .delete
  | deleteWithFlags _ => .deleteWithFlags

/-- Blanks stand between the words, a new name is not blank and has no white space around
it, and there is a flag where flags are given. -/
def WellFormed : ProjectLine → Prop
  | archive | unarchive | delete => True
  | rename sep name => Blank sep ∧ name ≠ [] ∧
      (∀ c ∈ name.head?, isSpace c = false) ∧ ∀ c ∈ name.getLast?, isSpace c = false
  | deleteWithFlags flags => flags ≠ [] ∧ ∀ flag ∈ flags, Blank flag.1

/-- The line as it is typed. -/
def text (line : ProjectLine) (sep : List Char) (projectAlias : String) : String :=
  String.ofList (line.command.toList ++ (sep ++ (projectAlias.toList ++ line.tail)))

/-- The line reaches its own handler with the alias. -/
def Dispatched (line : ProjectLine) (sep : List Char) (projectAlias : String) : Prop :=
  ∃ groups, parse projectCommands (line.text sep projectAlias) =
      .handled line.handler groups (line.text sep projectAlias) ∧
    groups.get 1 = projectAlias.toList

/-- What the line's pattern has behind the alias. -/
def rest : ProjectLine → Regexp
  | archive | unarchive | delete => .eot
  | rename _ _ => .seq spaces (.seq (.group 2 (.plus true (.set Regexp.dot))) .eot)
  | deleteWithFlags _ => .seq (.plus true flagPattern) .eot

/-- The new name, where there is one, is a single line. -/
def SingleLine : ProjectLine → Prop
  | rename _ name => '\n' ∉ name
  | _ => True

end ProjectLine

/-! ## The alias of a match -/

/-- Whatever matches starts at the end or at a blank. -/
def StartsAtBlank (r : Regexp) : Prop :=
  ∀ c s c' t, (c', t) ∈ r.run c s → ∀ x ∈ s.head?, Regexp.space x = true

theorem startsAtBlank_eot : StartsAtBlank .eot := by
  intro c s c' t hin x hx
  rw [(mem_eot.mp hin).2.1] at hx
  simp at hx

theorem startsAtBlank_spaces (r : Regexp) : StartsAtBlank (.seq spaces r) := by
  intro c s c' t hin x hx
  obtain ⟨u, s₁, hu, rfl, -⟩ := mem_spaces.mp hin
  exact hu.space_head s₁ x hx

theorem startsAtBlank_lastWord (word : String) : StartsAtBlank (lastWord word) :=
  startsAtBlank_spaces _

theorem startsAtBlank_flags (r : Regexp) : StartsAtBlank (.seq (.plus true flagPattern) r) := by
  intro c s c' t hin
  obtain ⟨c₁, s₁, hflags, -⟩ := mem_seq.mp hin
  obtain ⟨c₂, s₂, hflag, -⟩ := mem_plus.mp hflags
  exact startsAtBlank_spaces _ c s c₂ s₂ hflag

theorem space_at_eq_false : Regexp.space '@' = false := by decide

theorem word_of_space {c : Char} (h : Regexp.space c = true) : Regexp.word c = false := by
  simp only [space, Bool.or_eq_true, beq_iff_eq] at h
  rcases h with (((rfl | rfl) | rfl) | rfl) | rfl <;> decide

section

variable {sep content tail : List Char} {rest : Regexp} {c : Captures} {t : List Char}

/-- The group is an at sign with word characters. -/
theorem mem_afterAlias {s : List Char} :
    (c, t) ∈ (afterAlias rest).run [] s ↔
      ∃ u w t₁, Blank u ∧ w ≠ [] ∧ (∀ x ∈ w, Regexp.word x = true) ∧
        s = u ++ '@' :: (w ++ t₁) ∧ (c, t) ∈ rest.run [(1, '@' :: w)] t₁ := by
  rw [afterAlias, mem_spaces]
  constructor
  · rintro ⟨u, s₁, hu, rfl, h⟩
    obtain ⟨c₂, s₂, hgroup, hrest⟩ := mem_seq.mp h
    obtain ⟨c₃, hinner, rfl⟩ := mem_group.mp hgroup
    obtain ⟨c₄, s₄, hat, hword⟩ := mem_seq.mp hinner
    obtain ⟨rfl, rfl⟩ := mem_text.mp hat
    obtain ⟨rfl, w, hne, hw, rfl⟩ := mem_plus_set.mp hword
    refine ⟨u, w, s₂, hu, hne, hw, rfl, ?_⟩
    have hconsumed := consumed_append ('@' :: w) s₂
    simp only [cons_append] at hconsumed
    simpa [hconsumed] using hrest
  · rintro ⟨u, w, t₁, hu, hne, hw, rfl, hrest⟩
    refine ⟨u, '@' :: (w ++ t₁), hu, rfl, ?_⟩
    rw [mem_seq]
    refine ⟨[(1, '@' :: w)], t₁, mem_group.mpr ⟨[], ?_, ?_⟩, hrest⟩
    · rw [mem_seq]
      exact ⟨[], w ++ t₁, mem_text.mpr ⟨rfl, rfl⟩,
        mem_plus_set.mpr ⟨rfl, w, hne, hw, rfl⟩⟩
    · rw [← cons_append, consumed_append]

/-- On a command with an alias of word characters the group is that alias. -/
theorem mem_afterAlias_iff (hrest : StartsAtBlank rest) (hsep : Blank sep)
    (hne : content ≠ []) (hword : ∀ x ∈ content, Regexp.word x = true)
    (htail : ∀ x ∈ tail.head?, Regexp.space x = true) :
    (c, t) ∈ (afterAlias rest).run [] (sep ++ ('@' :: content ++ tail)) ↔
      (c, t) ∈ rest.run [(1, '@' :: content)] tail := by
  rw [mem_afterAlias]
  constructor
  · rintro ⟨u, w, t₁, hu, -, hw, heq, hin⟩
    obtain ⟨-, hcons⟩ := append_inj_of_class hsep.2 hu.2
      (by simp [space_at_eq_false]) (by simp [space_at_eq_false]) heq
    have hbody : content ++ tail = w ++ t₁ := (List.cons.inj hcons).2
    obtain ⟨rfl, rfl⟩ := append_inj_of_class hword hw
      (fun x hx => word_of_space (htail x hx))
      (fun x hx => word_of_space (hrest _ _ _ _ hin x hx)) hbody
    exact hin
  · intro hin
    exact ⟨sep, content, tail, hsep, hne, hword, rfl, hin⟩

end

/-! ## Flags -/

section

variable {c c' : Captures} {s t : List Char}

theorem mem_flagPattern :
    (c', t) ∈ flagPattern.run c s ↔
      ∃ u flag, Blank u ∧ s = u ++ (Flag.text flag ++ t) ∧ c' = (2, flag.name) :: c := by
  rw [flagPattern, mem_spaces]
  constructor
  · rintro ⟨u, s₁, hu, rfl, h⟩
    obtain ⟨c₂, s₂, hdashes, hgroup⟩ := mem_seq.mp h
    obtain ⟨rfl, rfl⟩ := mem_text.mp hdashes
    obtain ⟨c₃, hname, rfl⟩ := mem_group.mp hgroup
    rcases mem_alt.mp hname with hforce | hhard
    · obtain ⟨rfl, rfl⟩ := mem_text.mp hforce
      exact ⟨u, .force, hu, rfl, by rw [consumed_append]; rfl⟩
    · obtain ⟨rfl, rfl⟩ := mem_text.mp hhard
      exact ⟨u, .hard, hu, rfl, by rw [consumed_append]; rfl⟩
  · rintro ⟨u, flag, hu, rfl, rfl⟩
    refine ⟨u, flag.text ++ t, hu, rfl, ?_⟩
    rw [mem_seq]
    refine ⟨c, flag.name ++ t, mem_text.mpr ⟨rfl, rfl⟩, mem_group.mpr
      ⟨c, ?_, by rw [consumed_append]⟩⟩
    rw [mem_alt]
    cases flag with
    | force => exact .inl (mem_text.mpr ⟨rfl, rfl⟩)
    | hard => exact .inr (mem_text.mpr ⟨rfl, rfl⟩)

theorem flagsText_cons (flag : List Char × Flag) (flags : List (List Char × Flag)) :
    flagsText (flag :: flags) = flag.1 ++ (flag.2.text ++ flagsText flags) := by
  simp [flagsText]

theorem repeats_flags (hblank : ∀ flag ∈ flags, Blank flag.1) (c : Captures) (t : List Char) :
    ∃ c', Regexp.Repeats flagPattern.run c (flagsText flags ++ t) c' t := by
  induction flags generalizing c with
  | nil => exact ⟨c, .stop c t⟩
  | cons flag flags ih =>
    obtain ⟨c', hrest⟩ := ih (forall_mem_cons.mp hblank).2
      ((2, flag.2.name) :: c)
    refine ⟨c', .again (mem_flagPattern.mpr
      ⟨flag.1, flag.2, hblank flag mem_cons_self, ?_, rfl⟩) ?_ hrest⟩
    · rw [flagsText_cons, append_assoc, append_assoc]
    · simp only [flagsText_cons, length_append, Flag.text, length_cons]
      omega

/-- Flags are matched, whatever number of them. -/
theorem mem_flags (hne : flags ≠ []) (hblank : ∀ flag ∈ flags, Blank flag.1) (c : Captures) :
    ∃ c', (c', []) ∈ (Regexp.seq (.plus true flagPattern) .eot).run c (flagsText flags) := by
  cases flags with
  | nil => exact absurd rfl hne
  | cons flag flags =>
    obtain ⟨c', hrest⟩ := repeats_flags
      (forall_mem_cons.mp hblank).2 ((2, flag.2.name) :: c) []
    rw [append_nil] at hrest
    refine ⟨c', mem_seq.mpr ⟨c', [], mem_plus.mpr ⟨_, _, ?_, hrest⟩,
      mem_eot.mpr ⟨rfl, rfl, rfl⟩⟩⟩
    exact mem_flagPattern.mpr ⟨flag.1, flag.2, hblank flag mem_cons_self,
      flagsText_cons flag flags, rfl⟩

/-- At the end of the text nothing starts with a blank. -/
theorem notMem_spaces_nil (r : Regexp) : (c', t) ∉ (Regexp.seq spaces r).run c [] := by
  intro hin
  obtain ⟨u, s₁, hu, heq, -⟩ := mem_spaces.mp hin
  exact hu.1 (append_eq_nil_iff.mp heq.symm).1

theorem notMem_lastWord_nil (word : String) : (c', t) ∉ (lastWord word).run c [] :=
  notMem_spaces_nil _

theorem notMem_flags_nil (r : Regexp) :
    (c', t) ∉ (Regexp.seq (.plus true flagPattern) r).run c [] := by
  intro hin
  obtain ⟨c₁, s₁, hflags, -⟩ := mem_seq.mp hin
  obtain ⟨c₂, s₂, hflag, -⟩ := mem_plus.mp hflags
  exact notMem_spaces_nil _ hflag

end

/-! ## The new name -/

/-- A name is matched up to the end exactly where it is one line. -/
theorem exists_mem_newName {sep name : List Char} (hsep : Blank sep) (hne : name ≠ [])
    (hhead : ∀ x ∈ name.head?, isSpace x = false) (c : Captures) :
    (∃ c' t, (c', t) ∈ (Regexp.seq spaces
        (.seq (.group 2 (.plus true (.set Regexp.dot))) .eot)).run c (sep ++ name)) ↔
      '\n' ∉ name := by
  constructor
  · rintro ⟨c', t, hin⟩ hnewline
    obtain ⟨u, v, hu, -, hline, heq, -⟩ := mem_restGroup.mp hin
    obtain ⟨b, -, rfl⟩ := exists_of_blank_append hu.2 hhead heq
    exact hline (mem_append_right b hnewline)
  · intro hline
    exact ⟨_, _, mem_restGroup.mpr ⟨sep, name, hsep, hne, hline, rfl, rfl, rfl⟩⟩

/-! ## Which lines are dispatched -/

section

variable {line : ProjectLine} {sep : List Char} {projectAlias : String}

open ProjectLine

/-- What follows the alias starts with a blank. -/
theorem ProjectLine.WellFormed.space_tail (h : line.WellFormed) :
    ∀ x ∈ line.tail.head?, Regexp.space x = true := by
  cases line with
  | rename sep name => exact h.1.space_head name
  | deleteWithFlags flags =>
    cases flags with
    | nil => simp [tail, flagsText]
    | cons flag flags =>
      rw [tail, flagsText_cons]
      exact (h.2 flag mem_cons_self).space_head _
  | _ => simp [tail]

theorem getLast?_flagsText (hne : flags ≠ []) :
    ∀ x ∈ (flagsText flags).getLast?, x = 'e' ∨ x = 'd' := by
  obtain ⟨init, last, rfl⟩ := (eq_nil_or_concat flags).resolve_left hne
  have htext : flagsText (init.concat last) = flagsText init ++ last.1 ++ last.2.text := by
    simp [flagsText]
  rw [htext]
  intro x hx
  cases hflag : last.2 with
  | force => exact .inl (by simpa [hflag, Flag.text, Flag.name, eq_comm] using hx)
  | hard => exact .inr (by simpa [hflag, Flag.text, Flag.name, eq_comm] using hx)

theorem isSpace_of_isAliasChar {c : Char} (h : isAliasChar c = true) : isSpace c = false := by
  have hrange : 45 ≤ c.toNat ∧ c.toNat ≤ 122 := by
    simp only [isAliasChar, Bool.or_eq_true, Bool.and_eq_true, decide_eq_true_eq,
      beq_iff_eq] at h
    rcases h with (⟨hlow, hhigh⟩ | ⟨hlow, hhigh⟩) | rfl
    · exact ⟨le_trans (by decide) hlow, hhigh⟩
    · exact ⟨le_trans (by decide) hlow, le_trans hhigh (by decide)⟩
    · decide
  simp only [isSpace]
  simp
  omega

theorem ProjectLine.exists_command (line : ProjectLine) :
    ∃ x rest, line.command.toList = x :: rest ∧ isSpace x = false := by
  have hheads : ∀ name ∈ ["archive", "unarchive", "rename", "delete"],
      ∃ x rest, name.toList = x :: rest ∧ isSpace x = false := by
    intro name hname
    simp only [mem_cons, not_mem_nil, or_false] at hname
    rcases hname with rfl | rfl | rfl | rfl <;> exact ⟨_, _, rfl, by decide⟩
  apply hheads
  cases line <;> simp [command]

/-- The end of a line is no white space. -/
theorem ProjectLine.WellFormed.getLast? (h : line.WellFormed) (content : List Char)
    (hcontent : ∀ x ∈ content, isAliasChar x = true) :
    ∀ x ∈ (content ++ line.tail).getLast?, isSpace x = false := by
  intro x hx
  have halias : line.tail = [] → isSpace x = false := by
    intro htail
    rw [htail, append_nil] at hx
    exact isSpace_of_isAliasChar (hcontent x (mem_of_getLast? hx))
  cases line with
  | rename sep name =>
    rw [tail, ← append_assoc, List.getLast?_append_of_ne_nil _ h.2.1] at hx
    exact h.2.2.2 x hx
  | deleteWithFlags flags =>
    have hflags : flagsText flags ≠ [] := by
      cases flags with
      | nil => exact absurd rfl h.1
      | cons flag flags => simp [flagsText_cons, Flag.text]
    rw [tail, List.getLast?_append_of_ne_nil _ hflags] at hx
    rcases getLast?_flagsText h.1 x hx with rfl | rfl <;> decide
  | _ => exact halias rfl

theorem parse_text (h : line.WellFormed) {content : List Char}
    (hlist : projectAlias.toList = '@' :: content) (hne : content ≠ [])
    (hcontent : ∀ x ∈ content, isAliasChar x = true) :
    parse projectCommands (line.text sep projectAlias) =
      search (line.text sep projectAlias) projectCommands := by
  obtain ⟨y, rest, hcommand, hy⟩ := line.exists_command
  have htrim : trimSpace (line.text sep projectAlias) = line.text sep projectAlias := by
    apply trimSpace_eq_self
    · intro x hx
      rw [ProjectLine.text, hcommand] at hx
      obtain rfl : y = x := by simpa using hx
      exact hy
    · intro x hx
      rw [ProjectLine.text, String.toList_ofList, hlist, cons_append, ← append_assoc,
        List.getLast?_append_of_ne_nil _ (by simp)] at hx
      rw [List.getLast?_cons_of_ne_nil (by simp [hne])] at hx
      exact h.getLast? content hcontent x hx
  have hnonempty : line.text sep projectAlias ≠ "" := by
    intro hempty
    have hnil := congrArg String.toList hempty
    simp [ProjectLine.text, hcommand] at hnil
  rw [parse, htrim, if_neg hnonempty]

theorem ProjectLine.toList_text {content : List Char}
    (hlist : projectAlias.toList = '@' :: content) :
    (line.text sep projectAlias).toList =
      line.command.toList ++ (sep ++ ('@' :: content ++ line.tail)) := by
  rw [text, String.toList_ofList, hlist]

/-- The only pattern of the line's handler. -/
theorem ProjectLine.pattern_eq {pattern : Regexp}
    (h : ⟨pattern, line.handler⟩ ∈ projectCommands) :
    pattern = formatCommand line.command (afterAlias line.rest) := by
  cases line <;>
  · simp [projectCommands, handler] at h
    exact h

theorem ProjectLine.assigns_rest (line : ProjectLine) : line.rest.assigns 1 = false := by
  cases line <;> rfl

theorem ProjectLine.startsAtBlank_rest (line : ProjectLine) : StartsAtBlank line.rest := by
  cases line with
  | rename sep name => exact startsAtBlank_spaces _
  | deleteWithFlags flags => exact startsAtBlank_flags _
  | _ => exact startsAtBlank_eot

theorem word_of_isAliasChar {c : Char} (h : isAliasChar c = true) (hne : c ≠ '-') :
    Regexp.word c = true := by
  simp only [isAliasChar, Bool.or_eq_true, beq_iff_eq] at h
  simp only [word, Bool.or_eq_true]
  rcases h with (hletter | hdigit) | rfl
  · exact .inl (.inr hletter)
  · exact .inl (.inl (.inl hdigit))
  · exact absurd rfl hne

/-- A line that reaches its handler has an alias of word characters. -/
theorem ProjectLine.Dispatched.word (h : line.Dispatched sep projectAlias)
    (hline : line.WellFormed) {content : List Char}
    (hlist : projectAlias.toList = '@' :: content) (hne : content ≠ [])
    (hcontent : ∀ x ∈ content, isAliasChar x = true) :
    (∀ x ∈ content, Regexp.word x = true) ∧
      ∃ c t, (c, t) ∈ (afterAlias line.rest).run [] (sep ++ ('@' :: content ++ line.tail)) := by
  obtain ⟨groups, hparse, hgroups⟩ := h
  rw [parse_text hline hlist hne hcontent] at hparse
  obtain ⟨-, pattern, t, hmem, hrun⟩ := search_eq_handled hparse
  rw [pattern_eq hmem, toList_text hlist, mem_formatCommand] at hrun
  refine ⟨?_, groups, t, hrun⟩
  obtain ⟨u, w, t₁, -, -, hw, -, hrest⟩ := mem_afterAlias.mp hrun
  have hget := get_of_mem_run line.assigns_rest hrest
  rw [hgroups, hlist] at hget
  rw [(List.cons.inj hget).2]
  exact hw

section

variable {content tail : List Char} {full : String} {name : String}
  {handlers : List (Handler ProjectHandler)} {handler : ProjectHandler} {rest : Regexp}

/-- A pattern that wants more behind the alias does not match. -/
theorem search_longer (hfull : full.toList = name.toList ++ (sep ++ ('@' :: content ++ [])))
    (hsep : Blank sep) (hne : content ≠ []) (hword : ∀ x ∈ content, Regexp.word x = true)
    (hrest : StartsAtBlank rest) (hnil : ∀ c c' t, (c', t) ∉ rest.run c []) :
    search full (⟨formatCommand name (afterAlias rest), handler⟩ :: handlers) =
      search full handlers := by
  apply search_skip
  intro c t hin
  rw [hfull, mem_formatCommand, mem_afterAlias_iff hrest hsep hne hword (by simp)] at hin
  exact hnil _ c t hin

theorem search_own (hfull : full.toList = name.toList ++ (sep ++ ('@' :: content ++ tail)))
    (hsep : Blank sep) (hne : content ≠ []) (hword : ∀ x ∈ content, Regexp.word x = true)
    (hrest : StartsAtBlank rest) (hassigns : rest.assigns 1 = false)
    (htail : ∀ x ∈ tail.head?, Regexp.space x = true)
    (hmatch : ∃ c t, (c, t) ∈ rest.run [(1, '@' :: content)] tail) :
    ∃ groups, search full (⟨formatCommand name (afterAlias rest), handler⟩ :: handlers) =
        .handled handler groups full ∧ groups.get 1 = '@' :: content := by
  have hiff : ∀ c t, (c, t) ∈ (formatCommand name (afterAlias rest)).run [] full.toList ↔
      (c, t) ∈ rest.run [(1, '@' :: content)] tail := by
    intro c t
    rw [hfull, mem_formatCommand, mem_afterAlias_iff hrest hsep hne hword htail]
  obtain ⟨c, t, hin⟩ := hmatch
  apply search_take ((hiff c t).mpr hin)
  intro c' t' hin'
  rw [get_of_mem_run hassigns ((hiff c' t').mp hin'), get_cons_self]

end

/-- A command on a project is dispatched with the project's alias exactly where the alias
has no hyphen and a new name is a single line. -/
theorem project_command_dispatched_iff (hline : line.WellFormed) (hsep : Blank sep)
    (halias : validateAlias projectAlias = .ok ()) :
    line.Dispatched sep projectAlias ↔ '-' ∉ projectAlias.toList ∧ line.SingleLine := by
  obtain ⟨content, hlist, hne, hcontent⟩ := validateAlias_chars halias
  constructor
  · intro h
    obtain ⟨hword, c, t, hin⟩ := h.word hline hlist hne hcontent
    constructor
    · rw [hlist, mem_cons, not_or]
      refine ⟨by decide, fun hhyphen => ?_⟩
      have hyphen := hword '-' hhyphen
      revert hyphen
      decide
    · cases line with
      | rename sep' name =>
        rw [mem_afterAlias_iff (startsAtBlank_rest _) hsep hne hword
          hline.space_tail] at hin
        exact (exists_mem_newName hline.1 hline.2.1 hline.2.2.1 _).mp ⟨c, t, hin⟩
      | _ => trivial
  · rintro ⟨hhyphen, hsingle⟩
    have hword : ∀ x ∈ content, word x = true := by
      intro x hx
      apply word_of_isAliasChar (hcontent x hx)
      rintro rfl
      exact hhyphen (by simp [hlist, hx])
    unfold ProjectLine.Dispatched
    rw [parse_text hline hlist hne hcontent, hlist]
    have hfull : (line.text sep projectAlias).toList =
        line.command.toList ++ (sep ++ ('@' :: content ++ line.tail)) :=
      toList_text hlist
    have heot : ∀ c : Captures, ∃ c' t, (c', t) ∈ eot.run c [] := fun c =>
      ⟨c, [], mem_eot.mpr ⟨rfl, rfl, rfl⟩⟩
    cases line with
    | archive =>
      rw [ProjectLine.command, ProjectLine.tail] at hfull
      rw [projectCommands, search_other (by simp [hfull]),
        search_longer hfull hsep hne hword (startsAtBlank_lastWord _)
          fun _ _ _ => notMem_lastWord_nil _]
      exact search_own hfull hsep hne hword startsAtBlank_eot rfl (by simp) (heot _)
    | unarchive =>
      rw [ProjectLine.command, ProjectLine.tail] at hfull
      rw [projectCommands]
      iterate 3 rw [search_other (by simp [hfull])]
      exact search_own hfull hsep hne hword startsAtBlank_eot rfl (by simp) (heot _)
    | rename sep' newName =>
      rw [command] at hfull
      rw [projectCommands]
      iterate 4 rw [search_other (by simp [hfull])]
      exact search_own hfull hsep hne hword (startsAtBlank_spaces _) rfl hline.space_tail
        ((exists_mem_newName hline.1 hline.2.1 hline.2.2.1 _).mpr hsingle)
    | delete =>
      rw [ProjectLine.command, ProjectLine.tail] at hfull
      rw [projectCommands]
      iterate 5 rw [search_other (by simp [hfull])]
      rw [search_longer hfull hsep hne hword (startsAtBlank_flags _)
        fun _ _ _ => notMem_flags_nil _]
      iterate 2 rw [search_longer hfull hsep hne hword (startsAtBlank_lastWord _)
        fun _ _ _ => notMem_lastWord_nil _]
      exact search_own hfull hsep hne hword startsAtBlank_eot rfl (by simp) (heot _)
    | deleteWithFlags flags =>
      rw [command] at hfull
      rw [projectCommands]
      iterate 5 rw [search_other (by simp [hfull])]
      obtain ⟨c', hflags⟩ := mem_flags hline.1 hline.2 [(1, '@' :: content)]
      exact search_own hfull hsep hne hword (startsAtBlank_flags _) rfl hline.space_tail
        ⟨c', [], hflags⟩

end

theorem project_command_dispatched_iff_sample :
    (ProjectLine.deleteWithFlags [([' '], .force), ([' '], .hard)]).Dispatched [' ']
      "@notes" := by
  refine (project_command_dispatched_iff ?_ ?_ (by decide)).mpr ⟨by decide, trivial⟩
  · refine ⟨by simp, ?_⟩
    intro flag hflag
    simp only [mem_cons, not_mem_nil, or_false] at hflag
    rcases hflag with rfl | rfl <;> exact ⟨by simp, by simp [space]⟩
  · exact ⟨by simp, by simp [space]⟩

/-- A project whose alias has a hyphen cannot be archived from the command line. -/
theorem hyphenated_alias_unknown :
    validateAlias "@my-notes" = .ok () ∧
      parse projectCommands "archive @my-notes" = .unknown "archive @my-notes" ∧
      ¬ProjectLine.archive.Dispatched [' '] "@my-notes" := by
  have hparse : parse projectCommands "archive @my-notes" = .unknown "archive @my-notes" := by
    rfl
  refine ⟨by decide, hparse, ?_⟩
  rintro ⟨groups, hdispatched, -⟩
  cases hdispatched

end Yanta.CommandLine
