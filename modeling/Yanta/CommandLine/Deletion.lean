import Yanta.CommandLine.Document

/-!
# Permanent deletion from the command line

A delete with flags is permanent when `--hard` occurs anywhere in the command, also inside
a path. A valid alias may end in `--hard`, so a document can be deleted for good by a
command, or by the confirmation of a command, that never asked for it.
-/

namespace Yanta.CommandLine

open Go Go.Regexp List

variable {paths sep : List Char} {flags : List (List Char × Flag)}
  {command fullCommand : String} {x : Char}

/-- The command is a delete of a path list with flags behind it. -/
def ReadsAs (command : String) (paths : List Char) (flags : List (List Char × Flag)) : Prop :=
  paths ≠ [] ∧ '\n' ∉ paths ∧ flags ≠ [] ∧ (∀ flag ∈ flags, Blank flag.1) ∧
    ∃ sep, Blank sep ∧ (trimSpace command).toList =
      "delete".toList ++ (sep ++ (paths ++ flagsText flags))

/-- `--hard` is one of the flags behind the path list. -/
def HardAsked (command : String) : Prop :=
  ∃ paths flags, ReadsAs command paths flags ∧ ∃ flag ∈ flags, flag.2 = Flag.hard

def Call.permanent : Call → Bool
  | .hardDelete _ | .hardDeleteBatch _ => true
  | _ => false

/-- The command deletes something for good. -/
def DeletesForGood (outcome : Outcome) : Prop := ∃ call ∈ outcome.1, call.permanent = true

/-! ## Texts without blanks inside other texts -/

theorem infix_append_cons {α : Type} {w a b : List α} {x : α} (hx : x ∉ w)
    (h : w <:+: a ++ x :: b) : w <:+: a ∨ w <:+: b := by
  obtain ⟨s, t, heq⟩ := h
  rcases append_eq_append_iff.mp heq with ⟨d, ha, -⟩ | ⟨d, hsw, hxb⟩
  · exact .inl ⟨s, d, ha.symm⟩
  · cases d with
    | nil => exact .inl ⟨s, [], by simpa using hsw⟩
    | cons y d =>
      obtain ⟨rfl, rfl⟩ := List.cons.inj hxb
      have hsplit : s ++ w = (a ++ [x]) ++ d := by simpa using hsw
      rcases append_eq_append_iff.mp hsplit with ⟨e, hax, rfl⟩ | ⟨e, -, rfl⟩
      · cases e using List.reverseRecOn with
        | nil => exact .inr (prefix_append d t).isInfix
        | append_singleton e y =>
          rw [← append_assoc] at hax
          have hxy : x = y := (append_inj' hax rfl).2 |> singleton_inj.mp
          exact absurd (by simp [hxy]) hx
      · exact .inr ⟨e, t, rfl⟩

/-- A text without blanks that occurs across blanks occurs on one side of them. -/
theorem infix_append_blank {w a u b : List Char} (hw : ∀ x ∈ w, Regexp.space x = false)
    (hu : Blank u) (h : w <:+: a ++ (u ++ b)) : w <:+: a ∨ w <:+: b := by
  have hnot : ∀ x ∈ u, x ∉ w := by
    intro x hx hmem
    have hspace := hu.2 x hx
    rw [hw x hmem] at hspace
    exact Bool.false_ne_true hspace
  obtain ⟨hne, -⟩ := hu
  induction u generalizing a with
  | nil => exact absurd rfl hne
  | cons x u ih =>
    rcases infix_append_cons (hnot x mem_cons_self) h with ha | hb
    · exact .inl ha
    · by_cases hu : u = []
      · exact .inr (by simpa [hu] using hb)
      · rcases ih (a := []) (by simpa using hb)
          (forall_mem_cons.mp hnot).2 hu with hnil | hb
        · obtain rfl := infix_nil.mp hnil
          exact .inl nil_infix
        · exact .inr hb

theorem space_hard : ∀ x ∈ "--hard".toList, Regexp.space x = false := by
  simp [Regexp.space]

/-- `--hard` occurs behind a path list only as a flag. -/
theorem hard_infix_flags (hblank : ∀ flag ∈ flags, Blank flag.1)
    (h : "--hard".toList <:+: paths ++ flagsText flags) :
    "--hard".toList <:+: paths ∨ ∃ flag ∈ flags, flag.2 = Flag.hard := by
  induction flags generalizing paths with
  | nil => exact .inl (by simpa [flagsText] using h)
  | cons flag flags ih =>
    rw [flagsText_cons] at h
    rcases infix_append_blank space_hard (hblank flag mem_cons_self) h with hin | hin
    · exact .inl hin
    · rcases ih (forall_mem_cons.mp hblank).2 hin with htext | hlater
      · refine .inr ⟨flag, mem_cons_self, ?_⟩
        cases hflag : flag.2 with
        | hard => rfl
        | force =>
          rw [hflag] at htext
          revert htext
          decide
      · obtain ⟨f, hf, hhard⟩ := hlater
        exact .inr ⟨f, mem_cons_of_mem flag hf, hhard⟩

theorem hard_infix_command (hsep : Blank sep) (hblank : ∀ flag ∈ flags, Blank flag.1)
    (h : "--hard".toList <:+: "delete".toList ++ (sep ++ (paths ++ flagsText flags))) :
    "--hard".toList <:+: paths ∨ ∃ flag ∈ flags, flag.2 = Flag.hard := by
  have hcommand : ¬"--hard".toList <:+: "delete".toList := by decide
  rcases infix_append_blank space_hard hsep h with hin | hin
  · exact absurd hin hcommand
  · exact hard_infix_flags hblank hin

/-! ## What the patterns match -/

section

variable {c c' : Captures} {s t : List Char}

theorem flags_of_repeats (h : Regexp.Repeats flagPattern.run c s c' t) :
    ∃ flags, (∀ flag ∈ flags, Blank flag.1) ∧ s = flagsText flags ++ t := by
  induction h with
  | stop => exact ⟨[], by simp, rfl⟩
  | again hstep _ _ ih =>
    obtain ⟨u, flag, hu, rfl, -⟩ := mem_flagPattern.mp hstep
    obtain ⟨flags, hblank, rfl⟩ := ih
    refine ⟨(u, flag) :: flags, ?_, ?_⟩
    · intro f hf
      rcases mem_cons.mp hf with rfl | hf
      · exact hu
      · exact hblank f hf
    · rw [flagsText_cons, append_assoc, append_assoc]

/-- The argument of a delete with flags. -/
theorem mem_flaggedArgument (h : (c, t) ∈ flaggedArgument.run [] s) :
    ∃ sep paths flags, Blank sep ∧ paths ≠ [] ∧ '\n' ∉ paths ∧ flags ≠ [] ∧
      (∀ flag ∈ flags, Blank flag.1) ∧ s = sep ++ (paths ++ flagsText flags) ∧
      c.get 1 = paths := by
  obtain ⟨sep, s₁, hsep, rfl, hargument⟩ := mem_spaces.mp h
  obtain ⟨c₁, s₂, hgroup, hbehind⟩ := mem_seq.mp hargument
  obtain ⟨paths, hne, hline, rfl, rfl⟩ := mem_lineGroup.mp hgroup
  have hget := get_of_mem_run (n := 1) rfl hbehind
  obtain ⟨c₂, s₃, hflags, hend⟩ := mem_seq.mp hbehind
  obtain ⟨-, rfl, -⟩ := mem_eot.mp hend
  obtain ⟨c₃, s₄, hflag, hmore⟩ := mem_plus.mp hflags
  obtain ⟨flags, hblank, rfl⟩ := flags_of_repeats (.again hflag
    (by
      obtain ⟨u, flag, -, rfl, -⟩ := mem_flagPattern.mp hflag
      simp only [length_append, Flag.text, length_cons]
      omega) hmore)
  rw [append_nil]
  refine ⟨sep, paths, flags, hsep, hne, hline, ?_, hblank, rfl, ?_⟩
  · rintro rfl
    obtain ⟨u, flag, hu, heq, -⟩ := mem_flagPattern.mp hflag
    exact hu.1 (append_eq_nil_iff.mp heq.symm).1
  · rw [hget, get_cons_self]

theorem exists_mem_flaggedArgument (hsep : Blank sep) (hne : paths ≠ [])
    (hline : '\n' ∉ paths) (hflags : flags ≠ []) (hblank : ∀ flag ∈ flags, Blank flag.1) :
    ∃ c t, (c, t) ∈ flaggedArgument.run [] (sep ++ (paths ++ flagsText flags)) := by
  obtain ⟨c', hrun⟩ := mem_flags hflags hblank [(1, paths)]
  exact ⟨c', [], mem_spaces.mpr ⟨sep, _, hsep, rfl, mem_seq.mpr
    ⟨_, _, mem_lineGroup.mpr ⟨paths, hne, hline, rfl, rfl⟩, hrun⟩⟩⟩

end

/-! ## Which commands delete for good -/

section

variable {full : String} {s : List Char}

/-- The commands before `delete` start otherwise. -/
theorem search_delete (hfull : full.toList = "delete".toList ++ s) :
    search full documentCommands = search full (documentCommands.drop 5) := by
  simp only [documentCommands, drop_succ_cons, drop_zero]
  iterate 5 rw [search_other (by simp [hfull])]

theorem trimSpace_ne_empty (h : (trimSpace command).toList = "delete".toList ++ s) :
    trimSpace command ≠ "" := by
  intro hempty
  rw [hempty] at h
  simp at h

theorem parse_flagged (h : ReadsAs command paths flags) :
    ∃ groups paths' flags', parse documentCommands command =
        .handled .deleteWithFlags groups (trimSpace command) ∧
      ReadsAs command paths' flags' ∧ groups.get 1 = paths' := by
  obtain ⟨hne, hline, hflags, hblank, sep, hsep, hlist⟩ := h
  obtain ⟨c, t, hin⟩ := exists_mem_flaggedArgument hsep hne hline hflags hblank
  have hmotive : ∀ c t, (c, t) ∈ (formatCommand "delete" flaggedArgument).run []
      (trimSpace command).toList →
        ∃ paths' flags', ReadsAs command paths' flags' ∧ Captures.get c 1 = paths' := by
    intro c t hin
    rw [hlist, mem_formatCommand] at hin
    obtain ⟨sep', paths', flags', hsep', hne', hline', hflags', hblank', heq, hget⟩ :=
      mem_flaggedArgument hin
    exact ⟨paths', flags', ⟨hne', hline', hflags', hblank', sep', hsep', by rw [hlist, heq]⟩,
      hget⟩
  have hmatch : (c, t) ∈ (formatCommand "delete" flaggedArgument).run []
      (trimSpace command).toList := by
    rw [hlist, mem_formatCommand]
    exact hin
  rw [parse, if_neg (trimSpace_ne_empty hlist), search_delete hlist]
  obtain ⟨groups, hsearch, paths', flags', hreads, hget⟩ := search_take
    (h := ⟨formatCommand "delete" flaggedArgument, DocumentHandler.deleteWithFlags⟩)
    hmatch hmotive
  exact ⟨groups, paths', flags', hsearch, hreads, hget⟩

end

section

variable {services : Services} {currentPath : String}

/-- No call deletes for good. -/
def Gentle (outcome : Outcome) : Prop := ∀ call ∈ outcome.1, call.permanent = false

theorem gentle_nil (result : DocumentResult) : Gentle ([], result) := by
  intro call hcall
  exact absurd hcall not_mem_nil

theorem gentle_eachPath {call : String → Call} (hcall : ∀ path, (call path).permanent = false)
    (failed : String → String → String) (result : DocumentResult) {calls : List Call}
    (hcalls : ∀ call ∈ calls, call.permanent = false) (paths : List String) :
    Gentle (eachPath services call failed result calls paths) := by
  induction paths generalizing calls with
  | nil => exact hcalls
  | cons path paths ih =>
    have hsnoc : ∀ x ∈ calls ++ [call path], x.permanent = false := by
      intro x hx
      rcases mem_append.mp hx with hx | hx
      · exact hcalls x hx
      · rw [mem_singleton.mp hx]
        exact hcall path
    rw [eachPath]
    cases services calls (call path) with
    | error e => exact hsnoc
    | ok answer => exact ih hsnoc

theorem calls_oneCall (call : Call) (failed : String) (result : List String → DocumentResult) :
    (oneCall services call failed result).1 = [call] := by
  unfold oneCall
  cases services [] call <;> rfl

theorem gentle_oneCall {call : Call} (hcall : call.permanent = false) (failed : String)
    (result : List String → DocumentResult) :
    Gentle (oneCall services call failed result) := by
  intro x hx
  rw [calls_oneCall, mem_singleton] at hx
  rw [hx, hcall]

theorem gentle_ite {p : Prop} [Decidable p] {first second : Outcome} (hfirst : Gentle first)
    (hsecond : Gentle second) : Gentle (if p then first else second) := by
  split_ifs
  · exact hfirst
  · exact hsecond

theorem gentle_withPaths (input usage : String) {handle : List String → Outcome}
    (h : ∀ paths, Gentle (handle paths)) : Gentle (withPaths input usage handle) :=
  gentle_ite (gentle_nil _) (gentle_ite (gentle_nil _) (h _))

theorem gentle_withDocument {handle : Outcome} (h : Gentle handle) :
    Gentle (withDocument currentPath handle) :=
  gentle_ite (gentle_nil _) h

theorem gentle_withTags (input : String) {handle : List String → Outcome}
    (h : ∀ tags, Gentle (handle tags)) : Gentle (withTags input handle) :=
  gentle_ite (gentle_nil _) (h _)

theorem gentle_askConfirmation (command word argument : String) :
    Gentle (askConfirmation command word argument) :=
  gentle_withPaths _ _ fun _ => gentle_nil _

theorem gentle_deleteWithFlags {argument : String}
    (h : contains fullCommand "--hard" = false) :
    Gentle (handleDeleteWithFlags services argument fullCommand) := by
  apply gentle_withPaths
  intro paths
  rw [h, if_neg Bool.false_ne_true]
  split
  · exact gentle_oneCall rfl _ _
  · exact gentle_eachPath (fun _ => rfl) _ _ (by simp) _

theorem gentle_unarchive (argument : String) :
    Gentle (handleUnarchive services currentPath argument) := by
  unfold handleUnarchive
  split
  · exact gentle_nil _
  · exact gentle_nil _
  · exact gentle_eachPath (fun _ => rfl) _ _ (by simp) _

/-- Only a delete with flags deletes for good, and only where the command has `--hard`. -/
theorem gentle_handle {handler : DocumentHandler} {argument : String}
    (h : handler = .deleteWithFlags → contains fullCommand "--hard" = false) :
    Gentle (handle services currentPath handler argument fullCommand) := by
  cases handler with
  | new => exact gentle_nil _
  | doc => exact gentle_ite (gentle_nil _) (gentle_nil _)
  | archiveForce | deleteForce =>
    rw [handle]
    exact gentle_withPaths _ _ fun _ => gentle_eachPath (fun _ => rfl) _ _ (by simp) _
  | archive | delete => exact gentle_askConfirmation _ _ _
  | unarchive => exact gentle_unarchive argument
  | deleteWithFlags => exact gentle_deleteWithFlags (h rfl)
  | tag =>
    exact gentle_withDocument (gentle_ite (gentle_nil _)
      (gentle_withTags _ fun _ => gentle_oneCall rfl _ _))
  | untag =>
    exact gentle_withDocument (gentle_ite (gentle_nil _)
      (gentle_ite (gentle_oneCall rfl _ _)
        (gentle_withTags _ fun _ => gentle_oneCall rfl _ _)))
  | tags => exact gentle_withDocument (gentle_oneCall rfl _ _)
  | exportMD =>
    exact gentle_ite (gentle_ite (gentle_nil _) (gentle_nil _)) (gentle_nil _)
  | exportPDF => exact gentle_withDocument (gentle_nil _)
  | help => exact gentle_nil _

/-- A list with a character of a path in it lists something. -/
theorem splitPaths_ne_nil {input : String} (hx : x ∈ input.toList)
    (hspace : isSpace x = false) (hcomma : x ≠ ',') : splitPaths input ≠ [] := by
  unfold splitPaths
  split_ifs with hcontains
  · have hmem : x ∈ [','].intercalate (input.toList.splitOn ',') := by
      rw [intercalate_splitOn]
      exact hx
    rcases mem_intercalate hmem with hsep | ⟨piece, hpiece, hin⟩
    · exact absurd (mem_singleton.mp hsep) hcomma
    have htrim : x ∈ (trimSpace (String.ofList piece)).toList :=
      mem_trimSpace (by simpa using hin) hspace
    apply ne_nil_of_mem (a := trimSpace (String.ofList piece))
    rw [commaSeparated, mem_filter]
    refine ⟨mem_map_of_mem (mem_map_of_mem hpiece), ?_⟩
    have hne : trimSpace (String.ofList piece) ≠ "" := by
      intro hempty
      rw [hempty] at htrim
      exact absurd htrim not_mem_nil
    simpa using hne
  · simp

theorem withPaths_eq {input usage : String} {handle : List String → Outcome}
    (hx : x ∈ input.toList) (hspace : isSpace x = false) (hcomma : x ≠ ',') :
    withPaths input usage handle = handle (splitPaths input) := by
  have hinput : input ≠ "" := by
    rintro rfl
    simp at hx
  rw [withPaths, if_neg hinput, if_neg (splitPaths_ne_nil hx hspace hcomma)]

/-- A path list with `--hard` in it is deleted for good. -/
theorem deletesForGood_of_inside {argument : String}
    (harg : "--hard".toList <:+: argument.toList)
    (hfull : contains fullCommand "--hard" = true) :
    DeletesForGood (handleDeleteWithFlags services argument fullCommand) := by
  have hdash : '-' ∈ (trimSpace argument).toList :=
    mem_trimSpace (harg.subset (by decide)) (by decide)
  rw [handleDeleteWithFlags, withPaths_eq hdash (by decide) (by decide), if_pos hfull]
  split
  · exact ⟨_, by rw [calls_oneCall]; exact mem_singleton_self _, rfl⟩
  · exact ⟨_, by rw [calls_oneCall]; exact mem_singleton_self _, rfl⟩

/-- The command that is run when something is deleted for good. -/
theorem exists_readsAs (h : DeletesForGood (runCommand services currentPath command)) :
    ∃ paths flags, ReadsAs command paths flags ∧
      ("--hard".toList <:+: paths ∨ ∃ flag ∈ flags, flag.2 = Flag.hard) := by
  obtain ⟨call, hcall, hpermanent⟩ := h
  have hgentle : ¬Gentle (runCommand services currentPath command) := by
    intro hgentle
    rw [hgentle call hcall] at hpermanent
    exact Bool.false_ne_true hpermanent
  unfold runCommand parse at hgentle
  by_cases hempty : trimSpace command = ""
  · rw [if_pos hempty] at hgentle
    exact absurd (gentle_nil _) hgentle
  rw [if_neg hempty] at hgentle
  cases hsearch : search (trimSpace command) documentCommands with
  | empty | unknown =>
    rw [hsearch] at hgentle
    exact absurd (gentle_nil _) hgentle
  | handled handler groups full =>
    rw [hsearch] at hgentle
    obtain ⟨rfl, pattern, t, hmem, hrun⟩ := search_eq_handled hsearch
    have hhandler : handler = .deleteWithFlags := by
      by_contra hne
      exact hgentle (gentle_handle fun heq => absurd heq hne)
    have hhard : contains (trimSpace command) "--hard" = true := by
      by_contra hnot
      exact hgentle (gentle_handle fun _ => by simpa using hnot)
    subst hhandler
    have hpattern : pattern = formatCommand "delete" flaggedArgument := by
      simpa [documentCommands] using hmem
    rw [hpattern, formatCommand, mem_seq] at hrun
    obtain ⟨c₁, s₁, htext, hargument⟩ := hrun
    obtain ⟨rfl, hlist⟩ := mem_text.mp htext
    obtain ⟨sep, paths, flags, hsep, hne, hline, hflags, hblank, rfl, -⟩ :=
      mem_flaggedArgument hargument
    refine ⟨paths, flags, ⟨hne, hline, hflags, hblank, sep, hsep, hlist⟩, ?_⟩
    rw [contains_iff, hlist] at hhard
    exact hard_infix_command hsep hblank hhard

/-- A command deletes for good only when asked exactly where no path list that it can be
read with has `--hard` in it. -/
theorem deletesForGood_asked_iff (services : Services) (currentPath command : String) :
    (DeletesForGood (runCommand services currentPath command) → HardAsked command) ↔
      ∀ paths flags, ReadsAs command paths flags →
        contains (String.ofList paths) "--hard" = true → HardAsked command := by
  constructor
  · intro h paths flags hreads hhard
    obtain ⟨groups, paths', flags', hparse, hreads', hget⟩ := parse_flagged hreads
    obtain ⟨-, -, -, hblank', sep', hsep', hlist'⟩ := id hreads'
    have hfull : contains (trimSpace command) "--hard" = true := by
      obtain ⟨-, -, -, -, sep, -, hlist⟩ := hreads
      rw [contains_iff, String.toList_ofList (l := paths)] at hhard
      rw [contains_iff, hlist]
      exact ((hhard.trans (prefix_append _ _).isInfix).trans
        (suffix_append _ _).isInfix).trans (suffix_append _ _).isInfix
    have hplace := contains_iff.mp hfull
    rw [hlist'] at hplace
    rcases hard_infix_command hsep' hblank' hplace with hpaths | hflag
    · apply h
      rw [runCommand, hparse]
      apply deletesForGood_of_inside _ hfull
      rw [hget, String.toList_ofList (l := paths')]
      exact hpaths
    · exact ⟨paths', flags', hreads', hflag⟩
  · intro h hdeletes
    obtain ⟨paths, flags, hreads, hpaths | hflag⟩ := exists_readsAs hdeletes
    · apply h paths flags hreads
      rw [contains_iff, String.toList_ofList (l := paths)]
      exact hpaths
    · exact ⟨paths, flags, hreads, hflag⟩

end

end Yanta.CommandLine
