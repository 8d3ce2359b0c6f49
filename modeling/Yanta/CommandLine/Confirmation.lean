import Yanta.CommandLine.PathList

/-!
# Confirming a deletion

A plain `delete` or `archive` of documents only answers with the command that confirms it,
which is the same command with `--force` behind the list. Running it soft-deletes what was
listed as long as the list can be read back from its text: no path has a comma or a line
break, and for a delete none has `--hard` in it.
-/

namespace Yanta.CommandLine

open Go Go.Regexp Vault List PathList

variable {flags : List (List Char × Flag)} {pattern : Regexp}
  {handlers : List (Handler DocumentHandler)} {outcome : Outcome}

/-- The line that asks for `command` on the list. -/
def plainLine (command : String) (sep : List Char) (list : PathList) : String :=
  String.ofList (command.toList ++ (sep ++ list.text))

/-- The calls are soft deletions of the paths in their order, and of all of them unless
the command reports a failure. -/
def SoftDeletes (paths : List String) (outcome : Outcome) : Prop :=
  ∃ n, outcome.1 = (paths.take n).map Call.softDelete ∧
    (outcome.2.success = true → paths.length ≤ n)

/-- The command itself calls nothing, and the confirmation it asks for soft-deletes the
paths and nothing else. -/
def ConfirmedSoftDeletes (services : Services) (currentPath command : String)
    (paths : List String) : Prop :=
  (runCommand services currentPath command).1 = [] ∧
    (runCommand services currentPath command).2.data.requiresConfirmation = true ∧
    SoftDeletes paths (runCommand services currentPath
      (runCommand services currentPath command).2.data.confirmationCommand)

/-! ## The commands -/

variable {s : List Char}

section

variable {sep text : List Char} {c : Captures} {t : List Char}

/-- The argument of a plain command is the list, up to white space in front. -/
theorem mem_argument (hsep : Blank sep) (htext : PathLike text)
    (h : (c, t) ∈ argument.run [] (sep ++ text)) :
    trimSpaceChars (c.get 1) = text ∧ '\n' ∉ text := by
  obtain ⟨u, v, hu, -, hline, heq, rfl, -⟩ := mem_restGroup.mp h
  obtain ⟨b, rfl, rfl⟩ := exists_of_blank_append hu.2 htext.isSpace_head heq
  have hbetween := trimSpaceChars_between (v := []) (fun x hx =>
    space_imp_isSpace (hsep.2 x (mem_append_right u hx))) (by simp) htext
  rw [append_nil] at hbetween
  exact ⟨hbetween, fun hmem => hline (mem_append_right b hmem)⟩

theorem mem_lastWord {c' : Captures} {word : String} :
    (c', t) ∈ (lastWord word).run c s ↔
      ∃ u, Blank u ∧ s = u ++ word.toList ∧ c' = c ∧ t = [] := by
  rw [lastWord, mem_spaces]
  constructor
  · rintro ⟨u, s₁, hu, rfl, hrest⟩
    obtain ⟨c₁, s₂, hword, hend⟩ := mem_seq.mp hrest
    obtain ⟨rfl, rfl⟩ := mem_text.mp hword
    obtain ⟨rfl, rfl, rfl⟩ := mem_eot.mp hend
    exact ⟨u, hu, by rw [append_nil], rfl, rfl⟩
  · rintro ⟨u, hu, rfl, rfl, rfl⟩
    exact ⟨u, word.toList, hu, rfl, mem_seq.mpr ⟨c', [], mem_text.mpr
      ⟨rfl, (append_nil _).symm⟩, mem_eot.mpr ⟨rfl, rfl, rfl⟩⟩⟩

/-- What `forcedArgument` matches. -/
theorem mem_forcedArgument :
    (c, t) ∈ forcedArgument.run [] s ↔
      ∃ u v w, Blank u ∧ v ≠ [] ∧ '\n' ∉ v ∧ Blank w ∧
        s = u ++ (v ++ flagsText [(w, .force)]) ∧ c = [(1, v)] ∧ t = [] := by
  have hforce : ∀ w, flagsText [(w, .force)] = w ++ "--force".toList := by
    simp [flagsText, Flag.text, Flag.name]
  simp only [forcedArgument, mem_spaces, hforce]
  constructor
  · rintro ⟨u, s₁, hu, rfl, hrest⟩
    obtain ⟨c₁, s₂, hgroup, hlast⟩ := mem_seq.mp hrest
    obtain ⟨v, hne, hline, rfl, rfl⟩ := mem_lineGroup.mp hgroup
    obtain ⟨w, hw, rfl, rfl, rfl⟩ := mem_lastWord.mp hlast
    exact ⟨u, v, w, hu, hne, hline, hw, rfl, rfl, rfl⟩
  · rintro ⟨u, v, w, hu, hne, hline, hw, rfl, rfl, rfl⟩
    exact ⟨u, _, hu, rfl, mem_seq.mpr ⟨_, _, mem_lineGroup.mpr
      ⟨v, hne, hline, rfl, rfl⟩, mem_lastWord.mpr ⟨w, hw, rfl, rfl, rfl⟩⟩⟩

/-- A list does not end in flags. -/
theorem flags_eq_nil {u paths : List Char} (htext : PathLike text)
    (h : sep ++ text = u ++ (paths ++ flagsText flags)) :
    flags = [] := by
  by_contra hflags
  have hne : flagsText flags ≠ [] := by
    cases flags with
    | nil => exact absurd rfl hflags
    | cons flag flags => simp [flagsText_cons, Flag.text]
  have hlast := congrArg List.getLast? h
  rw [List.getLast?_append_of_ne_nil _ htext.ne_nil, htext.last, ← append_assoc,
    List.getLast?_append_of_ne_nil _ hne] at hlast
  rcases getLast?_flagsText hflags 'n' hlast.symm with hx | hx <;> exact absurd hx (by decide)

theorem notMem_forcedArgument (htext : PathLike text) :
    (c, t) ∉ forcedArgument.run [] (sep ++ text) := by
  intro h
  obtain ⟨u, v, w, -, -, -, -, heq, -⟩ := mem_forcedArgument.mp h
  exact cons_ne_nil _ _ (flags_eq_nil htext heq)

theorem notMem_flaggedArgument (htext : PathLike text) :
    (c, t) ∉ flaggedArgument.run [] (sep ++ text) := by
  intro h
  obtain ⟨u, paths, flags, -, -, -, hflags, -, heq, -⟩ := mem_flaggedArgument h
  exact hflags (flags_eq_nil htext heq)

/-- Blanks before the last word, where the list has none at its end. -/
theorem eq_of_append_blank {w : List Char} (hw : Blank w) (htext : PathLike text)
    (h : s ++ w = ' ' :: text ++ [' ']) : s = ' ' :: text := by
  obtain ⟨init, x, rfl⟩ := (eq_nil_or_concat w).resolve_left hw.1
  rw [concat_eq_append, ← append_assoc] at h
  have hinit : s ++ init = ' ' :: text := (append_inj' h rfl).1
  by_cases hnil : init = []
  · rw [← hinit, hnil, append_nil]
  · have hlast := congrArg List.getLast? hinit
    rw [List.getLast?_append_of_ne_nil _ hnil, List.getLast?_cons_of_ne_nil htext.ne_nil,
      htext.last] at hlast
    have hspace := hw.2 'n' (by
      rw [concat_eq_append]
      exact mem_append_left _ (mem_of_getLast? hlast))
    exact absurd hspace (by decide)

theorem eq_of_blank_cons {u v : List Char} (hu : Blank u) (htext : PathLike text)
    (h : [' '] ++ text = u ++ v) : v = text := by
  obtain ⟨b, hsep, rfl⟩ := exists_of_blank_append hu.2 htext.isSpace_head h
  rcases append_eq_singleton_iff.mp hsep.symm with ⟨hnil, -⟩ | ⟨-, rfl⟩
  · exact absurd hnil hu.1
  · rfl

/-- The command that confirms, behind its name, is read with the list it confirms. -/
theorem paths_eq_text {u paths : List Char} (htext : PathLike text) (hu : Blank u)
    (hflags : flags ≠ []) (hblank : ∀ flag ∈ flags, Blank flag.1)
    (heq : ' ' :: text ++ ' ' :: "--force".toList = u ++ (paths ++ flagsText flags)) :
    paths = text := by
  obtain ⟨init, flag, rfl⟩ := (eq_nil_or_concat flags).resolve_left hflags
  rw [concat_eq_append] at hblank heq
  have hbehind : flagsText (init ++ [flag]) = flagsText init ++ (flag.1 ++ flag.2.text) := by
    simp [flagsText]
  have hforce : flag.2 = .force := by
    have hlast := congrArg List.getLast? heq
    cases hflag : flag.2 with
    | force => rfl
    | hard =>
      rw [hbehind, hflag, List.getLast?_append_of_ne_nil _ (by decide)] at hlast
      simp [Flag.text, Flag.name] at hlast
  have hfront : (u ++ (paths ++ flagsText init)) ++ flag.1 = ' ' :: text ++ [' '] := by
    have hsplit : (' ' :: text ++ [' ']) ++ "--force".toList =
        ((u ++ (paths ++ flagsText init)) ++ flag.1) ++ "--force".toList := by
      rw [hbehind, hforce] at heq
      simpa [Flag.text, Flag.name] using heq
    exact (append_cancel_right hsplit).symm
  have hrest : [' '] ++ text = u ++ (paths ++ flagsText init) :=
    (eq_of_append_blank (hblank flag (by simp)) htext hfront).symm
  obtain rfl := flags_eq_nil htext hrest
  rw [flagsText, flatMap_nil, append_nil] at hrest
  exact eq_of_blank_cons hu htext hrest

theorem mem_forcedArgument_confirmation (htext : PathLike text)
    (h : (c, t) ∈ forcedArgument.run [] (' ' :: text ++ ' ' :: "--force".toList)) :
    c.get 1 = text := by
  obtain ⟨u, v, w, hu, -, -, hw, heq, rfl, -⟩ := mem_forcedArgument.mp h
  exact paths_eq_text htext hu (cons_ne_nil _ _) (forall_mem_singleton.mpr hw) heq

theorem mem_flaggedArgument_confirmation (htext : PathLike text)
    (h : (c, t) ∈ flaggedArgument.run [] (' ' :: text ++ ' ' :: "--force".toList)) :
    c.get 1 = text := by
  obtain ⟨u, paths, flags, hu, -, -, hflags, hblank, heq, hget⟩ := mem_flaggedArgument h
  rw [hget]
  exact paths_eq_text htext hu hflags hblank heq

end

/-! ## Running the commands -/

variable {command : String}

section

variable {services : Services} {currentPath : String} {sep text : List Char}
variable {full : String} {handler : DocumentHandler}

/-- The name of the command, then the rest of the line. -/
theorem trimSpace_command {y : Char} (hcommand : command = "archive" ∨ command = "delete")
    (hs : s.getLast? = some y) (hy : isSpace y = false) :
    trimSpace (String.ofList (command.toList ++ s)) = String.ofList (command.toList ++ s) ∧
      String.ofList (command.toList ++ s) ≠ "" := by
  have hne : s ≠ [] := by
    rintro rfl
    simp at hs
  refine ⟨trimSpace_eq_self ?_ ?_, ?_⟩
  · rcases hcommand with rfl | rfl <;> simp [isSpace]
  · intro z hz
    rw [String.toList_ofList, List.getLast?_append_of_ne_nil _ hne, hs,
      Option.mem_some_iff] at hz
    rw [← hz, hy]
  · intro hempty
    have hnil := congrArg String.toList hempty
    simp [hne] at hnil

theorem search_archive (hfull : full.toList = "archive".toList ++ s) :
    search full documentCommands = search full (documentCommands.drop 2) := by
  simp only [documentCommands, drop_succ_cons, drop_zero]
  iterate 2 rw [search_other (by simp [hfull])]

/-- The commands behind `delete` start otherwise. -/
theorem search_behind
    (hfull : full.toList = "archive".toList ++ s ∨ full.toList = "delete".toList ++ s) :
    search full (documentCommands.drop 8) = .unknown full := by
  have hhelp : ∀ c t, (c, t) ∉ helpPattern.run [] full.toList := by
    intro c t hin
    obtain ⟨c₁, s₁, hgroup, -⟩ := mem_seq.mp hin
    obtain ⟨c₂, halt, -⟩ := mem_group.mp hgroup
    rw [mem_alt, mem_text, mem_text] at halt
    rcases hfull with hfull | hfull <;> simp [hfull] at halt
  simp only [documentCommands, drop_succ_cons, drop_zero]
  iterate 5 rw [search_other (by rcases hfull with hfull | hfull <;> simp [hfull])]
  rw [search_skip hhelp]
  rfl

/-- A pattern of the command that does not match its argument is passed over. -/
theorem search_skip_argument (hfull : full.toList = command.toList ++ s)
    (h : ∀ c t, (c, t) ∉ pattern.run [] s) :
    search full (⟨formatCommand command pattern, handler⟩ :: handlers) =
      search full handlers := by
  apply search_skip
  intro c t hin
  rw [hfull, mem_formatCommand] at hin
  exact h c t hin

theorem search_take_argument {motive : Captures → Prop}
    (hfull : full.toList = command.toList ++ s) (hmatch : ∃ c t, (c, t) ∈ pattern.run [] s)
    (hall : ∀ c t, (c, t) ∈ pattern.run [] s → motive c) :
    ∃ groups, search full (⟨formatCommand command pattern, handler⟩ :: handlers) =
      .handled handler groups full ∧ motive groups := by
  obtain ⟨c, t, hin⟩ := hmatch
  have hrun : ∀ c t, (c, t) ∈ (formatCommand command pattern).run [] full.toList ↔
      (c, t) ∈ pattern.run [] s := by
    intro c t
    rw [hfull, mem_formatCommand]
  exact search_take (h := ⟨formatCommand command pattern, handler⟩) ((hrun c t).mpr hin)
    fun c' t' hin' => hall c' t' ((hrun c' t').mp hin')

/-- The patterns of `archive` and of `delete` that a plain command does not match. -/
theorem search_archive_plain (htext : PathLike text)
    (hfull : full.toList = "archive".toList ++ (sep ++ text)) :
    search full documentCommands =
        search full (⟨formatCommand "archive" argument, .archive⟩ ::
          documentCommands.drop 4) ∧
      search full (documentCommands.drop 4) = .unknown full := by
  constructor
  · rw [search_archive hfull]
    exact search_skip_argument hfull fun c t => notMem_forcedArgument htext
  · rw [← search_behind (.inl hfull)]
    simp only [documentCommands, drop_succ_cons, drop_zero]
    iterate 4 rw [search_other (by simp [hfull])]

theorem search_delete_plain (htext : PathLike text)
    (hfull : full.toList = "delete".toList ++ (sep ++ text)) :
    search full documentCommands =
      search full (⟨formatCommand "delete" argument, .delete⟩ :: documentCommands.drop 8) := by
  have hflagged : documentCommands.drop 5 =
      ⟨formatCommand "delete" flaggedArgument, .deleteWithFlags⟩ ::
        ⟨formatCommand "delete" forcedArgument, .deleteForce⟩ ::
          ⟨formatCommand "delete" argument, .delete⟩ :: documentCommands.drop 8 := rfl
  rw [search_delete hfull, hflagged,
    search_skip_argument hfull fun c t => notMem_flaggedArgument htext,
    search_skip_argument hfull fun c t => notMem_forcedArgument htext]

/-- The plain command and its handler. -/
inductive Plain : String → DocumentHandler → Prop
  | archive : Plain "archive" .archive
  | delete : Plain "delete" .delete

theorem Plain.name (h : Plain command handler) : command = "archive" ∨ command = "delete" := by
  cases h with
  | archive => exact .inl rfl
  | delete => exact .inr rfl

/-- A plain command reaches its handler unless a path has a line break. -/
theorem search_plain (hplain : Plain command handler) (hsep : Blank sep) (htext : PathLike text)
    (hfull : full.toList = command.toList ++ (sep ++ text)) :
    ('\n' ∉ text → ∃ groups, search full documentCommands = .handled handler groups full ∧
      trimSpaceChars (groups.get 1) = text) ∧
      ('\n' ∈ text → search full documentCommands = .unknown full) := by
  have htake : '\n' ∉ text → ∀ handlers : List (Handler DocumentHandler), ∃ groups,
      search full (⟨formatCommand command argument, handler⟩ :: handlers) =
        .handled handler groups full ∧ trimSpaceChars (groups.get 1) = text := by
    intro hline handlers
    exact search_take_argument hfull
      ⟨_, _, mem_restGroup.mpr ⟨sep, text, hsep, htext.ne_nil, hline, rfl, rfl, rfl⟩⟩
      fun c t hin => (mem_argument hsep htext hin).1
  have hskip : '\n' ∈ text → ∀ handlers : List (Handler DocumentHandler),
      search full (⟨formatCommand command argument, handler⟩ :: handlers) =
        search full handlers := by
    intro hline handlers
    exact search_skip_argument hfull fun c t hin => (mem_argument hsep htext hin).2 hline
  cases hplain with
  | archive =>
    obtain ⟨hstart, hbehind⟩ := search_archive_plain htext hfull
    rw [hstart]
    refine ⟨fun hline => htake hline _, ?_⟩
    intro hline
    rw [hskip hline, hbehind]
  | delete =>
    rw [search_delete_plain htext hfull]
    refine ⟨fun hline => htake hline _, ?_⟩
    intro hline
    rw [hskip hline, search_behind (.inr hfull)]

/-- The handler that the confirmation reaches. -/
theorem search_confirmation (hplain : Plain command handler) (htext : PathLike text)
    (hline : '\n' ∉ text)
    (hfull : full.toList = command.toList ++ (' ' :: text ++ ' ' :: "--force".toList)) :
    ∃ groups, search full documentCommands =
      .handled (if handler = .archive then .archiveForce else .deleteWithFlags) groups full ∧
        groups.get 1 = text := by
  have hblank := blank_singleton
  cases hplain with
  | archive =>
    rw [search_archive hfull]
    refine search_take_argument hfull ?_ fun c t hin =>
      mem_forcedArgument_confirmation htext hin
    exact ⟨_, _, mem_forcedArgument.mpr ⟨[' '], text, [' '], hblank, htext.ne_nil, hline,
      hblank, by simp [flagsText, Flag.text, Flag.name], rfl, rfl⟩⟩
  | delete =>
    rw [search_delete hfull]
    refine search_take_argument hfull ?_ fun c t hin =>
      mem_flaggedArgument_confirmation htext hin
    have hmatch : ∃ c t, (c, t) ∈ flaggedArgument.run []
        ([' '] ++ (text ++ flagsText [([' '], .force)])) :=
      exists_mem_flaggedArgument hblank htext.ne_nil hline (by simp) (by simpa using hblank)
    have hsame : [' '] ++ (text ++ flagsText [([' '], .force)]) =
        ' ' :: text ++ ' ' :: "--force".toList := by
      simp [flagsText, Flag.text, Flag.name]
    rwa [hsame] at hmatch

theorem runCommand_of_search {groups : Captures}
    (htrim : trimSpace command = command ∧ command ≠ "")
    (h : search command documentCommands = .handled handler groups command) :
    runCommand services currentPath command =
      handle services currentPath handler (String.ofList (groups.get 1)) command := by
  rw [runCommand, parse, htrim.1, if_neg htrim.2, h]

/-- The command that confirms the one on the text. -/
def confirmation (command : String) (text : List Char) : String :=
  command ++ " " ++ String.ofList text ++ " --force"

theorem confirmation_toList (command : String) (text : List Char) :
    (confirmation command text).toList =
      command.toList ++ (' ' :: text ++ ' ' :: "--force".toList) := by
  simp [confirmation]

theorem trimSpace_confirmation (hplain : Plain command handler) :
    trimSpace (confirmation command text) = confirmation command text ∧
      confirmation command text ≠ "" := by
  have hline : confirmation command text =
      String.ofList (command.toList ++ (' ' :: text ++ ' ' :: "--force".toList)) := by
    rw [← confirmation_toList, String.ofList_toList]
  have hlast : (' ' :: text ++ ' ' :: "--force".toList).getLast? = some 'e' := by
    rw [List.getLast?_append_of_ne_nil _ (by simp)]
    rfl
  rw [hline]
  exact trimSpace_command hplain.name hlast (by decide)

theorem withPaths_text {argument usage : String} {handle : List String → Outcome}
    (htext : PathLike text) (harg : trimSpace argument = String.ofList text) :
    withPaths (trimSpace argument) usage handle = handle (splitPaths (String.ofList text)) := by
  have hmem : 'p' ∈ (String.ofList text).toList := by
    rw [String.toList_ofList]
    exact mem_of_mem_head? htext.head
  rw [harg, withPaths_eq hmem (by decide) (by decide)]

theorem trimSpace_text (htext : PathLike text) :
    trimSpace (String.ofList text) = String.ofList text := by
  rw [trimSpace, String.toList_ofList, trimSpaceChars_eq_self htext]

theorem askConfirmation_spec (command participle : String) {argument : String}
    (htext : PathLike text) (harg : trimSpace argument = String.ofList text) :
    (askConfirmation command participle argument).1 = [] ∧
      (askConfirmation command participle argument).2.data.requiresConfirmation = true ∧
      (askConfirmation command participle argument).2.data.confirmationCommand =
        confirmation command text := by
  rw [askConfirmation, withPaths_text htext harg, harg]
  exact ⟨rfl, rfl, rfl⟩

/-- A plain command makes no call; it asks for confirmation unless a path has a line
break. -/
theorem runCommand_plain (services : Services) (currentPath : String)
    (hplain : Plain command handler) (hsep : Blank sep) (htext : PathLike text) :
    let outcome := runCommand services currentPath
      (String.ofList (command.toList ++ (sep ++ text)))
    ('\n' ∉ text → outcome.1 = [] ∧ outcome.2.data.requiresConfirmation = true ∧
      outcome.2.data.confirmationCommand = confirmation command text) ∧
      ('\n' ∈ text → outcome.2.data.requiresConfirmation = false) := by
  intro outcome
  have hlast : (sep ++ text).getLast? = some 'n' := by
    rw [List.getLast?_append_of_ne_nil _ htext.ne_nil, htext.last]
  have htrim := trimSpace_command hplain.name hlast (by decide)
  obtain ⟨hhandled, hunknown⟩ := search_plain hplain hsep htext
    (String.toList_ofList (l := command.toList ++ (sep ++ text)))
  constructor
  · intro hline
    obtain ⟨groups, hsearch, hget⟩ := hhandled hline
    have harg : trimSpace (String.ofList (groups.get 1)) = String.ofList text := by
      rw [trimSpace, String.toList_ofList, hget]
    have hrun : outcome = handle services currentPath handler
        (String.ofList (groups.get 1)) _ := runCommand_of_search htrim hsearch
    rw [hrun]
    cases hplain with
    | archive =>
      rw [handle, handleArchive]
      exact askConfirmation_spec _ _ htext harg
    | delete =>
      rw [handle, handleDelete]
      exact askConfirmation_spec _ _ htext harg
  · intro hline
    have hrun : outcome.2.data = {} := by
      simp only [outcome]
      rw [runCommand, parse, htrim.1, if_neg htrim.2, hunknown hline]
    rw [hrun]

/-- What the confirmation runs. -/
theorem runCommand_confirmation (hplain : Plain command handler) (htext : PathLike text)
    (hline : '\n' ∉ text) :
    runCommand services currentPath (confirmation command text) =
      handle services currentPath
        (if handler = .archive then .archiveForce else .deleteWithFlags)
        (String.ofList text) (confirmation command text) := by
  obtain ⟨groups, hsearch, hget⟩ :=
    search_confirmation hplain htext hline (confirmation_toList command text)
  rw [runCommand_of_search (trimSpace_confirmation hplain) hsearch, hget]

/-! ## Soft deletions -/

variable (failed : String → String → String)

theorem softDeletes_eachPath (result : DocumentResult) (calls : List Call)
    (paths : List String) :
    ∃ n, (eachPath services .softDelete failed result calls paths).1 =
        calls ++ (paths.take n).map Call.softDelete ∧
      ((eachPath services .softDelete failed result calls paths).2.success = true →
        paths.length ≤ n) := by
  induction paths generalizing calls with
  | nil => exact ⟨0, by simp [eachPath], fun _ => Nat.le_refl 0⟩
  | cons path paths ih =>
    cases hcall : services calls (.softDelete path) with
    | error e =>
      refine ⟨1, by simp [eachPath, hcall], ?_⟩
      intro hsuccess
      simp [eachPath, hcall] at hsuccess
    | ok answer =>
      obtain ⟨n, hcalls, hsuccess⟩ := ih (calls ++ [.softDelete path])
      refine ⟨n + 1, ?_, ?_⟩
      · simp [eachPath, hcall, hcalls]
      · intro h
        simp only [eachPath, hcall] at h
        exact Nat.succ_le_succ (hsuccess h)

theorem SoftDeletes.eachPath (result : DocumentResult) (paths : List String) :
    SoftDeletes paths (eachPath services .softDelete failed result [] paths) := by
  obtain ⟨n, hcalls, hsuccess⟩ := softDeletes_eachPath failed result [] paths
  exact ⟨n, by simpa using hcalls, hsuccess⟩

theorem SoftDeletes.oneCall (path failed : String) (result : List String → DocumentResult) :
    SoftDeletes [path] (oneCall services (.softDelete path) failed result) :=
  ⟨1, by rw [calls_oneCall]; rfl, fun _ => Nat.le_refl 1⟩

/-- The paths that a successful command has soft-deleted are determined. -/
theorem SoftDeletes.unique {paths others : List String} (h : SoftDeletes paths outcome)
    (hothers : SoftDeletes others outcome) (hsuccess : outcome.2.success = true) :
    paths = others := by
  obtain ⟨n, hcalls, hlen⟩ := h
  obtain ⟨m, hcalls', hlen'⟩ := hothers
  rw [take_of_length_le (hlen hsuccess)] at hcalls
  rw [take_of_length_le (hlen' hsuccess), hcalls] at hcalls'
  have hinj : Function.Injective Call.softDelete := fun _ _ h => Call.softDelete.inj h
  exact hinj.list_map hcalls'

/-- Services that never fail. -/
def obliging : Services := fun _ _ => .ok []

theorem success_eachPath {result : DocumentResult} (h : result.success = true)
    (calls : List Call) (paths : List String) :
    (eachPath obliging .softDelete failed result calls paths).2.success = true := by
  induction paths generalizing calls with
  | nil => exact h
  | cons path paths ih => exact ih (calls ++ [.softDelete path])

/-- What the confirmation of a plain command on the list runs. -/
def confirmed (services : Services) (currentPath : String) (handler : DocumentHandler)
    (command : String) (text : List Char) : Outcome :=
  handle services currentPath
    (if handler = .archive then .archiveForce else .deleteWithFlags)
    (String.ofList text) (confirmation command text)

/-- The outcome is that of soft deletions, with success if no service fails. -/
def Deletes (paths : List String) (outcome : Services → Outcome) : Prop :=
  (∀ services, SoftDeletes paths (outcome services)) ∧ (outcome obliging).2.success = true

theorem Deletes.eachPath {result : DocumentResult} (h : result.success = true)
    (paths : List String) :
    Deletes paths fun services => eachPath services .softDelete failed result [] paths :=
  ⟨fun _ => .eachPath _ _ _, success_eachPath _ h _ _⟩

theorem deletes_archiveForce (htext : PathLike text) :
    Deletes (splitPaths (String.ofList text))
      fun services => confirmed services currentPath .archive "archive" text := by
  simp only [confirmed, handle, handleArchiveForce,
    withPaths_text htext (trimSpace_text htext)]
  exact .eachPath _ rfl _

theorem deletes_deleteWithFlags (htext : PathLike text)
    (hhard : contains (confirmation "delete" text) "--hard" = false) :
    Deletes (splitPaths (String.ofList text))
      fun services => confirmed services currentPath .delete "delete" text := by
  simp only [confirmed, reduceCtorEq, if_false, handle, handleDeleteWithFlags,
    withPaths_text htext (trimSpace_text htext), hhard]
  split
  · next path hpaths =>
      rw [hpaths]
      exact ⟨fun _ => .oneCall _ _ _, rfl⟩
  · exact .eachPath _ rfl _

theorem SoftDeletes.gentle {paths : List String} (h : SoftDeletes paths outcome) :
    ¬DeletesForGood outcome := by
  rintro ⟨call, hcall, hpermanent⟩
  obtain ⟨n, hcalls, -⟩ := h
  rw [hcalls] at hcall
  obtain ⟨path, -, rfl⟩ := mem_map.mp hcall
  exact Bool.false_ne_true hpermanent

/-- `--hard` in the confirmation of a delete is one in a path. -/
theorem contains_confirmation_iff :
    contains (confirmation "delete" text) "--hard" = true ↔
      contains (String.ofList text) "--hard" = true := by
  have hblank := blank_singleton
  have hsame : "delete".toList ++ (' ' :: text ++ ' ' :: "--force".toList) =
      "delete".toList ++ ([' '] ++ (text ++ flagsText [([' '], .force)])) := by
    simp [flagsText, Flag.text, Flag.name]
  rw [contains_iff, contains_iff, confirmation_toList, String.toList_ofList (l := text), hsame]
  constructor
  · intro h
    rcases hard_infix_command hblank (by simpa using hblank) h with hin | ⟨flag, hflag, hhard⟩
    · exact hin
    · rw [mem_singleton.mp hflag] at hhard
      exact absurd hhard (by decide)
  · intro h
    exact h.trans ⟨"delete".toList ++ [' '], flagsText [([' '], .force)], by simp⟩

end

/-! ## Confirming a list -/

section

variable {currentPath command : String} {handler : DocumentHandler} {sep : List Char}
  {list : PathList}

/-- A command whose confirmation soft-deletes what it reads, as long as `soft` holds,
soft-deletes the list if it reads the list back. -/
theorem confirmedSoftDeletes_iff (currentPath : String) {soft : Prop}
    (hplain : Plain command handler) (hsep : Blank sep)
    (hlist : ∀ path ∈ list.paths, VaultPath path)
    (hdeletes : soft → Deletes (splitPaths (String.ofList list.text)) fun services =>
      confirmed services currentPath handler command list.text)
    (hsoft : ∀ paths,
      SoftDeletes paths (confirmed obliging currentPath handler command list.text) → soft) :
    (∀ services, ConfirmedSoftDeletes services currentPath (plainLine command sep list)
      list.paths) ↔
      soft ∧ ∀ path ∈ list.paths, ',' ∉ path.toList ∧ '\n' ∉ path.toList := by
  have htext := pathLike_text hlist
  rw [forall₂_and, ← splitPaths_text_iff hlist, ← newline_notMem_iff]
  constructor
  · intro h
    obtain ⟨-, hasks, hruns⟩ := h obliging
    obtain ⟨hplainLine, hbroken⟩ :=
      runCommand_plain obliging currentPath hplain hsep htext
    have hline : '\n' ∉ list.text := by
      intro hline
      rw [plainLine, hbroken hline] at hasks
      exact Bool.false_ne_true hasks
    rw [plainLine, (hplainLine hline).2.2, runCommand_confirmation hplain htext hline] at hruns
    have hissoft := hsoft _ hruns
    obtain ⟨hall, hsuccess⟩ := hdeletes hissoft
    exact ⟨hissoft, (hall obliging).unique hruns hsuccess, hline⟩
  · rintro ⟨hissoft, hpaths, hline⟩ services
    obtain ⟨hcalls, hasks, hconfirm⟩ :=
      (runCommand_plain services currentPath hplain hsep htext).1 hline
    rw [plainLine]
    refine ⟨hcalls, hasks, ?_⟩
    rw [hconfirm, runCommand_confirmation hplain htext hline, ← hpaths]
    exact (hdeletes hissoft).1 services

theorem archive_confirmed_iff (hsep : Blank sep) (hlist : ∀ path ∈ list.paths, VaultPath path) :
    (∀ services, ConfirmedSoftDeletes services currentPath (plainLine "archive" sep list)
      list.paths) ↔
      ∀ path ∈ list.paths, ',' ∉ path.toList ∧ '\n' ∉ path.toList := by
  have htext := pathLike_text hlist
  rw [confirmedSoftDeletes_iff currentPath .archive hsep hlist
    (fun _ => deletes_archiveForce htext) (fun _ _ => trivial), true_and]

theorem delete_confirmed_iff (hsep : Blank sep) (hlist : ∀ path ∈ list.paths, VaultPath path) :
    (∀ services, ConfirmedSoftDeletes services currentPath (plainLine "delete" sep list)
      list.paths) ↔
      ∀ path ∈ list.paths, ',' ∉ path.toList ∧ '\n' ∉ path.toList ∧
        contains path "--hard" = false := by
  have htext := pathLike_text hlist
  have hfull : ∀ {b}, contains (String.ofList list.text) "--hard" = b →
      contains (confirmation "delete" list.text) "--hard" = b := by
    intro b hb
    rw [← hb, Bool.eq_iff_iff, contains_confirmation_iff]
  have hgentle : ∀ paths, SoftDeletes paths
      (confirmed obliging currentPath .delete "delete" list.text) →
        contains (String.ofList list.text) "--hard" = false := by
    intro paths hdeletes
    rw [confirmed] at hdeletes
    rw [Bool.eq_false_iff]
    intro hhard
    exact hdeletes.gentle (deletesForGood_of_inside (contains_iff.mp hhard) (hfull hhard))
  rw [confirmedSoftDeletes_iff currentPath .delete hsep hlist
    (fun hsoft => deletes_deleteWithFlags htext (hfull hsoft)) hgentle,
    contains_hard_iff, ← forall₂_and]
  simp [and_assoc, and_comm, and_left_comm]

end

/-- A command deletes for good only if asked to, unless a path list that it can be read as
has `--hard` in it; and a confirmation soft-deletes exactly what was listed if and only if
no path has a comma, a line break or, for a delete, `--hard` in it. -/
theorem permanent_deletion_only_when_asked_iff (services : Services)
    (currentPath command : String) (list : PathList) (sep : List Char) (hsep : Blank sep)
    (hlist : ∀ path ∈ list.paths, VaultPath path) :
    ((DeletesForGood (runCommand services currentPath command) → HardAsked command) ↔
      ∀ paths flags, ReadsAs command paths flags →
        contains (String.ofList paths) "--hard" = true → HardAsked command) ∧
    ((∀ services, ConfirmedSoftDeletes services currentPath
        (plainLine "delete" sep list) list.paths) ↔
      ∀ path ∈ list.paths, ',' ∉ path.toList ∧ '\n' ∉ path.toList ∧
        contains path "--hard" = false) ∧
    ((∀ services, ConfirmedSoftDeletes services currentPath
        (plainLine "archive" sep list) list.paths) ↔
      ∀ path ∈ list.paths, ',' ∉ path.toList ∧ '\n' ∉ path.toList) :=
  ⟨deletesForGood_asked_iff services currentPath command, delete_confirmed_iff hsep hlist,
    archive_confirmed_iff hsep hlist⟩

theorem permanent_deletion_only_when_asked_iff_sample :
    ConfirmedSoftDeletes obliging ""
      (plainLine "delete" [' '] ⟨"projects/@a-b/x.json", [(0, 1, "projects/@a-b/y.json")]⟩)
      ["projects/@a-b/x.json", "projects/@a-b/y.json"] := by
  have halias : validateAlias "@a-b" = .ok () := by decide +kernel
  have hpaths : ∀ path ∈ ["projects/@a-b/x.json", "projects/@a-b/y.json"], VaultPath path := by
    intro path hpath
    rcases mem_cons.mp hpath with rfl | hpath
    · exact ⟨"@a-b", "x.json", halias, by decide, by decide⟩
    · rw [mem_singleton.mp hpath]
      exact ⟨"@a-b", "y.json", halias, by decide, by decide⟩
  exact (permanent_deletion_only_when_asked_iff obliging "" "help"
    ⟨"projects/@a-b/x.json", [(0, 1, "projects/@a-b/y.json")]⟩ [' '] blank_singleton
    hpaths).2.1.mpr (by decide +kernel) obliging

/-- A flag that asks for a permanent deletion stands behind white space. -/
theorem HardAsked.spaced (h : HardAsked command) :
    ∃ x ∈ (trimSpace command).toList, Regexp.space x = true ∧
      x :: "--hard".toList <:+: (trimSpace command).toList := by
  obtain ⟨paths, flags, ⟨-, -, -, hblank, sep, -, hlist⟩, flag, hflag, hhard⟩ := h
  obtain ⟨init, x, hinit⟩ := (eq_nil_or_concat flag.1).resolve_left (hblank flag hflag).1
  obtain ⟨before, after, rfl⟩ := append_of_mem hflag
  have hpart : x :: "--hard".toList <:+: (trimSpace command).toList := by
    refine ⟨"delete".toList ++ (sep ++ (paths ++ (flagsText before ++ init))),
      flagsText after, ?_⟩
    rw [hlist]
    simp [flagsText, hinit, hhard, Flag.text, Flag.name]
  refine ⟨x, hpart.subset mem_cons_self, (hblank flag hflag).2 x ?_, hpart⟩
  rw [hinit]
  simp

/-- A document of the project `@a--hard` is deleted for good by the confirmation of a plain
delete, which has no flag but `--force`. -/
theorem confirmation_deletes_for_good :
    validateAlias "@a--hard" = .ok () ∧
    (runCommand obliging "" "delete projects/@a--hard/x.json").2.data.confirmationCommand =
      "delete projects/@a--hard/x.json --force" ∧
    (runCommand obliging "" "delete projects/@a--hard/x.json --force").1 =
      [.hardDelete "projects/@a--hard/x.json"] ∧
    ¬HardAsked "delete projects/@a--hard/x.json --force" := by
  refine ⟨by decide +kernel, by decide +kernel, by decide +kernel, ?_⟩
  intro hasked
  obtain ⟨x, hx, hspace, hpart⟩ := hasked.spaced
  let line := (trimSpace "delete projects/@a--hard/x.json --force").toList
  have hnone : line.all (fun x => !(Regexp.space x &&
      decide (x :: "--hard".toList <:+: line))) = true := by decide +kernel
  have hfalse := all_eq_true.mp hnone x hx
  rw [hspace, decide_eq_true hpart] at hfalse
  exact Bool.false_ne_true hfalse

end Yanta.CommandLine
