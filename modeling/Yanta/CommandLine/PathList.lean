import Yanta.CommandLine.Deletion

/-!
# Lists of document paths on the command line

A user writes document paths with commas between them. The handlers read such a list by
splitting it at its commas, so the list is read back as it was written if and only if no
path has a comma in it.
-/

namespace Yanta.CommandLine

open Go Vault List

variable {n : Nat} {path : String}

/-! ## Path lists -/

/-- A document path of a project with a valid alias. -/
def VaultPath (path : String) : Prop :=
  ∃ projectAlias name, validateAlias projectAlias = .ok () ∧ hasSuffix name ".json" = true ∧
    path = "projects/" ++ projectAlias ++ "/" ++ name

/-- A list of paths as a user types it: each further path has a comma in front of it, with
a number of blanks on either side. -/
structure PathList where
  first : String
  rest : List (Nat × Nat × String)

def blanks (n : Nat) : List Char := List.replicate n ' '

def restText (rest : List (Nat × Nat × String)) : List Char :=
  rest.flatMap fun entry =>
    blanks entry.1 ++ ',' :: (blanks entry.2.1 ++ entry.2.2.toList)

namespace PathList

def paths (list : PathList) : List String := list.first :: list.rest.map fun entry => entry.2.2

def text (list : PathList) : List Char := list.first.toList ++ restText list.rest

end PathList

/-! ## The ends of a path -/

/-- No white space at either end, and the end is not that of a flag. -/
structure PathLike (text : List Char) : Prop where
  head : text.head? = some 'p'
  last : text.getLast? = some 'n'

theorem VaultPath.pathLike (h : VaultPath path) : PathLike path.toList := by
  obtain ⟨projectAlias, name, -, hsuf, rfl⟩ := h
  rw [hasSuffix, isSuffixOf_iff_suffix] at hsuf
  obtain ⟨stem, hstem⟩ := hsuf
  constructor
  · simp
  · have hlist : ("projects/" ++ projectAlias ++ "/" ++ name).toList =
        ("projects/" ++ projectAlias ++ "/").toList ++ stem ++ ".json".toList := by
      rw [String.toList_append, ← hstem, append_assoc]
    rw [hlist, List.getLast?_append_of_ne_nil _ (by decide)]
    rfl

variable {text : List Char}

theorem PathLike.ne_nil (h : PathLike text) : text ≠ [] := by
  rintro rfl
  simpa using h.head

theorem PathLike.isSpace_head (h : PathLike text) : ∀ x ∈ text.head?, isSpace x = false := by
  simp [h.head, isSpace]

theorem PathLike.isSpace_last (h : PathLike text) : ∀ x ∈ text.getLast?, isSpace x = false := by
  simp [h.last, isSpace]

theorem PathLike.append {rest : List Char} (h : PathLike text)
    (hrest : rest ≠ [] → rest.getLast? = some 'n') : PathLike (text ++ rest) := by
  refine ⟨?_, ?_⟩
  · rw [List.head?_append, h.head]
    rfl
  · by_cases hnil : rest = []
    · rw [hnil, append_nil, h.last]
    · rw [List.getLast?_append_of_ne_nil _ hnil, hrest hnil]

theorem restText_cons (entry : Nat × Nat × String) (rest : List (Nat × Nat × String)) :
    restText (entry :: rest) =
      blanks entry.1 ++ ',' :: (blanks entry.2.1 ++ (entry.2.2.toList ++ restText rest)) := by
  simp [restText]

variable {rest : List (Nat × Nat × String)}

theorem getLast?_restText (h : ∀ entry ∈ rest, PathLike entry.2.2.toList)
    (hne : restText rest ≠ []) : (restText rest).getLast? = some 'n' := by
  induction rest with
  | nil => exact absurd rfl hne
  | cons entry rest ih =>
    have hentry := h entry mem_cons_self
    have htail := hentry.append fun hnil =>
      ih (forall_mem_cons.mp h).2 hnil
    rw [restText_cons, List.getLast?_append_of_ne_nil _ (by simp), List.getLast?_cons,
      List.getLast?_append_of_ne_nil _ htail.ne_nil, htail.last]
    rfl

section

variable {list : PathList}

theorem PathList.pathLike_text (h : ∀ path ∈ list.paths, VaultPath path) :
    PathLike list.text := by
  have hrest : ∀ entry ∈ list.rest, PathLike entry.2.2.toList := by
    intro entry hentry
    exact (h _ (mem_cons_of_mem _ (mem_map_of_mem hentry))).pathLike
  exact (h list.first mem_cons_self).pathLike.append fun hne => getLast?_restText hrest hne

/-- A path stands in the text of its list. -/
theorem PathList.infix_text (h : path ∈ list.paths) : path.toList <:+: list.text := by
  rcases mem_cons.mp h with rfl | hrest
  · exact (prefix_append _ _).isInfix
  · obtain ⟨entry, hentry, rfl⟩ := mem_map.mp hrest
    obtain ⟨before, after, hsplit⟩ := append_of_mem hentry
    refine ⟨list.first.toList ++ restText before ++ (blanks entry.1 ++ ',' ::
      blanks entry.2.1), restText after, ?_⟩
    rw [text, hsplit]
    simp [restText]

/-- A character of the text that is neither a blank nor a comma is one of a path's. -/
theorem PathList.exists_mem_of_mem_text {x : Char} (h : x ∈ list.text) (hblank : x ≠ ' ')
    (hcomma : x ≠ ',') : ∃ path ∈ list.paths, x ∈ path.toList := by
  rcases mem_append.mp h with hfirst | hrest
  · exact ⟨list.first, mem_cons_self, hfirst⟩
  · obtain ⟨entry, hentry, hx⟩ := mem_flatMap.mp hrest
    refine ⟨entry.2.2, mem_cons_of_mem _ (mem_map_of_mem hentry), ?_⟩
    simpa [blanks, hblank, hcomma] using hx

theorem blank_blanks (h : n ≠ 0) : Blank (blanks n) := by
  refine ⟨by simpa [blanks] using h, ?_⟩
  intro x hx
  rw [eq_of_mem_replicate hx]
  decide

theorem hard_not_infix_nil : ¬"--hard".toList <:+: [] := by decide

theorem hard_infix_blanks_append {b : List Char} (h : "--hard".toList <:+: blanks n ++ b) :
    "--hard".toList <:+: b := by
  by_cases hn : n = 0
  · simpa [hn, blanks] using h
  · have hnil : "--hard".toList <:+: [] ++ (blanks n ++ b) := h
    exact (infix_append_blank space_hard (blank_blanks hn) hnil).resolve_left
      hard_not_infix_nil

theorem hard_infix_append_blanks {a : List Char} (h : "--hard".toList <:+: a ++ blanks n) :
    "--hard".toList <:+: a := by
  by_cases hn : n = 0
  · simpa [hn, blanks] using h
  · rw [← append_nil (blanks n)] at h
    exact (infix_append_blank space_hard (blank_blanks hn) h).resolve_right
      hard_not_infix_nil

theorem hard_infix_rest {a : List Char} (h : "--hard".toList <:+: a ++ restText rest) :
    "--hard".toList <:+: a ∨ ∃ entry ∈ rest, "--hard".toList <:+: entry.2.2.toList := by
  induction rest generalizing a with
  | nil => exact .inl (by simpa [restText] using h)
  | cons entry rest ih =>
    rw [restText_cons, ← append_assoc] at h
    rcases infix_append_cons (by decide) h with hleft | hright
    · exact .inl (hard_infix_append_blanks hleft)
    · rcases ih (hard_infix_blanks_append hright) with hpath | ⟨e, he, hin⟩
      · exact .inr ⟨entry, mem_cons_self, hpath⟩
      · exact .inr ⟨e, mem_cons_of_mem entry he, hin⟩

theorem PathList.contains_hard_iff :
    contains (String.ofList list.text) "--hard" = false ↔
      ∀ path ∈ list.paths, contains path "--hard" = false := by
  simp only [Bool.eq_false_iff, Ne, contains_iff, String.toList_ofList]
  constructor
  · intro h path hpath hin
    exact h (hin.trans (infix_text hpath))
  · intro h hin
    rcases hard_infix_rest hin with hfirst | ⟨entry, hentry, hrest⟩
    · exact h list.first mem_cons_self hfirst
    · exact h entry.2.2 (mem_cons_of_mem _ (mem_map_of_mem hentry)) hrest

theorem PathList.newline_notMem_iff :
    '\n' ∉ list.text ↔ ∀ path ∈ list.paths, '\n' ∉ path.toList := by
  constructor
  · intro h path hpath hin
    exact h ((infix_text hpath).subset hin)
  · intro h hin
    obtain ⟨path, hpath, hmem⟩ :=
      exists_mem_of_mem_text hin (by decide) (by decide)
    exact h path hpath hmem

end

/-! ## Reading the list back -/

section

theorem trimSpaceChars_between {u v : List Char} (hu : ∀ x ∈ u, isSpace x = true)
    (hv : ∀ x ∈ v, isSpace x = true) (h : PathLike text) :
    trimSpaceChars (u ++ (text ++ v)) = text :=
  trimSpaceChars_padded hu hv h.isSpace_head h.isSpace_last

theorem isSpace_of_mem_blanks : ∀ x ∈ blanks n, isSpace x = true := by
  intro x hx
  rw [eq_of_mem_replicate hx]
  decide

theorem trimSpaceChars_eq_self (h : PathLike text) : trimSpaceChars text = text := by
  have hbetween := trimSpaceChars_between (u := []) (v := []) (by simp) (by simp) h
  simpa using hbetween

/-- The trimmed parts between the commas are the paths. -/
theorem map_trim_splitOn (hpath : PathLike path.toList) (hcomma : ',' ∉ path.toList)
    (hrest : ∀ entry ∈ rest, PathLike entry.2.2.toList ∧ ',' ∉ entry.2.2.toList) :
    ((blanks n ++ path.toList ++ restText rest).splitOn ',').map trimSpaceChars =
      path.toList :: rest.map fun entry => entry.2.2.toList := by
  have hblanks : ∀ n, ',' ∉ blanks n := by
    intro n hn
    exact absurd (eq_of_mem_replicate hn) (by decide)
  induction rest generalizing n path with
  | nil =>
    have hnone : ',' ∉ blanks n ++ path.toList := by simp [hblanks, hcomma]
    have htrim := trimSpaceChars_between (v := []) (isSpace_of_mem_blanks (n := n)) (by simp)
      hpath
    rw [append_nil] at htrim
    rw [restText, flatMap_nil, append_nil, splitOn_eq_singleton hnone,
      map_singleton, htrim]
    rfl
  | cons entry rest ih =>
    obtain ⟨hentry, hentryComma⟩ := hrest entry mem_cons_self
    have hnone : ',' ∉ blanks n ++ path.toList ++ blanks entry.1 := by
      simp [hblanks, hcomma]
    rw [restText_cons, ← append_assoc, splitOn_append_cons_self_of_not_mem hnone,
      map_cons, append_assoc (blanks n),
      trimSpaceChars_between isSpace_of_mem_blanks isSpace_of_mem_blanks hpath,
      ← append_assoc, ih hentry hentryComma (forall_mem_cons.mp hrest).2, map_cons]

theorem contains_comma_iff {s : String} : contains s "," = true ↔ ',' ∈ s.toList := by
  rw [contains_iff]
  constructor
  · intro h
    exact h.subset (by decide)
  · intro h
    obtain ⟨before, after, hsplit⟩ := append_of_mem h
    exact ⟨before, after, by simp [hsplit]⟩

theorem commaSeparated_eq (s : String) :
    commaSeparated s =
      ((s.toList.splitOn ',').map fun part => String.ofList (trimSpaceChars part)).filter
        fun part => part != "" := by
  rw [commaSeparated, split, map_map]
  congr 2
  funext part
  simp [trimSpace]

theorem mem_of_mem_trimSpaceChars {x : Char} (h : x ∈ trimSpaceChars text) : x ∈ text := by
  rw [trimSpaceChars, trimRightChars, mem_reverse] at h
  have hleft := (dropWhile_sublist isSpace).subset h
  rw [mem_reverse] at hleft
  exact (dropWhile_sublist isSpace).subset hleft

theorem comma_notMem_of_mem_splitPaths {s : String} (h : path ∈ splitPaths s) :
    ',' ∉ path.toList := by
  unfold splitPaths at h
  split_ifs at h with hcontains
  · rw [commaSeparated_eq, mem_filter] at h
    obtain ⟨piece, hpiece, rfl⟩ := mem_map.mp h.1
    intro hcomma
    rw [String.toList_ofList] at hcomma
    exact Support.notMem_of_mem_splitOn hpiece (mem_of_mem_trimSpaceChars hcomma)
  · rw [mem_singleton.mp h, ← contains_comma_iff]
    exact hcontains

/-- The list is read back from its text exactly where no path has a comma. -/
theorem splitPaths_text_iff {list : PathList}
    (hlist : ∀ path ∈ list.paths, VaultPath path) :
    splitPaths (String.ofList list.text) = list.paths ↔
      ∀ path ∈ list.paths, ',' ∉ path.toList := by
  constructor
  · intro h path hpath
    rw [← h] at hpath
    exact comma_notMem_of_mem_splitPaths hpath
  · intro hcomma
    have hrest : ∀ entry ∈ list.rest, PathLike entry.2.2.toList ∧ ',' ∉ entry.2.2.toList := by
      intro entry hentry
      have hmem : entry.2.2 ∈ list.paths :=
        mem_cons_of_mem _ (mem_map_of_mem hentry)
      exact ⟨(hlist _ hmem).pathLike, hcomma _ hmem⟩
    have hsplit := map_trim_splitOn (n := 0) (hlist _ mem_cons_self).pathLike
      (hcomma _ mem_cons_self) hrest
    by_cases hmany : list.rest = []
    · have htext : list.text = list.first.toList := by
        simp [PathList.text, hmany, restText]
      have hnone : ¬contains (String.ofList list.text) "," = true := by
        rw [contains_comma_iff, String.toList_ofList (l := list.text), htext]
        exact hcomma _ mem_cons_self
      rw [splitPaths, if_neg hnone, htext, String.ofList_toList, PathList.paths, hmany]
      rfl
    · have hsome : contains (String.ofList list.text) "," = true := by
        rw [contains_comma_iff]
        cases hcons : list.rest with
        | nil => exact absurd hcons hmany
        | cons entry rest => simp [PathList.text, hcons, restText_cons]
      have hpieces : ((list.text.splitOn ',').map fun part =>
          String.ofList (trimSpaceChars part)) = list.paths := by
        have hmap := congrArg (List.map String.ofList) hsplit
        simpa [PathList.paths, PathList.text, blanks, Function.comp_def] using hmap
      rw [splitPaths, if_pos hsome, commaSeparated_eq, String.toList_ofList, hpieces,
        filter_eq_self]
      intro path hpath
      have hne : path ≠ "" := by
        rintro rfl
        exact (hlist _ hpath).pathLike.ne_nil rfl
      simpa using hne

end

end Yanta.CommandLine
