import Mathlib.Data.List.Dedup
import Mathlib.Data.List.Sort
import Yanta.Document.Io
import Yanta.Vault.Inside

/-!
# The directories of the vault

Listings of the vault's directories as `os.ReadDir` gives them, and the two
walks that the scans of `internal/indexer/indexer.go` share: the project
directories, and the document files of each of them. The vault has a
`projects` directory from its construction on; any other directory is there
when a file is below it.
-/

namespace Yanta.Vault

open Go Document List

variable {dir projectAlias : String} {u : Unit}

structure DirEntry where
  name : String
  isDir : Bool
deriving DecidableEq, Repr

/-- The entry of the directory `dir` on the way to `file`, both given by their
path elements. -/
def entryTowards : List String → List String → Option DirEntry
  | [], name :: rest => some ⟨name, !rest.isEmpty⟩
  | d :: dir, f :: file => if d = f then entryTowards dir file else none
  | _, [] => none

theorem entryTowards_eq_some
    {dir file : List String} {e : DirEntry} :
    entryTowards dir file = some e ↔
      ∃ rest, file = dir ++ e.name :: rest ∧ e.isDir = !rest.isEmpty := by
  induction dir generalizing file with
  | nil =>
    cases file with
    | nil => simp [entryTowards]
    | cons f file =>
      obtain ⟨name, isDir⟩ := e
      simp [entryTowards, eq_comm]
  | cons d dir ih =>
    cases file with
    | nil => simp [entryTowards]
    | cons f file =>
      by_cases hd : d = f
      · simp [entryTowards, hd, ih]
      · have hne : ¬ f = d := fun h => hd h.symm
        simp [entryTowards, hd, hne]

def projectMetadataFileName : String := ".project.json"

section

variable {β : Type} (v : Vault β)

/-- `os.ReadDir`, sorted by name; empty for a directory that is not there. -/
def readDir (dir : String) : List DirEntry :=
  (v.keys.filterMap fun key =>
    entryTowards (split dir '/') (split key '/')).dedup.insertionSort
      fun a b => a.name ≤ b.name

theorem mem_readDir {e : DirEntry} :
    e ∈ readDir v dir ↔
      ∃ key ∈ v.keys, ∃ rest,
        split key '/' = split dir '/' ++ e.name :: rest ∧
          e.isDir = !rest.isEmpty := by
  simp [readDir, entryTowards_eq_some]

/-- The directories of `projects` whose name starts with an at sign. -/
def projectDirs : List String :=
  (readDir v "projects").filterMap fun entry =>
    if entry.isDir && hasPrefix entry.name "@" then some entry.name else none

/-- The document files directly in a project directory, as document paths. -/
def documentPathsIn (projectAlias : String) : List String :=
  (readDir v ("projects/" ++ projectAlias)).filterMap fun entry =>
    if entry.isDir || !hasSuffix entry.name ".json" ||
        entry.name == projectMetadataFileName then none
    else
      let relativePath := normalizeDocumentPath
        (pathClean ("projects/" ++ projectAlias ++ "/" ++ entry.name))
      if relativePath = "" then none else some relativePath

/-- The paths that `ScanAndIndexVault` indexes. -/
def documentPaths : List String :=
  (projectDirs v).flatMap (documentPathsIn v)

/-- The vault file is one that the scan takes for a document. -/
def isDocumentKey (key : String) : Bool :=
  match split key '/' with
  | [top, projectAlias, name] =>
    top == "projects" && hasPrefix projectAlias "@" && hasSuffix name ".json" &&
      !(name == projectMetadataFileName)
  | _ => false

variable {v}

theorem isDocumentKey_iff {key : String} :
    isDocumentKey key = true ↔
      ∃ projectAlias name, split key '/' = ["projects", projectAlias, name] ∧
        hasPrefix projectAlias "@" = true ∧ hasSuffix name ".json" = true ∧
        name ≠ projectMetadataFileName := by
  unfold isDocumentKey
  constructor
  · intro h
    split at h
    next top projectAlias name hsplit =>
      simp only [Bool.and_eq_true, beq_iff_eq, Bool.not_eq_true',
        beq_eq_false_iff_ne] at h
      obtain ⟨⟨⟨rfl, hat⟩, hjson⟩, hname⟩ := h
      exact ⟨projectAlias, name, hsplit, hat, hjson, hname⟩
    next => cases h
  · rintro ⟨projectAlias, name, hsplit, hat, hjson, hname⟩
    simp [hsplit, hat, hjson, hname]

theorem split_projectDir (hdir : '/' ∉ dir.toList) :
    split ("projects/" ++ dir) '/' = ["projects", dir] := by
  have htop : '/' ∉ "projects".toList := by decide
  have hjoin : "projects/" ++ dir = join ["projects", dir] (String.singleton '/') := by
    apply String.toList_injective
    simp [join]
  rw [hjoin]
  apply split_join (by simp)
  simp only [forall_mem_cons]
  exact ⟨htop, hdir, by simp⟩

theorem join_projectFile (dir name : String) :
    join ["projects", dir, name] (String.singleton '/') =
      "projects/" ++ dir ++ "/" ++ name := by
  apply String.toList_injective
  simp [join]

theorem split_projectFile {name : String} (hdir : '/' ∉ dir.toList)
    (hname : '/' ∉ name.toList) :
    split ("projects/" ++ dir ++ "/" ++ name) '/' = ["projects", dir, name] := by
  have htop : '/' ∉ "projects".toList := by decide
  rw [← join_projectFile]
  apply split_join (by simp)
  simp only [forall_mem_cons]
  exact ⟨htop, hdir, hname, by simp⟩

/-- The text of the path of a file in a project directory. -/
theorem eq_projectFile_of_split {key name : String}
    (h : split key '/' = ["projects", dir, name]) :
    key = "projects/" ++ dir ++ "/" ++ name := by
  rw [← join_projectFile, ← h]
  exact (join_split key '/').symm

theorem projectDirs_nodup (v : Vault β) : (projectDirs v).Nodup := by
  have hentries : (readDir v "projects").Nodup :=
    (perm_insertionSort _ _).nodup_iff.mpr (nodup_dedup _)
  refine hentries.filterMap ?_
  intro e e' name he he'
  rw [Option.mem_def] at he he'
  split at he
  next hcond =>
    split at he'
    next hcond' =>
      simp only [Bool.and_eq_true, Option.some.injEq] at hcond hcond' he he'
      obtain ⟨name₁, isDir₁⟩ := e
      obtain ⟨name₂, isDir₂⟩ := e'
      simp only at hcond hcond' he he'
      rw [hcond.1, hcond'.1, he, he']
    · cases he'
  · cases he

theorem mem_projectDirs :
    projectAlias ∈ projectDirs v ↔
      hasPrefix projectAlias "@" = true ∧ ∃ key ∈ v.keys, ∃ name rest,
        split key '/' = "projects" :: projectAlias :: name :: rest := by
  simp only [projectDirs, mem_filterMap, mem_readDir]
  constructor
  · rintro ⟨⟨name, isDir⟩, ⟨key, hkey, rest, hrest, hdir⟩, hif⟩
    obtain ⟨⟨hisDir, hat⟩, rfl⟩ : (isDir = true ∧ hasPrefix name "@" = true) ∧
        name = projectAlias := by
      simpa using hif
    subst hisDir
    obtain ⟨child, rest', rfl⟩ : ∃ child rest', rest = child :: rest' := by
      cases rest with
      | nil => simp at hdir
      | cons child rest' => exact ⟨child, rest', rfl⟩
    exact ⟨hat, key, hkey, child, rest', hrest⟩
  · rintro ⟨hat, key, hkey, name, rest, hrest⟩
    refine ⟨⟨projectAlias, true⟩, ⟨key, hkey, name :: rest, hrest, rfl⟩, ?_⟩
    simp [hat]

/-- The scan indexes the document files of the vault, each under its normalised
path. -/
theorem mem_documentPaths {path : String} :
    path ∈ documentPaths v ↔
      path ≠ "" ∧ ∃ key ∈ v.keys, isDocumentKey key = true ∧
        path = normalizeDocumentPath (pathClean key) := by
  simp only [documentPaths, mem_flatMap, documentPathsIn, mem_filterMap]
  constructor
  · rintro ⟨dir, hdir, ⟨name, isDir⟩, hentry, hif⟩
    obtain ⟨key, hkey, rest, hrest, hisDir⟩ := (mem_readDir v).mp hentry
    obtain ⟨hat, key', -, child, rest', hkey'⟩ := mem_projectDirs.mp hdir
    have hslash : '/' ∉ dir.toList :=
      not_mem_of_mem_split (s := key') (by simp [hkey'])
    have hproject : split ("projects/" ++ dir) '/' = ["projects", dir] :=
      split_projectDir hslash
    simp only [Option.ite_none_left_eq_some, Option.some.injEq, Bool.not_eq_true,
      Bool.or_eq_false_iff, Bool.not_eq_false', beq_eq_false_iff_ne] at hif
    obtain ⟨⟨⟨rfl, hjson⟩, hname⟩, hempty, rfl⟩ := hif
    have hnil : rest = [] := by
      cases rest with
      | nil => rfl
      | cons _ _ => simp at hisDir
    have hkeySplit : split key '/' = ["projects", dir, name] := by
      rw [hrest, hproject, hnil]
      rfl
    have hkeyText := eq_projectFile_of_split hkeySplit
    rw [← hkeyText] at hempty ⊢
    exact ⟨hempty, key, hkey,
      isDocumentKey_iff.mpr ⟨dir, name, hkeySplit, hat, hjson, hname⟩, rfl⟩
  · rintro ⟨hne, key, hkey, hdoc, hpath⟩
    obtain ⟨dir, name, hsplit, hat, hjson, hname⟩ := isDocumentKey_iff.mp hdoc
    have hslash : '/' ∉ dir.toList := not_mem_of_mem_split (s := key) (by simp [hsplit])
    have hproject : split ("projects/" ++ dir) '/' = ["projects", dir] :=
      split_projectDir hslash
    have hkeyText := eq_projectFile_of_split hsplit
    refine ⟨dir, mem_projectDirs.mpr ⟨hat, key, hkey, name, [], hsplit⟩, ⟨name, false⟩,
      (mem_readDir v).mpr ⟨key, hkey, [], by rw [hsplit, hproject]; rfl, rfl⟩, ?_⟩
    rw [if_neg (by simp [hjson, hname])]
    rw [hkeyText] at hpath
    rw [hpath] at hne ⊢
    exact if_neg hne

end

/-! ## Paths that the application makes -/

/-- A path of clean elements without spaces at its ends and without
backslashes is its own normal form. -/
theorem normalizeDocumentPath_eq_self
    {p : String} (hclean : ∀ e ∈ p.toList.splitOn '/', IsCleanElem e)
    (hback : '\\' ∉ p.toList)
    (hhead : ∀ c ∈ p.toList.head?, isSpace c = false)
    (hlast : ∀ c ∈ p.toList.getLast?, isSpace c = false) :
    normalizeDocumentPath p = p := by
  have hne : p ≠ "" := by
    rintro rfl
    exact (hclean [] (by simp)).1 rfl
  have hdot : p ≠ "." := by
    rintro rfl
    exact (hclean ['.'] (by decide)).2.1 rfl
  rw [normalizeDocumentPath_eq, trimSpace_eq_self hhead hlast, if_neg hne,
    normalizedText_eq_self hclean hback, pathClean_eq_self hclean, if_neg hdot]

/-- The characters of a valid alias. -/
theorem validateAlias_chars (h : validateAlias projectAlias = .ok u) :
    ∃ content : List Char, projectAlias.toList = '@' :: content ∧ content ≠ [] ∧
      ∀ c ∈ content, isAliasChar c = true := by
  unfold validateAlias at h
  by_cases hat : hasPrefix projectAlias "@" = true
  · obtain ⟨content, hcontent⟩ := isPrefixOf_iff_prefix.mp hat
    have hlist : projectAlias.toList = '@' :: content := hcontent.symm
    simp only [hat, hlist, Bool.not_true, Bool.false_eq_true, if_false] at h
    split_ifs at h with hlen hall
    refine ⟨content, hlist, ?_, ?_⟩
    · rintro rfl
      simp [len] at hlen
    · simpa using hall
  · simp [hat] at h

theorem notMem_of_validateAlias (h : validateAlias projectAlias = .ok u) {c : Char}
    (hc : isAliasChar c = false) (hat : c ≠ '@') : c ∉ projectAlias.toList := by
  obtain ⟨content, hcontent, -, hchars⟩ := validateAlias_chars h
  rw [hcontent, mem_cons, not_or]
  refine ⟨hat, fun hmem => ?_⟩
  rw [hchars c hmem] at hc
  cases hc

/-- A lower-case hexadecimal digit. -/
def isHexDigit (c : Char) : Bool :=
  ('0' ≤ c && c ≤ '9') || ('a' ≤ c && c ≤ 'f')

/-- The id of a new document: the first twelve digits of a random UUID. -/
structure DocumentId where
  text : String
  digits : text.toList.all isHexDigit = true
  length : text.length = 12

/-- The file name of a new document. -/
def newDocumentName (projectAlias documentID : String) : String :=
  "doc-" ++ trimPrefix projectAlias "@" ++ "-" ++ documentID ++ ".json"

theorem isAliasChar_of_isHexDigit {c : Char} (h : isHexDigit c = true) :
    isAliasChar c = true := by
  have hf : 'f' ≤ 'z' := by decide
  simp only [isHexDigit, Bool.or_eq_true, Bool.and_eq_true, decide_eq_true_eq] at h
  simp only [isAliasChar, Bool.or_eq_true, Bool.and_eq_true, decide_eq_true_eq]
  rcases h with h | ⟨ha, hc⟩
  · exact .inl (.inr h)
  · exact .inl (.inl ⟨ha, Char.le_trans hc hf⟩)

/-- The name of a new document consists of alias characters and one extension. -/
theorem newDocumentName_toList (halias : validateAlias projectAlias = .ok u)
    (id : DocumentId) :
    ∃ middle : List Char, (∀ c ∈ middle, isAliasChar c = true) ∧
      (newDocumentName projectAlias id.text).toList =
        'd' :: middle ++ ".json".toList := by
  obtain ⟨content, hlist, -, hchars⟩ := validateAlias_chars halias
  have htrim : (trimPrefix projectAlias "@").toList = content := by
    have hat : hasPrefix projectAlias "@" = true := by
      simp [hasPrefix, hlist]
    rw [trimPrefix, if_pos hat, hlist]
    simp
  refine ⟨"oc-".toList ++ content ++ "-".toList ++ id.text.toList, ?_, ?_⟩
  · intro c hc
    simp only [mem_append] at hc
    rcases hc with ((hc | hc) | hc) | hc
    · exact all_eq_true.mp (by decide : "oc-".toList.all isAliasChar = true) c hc
    · exact hchars c hc
    · exact all_eq_true.mp (by decide : "-".toList.all isAliasChar = true) c hc
    · exact isAliasChar_of_isHexDigit (all_eq_true.mp id.digits c hc)
  · simp [newDocumentName, htrim]

/-- A new document's path is clean and is one that the scan finds. -/
theorem newDocumentPath_spec (halias : validateAlias projectAlias = .ok u) (id : DocumentId)
    {path : String}
    (hpath : path = "projects/" ++ projectAlias ++ "/" ++
      newDocumentName projectAlias id.text) :
    split path '/' = ["projects", projectAlias, newDocumentName projectAlias id.text] ∧
      isDocumentKey path = true ∧ pathClean path = path ∧
      normalizeDocumentPath path = path := by
  obtain ⟨content, hcontent, -⟩ := validateAlias_chars halias
  obtain ⟨middle, hmiddle, hname⟩ := newDocumentName_toList halias id
  -- Neither element holds a character outside the aliases, the dot and the at sign.
  have hnameNot : ∀ c, isAliasChar c = false → c ≠ 'd' → c ∉ ".json".toList →
      c ∉ (newDocumentName projectAlias id.text).toList := by
    intro c hc hd hext hmem
    rw [hname, mem_append, mem_cons] at hmem
    rcases hmem with (rfl | hmem) | hmem
    · exact hd rfl
    · rw [hmiddle c hmem] at hc
      cases hc
    · exact hext hmem
  have hslashAlias := notMem_of_validateAlias halias (c := '/') (by decide) (by decide)
  have hslashName := hnameNot '/' (by decide) (by decide) (by decide)
  have hsplit := split_projectFile hslashAlias hslashName
  rw [← hpath] at hsplit
  have hjson : hasSuffix (newDocumentName projectAlias id.text) ".json" = true := by
    rw [hasSuffix, hname]
    exact isSuffixOf_iff_suffix.mpr (suffix_append _ _)
  have hmeta : newDocumentName projectAlias id.text ≠ projectMetadataFileName := by
    intro heq
    have := congrArg (fun s => s.toList.head?) heq
    simp [hname, projectMetadataFileName] at this
  have hat : hasPrefix projectAlias "@" = true := by
    simp [hasPrefix, hcontent]
  have hclean : ∀ e ∈ path.toList.splitOn '/', IsCleanElem e := by
    rw [splitOn_toList, hsplit]
    simp only [map_cons, forall_mem_cons, hcontent, hname]
    exact ⟨⟨by decide, by decide, by decide⟩, ⟨by simp, by simp, by simp⟩,
      ⟨by simp, by simp, by simp⟩, by simp⟩
  have hback : '\\' ∉ path.toList := by
    have h1 := notMem_of_validateAlias halias (c := '\\') (by decide) (by decide)
    have h2 := hnameNot '\\' (by decide) (by decide) (by decide)
    have h3 : '\\' ∉ "projects/".toList := by decide
    have h4 : '\\' ∉ "/".toList := by decide
    rw [hpath]
    simp only [String.toList_append, mem_append, h1, h2, h3, h4, or_self,
      not_false_eq_true]
  refine ⟨hsplit, isDocumentKey_iff.mpr ⟨_, _, hsplit, hat, hjson, hmeta⟩,
    pathClean_eq_self hclean, normalizeDocumentPath_eq_self hclean hback ?_ ?_⟩
  · intro c hc
    have hp : path.toList.head? = some 'p' := by
      simp [hpath]
    rw [hp] at hc
    cases hc
    decide
  · intro c hc
    have hn : path.toList.getLast? = some 'n' := by
      have hext : ".json".toList = ".jso".toList ++ ['n'] := by decide
      rw [hpath, String.toList_append, hname, hext, ← append_assoc, ← append_assoc]
      exact List.getLast?_concat
    rw [hn] at hc
    cases hc
    decide

end Yanta.Vault
