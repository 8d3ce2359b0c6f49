import Yanta.Go.CleanPaths
import Yanta.Vault.Paths

/-!
# Document paths and the vault root

`Vault.DocumentPath` validates a path after normalising it twice and joins the path that
was normalised once. The two differ in white space: cleaning can bring spaces to an end
of the path, which the second normalisation trims before the checks look at it.
-/

namespace Yanta.Vault

open Go List

/-- `filepath.Join` of two texts that are not empty. -/
def filepathJoin (root name : String) : String := pathClean (root ++ "/" ++ name)

/-- `Vault.DocumentPath`, with the path it returns. -/
def absoluteDocumentPath (root relativePath : String) : Except String String :=
  (documentPath relativePath).map (filepathJoin root)

/-- The elements of an absolute path after lexical cleaning. -/
def elementsOf (p : String) : List (List Char) := cleanElements true p.toList

/-- The path lies in some subdirectory of `root/projects` and ends in `.json`. -/
def InsideProjects (root joined : String) : Prop :=
  (∃ sub name rest,
    elementsOf joined = elementsOf root ++ "projects".toList :: sub :: name :: rest) ∧
    hasSuffix joined ".json" = true

/-! ## What cleaning leaves -/

variable {rooted : Bool} {stack : List (List Char)}

theorem mem_cleanElement {elem e : List Char} (h : e ∈ cleanElement rooted stack elem) :
    e ∈ stack ∨ e = elem ∧ e ≠ [] ∧ e ≠ ['.'] := by
  unfold cleanElement at h
  split at h
  · exact .inl h
  case isFalse hskip =>
    push Not at hskip
    split at h
    case isTrue hup =>
      cases stack with
      | nil =>
        cases rooted with
        | true => simp at h
        | false => exact .inr ⟨by simpa using h, by simp_all, by simp_all⟩
      | cons top rest =>
        simp only at h
        split at h
        · rcases mem_cons.mp h with rfl | hin
          · exact .inr ⟨rfl, hskip⟩
          · exact .inl hin
        · exact .inl (mem_cons_of_mem _ h)
    case isFalse hup =>
      rcases mem_cons.mp h with rfl | hin
      · exact .inr ⟨rfl, hskip⟩
      · exact .inl hin

variable {elems : List (List Char)}

theorem mem_foldl_cleanElement {e : List Char} (h : e ∈ elems.foldl (cleanElement rooted) stack) :
    e ∈ stack ∨ e ∈ elems ∧ e ≠ [] ∧ e ≠ ['.'] := by
  induction elems generalizing stack with
  | nil => exact .inl h
  | cons elem elems ih =>
    rcases ih h with hstack | ⟨hin, hne⟩
    · rcases mem_cleanElement hstack with hold | ⟨rfl, hne⟩
      · exact .inl hold
      · exact .inr ⟨mem_cons_self, hne⟩
    · exact .inr ⟨mem_cons_of_mem _ hin, hne⟩

theorem mem_cleanElements {p e : List Char} (h : e ∈ cleanElements rooted p) :
    e ∈ p.splitOn '/' ∧ e ≠ [] ∧ e ≠ ['.'] := by
  rw [cleanElements, mem_reverse] at h
  rcases mem_foldl_cleanElement h with hin | hin
  · simp at hin
  · exact hin

/-- Replacing a character by others removes it. -/
theorem notMem_replaceAux {c : Char} {new : List Char} (hnew : c ∉ new) {fuel : Nat}
    {s : List Char} (hfuel : s.length ≤ fuel) : c ∉ replaceAux [c] new fuel s := by
  induction fuel generalizing s with
  | zero =>
    obtain rfl : s = [] := eq_nil_of_length_eq_zero (by omega)
    simp [replaceAux]
  | succ fuel ih =>
    cases s with
    | nil => simp [replaceAux]
    | cons d ds =>
      rw [length_cons] at hfuel
      have htail := ih (s := ds) (by omega)
      by_cases hd : c = d
      · subst hd
        simpa [replaceAux, hnew] using htail
      · simpa [replaceAux, hd] using htail

theorem mem_of_mem_replaceAux {old new : List Char} {fuel : Nat} {s : List Char} {c : Char}
    (h : c ∈ replaceAux old new fuel s) : c ∈ new ∨ c ∈ s := by
  induction fuel generalizing s with
  | zero => exact .inr h
  | succ fuel ih =>
    cases s with
    | nil => simp [replaceAux] at h
    | cons d ds =>
      rw [replaceAux] at h
      split at h
      · rcases mem_append.mp h with hnew | hrest
        · exact .inl hnew
        · exact (ih hrest).imp_right mem_of_mem_drop
      · rcases mem_cons.mp h with rfl | hrest
        · exact .inr mem_cons_self
        · exact (ih hrest).imp_right (mem_cons_of_mem _)

theorem mem_of_mem_trimPrefix {s pre : String} {c : Char}
    (h : c ∈ (trimPrefix s pre).toList) : c ∈ s.toList := by
  unfold trimPrefix at h
  split at h
  · rw [String.toList_ofList] at h
    exact mem_of_mem_drop h
  · exact h

/-- The text of a path with the given elements. -/
def spell (rooted : Bool) (elems : List (List Char)) : List Char :=
  (if rooted then ['/'] else []) ++ ['/'].intercalate elems

/-- A path as cleaning leaves it, with nothing to climb. -/
structure Plain (elems : List (List Char)) : Prop where
  clean : ∀ e ∈ elems, IsCleanElem e
  slash : ∀ e ∈ elems, '/' ∉ e

theorem pathClean_eq_spell (q : String) :
    ∃ rooted, pathClean q = "." ∨
      (pathClean q).toList = spell rooted (cleanElements rooted q.toList) := by
  refine ⟨hasPrefix q "/", ?_⟩
  unfold pathClean
  cases hrooted : hasPrefix q "/" with
  | true => exact .inr (by simp [spell])
  | false =>
    by_cases hnil : cleanElements false q.toList = []
    · exact .inl (by simp [hnil])
    · exact .inr (by simp [hnil, spell])

/-- The text that `NormalizeDocumentPath` cleans. -/
def normalizedText (docPath : String) : String :=
  replaceAll (trimPrefix (trimPrefix (replaceAll docPath "\\" "/") "./") "/") "//" "/"

theorem normalizeDocumentPath_eq (p : String) :
    normalizeDocumentPath p =
      if trimSpace p = "" then ""
      else if pathClean (normalizedText (trimSpace p)) = "." then ""
      else pathClean (normalizedText (trimSpace p)) := rfl

variable {p : String}

section

variable (hclean : ∀ e ∈ p.toList.splitOn '/', IsCleanElem e)

include hclean

theorem hasPrefix_slash_eq_false :
    hasPrefix p "/" = false ∧ hasPrefix p "./" = false := by
  refine ⟨not_rooted_of_clean hclean, ?_⟩
  by_contra hpre
  rw [Bool.not_eq_false] at hpre
  obtain ⟨rest, hrest⟩ := isPrefixOf_iff_prefix.mp hpre
  have hmem : ['.'] ∈ p.toList.splitOn '/' := by
    simp [← hrest, splitOn_cons_eq_if_modifyHead]
  exact (hclean _ hmem).2.1 rfl

theorem contains_slashes_eq_false :
    contains p "//" = false := by
  rw [Bool.eq_false_iff, Ne, contains_iff]
  apply not_slashes_of_clean
  intro e he
  exact (hclean e (mem_of_mem_tail he)).1

/-- A path of clean elements without backslashes is left as it is. -/
theorem normalizedText_eq_self (hback : '\\' ∉ p.toList) : normalizedText p = p := by
  have hbacks : contains p "\\" = false :=
    contains_eq_false_of_not_mem (c := '\\') (by decide) hback
  obtain ⟨hslash, hdotSlash⟩ := hasPrefix_slash_eq_false hclean
  rw [normalizedText, replaceAll_eq_self hbacks, trimPrefix_eq_self hdotSlash,
    trimPrefix_eq_self hslash, replaceAll_eq_self (contains_slashes_eq_false hclean)]

/-- A leading slash is dropped. -/
theorem normalizedText_slash (hback : '\\' ∉ p.toList) : normalizedText ("/" ++ p) = p := by
  have hbacks : contains ("/" ++ p) "\\" = false := by
    apply contains_eq_false_of_not_mem (c := '\\') (by decide)
    simpa using hback
  have hdotSlash : hasPrefix ("/" ++ p) "./" = false := by
    simp [hasPrefix, List.isPrefixOf]
  have htrim : trimPrefix ("/" ++ p) "/" = p := by
    simp [trimPrefix, hasPrefix]
  rw [normalizedText, replaceAll_eq_self hbacks, trimPrefix_eq_self hdotSlash, htrim,
    replaceAll_eq_self (contains_slashes_eq_false hclean)]

end

theorem backslash_notMem_normalizedText (s : String) :
    '\\' ∉ (normalizedText s).toList := by
  intro h
  rw [normalizedText, replaceAll, String.toList_ofList] at h
  rcases mem_of_mem_replaceAux h with hslash | hmem
  · simp at hslash
  · have hreplaced := mem_of_mem_trimPrefix (mem_of_mem_trimPrefix hmem)
    rw [replaceAll, String.toList_ofList] at hreplaced
    have hslash : '\\' ∉ "/".toList := by decide
    exact notMem_replaceAux hslash (Nat.le_refl _) hreplaced

/-- What normalising leaves of a path that climbs nowhere: the elements of a clean path
without backslashes. -/
theorem normalizeDocumentPath_spec (hne : normalizeDocumentPath p ≠ "")
    (hdots : contains (normalizeDocumentPath p) ".." = false) :
    ∃ rooted elems, (normalizeDocumentPath p).toList = spell rooted elems ∧ Plain elems ∧
      ∀ e ∈ elems, '\\' ∉ e := by
  have hclean : normalizeDocumentPath p = pathClean (normalizedText (trimSpace p)) ∧
      pathClean (normalizedText (trimSpace p)) ≠ "." := by
    rw [normalizeDocumentPath_eq] at hne ⊢
    by_cases hempty : trimSpace p = ""
    · simp [hempty] at hne
    · by_cases hdot : pathClean (normalizedText (trimSpace p)) = "."
      · simp [hdot] at hne
      · simp [hempty, hdot]
  generalize htext : normalizedText (trimSpace p) = text at hclean
  obtain ⟨rooted, hdot | hspell⟩ := pathClean_eq_spell text
  · exact absurd hdot hclean.2
  · rw [← hclean.1] at hspell
    have hpart : ∀ e ∈ cleanElements rooted text.toList, e <:+: text.toList := by
      intro e he
      have hin : e <:+: ['/'].intercalate (text.toList.splitOn '/') :=
        infix_intercalate (mem_cleanElements he).1
      rwa [intercalate_splitOn] at hin
    refine ⟨rooted, _, hspell, ⟨fun e he => ?_, fun e he => ?_⟩, fun e he hmem => ?_⟩
    · refine ⟨(mem_cleanElements he).2.1, (mem_cleanElements he).2.2, ?_⟩
      rintro rfl
      -- An element that climbs would be seen by the check for two dots.
      have hin : ['.', '.'] <:+: (normalizeDocumentPath p).toList := by
        rw [hspell]
        exact (infix_intercalate he).trans (suffix_append _ _).isInfix
      rw [← Bool.not_eq_true, contains_iff] at hdots
      exact hdots hin
    · exact Support.notMem_of_mem_splitOn (mem_cleanElements he).1
    · have := backslash_notMem_normalizedText (trimSpace p)
      rw [htext] at this
      exact this ((hpart e he).subset hmem)

/-! ## Joining -/

/-- Below the file system's root there is nothing to climb to. -/
theorem dots_notMem_cleanElement (hstack : ['.', '.'] ∉ stack) (elem : List Char) :
    ['.', '.'] ∉ cleanElement true stack elem := by
  unfold cleanElement
  split
  · exact hstack
  · split
    · cases stack with
      | nil => simp
      | cons top rest =>
        have htop : top ≠ ['.', '.'] := fun h => hstack (by simp [h])
        simp only [htop]
        exact fun h => hstack (mem_cons_of_mem _ h)
    case isFalse hup =>
      intro h
      rcases mem_cons.mp h with heq | hin
      · exact hup heq.symm
      · exact hstack hin

theorem plain_elementsOf (p : String) : Plain (elementsOf p) := by
  have hdots : ∀ (elems stack : List (List Char)), ['.', '.'] ∉ stack →
      ['.', '.'] ∉ elems.foldl (cleanElement true) stack := by
    intro elems
    induction elems with
    | nil => exact fun stack h => h
    | cons elem elems ih => exact fun stack h => ih _ (dots_notMem_cleanElement h elem)
  refine ⟨fun e he => ?_, fun e he => Support.notMem_of_mem_splitOn (mem_cleanElements he).1⟩
  refine ⟨(mem_cleanElements he).2.1, (mem_cleanElements he).2.2, ?_⟩
  rintro rfl
  rw [elementsOf, cleanElements, mem_reverse] at he
  exact hdots _ [] (by simp) he

theorem Plain.append {elems' : List (List Char)} (h : Plain elems) (h' : Plain elems') :
    Plain (elems ++ elems') where
  clean e he := (mem_append.mp he).elim (h.clean e) (h'.clean e)
  slash e he := (mem_append.mp he).elim (h.slash e) (h'.slash e)

/-- The elements of a plain path are pushed one by one. -/
theorem foldl_splitOn_spell (h : Plain elems) (rooted : Bool) (stack : List (List Char)) :
    ((spell rooted elems).splitOn '/').foldl (cleanElement true) stack =
      elems.reverse ++ stack := by
  have hskip : ∀ stack : List (List Char), cleanElement true stack [] = stack := by
    intro stack
    simp [cleanElement]
  have hbody : ((['/'].intercalate elems).splitOn '/').foldl (cleanElement true) stack =
      elems.reverse ++ stack := by
    cases elems with
    | nil => simp [hskip]
    | cons e es =>
      rw [splitOn_intercalate _ h.slash (by simp), foldl_cleanElement h.clean]
  cases rooted with
  | false => simpa [spell] using hbody
  | true =>
    exact hbody

theorem elementsOf_spell (h : Plain elems) (hp : p.toList = spell true elems) :
    elementsOf p = elems := by
  rw [elementsOf, cleanElements, hp, foldl_splitOn_spell h, append_nil, reverse_reverse]

/-- Joining a plain path to a root puts its elements below those of the root. -/
theorem toList_filepathJoin {root name : String} (hroot : hasPrefix root "/" = true)
    (hname : name.toList = spell rooted elems) (helems : Plain elems) :
    (filepathJoin root name).toList = spell true (elementsOf root ++ elems) := by
  have hrooted : hasPrefix (root ++ "/" ++ name) "/" = true := by
    rw [hasPrefix, isPrefixOf_iff_prefix] at hroot ⊢
    rw [String.append_assoc, String.toList_append]
    exact hroot.trans (prefix_append _ _)
  have hparts : cleanElements true (root ++ "/" ++ name).toList =
      elementsOf root ++ elems := by
    have htext : (root ++ "/" ++ name).toList = root.toList ++ '/' :: name.toList := by
      simp
    rw [cleanElements, htext, splitOn_append_cons_self, foldl_append, hname,
      foldl_splitOn_spell helems, reverse_append, reverse_reverse]
    rfl
  simp only [filepathJoin, pathClean, hrooted, if_true, hparts, String.toList_ofList, spell,
    singleton_append]

/-! ## Checking -/

theorem normalizeDocumentPath_of_spell {r : String} (htrim : trimSpace r = r)
    (hr : r.toList = spell rooted elems) (helems : Plain elems) (hne : elems ≠ [])
    (hback : ∀ e ∈ elems, '\\' ∉ e) :
    normalizeDocumentPath r = String.ofList (['/'].intercalate elems) := by
  generalize hbody : String.ofList (['/'].intercalate elems) = body
  have hlist : body.toList = ['/'].intercalate elems := by
    rw [← hbody, String.toList_ofList]
  have hclean : ∀ e ∈ body.toList.splitOn '/', IsCleanElem e := by
    rw [hlist, splitOn_intercalate _ helems.slash hne]
    exact helems.clean
  have hnoback : '\\' ∉ body.toList := by
    rw [hlist]
    intro hmem
    rcases mem_intercalate hmem with hslash | ⟨e, he, hin⟩
    · simp at hslash
    · exact hback e he hin
  have htext : normalizedText r = body := by
    cases rooted with
    | false =>
      obtain rfl : r = body := String.toList_injective (by simpa [spell, hlist] using hr)
      exact normalizedText_eq_self hclean hnoback
    | true =>
      obtain rfl : r = "/" ++ body := String.toList_injective (by simpa [spell, hlist] using hr)
      exact normalizedText_slash hclean hnoback
  have hempty : r ≠ "" := by
    rintro rfl
    have hnil : body.toList = [] := by
      rw [← htext]
      decide
    rw [hnil] at hclean
    exact (hclean [] (by simp)).1 rfl
  have hdot : body ≠ "." := by
    rintro rfl
    exact (hclean ['.'] (by decide)).2.1 rfl
  rw [normalizeDocumentPath_eq, htrim, if_neg hempty, htext, pathClean_eq_self hclean,
    if_neg hdot]

/-- What `ValidateDocumentPath` checks. -/
theorem validateDocumentPath_eq_ok {r : String} {u : Unit}
    (h : validateDocumentPath r = .ok u) :
    r ≠ "" ∧ contains r ".." = false ∧
      hasPrefix (normalizeDocumentPath r) "projects/" = true ∧
      hasSuffix (normalizeDocumentPath r) ".json" = true ∧
      pathBase (pathDir (normalizeDocumentPath r)) ≠ "projects" := by
  simp only [validateDocumentPath] at h
  split_ifs at h with hempty hdots hclean hpre hsuf hbase
  simp only [Bool.or_eq_true, decide_eq_true_eq, not_or] at hbase
  exact ⟨hempty, by simpa using hdots, by simpa using hpre, by simpa using hsuf, hbase.2⟩

/-- The path of a file directly in `projects` is refused. -/
theorem pathBase_pathDir_projects {name : List Char} (hname : '/' ∉ name) :
    pathBase (pathDir (String.ofList ("projects/".toList ++ name))) = "projects" := by
  have hpart : pathDirPart (String.ofList ("projects/".toList ++ name)) = "projects/" := by
    have hdrop : ∀ c ∈ name.reverse, (!(c == '/')) = true := by
      intro c hc
      have hmem : c ∈ name := mem_reverse.mp hc
      have hne : c ≠ '/' := fun h => hname (h ▸ hmem)
      simpa using hne
    rw [pathDirPart, trimRightChars, String.toList_ofList, reverse_append,
      dropWhile_append_of_pos hdrop]
    rfl
  rw [pathDir, hpart]
  decide

theorem suffix_spell (rooted : Bool) (above : List (List Char)) (hne : elems ≠ []) :
    ['/'].intercalate elems <:+ spell rooted (above ++ elems) := by
  have hbody : ['/'].intercalate elems <:+ ['/'].intercalate (above ++ elems) := by
    induction above with
    | nil => exact suffix_rfl
    | cons e es ih =>
      rw [cons_append, intercalate_cons_of_ne_nil (by simp [hne])]
      exact ih.trans (suffix_append _ _)
  exact hbody.trans (suffix_append _ _)

/-- What stands above the elements does not change how a spelled path ends. -/
theorem getLast?_spell_append (rooted rooted' : Bool) (above : List (List Char))
    (hbody : ['/'].intercalate elems ≠ []) :
    (spell rooted elems).getLast? = (spell rooted' (above ++ elems)).getLast? := by
  have hne : elems ≠ [] := by
    rintro rfl
    exact hbody rfl
  have hends : ∀ flag up, (spell flag (up ++ elems)).getLast? =
      (['/'].intercalate elems).getLast? := by
    intro flag up
    obtain ⟨before, hbefore⟩ := suffix_spell flag up hne
    rw [← hbefore, List.getLast?_append_of_ne_nil _ hbody]
  rw [hends rooted' above]
  exact hends rooted []

/-- A path that starts with `projects/` and is not refused has a directory in between. -/
theorem exists_subdirectory (helems : Plain elems)
    (hpre : hasPrefix (String.ofList (['/'].intercalate elems)) "projects/" = true)
    (hbase : pathBase (pathDir (String.ofList (['/'].intercalate elems))) ≠ "projects") :
    ∃ sub name rest, elems = "projects".toList :: sub :: name :: rest := by
  rw [hasPrefix, isPrefixOf_iff_prefix] at hpre
  obtain ⟨text, htext⟩ := hpre
  replace htext : "projects".toList ++ '/' :: text = ['/'].intercalate elems := by
    simpa using htext
  cases elems with
  | nil => simp at htext
  | cons e es =>
    cases es with
    | nil =>
      rw [intercalate_singleton] at htext
      exact absurd (by simp [← htext]) (helems.slash e mem_cons_self)
    | cons e' es =>
      obtain ⟨hfirst, hrest⟩ := Support.append_sep_inj (by decide)
        (helems.slash e mem_cons_self) htext
      cases es with
      | nil =>
        have he' : '/' ∉ e' := helems.slash e' (by simp)
        refine absurd ?_ hbase
        rw [← hfirst, intercalate_cons_cons, intercalate_singleton]
        exact pathBase_pathDir_projects he'
      | cons e'' es => exact ⟨e', e'', es, by rw [hfirst]⟩

/-! ## The main result -/

/-- A path that `DocumentPath` accepts stays in the vault's projects exactly where
normalising it left no white space at its ends. -/
theorem documentPath_inside_iff {root p joined : String} (hroot : hasPrefix root "/" = true)
    (hok : absoluteDocumentPath root p = .ok joined) :
    InsideProjects root joined ↔
      trimSpace (normalizeDocumentPath p) = normalizeDocumentPath p := by
  obtain ⟨u, hvalid, rfl⟩ : ∃ u, validateDocumentPath (normalizeDocumentPath p) = .ok u ∧
      filepathJoin root (normalizeDocumentPath p) = joined := by
    unfold absoluteDocumentPath documentPath at hok
    cases hvalid : validateDocumentPath (normalizeDocumentPath p) with
    | error e => simp [hvalid, Except.map] at hok
    | ok u => exact ⟨u, rfl, by simpa [hvalid, Except.map] using hok⟩
  obtain ⟨hne, hdots, hpre, hsuf, hbase⟩ := validateDocumentPath_eq_ok hvalid
  obtain ⟨rooted, elems, hr, hplain, hback⟩ := normalizeDocumentPath_spec hne hdots
  generalize normalizeDocumentPath p = r at *
  have hjoined := toList_filepathJoin hroot hr hplain
  have helements := elementsOf_spell ((plain_elementsOf root).append hplain) hjoined
  constructor
  · rintro ⟨⟨sub, name, rest, hbelow⟩, hjson⟩
    rw [helements, append_cancel_left_eq] at hbelow
    have hbody : ['/'].intercalate elems ≠ [] := by
      rw [hbelow]
      simp
    have hlast : r.toList.getLast? = some 'n' := by
      rw [hasSuffix, isSuffixOf_iff_suffix] at hjson
      have hend : (filepathJoin root r).toList.getLast? = some 'n' := by
        obtain ⟨above, habove⟩ := hjson
        simp [← habove]
      have hsame := getLast?_spell_append rooted true (elementsOf root) hbody
      rw [hr, hsame, ← hjoined]
      exact hend
    apply trimSpace_eq_self
    · intro c hc
      have hc' : c = '/' ∨ c = 'p' := by
        rw [hr, hbelow, spell] at hc
        cases rooted with
        | false => exact .inr (by simpa using hc.symm)
        | true => exact .inl (by simpa using hc.symm)
      rcases hc' with rfl | rfl <;> decide
    · intro c hc
      rw [hlast, Option.mem_some_iff] at hc
      rw [← hc]
      decide
  · intro htrim
    have hnonempty : elems ≠ [] := by
      rintro rfl
      have hslash : r = "" ∨ r = "/" := by
        cases rooted with
        | false => exact .inl (String.toList_injective (by simpa [spell] using hr))
        | true => exact .inr (String.toList_injective (by simpa [spell] using hr))
      rcases hslash with rfl | rfl
      · exact hne rfl
      · revert hpre
        decide
    have hnormal := normalizeDocumentPath_of_spell htrim hr hplain hnonempty hback
    rw [hnormal] at hpre hsuf hbase
    obtain ⟨sub, name, rest, hbelow⟩ := exists_subdirectory hplain hpre hbase
    refine ⟨⟨sub, name, rest, by rw [helements, hbelow]⟩, ?_⟩
    rw [hasSuffix, isSuffixOf_iff_suffix] at hsuf ⊢
    have hbody : (String.ofList (['/'].intercalate elems)).toList <:+
        (filepathJoin root r).toList := by
      rw [hjoined, String.toList_ofList]
      exact suffix_spell true (elementsOf root) hnonempty
    exact hsuf.trans hbody

theorem documentPath_inside_iff_sample :
    absoluteDocumentPath "/vault" "./projects//@notes/a.json" =
        .ok "/vault/projects/@notes/a.json" ∧
      InsideProjects "/vault" "/vault/projects/@notes/a.json" := by
  have hok : absoluteDocumentPath "/vault" "./projects//@notes/a.json" =
      .ok "/vault/projects/@notes/a.json" := by decide
  have hends : trimSpace (normalizeDocumentPath "./projects//@notes/a.json") =
      normalizeDocumentPath "./projects//@notes/a.json" := by
    decide +kernel
  exact ⟨hok, (documentPath_inside_iff (by decide) hok).mpr hends⟩

/-- Below a leading slash the spaces are not trimmed before the first cleaning, so the
file is placed in a directory of the root whose name only looks like `projects`. -/
theorem documentPath_leaves_projects :
    absoluteDocumentPath "/vault" "/  projects/@notes/a.json" =
        .ok "/vault/  projects/@notes/a.json" ∧
      ¬InsideProjects "/vault" "/vault/  projects/@notes/a.json" := by
  refine ⟨by decide, ?_⟩
  rintro ⟨⟨sub, name, rest, h⟩, -⟩
  have helements : elementsOf "/vault/  projects/@notes/a.json" =
      ["vault".toList, "  projects".toList, "@notes".toList, "a.json".toList] := by
    decide +kernel
  have hroot : elementsOf "/vault" = ["vault".toList] := by decide
  rw [helements, hroot] at h
  simp at h

end Yanta.Vault
