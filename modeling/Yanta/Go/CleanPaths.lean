import Yanta.Go.Strings
import Yanta.Support.Terminated

/-!
# Paths that are already clean

When the functions on strings and paths leave their argument alone. A path is
given by its elements, the parts between the slashes; a path whose elements are
nonempty and none of which is `.` or `..` is what `path.Clean` makes of it.
-/

namespace Yanta.Go

open List

/-! ## Substrings -/

theorem findFrom_isSome_iff {sub s : List Char} :
    (findFrom sub s).isSome = true ↔ sub <:+: s := by
  induction s with
  | nil => simp [findFrom]
  | cons c cs ih =>
    rw [findFrom, infix_cons_iff, ← isPrefixOf_iff_prefix, ← ih]
    by_cases hpre : sub.isPrefixOf (c :: cs) = true <;> simp [hpre]

theorem contains_iff {s sub : String} :
    contains s sub = true ↔ sub.toList <:+: s.toList :=
  findFrom_isSome_iff

section

variable {keep old new : List Char}

/-- A text that no occurrence of `old` starts in is copied. -/
theorem replaceAux_append (new : List Char) (fuel : Nat) {t post : List Char}
    (hstart : ∀ u, u <:+ t → u ≠ [] → ¬old <+: u ++ post) :
    replaceAux old new fuel (t ++ post) =
      t ++ replaceAux old new (fuel - t.length) post := by
  induction t generalizing fuel with
  | nil => rfl
  | cons c t ih =>
    cases fuel with
    | zero => rw [Nat.zero_sub, replaceAux, replaceAux]
    | succ fuel =>
      have hnot : old.isPrefixOf (c :: (t ++ post)) ≠ true := by
        rw [Ne, isPrefixOf_iff_prefix]
        exact hstart (c :: t) suffix_rfl (cons_ne_nil c t)
      have htail := ih fuel fun u hu => hstart u (hu.trans (suffix_cons c t))
      rw [cons_append, replaceAux, if_neg hnot, htail, length_cons,
        Nat.add_sub_add_right, cons_append]

/-- A text that no occurrence of `old` overlaps is still there when `old` is replaced. -/
theorem infix_replaceAux
    (hstart : ∀ post u, u <:+ keep → u ≠ [] → ¬old <+: u ++ post)
    (hcross : ∀ post u v, u ≠ [] → v ≠ [] → old = u ++ v → ¬v <+: keep ++ post)
    {fuel : Nat} {s : List Char} (h : keep <:+: s) : keep <:+: replaceAux old new fuel s := by
  induction fuel generalizing s with
  | zero => exact h
  | succ fuel ih =>
    obtain ⟨pre, post, rfl⟩ := h
    rw [append_assoc]
    cases pre with
    | nil =>
      rw [nil_append, replaceAux_append new (fuel + 1) (hstart post)]
      exact (prefix_append keep _).isInfix
    | cons c pre =>
      rw [cons_append, replaceAux]
      by_cases hold : old.isPrefixOf (c :: (pre ++ (keep ++ post))) = true
      · rw [if_pos hold]
        obtain ⟨rest, hrest⟩ := isPrefixOf_iff_prefix.mp hold
        rw [← cons_append] at hrest
        -- Either the occurrence ends in front of the text or it crosses its start.
        rcases append_eq_append_iff.mp hrest with ⟨w, hw, hw'⟩ | ⟨w, hw, hw'⟩
        · have hdrop : (c :: (pre ++ (keep ++ post))).drop old.length =
              w ++ (keep ++ post) := by
            rw [← cons_append, hw, append_assoc, drop_left]
          rw [hdrop]
          refine (ih ?_).trans (suffix_append _ _).isInfix
          exact ⟨w, post, append_assoc _ _ _⟩
        · cases w with
          | nil =>
            have hdrop : (c :: (pre ++ (keep ++ post))).drop old.length =
                keep ++ post := by
              rw [← cons_append, hw, append_nil, drop_left]
            rw [hdrop]
            exact (ih ⟨[], post, rfl⟩).trans (suffix_append _ _).isInfix
          | cons d w =>
            exact absurd ⟨rest, hw'.symm⟩
              (hcross post (c :: pre) (d :: w) (cons_ne_nil _ _)
                (cons_ne_nil _ _) hw)
      · rw [if_neg hold]
        refine (ih ?_).trans (suffix_cons c _).isInfix
        exact ⟨pre, post, append_assoc _ _ _⟩

end

/-- Nothing is replaced where the old text does not occur. -/
theorem replaceAll_eq_self {s old new : String} (h : contains s old = false) :
    replaceAll s old new = s := by
  have hstart : ∀ u, u <:+ s.toList → u ≠ [] → ¬old.toList <+: u ++ [] := by
    intro u hu _ hpre
    rw [append_nil] at hpre
    rw [contains_iff.mpr (hpre.isInfix.trans hu.isInfix)] at h
    cases h
  have hcopied := replaceAux_append new.toList s.toList.length hstart
  rw [Nat.sub_self, replaceAux, append_nil] at hcopied
  rw [replaceAll, hcopied, String.ofList_toList]

/-- A text does not occur if one of its characters does not. -/
theorem contains_eq_false_of_not_mem
    {s sub : String} {c : Char} (hsub : c ∈ sub.toList) (hs : c ∉ s.toList) :
    contains s sub = false := by
  rw [Bool.eq_false_iff, Ne, contains_iff]
  intro h
  exact hs (h.subset hsub)

/-- Space on both sides of a text that starts and ends with no space is trimmed. -/
theorem trimSpaceChars_padded {u v text : List Char} (hu : ∀ x ∈ u, isSpace x = true)
    (hv : ∀ x ∈ v, isSpace x = true) (hhead : ∀ c ∈ text.head?, isSpace c = false)
    (hlast : ∀ c ∈ text.getLast?, isSpace c = false) :
    trimSpaceChars (u ++ (text ++ v)) = text := by
  have hv' : ∀ x ∈ v.reverse, isSpace x = true := fun x hx => hv x (mem_reverse.mp hx)
  have hright : text.reverse.dropWhile isSpace = text.reverse := by
    cases hrev : text.reverse with
    | nil => rfl
    | cons x rest =>
      have hx : isSpace x = false := hlast x (by simp [← List.head?_reverse, hrev])
      rw [dropWhile_cons_of_neg (by simp [hx])]
  rw [trimSpaceChars, trimLeftChars, dropWhile_append_of_pos hu]
  cases text with
  | nil =>
    have hnil : v.dropWhile isSpace = [] := dropWhile_eq_nil_iff.mpr hv
    rw [nil_append, hnil]
    rfl
  | cons x text =>
    have hx : isSpace x = false := hhead x rfl
    have hleft : (x :: text ++ v).dropWhile isSpace = x :: text ++ v :=
      dropWhile_cons_of_neg (by simp [hx])
    rw [hleft, trimRightChars, reverse_append, dropWhile_append_of_pos hv', hright,
      reverse_reverse]

/-- A text that starts and ends with no space is not trimmed. -/
theorem trimSpaceChars_of_ends {text : List Char} (hhead : ∀ c ∈ text.head?, isSpace c = false)
    (hlast : ∀ c ∈ text.getLast?, isSpace c = false) : trimSpaceChars text = text := by
  have hnone : ∀ x ∈ ([] : List Char), isSpace x = true := by simp
  simpa using trimSpaceChars_padded hnone hnone hhead hlast

theorem trimSpace_eq_self
    {s : String} (hhead : ∀ c ∈ s.toList.head?, isSpace c = false)
    (hlast : ∀ c ∈ s.toList.getLast?, isSpace c = false) :
    trimSpace s = s := by
  rw [trimSpace, trimSpaceChars_of_ends hhead hlast, String.ofList_toList]

theorem trimPrefix_eq_self {s pre : String} (h : hasPrefix s pre = false) :
    trimPrefix s pre = s := by
  rw [trimPrefix, if_neg (by simp [h])]

/-! ## Path elements -/

/-- An element that `path.Clean` keeps. -/
def IsCleanElem (elem : List Char) : Prop :=
  elem ≠ [] ∧ elem ≠ ['.'] ∧ elem ≠ ['.', '.']

theorem foldl_cleanElement
    {rooted : Bool} {stack elems : List (List Char)}
    (h : ∀ e ∈ elems, IsCleanElem e) :
    elems.foldl (cleanElement rooted) stack = elems.reverse ++ stack := by
  induction elems generalizing stack with
  | nil => rfl
  | cons e elems ih =>
    have he : cleanElement rooted stack e = e :: stack := by
      obtain ⟨hne, hdot, hdots⟩ := h e (by simp)
      simp [cleanElement, hne, hdot, hdots]
    have htail : ∀ e' ∈ elems, IsCleanElem e' := by
      intro e' he'
      exact h e' (by simp [he'])
    rw [foldl_cons, he, ih htail]
    simp

/-- A path of clean elements does not start with a slash. -/
theorem not_rooted_of_clean {p : List Char}
    (h : ∀ e ∈ p.splitOn '/', IsCleanElem e) : ['/'].isPrefixOf p = false := by
  by_contra hpre
  obtain ⟨rest, rfl⟩ := isPrefixOf_iff_prefix.mp (Bool.not_eq_false _ ▸ hpre)
  exact (h [] (by simp [splitOn_cons_eq_if_modifyHead])).1 rfl

theorem pathClean_eq_self {p : String}
    (h : ∀ e ∈ p.toList.splitOn '/', IsCleanElem e) : pathClean p = p := by
  have hrooted : hasPrefix p "/" = false := not_rooted_of_clean h
  have helems : cleanElements false p.toList = p.toList.splitOn '/' := by
    rw [cleanElements, foldl_cleanElement h, append_nil, reverse_reverse]
  have hne : p.toList.splitOn '/' ≠ [] := splitOn_ne_nil _ _
  simp only [pathClean, hrooted, helems, hne, if_false, Bool.false_eq_true,
    intercalate_splitOn, String.ofList_toList]

/-- After a slash an element begins, so clean elements leave no double slash. -/
theorem not_slashes_of_clean {p : List Char}
    (h : ∀ e ∈ (p.splitOn '/').tail, e ≠ []) : ¬ ['/', '/'] <:+: p := by
  rintro ⟨before, after, rfl⟩
  -- Between the two slashes stands an empty element.
  have hsplit : (before ++ ['/', '/'] ++ after).splitOn '/' =
      before.splitOn '/' ++ [] :: after.splitOn '/' := by
    rw [append_assoc]
    exact (splitOn_append_cons_self before _).trans
      (congrArg _ (splitOn_append_cons_self [] after))
  refine h [] ?_ rfl
  rw [hsplit]
  simp

/-! ## Elements as strings -/

theorem not_mem_of_mem_split {s elem : String} {sep : Char}
    (h : elem ∈ split s sep) : sep ∉ elem.toList := by
  obtain ⟨cs, hcs, rfl⟩ := mem_map.mp h
  rw [String.toList_ofList]
  exact Support.notMem_of_mem_splitOn hcs

theorem splitOn_toList (s : String) (sep : Char) :
    s.toList.splitOn sep = (split s sep).map String.toList := by
  have hid : String.toList ∘ String.ofList = id := by
    funext cs
    simp
  rw [split, map_map, hid, map_id]

theorem join_split (s : String) (sep : Char) :
    join (split s sep) (String.singleton sep) = s := by
  rw [join, ← splitOn_toList, String.toList_singleton, intercalate_splitOn,
    String.ofList_toList]

theorem split_join
    {parts : List String} {sep : Char}
    (hparts : parts ≠ []) (hsep : ∀ e ∈ parts, sep ∉ e.toList) :
    split (join parts (String.singleton sep)) sep = parts := by
  have hid : String.ofList ∘ String.toList = id := by
    funext s
    simp
  have hmap : ∀ l ∈ parts.map String.toList, sep ∉ l := by
    intro l hl
    obtain ⟨e, he, rfl⟩ := mem_map.mp hl
    exact hsep e he
  rw [split, join, String.toList_ofList, String.toList_singleton,
    splitOn_intercalate _ hmap (by simpa using hparts), map_map, hid, map_id]

end Yanta.Go
