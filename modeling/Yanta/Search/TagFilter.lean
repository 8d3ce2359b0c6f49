import Yanta.Index.Rebuild
import Yanta.Search.Filters
import Yanta.Search.Service

/-!
# The tag filter of the journal

The tags of a journal entry are stored as one text, joined and padded with spaces, and the
filter `tag:t` asks for the pattern `% t %` in it. A legal tag may have the character `_`,
which the pattern language reads as any character.
-/

namespace Yanta.Search

open Go Yanta.Document Index Journal List

variable {t : String} {pattern : List Char} {c : Char}

/-! ## Words in a padded text -/

section

variable {α : Type}

/-- The words one after the other, a separator before, between and after them. -/
def padded (sep : α) (words : List (List α)) : List α :=
  sep :: words.flatMap fun word => word ++ [sep]

theorem padded_cons (sep : α) (word : List α) (words : List (List α)) :
    padded sep (word :: words) = sep :: (word ++ padded sep words) := by
  simp [padded]

/-- Joined words with a separator at both ends. -/
theorem padded_eq_intercalate (sep : α) {words : List (List α)} (h : words ≠ []) :
    padded sep words = sep :: ([sep].intercalate words ++ [sep]) := by
  induction words with
  | nil => exact absurd rfl h
  | cons word words ih =>
    rw [padded_cons]
    cases words with
    | nil => simp [padded]
    | cons next words =>
      rw [ih (by simp)]
      simp

/-- Text that starts with a separator is not met inside a word. -/
theorem cons_infix_append_iff {sep : α} {text word rest : List α} (hword : sep ∉ word) :
    sep :: text <:+: word ++ rest ↔ sep :: text <:+: rest := by
  induction word with
  | nil => rfl
  | cons c word ih =>
    have hne : sep ≠ c := fun h => hword (by simp [h])
    have htail : sep ∉ word := fun h => hword (by simp [h])
    rw [cons_append, infix_cons_iff, ih htail]
    simp [hne]

/-- Two words that are followed by a separator are the same word. -/
theorem prefix_of_words_iff {sep : α} {t word rest : List α} (ht : sep ∉ t)
    (hword : sep ∉ word) : t ++ [sep] <+: word ++ sep :: rest ↔ t = word := by
  induction t generalizing word with
  | nil =>
    cases word with
    | nil => simp
    | cons c word =>
      have hne : sep ≠ c := fun h => hword (by simp [h])
      simp [hne]
  | cons a t ih =>
    have hne : a ≠ sep := fun h => ht (by simp [h])
    have htail : sep ∉ t := fun h => ht (by simp [h])
    cases word with
    | nil => simp [hne]
    | cons c word =>
      have hrest : sep ∉ word := fun h => hword (by simp [h])
      rw [cons_append, cons_append, cons_prefix_cons, ih htail hrest, List.cons.injEq]

/-- A word between separators is met exactly among the words. -/
theorem infix_padded_iff {sep : α} {t : List α} {words : List (List α)} (ht : sep ∉ t)
    (hwords : ∀ word ∈ words, sep ∉ word) :
    sep :: (t ++ [sep]) <:+: padded sep words ↔ t ∈ words := by
  induction words with
  | nil =>
    simp only [not_mem_nil, iff_false]
    intro h
    have hlength := h.length_le
    simp [padded] at hlength
  | cons word words ih =>
    obtain ⟨hword, hrest⟩ := forall_mem_cons.mp hwords
    rw [padded_cons, infix_cons_iff, cons_infix_append_iff hword, ih hrest]
    have hfirst : t ++ [sep] <+: word ++ padded sep words ↔ t = word :=
      prefix_of_words_iff ht hword
    simp [hfirst]

end

/-! ## The pattern -/

/-- A character that `LIKE` compares with no other but itself. -/
def Plain (c : Char) : Prop := c ≠ '%' ∧ c ≠ '_' ∧ asciiFold.lower c = c

section

variable {text : List Char} (hpattern : ∀ c ∈ pattern, Plain c)
  (htext : ∀ c ∈ text, asciiFold.lower c = c)

include hpattern htext

theorem likeAt_plain_iff : likeAt sameLetter pattern text = true ↔ pattern <+: text := by
  induction pattern generalizing text with
  | nil => simp [likeAt]
  | cons p pattern ih =>
    obtain ⟨hpercent, hunder, hlower⟩ := hpattern p (by simp)
    have hrest := (forall_mem_cons.mp hpattern).2
    cases text with
    | nil => simp [likeAt, hpercent]
    | cons c text =>
      obtain ⟨hc, htail⟩ := forall_mem_cons.mp htext
      rw [likeAt, if_neg hpercent, Bool.and_eq_true, ih hrest htail]
      simp [sameLetter, hlower, hc, hunder]

theorem likeInside_plain_iff : likeInside pattern text = true ↔ pattern <:+: text := by
  rw [likeInside, any_eq_true, infix_iff_prefix_suffix]
  constructor
  · rintro ⟨rest, hrest, hlike⟩
    have hsuffix : rest <:+ text := (mem_tails _ _).mp hrest
    refine ⟨rest, ?_, hsuffix⟩
    exact (likeAt_plain_iff hpattern fun c hc => htext c (hsuffix.subset hc)).mp hlike
  · rintro ⟨rest, hstart, hsuffix⟩
    refine ⟨rest, (mem_tails _ _).mpr hsuffix, ?_⟩
    exact (likeAt_plain_iff hpattern fun c hc => htext c (hsuffix.subset hc)).mpr hstart

end

/-- Text that differs from the pattern only where the pattern has `_`. -/
theorem likeAt_of_replaced {f : Char → Char} (hf : ∀ c, c ≠ '_' → f c = c)
    (hpattern : '%' ∉ pattern) :
    likeAt sameLetter pattern (pattern.map f) = true := by
  induction pattern with
  | nil => rfl
  | cons p pattern ih =>
    have hpercent : p ≠ '%' := fun h => hpattern (by simp [h])
    have hrest : '%' ∉ pattern := fun h => hpattern (by simp [h])
    rw [map_cons, likeAt, if_neg hpercent, ih hrest, Bool.and_true, Bool.or_eq_true,
      beq_iff_eq]
    by_cases hp : p = '_'
    · exact Or.inl hp
    · right
      rw [hf p hp, sameLetter, beq_self_eq_true]

/-! ## Rows and the condition on them -/

/-- The row that `InsertJournalEntryTx` writes. -/
def insertJournalEntry (projectAlias date : String) (entry : JournalEntry) :
    Except String Note :=
  if entry.id = "" then .error "entryID cannot be empty"
  else .ok ⟨projectAlias, date, entry.id, entry.content, journalTags entry.tags⟩

/-- The query `tag:t`. -/
def tagQuery (t : String) : Query := ⟨some [[.filter ⟨"tag", some t⟩]]⟩

/-- The entries that the journal condition of the query selects. -/
def selectedEntries (fold : CaseFold) (projectAlias date : JournalEntry → String)
    (q : Query) (entries : List JournalEntry) : List JournalEntry :=
  entries.filter fun entry =>
    (insertJournalEntry (projectAlias entry) (date entry) entry).toOption.any
      (Note.inTags (q.extractFilters fold).2)

/-- An entry that is stored and has valid tags. -/
structure TaggedEntry (entry : JournalEntry) : Prop where
  id_ne : entry.id ≠ ""
  tags : ∀ tag ∈ entry.tags, ValidTagName tag

theorem plain_of_isTagChar (h : isTagChar c = true) (hunder : c ≠ '_') : Plain c := by
  obtain ⟨hascii, hupper⟩ := toNat_of_isTagChar h
  refine ⟨?_, hunder, ?_⟩
  · rintro rfl
    exact absurd h (by decide)
  · rw [asciiFold.ascii c hascii, if_neg hupper]

theorem lower_of_isTagChar (h : isTagChar c = true) : asciiFold.lower c = c := by
  obtain ⟨hascii, hupper⟩ := toNat_of_isTagChar h
  rw [asciiFold.ascii c hascii, if_neg hupper]

theorem plain_space : Plain ' ' := ⟨by decide, by decide, by decide⟩

theorem isTagChar_of_mem {name : String} (h : ValidTagName name) (hc : c ∈ name.toList) :
    isTagChar c = true :=
  all_eq_true.mp h.2.2 c hc

theorem space_notMem {name : String} (h : ValidTagName name) : ' ' ∉ name.toList :=
  fun hc => absurd (isTagChar_of_mem h hc) (by decide)

/-- The filter names the tag as it is. -/
theorem extractFilters_tagQuery (fold : CaseFold) (ht : ValidTagName t) :
    ((tagQuery t).extractFilters fold).2 = [t] := by
  have hkey : Filter.tag fold ⟨"tag", some t⟩ = some t := by
    rw [(tag_key ht.1).2, tag_text fold fun c hc => isTagChar_of_mem ht hc]
  simp [tagQuery, Query.extractFilters, Query.items, Item.filter?, hkey]

/-- The stored text of the tags. -/
theorem toList_journalTags {tags : List String} (h : tags ≠ []) :
    (journalTags tags).toList = padded ' ' (tags.map String.toList) := by
  have hne : tags.map String.toList ≠ [] := by simpa using h
  rw [padded_eq_intercalate ' ' hne, journalTags, if_neg h, join]
  simp

theorem selects_iff (fold : CaseFold) {projectAlias date : String} {entry : JournalEntry}
    (hentry : TaggedEntry entry) (ht : ValidTagName t) :
    (insertJournalEntry projectAlias date entry).toOption.any
        (Note.inTags ((tagQuery t).extractFilters fold).2) =
      likeInside (' ' :: (t.toList ++ [' '])) (journalTags entry.tags).toList := by
  rw [insertJournalEntry, if_neg hentry.id_ne, extractFilters_tagQuery fold ht]
  simp [Except.toOption, Note.inTags]

/-- Without `_` the pattern is met exactly in the text of tags that have the tag. -/
theorem likeInside_journalTags_iff {tags : List String}
    (htags : ∀ tag ∈ tags, ValidTagName tag) (ht : ValidTagName t) (hunder : '_' ∉ t.toList) :
    likeInside (' ' :: (t.toList ++ [' '])) (journalTags tags).toList = true ↔ t ∈ tags := by
  by_cases hempty : tags = []
  · subst hempty
    simp [journalTags, likeInside, likeAt]
  · have hpattern : ∀ c ∈ ' ' :: (t.toList ++ [' ']), Plain c := by
      intro c hc
      simp only [mem_cons, mem_append, not_mem_nil, or_false] at hc
      rcases hc with rfl | hc | rfl
      · exact plain_space
      · refine plain_of_isTagChar (isTagChar_of_mem ht hc) ?_
        rintro rfl
        exact hunder hc
      · exact plain_space
    have htext : ∀ c ∈ padded ' ' (tags.map String.toList), asciiFold.lower c = c := by
      intro c hc
      simp only [padded, mem_cons, mem_flatMap, mem_map, mem_append,
        not_mem_nil, or_false] at hc
      rcases hc with rfl | ⟨_, ⟨tag, htag, rfl⟩, hc | rfl⟩
      · exact plain_space.2.2
      · exact lower_of_isTagChar (isTagChar_of_mem (htags tag htag) hc)
      · exact plain_space.2.2
    have hwords : ∀ word ∈ tags.map String.toList, ' ' ∉ word := by
      intro word hword
      obtain ⟨tag, htag, rfl⟩ := mem_map.mp hword
      exact space_notMem (htags tag htag)
    rw [toList_journalTags hempty, likeInside_plain_iff hpattern htext,
      infix_padded_iff (space_notMem ht) hwords, mem_map]
    constructor
    · rintro ⟨tag, htag, hsame⟩
      rwa [← String.toList_injective hsame]
    · intro hmem
      exact ⟨t, hmem, rfl⟩

/-! ## A tag that the pattern confuses with another -/

/-- The tag with each `_` replaced by a letter. -/
def spellOut (t : String) : String :=
  String.ofList (t.toList.map fun c => if c = '_' then 'a' else c)

theorem validTagName_spellOut (ht : ValidTagName t) : ValidTagName (spellOut t) := by
  have hne : t.toList ≠ [] := fun h => ht.1 (String.toList_injective h)
  have hbytes : ∀ cs : List Char,
      String.utf8Len (cs.map fun c => if c = '_' then 'a' else c) = String.utf8Len cs := by
    intro cs
    induction cs with
    | nil => rfl
    | cons c cs ih =>
      rw [map_cons, String.utf8Len_cons, String.utf8Len_cons, ih]
      by_cases hc : c = '_'
      · subst hc
        rfl
      · rw [if_neg hc]
  refine ⟨?_, ?_, ?_⟩
  · intro hempty
    apply hne
    have hmap := congrArg String.toList hempty
    simpa [spellOut] using hmap
  · have hlen : len (spellOut t) = len t := by
      rw [len, len, spellOut, String.utf8ByteSize_ofList, hbytes,
        ← String.utf8ByteSize_ofList, String.ofList_toList]
    rw [hlen]
    exact ht.2.1
  · rw [spellOut, String.toList_ofList, all_map, all_eq_true]
    intro c hc
    by_cases hunder : c = '_'
    · simp [hunder, isTagChar]
    · simpa [hunder] using isTagChar_of_mem ht hc

theorem spellOut_ne (hunder : '_' ∈ t.toList) : spellOut t ≠ t := by
  intro hsame
  have hlist : t.toList.map (fun c => if c = '_' then 'a' else c) = t.toList :=
    String.ofList_eq.mp hsame
  rw [← hlist, mem_map] at hunder
  obtain ⟨c, -, hc⟩ := hunder
  split_ifs at hc with h
  · exact absurd hc (by decide)
  · exact h hc

/-- The pattern of a tag is met in the text of an entry with the other tag. -/
theorem likeInside_spellOut (ht : ValidTagName t) :
    likeInside (' ' :: (t.toList ++ [' '])) (journalTags [spellOut t]).toList = true := by
  have hpercent : '%' ∉ ' ' :: (t.toList ++ [' ']) := by
    simp only [mem_cons, mem_append]
    rintro (h | h | h)
    · exact absurd h (by decide)
    · exact absurd (isTagChar_of_mem ht h) (by decide)
    · exact absurd h (by decide)
  have hlike : likeAt sameLetter (' ' :: (t.toList ++ [' ']))
      ((' ' :: (t.toList ++ [' '])).map fun c => if c = '_' then 'a' else c) = true :=
    likeAt_of_replaced (fun c hc => if_neg hc) hpercent
  have htext : (journalTags [spellOut t]).toList =
      (' ' :: (t.toList ++ [' '])).map fun c => if c = '_' then 'a' else c := by
    simp [toList_journalTags, padded, spellOut]
  rw [htext, likeInside, any_eq_true]
  refine ⟨_, (mem_tails _ _).mpr (suffix_refl _), ?_⟩
  exact hlike

/-- The entry that has the other tag only. -/
def otherEntry (t : String) : JournalEntry := ⟨"entry", "", [spellOut t], false⟩

/-- The journal condition of `tag:t` selects, for every set of entries, exactly those that
carry the tag, if and only if the tag has no `_`. -/
theorem journal_tag_filter_exact_iff (fold : CaseFold)
    (projectAlias date : JournalEntry → String) {t : String} (ht : ValidTagName t) :
    (∀ entries : List JournalEntry, (∀ entry ∈ entries, TaggedEntry entry) →
      selectedEntries fold projectAlias date (tagQuery t) entries =
        entries.filter fun entry => entry.tags.contains t) ↔ '_' ∉ t.toList := by
  constructor
  · intro hexact hunder
    have hentry : TaggedEntry (otherEntry t) := by
      constructor
      · simp [otherEntry]
      · intro tag htag
        rw [mem_singleton.mp htag]
        exact validTagName_spellOut ht
    have hall : ∀ entry ∈ [otherEntry t], TaggedEntry entry := by
      intro entry hmem
      rw [mem_singleton.mp hmem]
      exact hentry
    have hselected : otherEntry t ∈
        selectedEntries fold projectAlias date (tagQuery t) [otherEntry t] := by
      rw [selectedEntries, mem_filter]
      refine ⟨mem_singleton.mpr rfl, ?_⟩
      rw [selects_iff fold hentry ht]
      exact likeInside_spellOut ht
    rw [hexact _ hall, mem_filter] at hselected
    have hcarries : t ∈ [spellOut t] := by simpa [otherEntry] using hselected.2
    exact spellOut_ne hunder (mem_singleton.mp hcarries).symm
  · intro hunder entries hentries
    apply filter_congr
    intro entry hmem
    have hentry := hentries entry hmem
    rw [selects_iff fold hentry ht, Bool.eq_iff_iff,
      likeInside_journalTags_iff hentry.tags ht hunder, contains_iff_mem]

/-- The tag `work` is a valid one without `_`. -/
theorem journal_tag_filter_exact_iff_work :
    ValidTagName "work" ∧
      ((∀ entries : List JournalEntry, (∀ entry ∈ entries, TaggedEntry entry) →
        selectedEntries asciiFold (fun _ => "notes") (fun _ => "2025-01-01")
            (tagQuery "work") entries =
          entries.filter fun entry => entry.tags.contains "work") ↔
        '_' ∉ "work".toList) := by
  have hvalid : ValidTagName "work" := by
    refine ⟨by decide, by decide, by decide⟩
  exact ⟨hvalid, journal_tag_filter_exact_iff asciiFold _ _ hvalid⟩

/-- The filter `tag:a_b` selects an entry whose only tag is `axb`. -/
theorem tag_with_underscore_selects_other :
    TaggedEntry ⟨"entry", "text", ["axb"], false⟩ ∧ ValidTagName "a_b" ∧
      selectedEntries asciiFold (fun _ => "notes") (fun _ => "2025-01-01")
          (tagQuery "a_b") [⟨"entry", "text", ["axb"], false⟩] =
        [⟨"entry", "text", ["axb"], false⟩] := by
  refine ⟨⟨by decide, ?_⟩, ⟨by decide, by decide, by decide⟩, by decide +kernel⟩
  intro tag htag
  rw [mem_singleton.mp htag]
  exact ⟨by decide, by decide, by decide⟩

end Yanta.Search
