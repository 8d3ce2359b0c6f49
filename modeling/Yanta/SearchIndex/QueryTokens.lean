import Yanta.SearchIndex.QueryParser

/-!
# The tokens of a parsed query

A query of words, phrases, exclusions and filters that are separated by single spaces is
parsed into exactly those, in order and with their repetitions.
-/

namespace Yanta.SearchIndex

open Js List QueryToken

/-- What `toLowerCase` does to ASCII texts, and that no letter becomes a colon. -/
structure Lowering (toLowerCase : Text → Text) : Prop where
  ascii : ∀ s : Text, (∀ c ∈ s, c.toNat < 128) →
    toLowerCase s = s.map fun c => if 65 ≤ c.toNat ∧ c.toNat ≤ 90 then c + 32 else c
  colon : ∀ s : Text, unit ':' ∈ toLowerCase s → unit ':' ∈ s

/-! ## Sorting the tokens -/

/-- The lists with what a token adds to them. -/
def Collected.add (acc : Collected) (t : QueryToken) : Collected where
  projects := acc.projects ++ t.project?.toList
  tags := acc.tags ++ t.tag?.toList
  excludes := acc.excludes ++ t.excluded?.toList
  unsupportedOperators := acc.unsupportedOperators ++ t.operator?.toList
  words := acc.words ++ t.word?.toList

variable (acc : Collected)

theorem Collected.add_word (w : Text) :
    acc.add (.word w) =
      { acc with
        unsupportedOperators := acc.unsupportedOperators ++
          if w = text "AND" ∨ w = text "OR" then [w] else []
        words := acc.words ++ [w] } := by
  by_cases hoperator : w = text "AND" ∨ w = text "OR" <;>
    simp [add, operator?, word?, project?, tag?,
      excluded?, hoperator]

theorem Collected.add_phrase (p : Text) : acc.add (.phrase p) = acc := by
  simp [add, operator?, word?, project?, tag?,
    excluded?]

theorem Collected.add_excluded (w : Text) :
    acc.add (.excluded w) = { acc with excludes := acc.excludes ++ [w] } := by
  simp [add, operator?, word?, project?, tag?,
    excluded?]

theorem Collected.add_project (at? : Bool) (value : Text) :
    acc.add (.project at? value) = { acc with projects := acc.projects ++ [value] } := by
  simp [add, operator?, word?, project?, tag?,
    excluded?]

theorem Collected.add_tag (value : Text) :
    acc.add (.tag value) = { acc with tags := acc.tags ++ [value] } := by
  simp [add, operator?, word?, project?, tag?,
    excluded?]

open Collected

/-- The lists after all tokens. -/
theorem foldl_add (tokens : List QueryToken) :
    tokens.foldl Collected.add acc =
      { projects := acc.projects ++ tokens.filterMap QueryToken.project?
        tags := acc.tags ++ tokens.filterMap QueryToken.tag?
        excludes := acc.excludes ++ tokens.filterMap QueryToken.excluded?
        unsupportedOperators :=
          acc.unsupportedOperators ++ tokens.filterMap operator?
        words := acc.words ++ tokens.filterMap word? } := by
  induction tokens generalizing acc with
  | nil => simp
  | cons t ts ih =>
    rw [foldl_cons, ih]
    simp [add, filterMap_cons_toList]

theorem parseToken_nil (toLowerCase : Text → Text) (acc : Collected) :
    parseToken toLowerCase acc [] = acc := by
  simp [parseToken]

section

variable {toLowerCase : Text → Text} (hlower : Lowering toLowerCase)

include hlower

/-- A key with a colon is not found in front of a token without one. -/
theorem key_isPrefixOf_lower (key : Text) {tok : Text} (hkey : unit ':' ∈ key)
    (htok : unit ':' ∉ tok) : key.isPrefixOf (toLowerCase tok) = false := by
  rw [Bool.eq_false_iff, Ne, isPrefixOf_iff_prefix]
  intro hpre
  exact htok (hlower.colon tok (hpre.subset hkey))

/-- A token without a colon is a word, an operator or an exclusion. -/
theorem parseToken_of_no_colon {tok : Text} (hne : tok ≠ []) (htok : unit ':' ∉ tok) :
    parseToken toLowerCase acc tok =
      if tok = text "AND" ∨ tok = text "OR" then
        { acc with
          unsupportedOperators := acc.unsupportedOperators ++ [tok]
          words := acc.words ++ [tok] }
      else if (text "-").isPrefixOf tok ∧ 1 < tok.length then
        { acc with excludes := acc.excludes ++ [tok.drop 1] }
      else { acc with words := acc.words ++ [tok] } := by
  have hproject := key_isPrefixOf_lower hlower (text "project:") (by decide) htok
  have htag := key_isPrefixOf_lower hlower (text "tag:") (by decide) htok
  have htitle := key_isPrefixOf_lower hlower (text "title:") (by decide) htok
  have hbody := key_isPrefixOf_lower hlower (text "body:") (by decide) htok
  simp only [parseToken, if_neg hne, hproject, htag, htitle, hbody, Bool.false_eq_true,
    Bool.or_self, if_false]

theorem toLowerCase_of_tagUnits {s : Text} (hs : ∀ c ∈ s, isTagUnit c = true) :
    toLowerCase s = s := by
  have hascii : ∀ c ∈ s, c.toNat < 128 := fun c hc => (isTagUnit_spec (hs c hc)).2.1
  rw [hlower.ascii s hascii]
  conv_rhs => rw [← map_id s]
  apply map_congr_left
  intro c hc
  have hspec := isTagUnit_spec (hs c hc)
  exact if_neg (by omega)

/-- An ASCII key in lower case is found in front of a token that starts with it. -/
theorem key_isPrefixOf_self (key : Text) {rest : Text}
    (hkey : key.all (fun c => c.toNat < 128) = true)
    (hlow : key.map (fun c => if 65 ≤ c.toNat ∧ c.toNat ≤ 90 then c + 32 else c) = key)
    (hrest : ∀ c ∈ rest, c.toNat < 128) :
    key.isPrefixOf (toLowerCase (key ++ rest)) = true := by
  have hascii : ∀ c ∈ key ++ rest, c.toNat < 128 := by
    intro c hc
    rcases mem_append.mp hc with hc | hc
    · simpa using all_eq_true.mp hkey c hc
    · exact hrest c hc
  rw [hlower.ascii _ hascii, map_append, hlow, isPrefixOf_iff_prefix]
  exact prefix_append _ _

theorem parseToken_project (at? : Bool) {value : Text} (hne : value ≠ [])
    (hvalue : ∀ c ∈ value, isProjectUnit c = true) :
    parseToken toLowerCase acc (QueryToken.project at? value).written =
      { acc with projects := acc.projects ++ [value] } := by
  have htag : ∀ c ∈ value, isTagUnit c = true :=
    fun c hc => isTagUnit_of_isProjectUnit (hvalue c hc)
  have hrest : ∀ c ∈ (if at? then [unit '@'] else []) ++ value, c.toNat < 128 := by
    intro c hc
    rcases mem_append.mp hc with hc | hc
    · split_ifs at hc
      · rw [mem_singleton.mp hc]
        decide
      · exact absurd hc not_mem_nil
    · exact (isTagUnit_spec (htag c hc)).2.1
  have hkey := key_isPrefixOf_self hlower (text "project:") (by decide) (by decide) hrest
  have hstrip : stripAt ((if at? then [unit '@'] else []) ++ value) = value := by
    have hvalue' : stripAt value = value := by
      cases value with
      | nil => rfl
      | cons c value =>
        have hc : c ≠ unit '@' := ne_of_isTagUnit (htag c (by simp)) (by decide)
        simp [stripAt, hc]
    cases at? with
    | false | true => exact hvalue'
  have hdrop : ∀ rest : Text, (text "project:" ++ rest).drop 8 = rest := fun rest => rfl
  have htok : text "project:" ++ ((if at? then [unit '@'] else []) ++ value) ≠ [] := by
    simp [text]
  simp only [parseToken, written, if_neg htok, hkey, if_true, hdrop, hstrip,
    if_neg hne, toLowerCase_of_tagUnits hlower htag]

theorem parseToken_tag {value : Text} (hne : value ≠ [])
    (hvalue : ∀ c ∈ value, isTagUnit c = true) :
    parseToken toLowerCase acc (QueryToken.tag value).written =
      { acc with tags := acc.tags ++ [value] } := by
  have hrest : ∀ c ∈ value, c.toNat < 128 := fun c hc => (isTagUnit_spec (hvalue c hc)).2.1
  have hkey := key_isPrefixOf_self hlower (text "tag:") (by decide) (by decide) hrest
  have hproject : (text "project:").isPrefixOf (toLowerCase (text "tag:" ++ value)) = false := by
    obtain ⟨rest, hlist⟩ := isPrefixOf_iff_prefix.mp hkey
    rw [← hlist]
    rfl
  have hstrip : stripHash value = value := by
    cases value with
    | nil => rfl
    | cons c value =>
      have hc : c ≠ unit '#' := ne_of_isTagUnit (hvalue c (by simp)) (by decide)
      simp [stripHash, hc]
  have hdrop : ∀ rest : Text, (text "tag:" ++ rest).drop 4 = rest := fun rest => rfl
  have htok : text "tag:" ++ value ≠ [] := by simp [text]
  simp only [parseToken, written, if_neg htok, hproject, hkey, if_true,
    Bool.false_eq_true, if_false, hdrop, hstrip, if_neg hne,
    toLowerCase_of_tagUnits hlower hvalue]

/-- The loop puts each token where it belongs, and skips a phrase that was cut out. -/
theorem parseToken_bare {t : QueryToken} (ht : t.Valid) :
    parseToken toLowerCase acc t.bare = acc.add t := by
  have hcolon : ∀ w : Text, (∀ c ∈ w, isWordUnit c = true) → unit ':' ∉ w :=
    fun w hw hc => (isWordUnit_spec (hw _ hc)).2.2.1 rfl
  cases t with
  | word w =>
    have hparse := parseToken_of_no_colon acc hlower ht.1 (hcolon w ht.2)
    have hhyphen : (text "-").isPrefixOf w = false := by
      rw [Bool.eq_false_iff, Ne, isPrefixOf_iff_prefix]
      intro hpre
      have hmem : unit '-' ∈ w := hpre.subset (by decide)
      exact (isWordUnit_spec (ht.2 _ hmem)).2.2.2 rfl
    refine hparse.trans ?_
    by_cases hoperator : w = text "AND" ∨ w = text "OR"
    · rw [if_pos hoperator, add_word, if_pos hoperator]
    · rw [if_neg hoperator, if_neg (by simp [hhyphen]), add_word,
        if_neg hoperator, append_nil]
  | phrase p =>
    rw [add_phrase]
    exact parseToken_nil toLowerCase acc
  | excluded w =>
    have htok : unit ':' ∉ unit '-' :: w := by
      rw [mem_cons, not_or]
      exact ⟨by decide, hcolon w ht.2⟩
    have hlength : 1 < (unit '-' :: w).length := by
      have hpos := length_pos_iff.mpr ht.1
      rw [length_cons]
      omega
    have hoperator : ¬(unit '-' :: w = text "AND" ∨ unit '-' :: w = text "OR") := by
      simp [text, unit]
    refine (parseToken_of_no_colon acc hlower (cons_ne_nil _ _) htok).trans ?_
    rw [if_neg hoperator, if_pos ⟨rfl, hlength⟩, add_excluded]
    rfl
  | project at? value =>
    rw [add_project]
    exact parseToken_project acc hlower at? ht.1 ht.2
  | tag value =>
    rw [add_tag]
    exact parseToken_tag acc hlower ht.1 ht.2

omit hlower in
/-- Pieces that are empty are skipped. -/
theorem foldl_parseToken_filter (toks : List Text) :
    (toks.filter fun tok => tok ≠ []).foldl (parseToken toLowerCase) acc =
      toks.foldl (parseToken toLowerCase) acc := by
  induction toks generalizing acc with
  | nil => rfl
  | cons tok toks ih =>
    by_cases hempty : tok = []
    · rw [hempty, foldl_cons, parseToken_nil, ← ih]
      simp
    · rw [filter_cons_of_pos (by simpa using hempty), foldl_cons, foldl_cons, ih]

theorem foldl_parseToken_bare {tokens : List QueryToken}
    (htokens : ∀ t ∈ tokens, t.Valid) :
    (tokens.map QueryToken.bare).foldl (parseToken toLowerCase) acc =
      tokens.foldl Collected.add acc := by
  induction tokens generalizing acc with
  | nil => rfl
  | cons t ts ih =>
    have hts := (forall_mem_cons.mp htokens).2
    rw [map_cons, foldl_cons, foldl_cons,
      parseToken_bare acc hlower (htokens t (by simp)), ih _ hts]

/-- A query of tokens separated by single spaces is parsed into its words, projects, tags,
exclusions and phrases, each in order. -/
theorem parseQuery_recovers_tokens {tokens : List QueryToken}
    (htokens : ∀ t ∈ tokens, t.Valid) :
    parseQuery toLowerCase (writtenQuery tokens) =
      { text := joinSpace (tokens.filterMap QueryToken.word?)
        projects := tokens.filterMap QueryToken.project?
        tags := tokens.filterMap QueryToken.tag?
        excludes := tokens.filterMap QueryToken.excluded?
        phrases := tokens.filterMap QueryToken.phrase?
        unsupportedOperators := tokens.filterMap QueryToken.operator? } := by
  have hspace : ∀ part ∈ tokens.map bare, ∀ c ∈ part, isSpace c = false := by
    intro part hpart c hc
    obtain ⟨t, ht, rfl⟩ := mem_map.mp hpart
    exact (bare_spec (htokens t ht) c hc).1
  have hremaining := cutPhrases_writtenQuery htokens
  have hcollected : (splitFrom false (joinSpace (tokens.map bare))).foldl
      (parseToken toLowerCase) ⟨[], [], [], [], []⟩ =
        tokens.foldl add ⟨[], [], [], [], []⟩ := by
    have hpieces := pieces_joinSpace hspace
    rw [pieces] at hpieces
    rw [← foldl_parseToken_filter, hpieces, foldl_parseToken_filter,
      foldl_parseToken_bare _ hlower htokens]
  rw [cutPhrases] at hremaining
  simp [parseQuery, phrasesOf_writtenQuery htokens, hremaining, hcollected, foldl_add]

end

/-- The lower case of ASCII letters. -/
def asciiLower (s : Text) : Text :=
  s.map fun c => if 65 ≤ c.toNat ∧ c.toNat ≤ 90 then c + 32 else c

theorem lowering_asciiLower : Lowering asciiLower where
  ascii _ _ := rfl
  colon s hs := by
    obtain ⟨c, hc, hcolon⟩ := mem_map.mp hs
    split_ifs at hcolon with hupper
    · have hnat := congrArg UInt16.toNat hcolon
      rw [UInt16.toNat_add] at hnat
      have h58 : (unit ':').toNat = 58 := by decide
      have h32 : (32 : CodeUnit).toNat = 32 := by decide
      omega
    · rwa [← hcolon]

theorem parseQuery_recovers_tokens_sample :
    (Lowering asciiLower ∧ ∀ t ∈ [QueryToken.word (text "Go"), .phrase (text "a b"),
        .phrase (text "a b"), .excluded (text "old"), .project true (text "work"),
        .tag (text "to-do")], t.Valid) ∧
      parseQuery asciiLower (text "Go \"a b\" \"a b\" -old project:@work tag:to-do") =
        ⟨text "Go", [text "work"], [text "to-do"], [text "old"],
          [text "a b", text "a b"], []⟩ := by
  have hvalid : ∀ t ∈ [word (text "Go"), .phrase (text "a b"),
      .phrase (text "a b"), .excluded (text "old"), .project true (text "work"),
      .tag (text "to-do")], t.Valid := by
    intro t ht
    simp only [mem_cons, not_mem_nil, or_false] at ht
    rcases ht with rfl | rfl | rfl | rfl | rfl | rfl
    · exact ⟨by decide, all_eq_true.mp (by decide)⟩
    · exact ⟨by decide, by decide⟩
    · exact ⟨by decide, by decide⟩
    · exact ⟨by decide, all_eq_true.mp (by decide)⟩
    · exact ⟨by decide, all_eq_true.mp (by decide)⟩
    · exact ⟨by decide, all_eq_true.mp (by decide)⟩
  refine ⟨⟨lowering_asciiLower, hvalid⟩, ?_⟩
  exact parseQuery_recovers_tokens lowering_asciiLower hvalid

end Yanta.SearchIndex
