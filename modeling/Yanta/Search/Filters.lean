import Yanta.Search.Lexing
import Yanta.Vault.Tree

/-!
# Filters on projects and tags

A query that starts with a project or tag filter gives back the name in the filter unless
the name has a hyphen: a hyphen is a token of its own, so the filter ends in front of it
and what follows is a negated term.
-/

namespace Yanta.Search

open Go Vault Yanta.Document Yanta.Search.Filter List Option Query Regexp

variable {c : Char} {w s : List Char}

/-! ## Words behind a filter -/

/-- Further words, each with at least one space in front of it. -/
def furtherText (words : List (Nat × List Char)) : List Char :=
  words.flatMap fun entry => List.replicate (entry.1 + 1) ' ' ++ entry.2

section

variable {words : List (Nat × List Char)}

theorem furtherText_cons (entry : Nat × List Char) (words : List (Nat × List Char)) :
    furtherText (entry :: words) =
      List.replicate (entry.1 + 1) ' ' ++ (entry.2 ++ furtherText words) := by
  simp [furtherText]

theorem endsWord_furtherText (words : List (Nat × List Char)) :
    EndsWord (furtherText words) := by
  cases words with
  | nil => simp [EndsWord, furtherText]
  | cons entry words =>
    intro c hc
    rw [furtherText_cons, replicate_succ] at hc
    obtain rfl : ' ' = c := by simpa using hc
    rfl

theorem tokens_furtherText (h : ∀ entry ∈ words, PlainWord entry.2) :
    tokens (furtherText words) = some (words.map fun entry => ⟨.ident, entry.2⟩) := by
  induction words with
  | nil => rfl
  | cons entry words ih =>
    have hentry := h entry mem_cons_self
    have hstart : ∀ c ∈ (entry.2 ++ furtherText words).head?, space c = false := by
      obtain ⟨x, u, hx⟩ := exists_cons_of_ne_nil hentry.ne_nil
      intro c hc
      rw [hx, cons_append, List.head?_cons, mem_some_iff] at hc
      have hident := hentry.chars x (by simp [hx])
      rw [← hc]
      by_contra hspace
      simp [identChar, hspace] at hident
    rw [furtherText_cons, tokens_spaces hstart,
      tokens_word hentry (endsWord_furtherText words), ih (forall_mem_cons.mp h).2]
    rfl

/-- The items of further words. -/
def wordItems (words : List (Nat × List Char)) : List Item :=
  words.map fun entry => .term ⟨false, .word (String.ofList entry.2)⟩

theorem PlainWord.value_ne (h : PlainWord w) :
    w ≠ ['-'] ∧ w ≠ [':'] ∧ w ≠ ['O', 'R'] ∧ w ≠ ['A', 'N', 'D'] := by
  refine ⟨?_, ?_, ?_, ?_⟩
  · rintro rfl
    exact absurd (h.chars '-' mem_cons_self) (by decide)
  · rintro rfl
    exact absurd (h.chars ':' mem_cons_self) (by decide)
  · rintro rfl
    exact absurd h.not_or (by decide)
  · rintro rfl
    exact absurd h.not_and (by decide)

theorem parseItem_word {ts : List Token} (hw : PlainWord w)
    (hts : ∀ t ∈ ts.head?, t.value ≠ [':']) :
    parseItem (⟨.ident, w⟩ :: ts) = some (.term ⟨false, .word (String.ofList w)⟩, ts) := by
  have hfilter : parseFilter (⟨.ident, w⟩ :: ts) = none := by
    cases ts with
    | nil => rfl
    | cons t ts =>
      refine if_neg ?_
      rintro ⟨-, hcolon⟩
      exact hts t rfl hcolon
  rw [parseItem, hfilter]
  simp [parseTerm, hw.value_ne.1, parseTermText]

theorem parseItems_words (h : ∀ entry ∈ words, PlainWord entry.2) {fuel : Nat}
    (hfuel : words.length ≤ fuel) :
    parseItems fuel (words.map fun entry => ⟨.ident, entry.2⟩) = (wordItems words, []) := by
  induction words generalizing fuel with
  | nil => cases fuel <;> rfl
  | cons entry words ih =>
    cases fuel with
    | zero => simp at hfuel
    | succ fuel =>
      obtain ⟨hentry, hrest⟩ := forall_mem_cons.mp h
      have hcolon : ∀ t ∈ (words.map fun e => (⟨.ident, e.2⟩ : Token)).head?,
          t.value ≠ [':'] := by
        intro t ht
        obtain ⟨e, he, rfl⟩ := mem_map.mp (mem_of_mem_head? ht)
        exact (hrest e he).value_ne.2.1
      have htail := ih hrest (Nat.le_of_succ_le_succ hfuel)
      rw [map_cons, parseItems, if_neg hentry.value_ne.2.2.2,
        parseItem_word hentry hcolon]
      simp only [htail]
      rfl

end

/-! ## Tokens without a colon -/

section

/-- No token is a colon. -/
def NoColon (ts : List Token) : Prop := ∀ t ∈ ts, t.value ≠ [':']

variable {ts : List Token}

theorem parseFilter_noColon (h : NoColon ts) : parseFilter ts = none := by
  cases ts with
  | nil => rfl
  | cons key ts =>
    cases ts with
    | nil => rfl
    | cons colon ts =>
      refine if_neg ?_
      rintro ⟨-, hcolon⟩
      exact h colon (by simp) hcolon

theorem parseTerm_suffix {r : Term × List Token} (h : parseTerm ts = some r) :
    r.2 <:+ ts := by
  have htext : ∀ {ts : List Token} {r : TermText × List Token},
      parseTermText ts = some r → r.2 <:+ ts := by
    intro ts r h
    cases ts with
    | nil => simp [parseTermText] at h
    | cons t ts =>
      cases htype : t.type <;> simp only [parseTermText, htype] at h
      · obtain rfl := Option.some.inj h
        exact suffix_cons t ts
      · simp at h
      · simp at h
      · obtain rfl := Option.some.inj h
        exact suffix_cons t ts
      · simp at h
  cases ts with
  | nil => simp [parseTerm] at h
  | cons t ts =>
    rw [parseTerm] at h
    split_ifs at h
    · obtain ⟨r', hr, rfl⟩ := map_eq_some_iff.mp h
      exact (htext hr).trans (suffix_cons t ts)
    · obtain ⟨r', hr, rfl⟩ := map_eq_some_iff.mp h
      exact htext hr

theorem parseItem_noColon {r : Item × List Token} (h : NoColon ts)
    (hitem : parseItem ts = some r) : r.1.filter? = none ∧ NoColon r.2 := by
  rw [parseItem, parseFilter_noColon h] at hitem
  obtain ⟨r, hr, rfl⟩ := map_eq_some_iff.mp hitem
  exact ⟨rfl, fun t ht => h t ((parseTerm_suffix hr).subset ht)⟩

theorem NoColon.tail {t : Token} (h : NoColon (t :: ts)) : NoColon ts :=
  (forall_mem_cons.mp h).2

theorem parseItems_noColon (h : NoColon ts) (fuel : Nat) :
    (parseItems fuel ts).1.filterMap Item.filter? = [] ∧ NoColon (parseItems fuel ts).2 := by
  induction fuel generalizing ts with
  | zero => cases ts <;> exact ⟨rfl, h⟩
  | succ fuel ih =>
    cases ts with
    | nil => exact ⟨rfl, h⟩
    | cons t ts =>
      have hnext : NoColon (if t.value = ['A', 'N', 'D'] then ts else t :: ts) := by
        split_ifs
        · exact h.tail
        · exact h
      rw [parseItems]
      cases hitem : parseItem (if t.value = ['A', 'N', 'D'] then ts else t :: ts) with
      | none => exact ⟨rfl, h⟩
      | some r =>
        obtain ⟨hnone, hrest⟩ := parseItem_noColon hnext hitem
        obtain ⟨hmore, hend⟩ := ih hrest
        refine ⟨?_, hend⟩
        rw [filterMap_cons_none hnone]
        exact hmore

theorem parseAnd_noColon {r : List Item × List Token} (h : NoColon ts)
    (hand : parseAnd ts = some r) :
    r.1.filterMap Item.filter? = [] ∧ NoColon r.2 := by
  obtain ⟨r, hr, rfl⟩ := map_eq_some_iff.mp hand
  obtain ⟨hnone, hrest⟩ := parseItem_noColon h hr
  obtain ⟨hmore, hend⟩ := parseItems_noColon hrest r.2.length
  rw [filterMap_cons_none hnone]
  exact ⟨hmore, hend⟩

theorem parseBranches_noColon (h : NoColon ts) (fuel : Nat) :
    (parseBranches fuel ts).1.flatten.filterMap Item.filter? = [] := by
  induction fuel generalizing ts with
  | zero => cases ts <;> rfl
  | succ fuel ih =>
    cases ts with
    | nil => rfl
    | cons t ts =>
      rw [parseBranches]
      split_ifs
      · cases hand : parseAnd ts with
        | none => rfl
        | some r =>
          obtain ⟨hnone, hrest⟩ := parseAnd_noColon h.tail hand
          rw [flatten_cons, filterMap_append, hnone, ih hrest]
          rfl
      · rfl

theorem nextToken_noColon {r : Option Token × List Char} (hs : ∀ c ∈ s, c ≠ ':' ∧ c ≠ '"')
    (h : nextToken s = some r) :
    NoColon r.1.toList ∧ ∀ c ∈ r.2, c ≠ ':' ∧ c ≠ '"' := by
  have hsingle : ∀ {k v}, v ≠ [':'] → NoColon (some (⟨k, v⟩ : Token)).toList := by
    intro k v hv t ht
    obtain rfl : t = ⟨k, v⟩ := by simpa using ht
    exact hv
  cases s with
  | nil => simp [nextToken] at h
  | cons c s =>
    obtain ⟨hc, htail⟩ := forall_mem_cons.mp hs
    rw [nextToken, if_neg hc.2] at h
    split_ifs at h with hor hand hident hpunct <;> obtain rfl := Option.some.inj h
    · exact ⟨hsingle (by decide), fun x hx => htail x (mem_of_mem_drop hx)⟩
    · exact ⟨hsingle (by decide), fun x hx => htail x (mem_of_mem_drop hx)⟩
    · refine ⟨hsingle ?_, fun x hx => hs x ((dropWhile_sublist _).subset hx)⟩
      rw [takeWhile_cons_of_pos hident]
      intro hcolon
      exact hc.1 (List.cons.inj hcolon).1
    · refine ⟨hsingle ?_, htail⟩
      intro hcolon
      exact hc.1 (List.cons.inj hcolon).1
    · refine ⟨fun t ht => ?_, fun x hx => hs x ((dropWhile_sublist _).subset hx)⟩
      simp at ht

theorem tokensFrom_noColon {fuel : Nat} (hs : ∀ c ∈ s, c ≠ ':' ∧ c ≠ '"')
    (h : tokensFrom fuel s = some ts) : NoColon ts := by
  induction fuel generalizing s ts with
  | zero =>
    cases s with
    | nil =>
      obtain rfl := Option.some.inj h
      exact fun t ht => absurd ht not_mem_nil
    | cons c s => simp [tokensFrom] at h
  | succ fuel ih =>
    cases s with
    | nil =>
      obtain rfl := Option.some.inj h
      exact fun t ht => absurd ht not_mem_nil
    | cons c s =>
      obtain ⟨r, hr, hmap⟩ := bind_eq_some_iff.mp h
      obtain ⟨us, hus, rfl⟩ := map_eq_some_iff.mp hmap
      obtain ⟨hfirst, hrest⟩ := nextToken_noColon hs hr
      intro t ht
      rcases mem_append.mp ht with hin | hin
      · exact hfirst t hin
      · exact ih hrest hus t hin

end

/-! ## A filter in front of words -/

/-- The characters of aliases and tags. -/
structure FilterName (name : List Char) : Prop where
  ne_nil : name ≠ []
  chars : ∀ c ∈ name, (c = '-' ∨ identChar c = true) ∧ c ≠ 'O' ∧ c ≠ 'A'

theorem PlainWord.of_chars (hne : w ≠ [])
    (h : ∀ c ∈ w, identChar c = true ∧ c ≠ 'O' ∧ c ≠ 'A') : PlainWord w := by
  obtain ⟨c, u, rfl⟩ := exists_cons_of_ne_nil hne
  obtain ⟨-, hO, hA⟩ := h c mem_cons_self
  have hkeyword : ∀ {x k}, x ≠ c → startsWithKeyword (x :: k) (c :: u) = false := by
    intro x k hx
    simp [startsWithKeyword, List.isPrefixOf, beq_false_of_ne hx]
  exact ⟨hne, fun x hx => (h x hx).1, hkeyword (Ne.symm hO), hkeyword (Ne.symm hA)⟩

section

variable {key name : List Char} {words : List (Nat × List Char)}

/-- The query of a filter and further words. -/
def filterLine (key name : List Char) (words : List (Nat × List Char)) : String :=
  String.ofList (key ++ ':' :: (name ++ furtherText words))

theorem endsWord_cons (hc : identChar c = false) : EndsWord (c :: s) := by
  intro x hx
  obtain rfl : c = x := by simpa using hx
  exact hc

theorem tokens_filterLine (hkey : PlainWord key) (name : List Char)
    (words : List (Nat × List Char)) :
    tokens (filterLine key name words).toList =
      (tokens (name ++ furtherText words)).map fun ts =>
        ⟨.ident, key⟩ :: ⟨.punct, [':']⟩ :: ts := by
  rw [filterLine, String.toList_ofList, tokens_word hkey (endsWord_cons rfl),
    tokens_punct (.inl rfl), Option.map_map]
  rfl

theorem parse_filterLine (hkey : PlainWord key) (hname : PlainWord name)
    (hwords : ∀ entry ∈ words, PlainWord entry.2) :
    parse (filterLine key name words) =
      some ⟨some [.filter ⟨String.ofList key, some (String.ofList name)⟩ ::
        wordItems words]⟩ := by
  rw [parse, tokens_filterLine hkey, tokens_word hname (endsWord_furtherText words),
    tokens_furtherText hwords]
  have hitems := parseItems_words hwords (Nat.le_refl words.length)
  simp [parseTokens, parseAnd, parseItem, parseFilter, hitems, parseBranches]

/-- A filter ends in front of the first hyphen of its name. -/
theorem filters_filterLine (hkey : PlainWord key) (hname : FilterName name)
    (hhyphen : '-' ∈ name) (hwords : ∀ entry ∈ words, PlainWord entry.2) {q : Query}
    (hq : parse (filterLine key name words) = some q) :
    ∃ value, q.items.filterMap Item.filter? = [⟨String.ofList key, value⟩] ∧
      ∀ v ∈ value, v.toList <+: name ∧ '-' ∉ v.toList := by
  obtain ⟨seg, more, rfl, hseg⟩ := eq_append_cons_of_mem hhyphen
  have hsegChars : ∀ c ∈ seg, identChar c = true ∧ c ≠ 'O' ∧ c ≠ 'A' := by
    intro c hc
    obtain ⟨hor, hupper⟩ := hname.chars c (mem_append_left _ hc)
    exact ⟨hor.resolve_left fun h => hseg (h ▸ hc), hupper⟩
  have hbehind : ∀ c ∈ more ++ furtherText words, c ≠ ':' ∧ c ≠ '"' := by
    have hident : ∀ c, c = '-' ∨ identChar c = true → c ≠ ':' ∧ c ≠ '"' := by
      rintro c (rfl | hc)
      · decide
      · constructor <;> rintro rfl <;> exact absurd hc (by decide)
    intro c hc
    rcases mem_append.mp hc with hin | hin
    · exact hident c (hname.chars c (by simp [hin])).1
    · obtain ⟨entry, hentry, hin⟩ := mem_flatMap.mp hin
      rcases mem_append.mp hin with hin | hin
      · rw [eq_of_mem_replicate hin]
        decide
      · exact hident c (.inr ((hwords entry hentry).chars c hin))
  rw [parse, tokens_filterLine hkey] at hq
  obtain ⟨ts, hts, hparse⟩ := bind_eq_some_iff.mp hq
  obtain ⟨us, hus, rfl⟩ := map_eq_some_iff.mp hts
  -- The tokens behind the hyphen have no colon, so nothing there is a filter.
  obtain ⟨value, vs, hitem, hvs, hvalue⟩ : ∃ value vs,
      parseItem (⟨.ident, key⟩ :: ⟨.punct, [':']⟩ :: us) =
        some (.filter ⟨String.ofList key, value⟩, vs) ∧ NoColon vs ∧
        ∀ v ∈ value, v.toList <+: seg ++ '-' :: more ∧ '-' ∉ v.toList := by
    have hpunct : ∀ {vs}, tokens (more ++ furtherText words) = some vs →
        NoColon (⟨.punct, ['-']⟩ :: vs) := by
      intro vs hvs t ht
      rcases mem_cons.mp ht with rfl | hin
      · decide
      · exact tokensFrom_noColon hbehind hvs t hin
    rw [append_assoc, cons_append] at hus
    by_cases hnil : seg = []
    · rw [hnil] at hus
      obtain ⟨vs, hvs, rfl⟩ := map_eq_some_iff.mp hus
      exact ⟨none, _, rfl, hpunct hvs, by simp⟩
    · rw [tokens_word (PlainWord.of_chars hnil hsegChars) (endsWord_cons rfl),
        tokens_punct (.inr rfl), Option.map_map] at hus
      obtain ⟨vs, hvs, rfl⟩ := Option.map_eq_some_iff.mp hus
      refine ⟨some (String.ofList seg), _, rfl, hpunct hvs, ?_⟩
      intro v hv
      rw [← mem_some_iff.mp hv, String.toList_ofList]
      exact ⟨prefix_append _ _, hseg⟩
  refine ⟨value, ?_, hvalue⟩
  rw [parseTokens, parseAnd, hitem] at hparse
  simp only [map_some, bind_some] at hparse
  split_ifs at hparse
  obtain rfl := Option.some.inj hparse
  obtain ⟨hnone, hrest⟩ := parseItems_noColon hvs vs.length
  have hbranches := parseBranches_noColon hrest (parseItems vs.length vs).2.length
  simp only [items, getD_some, flatten_cons, filterMap_append,
    hbranches, append_nil]
  have hfilter : Item.filter? (.filter ⟨String.ofList key, value⟩) =
      some ⟨String.ofList key, value⟩ := rfl
  rw [filterMap_cons_some hfilter, hnone]

end

/-! ## Aliases and tags -/

/-- `tag.Validate`. -/
def validateTagName (fold : CaseFold) (name : String) : Except String Unit :=
  if len name < 1 || 64 < len name then
    .error ("tag name must be 1-64 characters, got " ++ decimal (len name))
  else if name ≠ toLower fold.lower name then .error "tag name must be lowercase"
  else if name.toList = [] || !name.toList.all isTagChar then
    .error ("tag name must contain only lowercase letters, numbers, underscores, " ++
      "and hyphens")
  else .ok ()

theorem validateTagName_ok {fold : CaseFold} {name : String}
    (h : validateTagName fold name = .ok ()) :
    toLower fold.lower name = name ∧ name.toList ≠ [] ∧
      ∀ c ∈ name.toList, isTagChar c = true := by
  unfold validateTagName at h
  split_ifs at h with hlen hlower hchars
  simp only [Bool.or_eq_true, decide_eq_true_eq, not_or, Bool.not_eq_true',
    Bool.not_eq_false] at hchars
  exact ⟨(not_not.mp hlower).symm, hchars.1, all_eq_true.mp hchars.2⟩

theorem filterChar_of_isTagChar (h : isTagChar c = true) :
    (c = '-' ∨ identChar c = true) ∧ c ≠ 'O' ∧ c ≠ 'A' := by
  refine ⟨?_, ?_, ?_⟩
  · by_contra hnot
    have hident : identChar c = false := by simpa using (not_or.mp hnot).2
    have hne : c ≠ '-' := (not_or.mp hnot).1
    have hcases : c = '\t' ∨ c = '\n' ∨ c = '\x0c' ∨ c = '\r' ∨ c = ' ' ∨ c = ':' ∨
        c = '"' := by
      by_contra hother
      simp only [not_or] at hother
      simp [identChar, space, hother, hne] at hident
    rcases hcases with rfl | rfl | rfl | rfl | rfl | rfl | rfl <;> exact absurd h (by decide)
  · rintro rfl
    exact absurd h (by decide)
  · rintro rfl
    exact absurd h (by decide)

theorem isTagChar_of_isAliasChar (h : isAliasChar c = true) : isTagChar c = true := by
  simp only [isAliasChar, isTagChar, Bool.or_eq_true] at h ⊢
  rcases h with (h | h) | h
  · exact .inl (.inl (.inl h))
  · exact .inl (.inl (.inr h))
  · exact .inr h

theorem filterName_alias {projectAlias : String} (h : validateAlias projectAlias = .ok ()) :
    FilterName projectAlias.toList := by
  obtain ⟨content, hlist, -, hchars⟩ := validateAlias_chars h
  rw [hlist]
  refine ⟨cons_ne_nil _ _, ?_⟩
  intro c hc
  rcases mem_cons.mp hc with rfl | hin
  · decide
  · exact filterChar_of_isTagChar (isTagChar_of_isAliasChar (hchars c hin))

theorem FilterName.plainWord {name : List Char} (h : FilterName name) (hhyphen : '-' ∉ name) :
    PlainWord name := by
  apply PlainWord.of_chars h.ne_nil
  intro c hc
  obtain ⟨hor, hupper⟩ := h.chars c hc
  exact ⟨hor.resolve_left fun heq => hhyphen (heq ▸ hc), hupper⟩

/-- The query with this filter in front gives back the filters, and its terms are the
further words. -/
def GivesBack (fold : CaseFold) (key name : String) (words : List (Nat × List Char))
    (filters : List String × List String) : Prop :=
  ∃ q, parse (filterLine key.toList name.toList words) = some q ∧
    q.extractFilters fold = filters ∧
    q.terms = words.map fun entry => ⟨false, .word (String.ofList entry.2)⟩

theorem terms_wordItems (words : List (Nat × List Char)) :
    (wordItems words).filterMap Item.filter? = [] ∧
      (wordItems words).filterMap Item.term? =
        words.map fun entry => ⟨false, .word (String.ofList entry.2)⟩ := by
  induction words with
  | nil => exact ⟨rfl, rfl⟩
  | cons entry words ih =>
    rw [wordItems, map_cons, ← wordItems]
    constructor
    · rw [filterMap_cons_none rfl, ih.1]
    · simp only [filterMap_cons, Item.term?, ih.2, map_cons]

section

variable {fold : CaseFold} {key name : String} {words : List (Nat × List Char)}

theorem givesBack_of_plain (hkey : PlainWord key.toList) (hname : PlainWord name.toList)
    (hwords : ∀ entry ∈ words, PlainWord entry.2) :
    GivesBack fold key name words
      ((project fold ⟨key, some name⟩).toList,
        (tag fold ⟨key, some name⟩).toList) := by
  refine ⟨_, parse_filterLine hkey hname hwords, ?_, ?_⟩
  · obtain ⟨hnone, -⟩ := terms_wordItems words
    simp only [extractFilters, items, getD_some, flatten_cons,
      flatten_nil, append_nil, String.ofList_toList]
    simp only [filterMap_cons, Item.filter?, hnone]
    cases project fold ⟨key, some name⟩ <;> cases tag fold ⟨key, some name⟩ <;>
      rfl
  · obtain ⟨-, hterms⟩ := terms_wordItems words
    simp only [terms, items, getD_some, flatten_cons,
      flatten_nil, append_nil]
    rw [filterMap_cons_none rfl, hterms]

/-- With a hyphen in the name, what a filter gives has none. -/
theorem filters_of_hyphen (hkey : PlainWord key.toList) (hname : FilterName name.toList)
    (hhyphen : '-' ∈ name.toList) (hwords : ∀ entry ∈ words, PlainWord entry.2)
    {filters : List String × List String} (h : GivesBack fold key name words filters) :
    ∃ value, filters = ((project fold ⟨key, value⟩).toList,
      (tag fold ⟨key, value⟩).toList) ∧
        ∀ v ∈ value, v.toList <+: name.toList ∧ '-' ∉ v.toList := by
  obtain ⟨q, hq, rfl, -⟩ := h
  obtain ⟨value, hfilters, hvalue⟩ := filters_filterLine hkey hname hhyphen hwords hq
  refine ⟨value, ?_, hvalue⟩
  rw [String.ofList_toList] at hfilters
  simp only [extractFilters, hfilters, filterMap_cons]
  cases project fold ⟨key, value⟩ <;> cases tag fold ⟨key, value⟩ <;> rfl

end

theorem plainWord_key : PlainWord "project".toList ∧ PlainWord "tag".toList := by
  constructor
  · exact ⟨by decide, by simp [identChar, space], by decide, by decide⟩
  · exact ⟨by decide, by simp [identChar, space], by decide, by decide⟩

theorem toLower_key (fold : CaseFold) :
    toLower fold.lower "project" = "project" ∧ toLower fold.lower "tag" = "tag" := by
  constructor
  · simp [toLower, fold.ascii]
  · simp [toLower, fold.ascii]

section

variable {fold : CaseFold} {key : String} {value : Option String}

theorem value_of_project {p : String} (h : project fold ⟨key, value⟩ = some p) :
    value = some p := by
  cases value with
  | none => simp [project] at h
  | some v =>
    simp only [project] at h
    split_ifs at h
    exact h

theorem value_of_tag {t : String} (h : tag fold ⟨key, value⟩ = some t) :
    ∃ v, value = some v ∧ t = toLower fold.lower (trimPrefix v "#") := by
  cases value with
  | none => simp [tag] at h
  | some v =>
    simp only [tag] at h
    split_ifs at h
    exact ⟨v, rfl, (Option.some.inj h).symm⟩

theorem project_key {name : String} (hne : name ≠ "") :
    project fold ⟨"project", some name⟩ = some name ∧
      tag fold ⟨"project", some name⟩ = none := by
  simp [project, tag, (toLower_key fold).1, hne]

theorem tag_key {name : String} (hne : name ≠ "") :
    project fold ⟨"tag", some name⟩ = none ∧
      tag fold ⟨"tag", some name⟩ =
        some (toLower fold.lower (trimPrefix name "#")) := by
  simp [project, tag, (toLower_key fold).2, hne]

end

theorem project_givesBack_iff {fold : CaseFold} {projectAlias : String}
    {words : List (Nat × List Char)} (halias : validateAlias projectAlias = .ok ())
    (hwords : ∀ entry ∈ words, PlainWord entry.2) :
    GivesBack fold "project" projectAlias words ([projectAlias], []) ↔
      '-' ∉ projectAlias.toList := by
  have hname := filterName_alias halias
  constructor
  · intro h hhyphen
    obtain ⟨value, hfilters, hvalue⟩ :=
      filters_of_hyphen plainWord_key.1 hname hhyphen hwords h
    have hsome := value_of_project (toList_eq_singleton_iff.mp (Prod.mk.inj hfilters).1.symm)
    exact (hvalue projectAlias hsome).2 hhyphen
  · intro hhyphen
    have hne : projectAlias ≠ "" := by
      rintro rfl
      exact hname.ne_nil rfl
    have hback : GivesBack fold "project" projectAlias words _ :=
      givesBack_of_plain plainWord_key.1 (hname.plainWord hhyphen) hwords
    rw [(project_key hne).1, (project_key hne).2] at hback
    exact hback

theorem toNat_of_isTagChar (h : isTagChar c = true) :
    c.toNat < 128 ∧ ¬(65 ≤ c.toNat ∧ c.toNat ≤ 90) := by
  simp only [isTagChar, Bool.or_eq_true, Bool.and_eq_true, decide_eq_true_eq,
    beq_iff_eq] at h
  rcases h with ((⟨hlow, hhigh⟩ | ⟨hlow, hhigh⟩) | rfl) | rfl
  · have hlow' : 97 ≤ c.toNat := hlow
    have hhigh' : c.toNat ≤ 122 := hhigh
    omega
  · have hhigh' : c.toNat ≤ 57 := hhigh
    omega
  · decide
  · decide

/-- Text of tag characters is the tag that a filter names with it. -/
theorem tag_text (fold : CaseFold) {v : String} (h : ∀ c ∈ v.toList, isTagChar c = true) :
    toLower fold.lower (trimPrefix v "#") = v := by
  have hhash : hasPrefix v "#" = false := by
    rw [hasPrefix, Bool.eq_false_iff, Ne, isPrefixOf_iff_prefix]
    intro hpre
    exact absurd (h '#' (hpre.subset (by decide))) (by decide)
  have hmap : v.toList.map fold.lower = v.toList := by
    conv_rhs => rw [← map_id v.toList]
    apply map_congr_left
    intro c hc
    obtain ⟨hascii, hupper⟩ := toNat_of_isTagChar (h c hc)
    rw [fold.ascii c hascii, if_neg hupper, id]
  rw [trimPrefix, hhash, if_neg Bool.false_ne_true, toLower, hmap, String.ofList_toList]

theorem tag_givesBack_iff {fold : CaseFold} {tag : String} {words : List (Nat × List Char)}
    (htag : validateTagName fold tag = .ok ()) (hwords : ∀ entry ∈ words, PlainWord entry.2) :
    GivesBack fold "tag" tag words ([], [tag]) ↔ '-' ∉ tag.toList := by
  obtain ⟨-, hne, hchars⟩ := validateTagName_ok htag
  have hname : FilterName tag.toList :=
    ⟨hne, fun c hc => filterChar_of_isTagChar (hchars c hc)⟩
  constructor
  · intro h hhyphen
    obtain ⟨value, hfilters, hvalue⟩ :=
      filters_of_hyphen plainWord_key.2 hname hhyphen hwords h
    obtain ⟨v, hv, hsame⟩ := value_of_tag
      (toList_eq_singleton_iff.mp (Prod.mk.inj hfilters).2.symm)
    obtain ⟨hpre, hnone⟩ := hvalue v hv
    rw [tag_text fold fun c hc => hchars c (hpre.subset hc)] at hsame
    exact hnone (hsame ▸ hhyphen)
  · intro hhyphen
    have hempty : tag ≠ "" := by
      rintro rfl
      exact hne rfl
    have hback : GivesBack fold "tag" tag words _ :=
      givesBack_of_plain plainWord_key.2 (hname.plainWord hhyphen) hwords
    rw [(tag_key hempty).1, (tag_key hempty).2, tag_text fold hchars] at hback
    exact hback

/-- A query that starts with a project or tag filter gives back the project or tag, with
the further words as its terms, if and only if the name has no hyphen. -/
theorem filters_reach_names_iff (fold : CaseFold) (words : List (Nat × List Char))
    (hwords : ∀ entry ∈ words, PlainWord entry.2) (projectAlias tag : String)
    (halias : validateAlias projectAlias = .ok ())
    (htag : validateTagName fold tag = .ok ()) :
    (GivesBack fold "project" projectAlias words ([projectAlias], []) ↔
      '-' ∉ projectAlias.toList) ∧
    (GivesBack fold "tag" tag words ([], [tag]) ↔ '-' ∉ tag.toList) :=
  ⟨project_givesBack_iff halias hwords, tag_givesBack_iff htag hwords⟩

theorem filters_reach_names_iff_sample :
    GivesBack asciiFold "project" "@notes" [(0, ['x', 'y'])] (["@notes"], []) ∧
      GivesBack asciiFold "tag" "to_do" [(0, ['x', 'y'])] ([], ["to_do"]) := by
  have hboth := filters_reach_names_iff asciiFold [(0, ['x', 'y'])]
    (forall_mem_singleton.mpr ⟨by decide, by simp [identChar, space], by decide,
      by decide⟩) "@notes" "to_do" (by decide +kernel) (by decide +kernel)
  exact ⟨hboth.1.mpr (by decide), hboth.2.mpr (by decide)⟩

/-- The alias `@my-notes` is valid, and the filter on it asks for `@my` without `notes`. -/
theorem hyphenated_filter_cut :
    validateAlias "@my-notes" = .ok () ∧
      (parse "project:@my-notes").map (fun q => (q.extractFilters asciiFold, q.terms)) =
        some ((["@my"], []), [⟨true, .word "notes"⟩]) := by
  decide +kernel

end Yanta.Search
