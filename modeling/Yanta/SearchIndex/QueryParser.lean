import Yanta.Js.Text

/-!
# The queries of the finder

`parseQuery` of `frontend/src/search-index/queryParser.ts` cuts the quoted phrases out of a
query, one replacement each, while a global pattern goes over the query as it was; what is
left is split at white space and sorted by the operator in front of each piece.
-/

namespace Yanta.SearchIndex

open Js List

/-! ## The code -/

structure ParsedQuery where
  text : Text
  projects : List Text
  tags : List Text
  excludes : List Text
  phrases : List Text
  unsupportedOperators : List Text
deriving DecidableEq, Repr

def quote : CodeUnit := unit '"'

def stripAt (s : Text) : Text := s.dropWhile fun c => c == unit '@'

def stripHash (s : Text) : Text := s.dropWhile fun c => c == unit '#'

/-- `phraseRegex.exec` from the start of a text: the first phrase and what is behind it. -/
def execPhrase : Text → Option (Text × Text)
  | [] => none
  | c :: rest =>
    let body := rest.takeWhile fun d => d != quote
    let after := rest.dropWhile fun d => d != quote
    if c = quote ∧ body ≠ [] ∧ after ≠ [] then some (body, after.tail)
    else execPhrase rest

/-- The phrases that the loop meets. -/
def phrasesOf : Nat → Text → List Text
  | 0, _ => []
  | fuel + 1, s =>
    match execPhrase s with
    | none => []
    | some (phrase, rest) => phrase :: phrasesOf fuel rest

/-- `replace(old, "")` with a text: its first occurrence is taken out. -/
def removeFirst (old s : Text) : Text :=
  match indexOf s old with
  | none => s
  | some i => s.take i ++ s.drop (i + old.length)

def quoted (phrase : Text) : Text := quote :: (phrase ++ [quote])

/-- `split(/\s+/)`, inside a run of white space or not. -/
def splitFrom : Bool → Text → List Text
  | _, [] => [[]]
  | inside, c :: cs =>
    if isSpace c then
      if inside then splitFrom true cs else [] :: splitFrom true cs
    else consFirst c (splitFrom false cs)

/-- The lists that the loop over the tokens fills. -/
structure Collected where
  projects : List Text
  tags : List Text
  excludes : List Text
  unsupportedOperators : List Text
  words : List Text
deriving DecidableEq, Repr

/-- One round of the loop over the tokens. -/
def parseToken (toLowerCase : Text → Text) (acc : Collected) (tok : Text) : Collected :=
  let lower := toLowerCase tok
  if tok = [] then acc
  else if (text "project:").isPrefixOf lower then
    let v := stripAt (tok.drop 8)
    if v = [] then acc else { acc with projects := acc.projects ++ [toLowerCase v] }
  else if (text "tag:").isPrefixOf lower then
    let v := stripHash (tok.drop 4)
    if v = [] then acc else { acc with tags := acc.tags ++ [toLowerCase v] }
  else if (text "title:").isPrefixOf lower || (text "body:").isPrefixOf lower then
    { acc with
      unsupportedOperators := acc.unsupportedOperators ++ [tok]
      words := acc.words ++ [tok] }
  else if tok = text "AND" ∨ tok = text "OR" then
    { acc with
      unsupportedOperators := acc.unsupportedOperators ++ [tok]
      words := acc.words ++ [tok] }
  else if (text "-").isPrefixOf tok ∧ 1 < tok.length then
    { acc with excludes := acc.excludes ++ [tok.drop 1] }
  else { acc with words := acc.words ++ [tok] }

/-- The texts with single spaces between them. -/
def joinSpace (parts : List Text) : Text := [unit ' '].intercalate parts

def parseQuery (toLowerCase : Text → Text) (query : Text) : ParsedQuery :=
  let phrases := phrasesOf (query.length + 1) query
  let remaining := phrases.foldl (fun r phrase => removeFirst (quoted phrase) r) query
  let acc := (splitFrom false remaining).foldl (parseToken toLowerCase) ⟨[], [], [], [], []⟩
  { text := joinSpace acc.words
    projects := acc.projects
    tags := acc.tags
    excludes := acc.excludes
    phrases := phrases
    unsupportedOperators := acc.unsupportedOperators }

/-! ## Written tokens -/

/-- A token of a query. -/
inductive QueryToken where
  | word (w : Text)
  | phrase (p : Text)
  | excluded (w : Text)
  | project (at? : Bool) (value : Text)
  | tag (value : Text)
deriving DecidableEq, Repr

variable {u : Text} {t : QueryToken} {parts : List Text}

/-- Letters and digits of any script are among the units of a plain word. -/
def isWordUnit (c : CodeUnit) : Bool :=
  !isSpace c && c != quote && c != unit ':' && c != unit '-'

def isLowerOrDigit (c : CodeUnit) : Bool :=
  (97 ≤ c.toNat && c.toNat ≤ 122) || (48 ≤ c.toNat && c.toNat ≤ 57)

def isProjectUnit (c : CodeUnit) : Bool := isLowerOrDigit c || c == unit '-'

def isTagUnit (c : CodeUnit) : Bool := isLowerOrDigit c || c == unit '-' || c == unit '_'

def QueryToken.Valid : QueryToken → Prop
  | .word w => w ≠ [] ∧ ∀ c ∈ w, isWordUnit c = true
  | .phrase p => p ≠ [] ∧ quote ∉ p
  | .excluded w => w ≠ [] ∧ ∀ c ∈ w, isWordUnit c = true
  | .project _ value => value ≠ [] ∧ ∀ c ∈ value, isProjectUnit c = true
  | .tag value => value ≠ [] ∧ ∀ c ∈ value, isTagUnit c = true

def QueryToken.written : QueryToken → Text
  | .word w => w
  | .phrase p => quoted p
  | .excluded w => unit '-' :: w
  | .project at? value => text "project:" ++ ((if at? then [unit '@'] else []) ++ value)
  | .tag value => text "tag:" ++ value

/-- The query that the tokens make, separated by single spaces. -/
def writtenQuery (tokens : List QueryToken) : Text :=
  joinSpace (tokens.map QueryToken.written)

def QueryToken.word? : QueryToken → Option Text
  | .word w => some w
  | _ => none

def QueryToken.phrase? : QueryToken → Option Text
  | .phrase p => some p
  | _ => none

def QueryToken.excluded? : QueryToken → Option Text
  | .excluded w => some w
  | _ => none

def QueryToken.project? : QueryToken → Option Text
  | .project _ value => some value
  | _ => none

def QueryToken.tag? : QueryToken → Option Text
  | .tag value => some value
  | _ => none

/-- A word that the search page reads as an operator. -/
def QueryToken.operator? : QueryToken → Option Text
  | .word w => if w = text "AND" ∨ w = text "OR" then some w else none
  | _ => none

/-! ## Joined texts -/

/-- A space in front of each text. -/
def spaced (parts : List Text) : Text := parts.flatMap fun part => unit ' ' :: part

@[simp] theorem spaced_cons (part : Text) (parts : List Text) :
    spaced (part :: parts) = unit ' ' :: (part ++ spaced parts) := by
  simp [spaced]

theorem joinSpace_cons (part : Text) (parts : List Text) :
    joinSpace (part :: parts) = part ++ spaced parts := by
  induction parts generalizing part with
  | nil => simp [joinSpace, spaced]
  | cons next parts ih =>
    have hnext := ih next
    rw [joinSpace] at hnext ⊢
    rw [intercalate_cons_cons, hnext, append_assoc]
    rfl

/-! ## Cutting out the phrases -/

theorem execPhrase_append (hu : quote ∉ u) (s : Text) :
    execPhrase (u ++ s) = execPhrase s := by
  induction u with
  | nil => rfl
  | cons c u ih =>
    have hc : c ≠ quote := fun h => hu (by simp [h])
    have htail : quote ∉ u := fun h => hu (by simp [h])
    rw [cons_append, execPhrase, if_neg (by simp [hc]), ih htail]

theorem takeWhile_phrase {p : Text} (hp : quote ∉ p) (s : Text) :
    (p ++ quote :: s).takeWhile (fun d => d != quote) = p ∧
      (p ++ quote :: s).dropWhile (fun d => d != quote) = quote :: s := by
  induction p with
  | nil => simp
  | cons c p ih =>
    have hc : c ≠ quote := fun h => hp (by simp [h])
    have htail : quote ∉ p := fun h => hp (by simp [h])
    obtain ⟨htake, hdrop⟩ := ih htail
    simp [hc, htake, hdrop]

theorem execPhrase_quoted {p : Text} (hne : p ≠ []) (hp : quote ∉ p) (s : Text) :
    execPhrase (quoted p ++ s) = some (p, s) := by
  obtain ⟨htake, hdrop⟩ := takeWhile_phrase hp s
  have htext : quoted p ++ s = quote :: (p ++ quote :: s) := by simp [quoted]
  rw [htext, execPhrase, htake, hdrop]
  simp [hne]

/-- A phrase is taken out where it stands if no quote comes before it. -/
theorem removeFirst_quoted (hu : quote ∉ u) (p s : Text) :
    removeFirst (quoted p) (u ++ (quoted p ++ s)) = u ++ s := by
  have hindex : indexOf (u ++ (quoted p ++ s)) (quoted p) = some u.length := by
    induction u with
    | nil =>
      have hstart : (quoted p).isPrefixOf (quoted p ++ s) = true :=
        isPrefixOf_iff_prefix.mpr (prefix_append _ _)
      cases hlist : quoted p ++ s with
      | nil => simp [quoted] at hlist
      | cons c rest =>
        rw [hlist] at hstart
        simp [indexOf, List.findIdx?_cons, hstart]
    | cons c u ih =>
      have hc : c ≠ quote := fun h => hu (by simp [h])
      have htail : quote ∉ u := fun h => hu (by simp [h])
      have hnot : (quoted p).isPrefixOf (c :: (u ++ (quoted p ++ s))) = false := by
        simp [quoted, List.isPrefixOf, hc.symm]
      have hrest := ih htail
      rw [indexOf] at hrest ⊢
      rw [cons_append, tails_cons, List.findIdx?_cons, hnot, hrest]
      rfl
  rw [removeFirst, hindex]
  simp

/-- What is left of a token when the phrases are cut out. -/
def QueryToken.bare : QueryToken → Text
  | .phrase _ => []
  | t => t.written

variable {c : CodeUnit}

theorem isWordUnit_spec (h : isWordUnit c = true) :
    isSpace c = false ∧ c ≠ quote ∧ c ≠ unit ':' ∧ c ≠ unit '-' := by
  simp only [isWordUnit, Bool.and_eq_true, Bool.not_eq_true', bne_iff_ne] at h
  exact ⟨h.1.1.1, h.1.1.2, h.1.2, h.2⟩

/-- What the units of a filter's value are not, and that they are ASCII in lower case. -/
theorem isTagUnit_spec (h : isTagUnit c = true) :
    (45 ≤ c.toNat ∧ c.toNat < 128 ∧ ¬(58 ≤ c.toNat ∧ c.toNat ≤ 94)) := by
  simp only [isTagUnit, isLowerOrDigit, Bool.or_eq_true, Bool.and_eq_true,
    decide_eq_true_eq, beq_iff_eq] at h
  rcases h with ((h | h) | rfl) | rfl
  · omega
  · omega
  · decide
  · decide

theorem isTagUnit_of_isProjectUnit (h : isProjectUnit c = true) : isTagUnit c = true := by
  simp only [isProjectUnit, isTagUnit, Bool.or_eq_true] at h ⊢
  exact Or.inl h

theorem isSpace_eq_false_of_isTagUnit (h : isTagUnit c = true) : isSpace c = false := by
  have hspec := isTagUnit_spec h
  simp only [isSpace, Bool.or_eq_false_iff, Bool.and_eq_false_iff, decide_eq_false_iff_not,
    beq_eq_false_iff_ne]
  omega

theorem ne_of_isTagUnit {d : CodeUnit} (h : isTagUnit c = true)
    (hd : d.toNat < 45 ∨ (58 ≤ d.toNat ∧ d.toNat ≤ 94)) : c ≠ d := by
  rintro rfl
  have hspec := isTagUnit_spec h
  omega

/-- A token has white space only in a phrase, and quotes only around one. -/
theorem bare_spec (ht : t.Valid) : ∀ c ∈ t.bare, isSpace c = false ∧ c ≠ quote := by
  have hkey : ∀ c ∈ text "project:" ++ [unit '@'] ++ text "tag:" ++ [unit '-'],
      isSpace c = false ∧ c ≠ quote := by
    have hall : (text "project:" ++ [unit '@'] ++ text "tag:" ++ [unit '-']).all
        (fun c => !isSpace c && c != quote) = true := by decide
    intro c hc
    simpa using all_eq_true.mp hall c hc
  intro c hc
  cases t with
  | word w => exact ⟨(isWordUnit_spec (ht.2 c hc)).1, (isWordUnit_spec (ht.2 c hc)).2.1⟩
  | phrase p => exact absurd hc not_mem_nil
  | excluded w =>
    rcases mem_cons.mp hc with rfl | hc
    · exact hkey _ (by simp)
    · exact ⟨(isWordUnit_spec (ht.2 c hc)).1, (isWordUnit_spec (ht.2 c hc)).2.1⟩
  | project at? value =>
    rcases mem_append.mp hc with hc | hc
    · exact hkey c (by simp [hc])
    rcases mem_append.mp hc with hc | hc
    · split_ifs at hc
      · exact hkey c (by simp [mem_singleton.mp hc])
      · exact absurd hc not_mem_nil
    · have hunit := isTagUnit_of_isProjectUnit (ht.2 c hc)
      exact ⟨isSpace_eq_false_of_isTagUnit hunit, ne_of_isTagUnit hunit (by decide)⟩
  | tag value =>
    rcases mem_append.mp hc with hc | hc
    · exact hkey c (by simp [hc])
    · have hunit := ht.2 c hc
      exact ⟨isSpace_eq_false_of_isTagUnit hunit, ne_of_isTagUnit hunit (by decide)⟩

theorem quote_notMem_bare (ht : t.Valid) : quote ∉ t.bare :=
  fun h => (bare_spec ht quote h).2 rfl

/-- A token is a quoted phrase or has nothing to cut out. -/
theorem written_cases (t : QueryToken) :
    (∃ p, t = .phrase p) ∨ (t.phrase? = none ∧ t.written = t.bare) := by
  cases t with
  | phrase p => exact Or.inl ⟨p, rfl⟩
  | _ => exact Or.inr ⟨rfl, rfl⟩

theorem phrasesOf_append (hu : quote ∉ u) (fuel : Nat) (s : Text) :
    phrasesOf fuel (u ++ s) = phrasesOf fuel s := by
  cases fuel with
  | zero => rfl
  | succ fuel => rw [phrasesOf, phrasesOf, execPhrase_append hu]

theorem quote_notMem_space : quote ∉ [unit ' '] := by decide

theorem filterMap_cons_toList {α β : Type} (f : α → Option β) (a : α) (l : List α) :
    (a :: l).filterMap f = (f a).toList ++ l.filterMap f := by
  rw [filterMap_cons]
  cases f a <;> rfl

open QueryToken

/-- The loop meets the phrase of a token, if it is one, and goes on behind the token. -/
theorem phrasesOf_token (ht : t.Valid) {fuel : Nat} (hfuel : 0 < fuel) (s : Text) :
    ∃ fuel', fuel ≤ fuel' + 1 ∧
      phrasesOf fuel (t.written ++ s) = t.phrase?.toList ++ phrasesOf fuel' s := by
  rcases written_cases t with ⟨p, rfl⟩ | ⟨hnone, hbare⟩
  · obtain ⟨fuel', rfl⟩ : ∃ f, fuel = f + 1 := ⟨fuel - 1, by omega⟩
    refine ⟨fuel', le_rfl, ?_⟩
    rw [written, phrasesOf, execPhrase_quoted ht.1 ht.2 s]
    rfl
  · refine ⟨fuel, Nat.le_succ fuel, ?_⟩
    rw [hbare, hnone, phrasesOf_append (quote_notMem_bare ht)]
    rfl

variable {tokens : List QueryToken}

theorem phrasesOf_spaced (htokens : ∀ t ∈ tokens, t.Valid) {fuel : Nat}
    (hfuel : tokens.length < fuel) :
    phrasesOf fuel (spaced (tokens.map QueryToken.written)) =
      tokens.filterMap QueryToken.phrase? := by
  induction tokens generalizing fuel with
  | nil =>
    obtain ⟨fuel', rfl⟩ : ∃ f, fuel = f + 1 := ⟨fuel - 1, by omega⟩
    rfl
  | cons t ts ih =>
    obtain ⟨ht, hts⟩ := forall_mem_cons.mp htokens
    rw [length_cons] at hfuel
    obtain ⟨fuel', hle, htoken⟩ :=
      phrasesOf_token ht (Nat.zero_lt_of_lt hfuel) (spaced (ts.map written))
    rw [map_cons, spaced_cons, ← singleton_append,
      phrasesOf_append quote_notMem_space, htoken, ih hts (by omega), filterMap_cons_toList]

theorem length_le_spaced (parts : List Text) : parts.length ≤ (spaced parts).length := by
  induction parts with
  | nil => exact le_rfl
  | cons part parts ih =>
    rw [spaced_cons, length_cons, length_cons, length_append]
    omega

/-- The loop meets the phrases of a query in order. -/
theorem phrasesOf_writtenQuery (htokens : ∀ t ∈ tokens, t.Valid) :
    phrasesOf ((writtenQuery tokens).length + 1) (writtenQuery tokens) =
      tokens.filterMap QueryToken.phrase? := by
  cases tokens with
  | nil => rfl
  | cons t ts =>
    obtain ⟨ht, hts⟩ := forall_mem_cons.mp htokens
    have hlength := length_le_spaced (ts.map written)
    rw [length_map] at hlength
    have hquery : writtenQuery (t :: ts) =
        t.written ++ spaced (ts.map written) := joinSpace_cons _ _
    have hwritten : 0 < t.written.length := by
      cases t with
      | word w => exact length_pos_iff.mpr ht.1
      | _ => simp [written, quoted, text]
    obtain ⟨fuel', hle, htoken⟩ := phrasesOf_token ht
      (Nat.succ_pos (writtenQuery (t :: ts)).length) (spaced (ts.map written))
    rw [hquery, length_append] at hle
    rw [hquery] at htoken
    rw [hquery, htoken, phrasesOf_spaced hts (by omega), filterMap_cons_toList]

/-- The text without the phrases. -/
def cutPhrases (phrases : List Text) (s : Text) : Text :=
  phrases.foldl (fun r phrase => removeFirst (quoted phrase) r) s

theorem cutPhrases_token (t : QueryToken) (hu : quote ∉ u) (s : Text) :
    cutPhrases t.phrase?.toList (u ++ (t.written ++ s)) = u ++ (t.bare ++ s) := by
  rcases written_cases t with ⟨p, rfl⟩ | ⟨hnone, hbare⟩
  · exact removeFirst_quoted hu p s
  · rw [hnone, hbare]
    rfl

theorem cutPhrases_append (phrases more : List Text) (s : Text) :
    cutPhrases (phrases ++ more) s = cutPhrases more (cutPhrases phrases s) :=
  foldl_append

/-- The phrases are cut out from left to right, so each is the first quoted text left. -/
theorem cutPhrases_spaced (htokens : ∀ t ∈ tokens, t.Valid) (hu : quote ∉ u) :
    cutPhrases (tokens.filterMap QueryToken.phrase?)
        (u ++ spaced (tokens.map QueryToken.written)) =
      u ++ spaced (tokens.map QueryToken.bare) := by
  induction tokens generalizing u with
  | nil => rfl
  | cons t ts ih =>
    have hts := (forall_mem_cons.mp htokens).2
    have hstart : quote ∉ u ++ [unit ' '] := by
      simp only [mem_append, not_or]
      exact ⟨hu, quote_notMem_space⟩
    have hnext : quote ∉ u ++ [unit ' '] ++ t.bare := by
      simp only [mem_append, not_or]
      exact ⟨⟨hu, quote_notMem_space⟩, quote_notMem_bare (htokens t (by simp))⟩
    have htoken := cutPhrases_token t hstart (spaced (ts.map written))
    have hrest := ih hts hnext
    simp only [map_cons, spaced_cons, append_assoc, cons_append,
      nil_append] at htoken hrest ⊢
    rw [filterMap_cons_toList, cutPhrases_append, htoken, hrest]

theorem cutPhrases_writtenQuery (htokens : ∀ t ∈ tokens, t.Valid) :
    cutPhrases (tokens.filterMap QueryToken.phrase?) (writtenQuery tokens) =
      joinSpace (tokens.map QueryToken.bare) := by
  cases tokens with
  | nil => rfl
  | cons t ts =>
    have hts := (forall_mem_cons.mp htokens).2
    have htoken := cutPhrases_token t not_mem_nil (spaced (ts.map written))
    simp only [nil_append] at htoken
    rw [writtenQuery, map_cons, map_cons, joinSpace_cons, joinSpace_cons,
      filterMap_cons_toList, cutPhrases_append, htoken,
      cutPhrases_spaced hts (quote_notMem_bare (htokens t (by simp)))]

/-! ## Splitting -/

/-- The pieces that are not empty. -/
def pieces (inside : Bool) (s : Text) : List Text :=
  (splitFrom inside s).filter fun piece => piece ≠ []

theorem isSpace_space : isSpace (unit ' ') = true := by decide

theorem pieces_space (inside : Bool) (s : Text) :
    pieces inside (unit ' ' :: s) = pieces true s := by
  rw [pieces, splitFrom, if_pos isSpace_space]
  cases inside with
  | false => simp [pieces]
  | true => rfl

/-- The units of a word go to the front of the first piece behind it. -/
theorem splitFrom_word {w : Text} (hne : w ≠ []) (hw : ∀ c ∈ w, isSpace c = false)
    (inside : Bool) (s : Text) :
    splitFrom inside (w ++ s) = w.foldr consFirst (splitFrom false s) := by
  induction w generalizing inside with
  | nil => exact absurd rfl hne
  | cons c w ih =>
    obtain ⟨hc, hrest⟩ := forall_mem_cons.mp hw
    rw [cons_append, splitFrom, if_neg (by simp [hc]), foldr_cons]
    by_cases hempty : w = []
    · rw [hempty]
      rfl
    · rw [ih hempty hrest]

theorem pieces_word {w : Text} (hw : ∀ c ∈ w, isSpace c = false) (inside : Bool)
    (parts : List Text) :
    pieces inside (w ++ spaced parts) =
      [w].filter (fun part => part ≠ []) ++ pieces true (spaced parts) := by
  by_cases hempty : w = []
  · subst hempty
    cases parts with
    | nil => cases inside <;> rfl
    | cons part parts =>
      rw [spaced_cons, nil_append, pieces_space]
      rfl
  · rw [pieces, splitFrom_word hempty hw]
    cases parts with
    | nil =>
      have hnil : splitFrom false (spaced []) = [[]] := rfl
      have hpieces : pieces true (spaced []) = [] := rfl
      rw [hnil, hpieces, foldr_consFirst]
      simp
    | cons part parts =>
      rw [spaced_cons, pieces_space, splitFrom, if_pos isSpace_space,
        if_neg Bool.false_ne_true, foldr_consFirst]
      simp [hempty, pieces]

theorem pieces_spaced (hparts : ∀ part ∈ parts, ∀ c ∈ part, isSpace c = false) :
    pieces true (spaced parts) = parts.filter fun part => part ≠ [] := by
  induction parts with
  | nil => rfl
  | cons part parts ih =>
    obtain ⟨hpart, hrest⟩ := forall_mem_cons.mp hparts
    rw [spaced_cons, pieces_space, pieces_word hpart, ih hrest, ← filter_append]
    rfl

theorem pieces_joinSpace (hparts : ∀ part ∈ parts, ∀ c ∈ part, isSpace c = false) :
    pieces false (joinSpace parts) = parts.filter fun part => part ≠ [] := by
  cases parts with
  | nil => rfl
  | cons part parts =>
    obtain ⟨hpart, hrest⟩ := forall_mem_cons.mp hparts
    rw [joinSpace_cons, pieces_word hpart, pieces_spaced hrest, ← filter_append]
    rfl

end Yanta.SearchIndex
