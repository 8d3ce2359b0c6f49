import Yanta.SearchIndex.Html

/-!
# The text that a snippet shows

A snippet shows its excerpt, with occurrences of the terms highlighted, exactly when each
match of the escaped terms is the escaped text of a part of the excerpt. Any other match
begins or ends inside an entity, and the tags around it keep that entity from being read.
-/

namespace Yanta.SearchIndex

open Js List Item

variable {item : Item} {us : Text}

/-! ## Counting what is shown -/

/-- The units of the items without the tags. -/
def unitsOf (items : List Item) : Text := items.filterMap Item.unit?

theorem unitsOf_append (items more : List Item) :
    unitsOf (items ++ more) = unitsOf items ++ unitsOf more :=
  filterMap_append

theorem unitsOf_units (u : Text) : unitsOf (u.map .unit) = u := by
  rw [unitsOf, filterMap_map]
  exact filterMap_some

theorem unitsOf_tag (htag : item.unit? = none) (items : List Item) :
    unitsOf (item :: items) = unitsOf items :=
  filterMap_cons_none htag

/-- The units in front of the first tag. -/
theorem exists_units (items : List Item) :
    ∃ (us : Text) (rest : List Item), items = us.map .unit ++ rest ∧
      (rest = [] ∨ ∃ item rest', rest = item :: rest' ∧ item.unit? = none) := by
  induction items with
  | nil => exact ⟨[], [], rfl, Or.inl rfl⟩
  | cons item items ih =>
    cases hunit : item.unit? with
    | none => exact ⟨[], item :: items, rfl, Or.inr ⟨item, items, rfl, hunit⟩⟩
    | some c =>
      obtain ⟨us, rest, rfl, hrest⟩ := ih
      refine ⟨c :: us, rest, ?_, hrest⟩
      cases item with
      | unit d => simpa [unit?] using hunit
      | openTag | closeTag => simp [unit?] at hunit

variable {body : Text} {items : List Item}

section

variable (rest : Text)

/-- The number of characters that are shown behind the items. -/
def shownBehind : Nat := (shownText (readHtml rest)).length

/-- Literal units are all shown, if what follows them is. -/
theorem literals_shown {n : Nat}
    (ih : ∀ items : List Item, items.length ≤ n → unitsOf items = escapeHtml body →
      body.length + shownBehind rest ≤ (shownItems items rest).length)
    (hn : items.length ≤ n) (hus : ∀ c ∈ us, Literal c)
    (hunits : unitsOf items = us ++ escapeHtml body) :
    us.length + body.length + shownBehind rest ≤ (shownItems items rest).length := by
  induction items generalizing us with
  | nil =>
    have hnil : us = [] ∧ escapeHtml body = [] := append_eq_nil_iff.mp hunits.symm
    have hbody := ih [] hn hnil.2.symm
    rw [hnil.1, length_nil]
    omega
  | cons item items ihitems =>
    have hlength : items.length ≤ n := Nat.le_of_succ_le hn
    cases hunit : item.unit? with
    | none =>
      rw [unitsOf_tag hunit] at hunits
      rw [(shownItems_tag hunit items rest).1]
      exact ihitems hlength hus hunits
    | some c =>
      cases us with
      | nil =>
        have hbody := ih (item :: items) hn hunits
        rw [length_nil]
        omega
      | cons d us =>
        have hitem : item = .unit c := by
          cases item <;> simp_all [unit?]
        subst hitem
        have hcons : c :: unitsOf items = d :: (us ++ escapeHtml body) := hunits
        obtain ⟨rfl, htail⟩ := List.cons.inj hcons
        have hrest := ihitems hlength (forall_mem_cons.mp hus).2 htail
        rw [shownItems_literal (hus c (by simp)), length_cons, length_cons]
        omega

theorem entity_ne_nil (c : CodeUnit) : entity c ≠ [] := by
  rcases entity_cases c with hspecial | ⟨hself, -, -⟩
  · simp only [mem_cons, not_mem_nil, or_false] at hspecial
    rcases hspecial with rfl | rfl | rfl | rfl | rfl
    all_goals decide
  · rw [hself]
    exact cons_ne_nil c []

theorem escapeHtml_cons (c : CodeUnit) (body : Text) :
    escapeHtml (c :: body) = entity c ++ escapeHtml body := by
  rw [escapeHtml_eq, escapeHtml_eq, flatMap_cons]

/-- Each unit of the text is shown at least once, and only once each if the tags are between
the entities. -/
theorem body_shown {body : Text} {items : List Item} (hunits : unitsOf items = escapeHtml body)
    (hbody : 0 ∉ body) :
    body.length + shownBehind rest ≤ (shownItems items rest).length ∧
      ((shownItems items rest).length = body.length + shownBehind rest →
        TagsBetween body items) := by
  obtain ⟨us, items', rfl, hcase⟩ := exists_units items
  by_cases hempty : us = []
  · subst hempty
    rcases hcase with rfl | ⟨item, items', rfl, htag⟩
    · cases body with
      | nil =>
        refine ⟨?_, fun _ => .nil⟩
        simp [shownItems, shownBehind]
      | cons c body =>
        rw [escapeHtml_cons] at hunits
        exact absurd (append_eq_nil_iff.mp hunits.symm).1 (entity_ne_nil c)
    · have hrest := body_shown ((unitsOf_tag htag items').symm.trans hunits) hbody
      have hsame := (shownItems_tag htag items' rest).1
      rw [map_nil, nil_append, hsame]
      exact ⟨hrest.1, fun h => .tag htag (hrest.2 h)⟩
  · cases body with
    | nil =>
      rw [unitsOf_append, unitsOf_units] at hunits
      exact absurd (append_eq_nil_iff.mp hunits).1 hempty
    | cons c body =>
      have hc : c ≠ 0 := fun h => hbody (by simp [h])
      have hbody' : 0 ∉ body := fun h => hbody (by simp [h])
      have hpos := length_pos_iff.mpr (entity_ne_nil c)
      -- The items start with the whole entity, or a tag stands inside it.
      have hwhole : ∀ more : Text, us = entity c ++ more →
          escapeHtml body = more ++ unitsOf items' →
          (c :: body).length + shownBehind rest ≤
              (shownItems (us.map .unit ++ items') rest).length ∧
            ((shownItems (us.map .unit ++ items') rest).length =
                (c :: body).length + shownBehind rest →
              TagsBetween (c :: body) (us.map .unit ++ items')) := by
        intro more hus hmore
        have hunits' : unitsOf (more.map .unit ++ items') = escapeHtml body := by
          rw [unitsOf_append, unitsOf_units, hmore]
        obtain ⟨hle, heq⟩ := body_shown hunits' hbody'
        rw [hus, map_append, append_assoc, shownItems_entity hc, length_cons,
          length_cons]
        refine ⟨by omega, fun h => .char c (heq (by omega))⟩
      rw [unitsOf_append, unitsOf_units, escapeHtml_cons] at hunits
      rcases append_eq_append_iff.mp hunits with
        ⟨missing, hentity, hmissing⟩ | ⟨more, hus, hmore⟩
      · by_cases hnone : missing = []
        · subst hnone
          rw [append_nil] at hentity
          rw [nil_append] at hmissing
          refine hwhole [] ?_ ?_
          · rw [hentity, append_nil]
          · rw [hmissing, nil_append]
        · obtain ⟨⟨shown, hcut⟩, hliteral⟩ := cut_of_entity hentity hempty hnone
          rcases hcase with rfl | ⟨item, items', rfl, htag⟩
          · exact absurd (append_eq_nil_iff.mp hmissing.symm).1 hnone
          · rw [unitsOf_tag htag] at hmissing
            have hless := shownItems_cut hcut htag items' rest
            have hrest := literals_shown rest
              (fun items hitems h => (body_shown h hbody').1) le_rfl hliteral hmissing
            have hlen := length_pos_iff.mpr hnone
            rw [length_cons]
            refine ⟨by omega, fun h => ?_⟩
            omega
      · exact hwhole more hus hmore
termination_by items.length
decreasing_by
  all_goals subst_vars
  all_goals simp
  all_goals omega

end

/-! ## Matches of whole parts -/

/-- A unit of an excerpt that is not highlighted, or a part that is. -/
inductive Piece where
  | plain (c : CodeUnit)
  | marked (part : Text)
deriving DecidableEq, Repr

def Piece.text : Piece → Text
  | .plain c => [c]
  | .marked part => part

def Piece.segments : Piece → List Segment
  | .plain c => (entity c).map .unit
  | .marked part => [.matched (escapeHtml part)]

/-- Each match is the escaped text of a part of the body. -/
def MatchesParts (body : Text) (segs : List Segment) : Prop :=
  ∃ pieces : List Piece, pieces.flatMap Piece.text = body ∧
    pieces.flatMap Piece.segments = segs

/-- The items of a segment with its match marked. -/
def segmentItems : Segment → List Item
  | .unit c => [.unit c]
  | .matched m => .openTag :: (m.map .unit ++ [.closeTag])

theorem flatMap_segmentItems_html (segs : List Segment) :
    (segs.flatMap segmentItems).flatMap Item.html = segs.flatMap (Segment.replaced mark) := by
  rw [flatMap_assoc]
  apply flatMap_congr
  intro seg _
  cases seg with
  | unit c => rfl
  | matched m =>
    rw [segmentItems, flatMap_cons, flatMap_append, flatMap_html_units]
    simp [Segment.replaced, mark, html]

theorem unitsOf_segmentItems (segs : List Segment) :
    unitsOf (segs.flatMap segmentItems) = segs.flatMap Segment.text := by
  induction segs with
  | nil => rfl
  | cons seg segs ih =>
    rw [flatMap_cons, unitsOf_append]
    congr 1
    cases seg with
    | unit c => rfl
    | matched m =>
      rw [segmentItems, unitsOf_tag rfl, unitsOf_append, unitsOf_units]
      exact append_nil m

theorem tagsBetween_cons (h : TagsBetween body (item :: items)) :
    (item.unit? = none ∧ TagsBetween body items) ∨
      ∃ c body' items', body = c :: body' ∧
        item :: items = (entity c).map .unit ++ items' ∧ TagsBetween body' items' := by
  generalize hlist : item :: items = list at h
  cases h with
  | nil => exact absurd hlist (cons_ne_nil _ _)
  | tag htag h =>
    obtain ⟨rfl, rfl⟩ := List.cons.inj hlist
    exact Or.inl ⟨htag, h⟩
  | char c h => exact Or.inr ⟨c, _, _, rfl, rfl, h⟩

theorem tagsBetween_nil (h : TagsBetween body []) : body = [] := by
  generalize hlist : ([] : List Item) = list at h
  cases h with
  | nil => rfl
  | tag htag h => exact absurd hlist (by simp)
  | char c h =>
    have hentity := (append_eq_nil_iff.mp hlist.symm).1
    exact absurd (map_eq_nil_iff.mp hentity) (entity_ne_nil c)

/-- Units in front of a tag, where an entity ends in front of it. -/
theorem units_append_of_tag {vs : Text} {items' : List Item} (htag : item.unit? = none)
    (h : us.map Item.unit ++ items' = vs.map Item.unit ++ item :: items) :
    ∃ more, vs = us ++ more ∧ items' = more.map Item.unit ++ item :: items := by
  induction us generalizing vs with
  | nil => exact ⟨vs, rfl, h⟩
  | cons c us ih =>
    cases vs with
    | nil =>
      have hhead := (List.cons.inj h).1
      rw [← hhead] at htag
      exact absurd htag (by simp [unit?])
    | cons d vs =>
      obtain ⟨hhead, htail⟩ := List.cons.inj h
      obtain ⟨more, rfl, hitems⟩ := ih htail
      refine ⟨more, ?_, hitems⟩
      rw [unit.inj hhead, cons_append]

/-- The units in front of a tag are the entities of a part of the text. -/
theorem part_of_tagsBetween (htag : item.unit? = none)
    (h : TagsBetween body (us.map Item.unit ++ item :: items)) :
    ∃ part body', body = part ++ body' ∧ us = escapeHtml part ∧ TagsBetween body' items := by
  generalize hlist : us.map Item.unit ++ item :: items = list at h
  induction h generalizing us with
  | nil => exact absurd hlist (by simp)
  | @tag body other rest hother hrest _ =>
    cases us with
    | nil =>
      rw [← (List.cons.inj hlist).2] at hrest
      exact ⟨[], body, rfl, rfl, hrest⟩
    | cons u us =>
      rw [← (List.cons.inj hlist).1] at hother
      exact absurd hother (by simp [unit?])
  | char c _ ih =>
    obtain ⟨more, rfl, hmore⟩ := units_append_of_tag htag hlist.symm
    obtain ⟨part, body', rfl, rfl, htags⟩ := ih hmore.symm
    exact ⟨c :: part, body', rfl, (escapeHtml_cons c part).symm, htags⟩

/-- Units of the items come from segments that are not matches. -/
theorem segments_of_units {segs : List Segment}
    (h : us.map Item.unit ++ items = segs.flatMap segmentItems) :
    ∃ segs', segs = us.map .unit ++ segs' ∧ items = segs'.flatMap segmentItems := by
  induction us generalizing segs with
  | nil => exact ⟨segs, rfl, h⟩
  | cons u us ih =>
    cases segs with
    | nil => exact absurd h (by simp)
    | cons seg segs =>
      cases seg with
      | unit c =>
        obtain ⟨hhead, htail⟩ := List.cons.inj h
        obtain ⟨segs', rfl, hitems⟩ := ih htail
        refine ⟨segs', ?_, hitems⟩
        rw [unit.inj hhead]
        rfl
      | matched m => exact absurd (List.cons.inj h).1 (by simp)

/-- Tags between the entities only are tags around parts of the text. -/
theorem matchesParts_of_tagsBetween {body : Text} {segs : List Segment}
    (h : TagsBetween body (segs.flatMap segmentItems)) : MatchesParts body segs := by
  cases segs with
  | nil => exact ⟨[], (tagsBetween_nil h).symm, rfl⟩
  | cons seg segs =>
    cases seg with
    | unit u =>
      rcases tagsBetween_cons h with ⟨hunit, -⟩ | ⟨c, body', items', rfl, hlist, hrest⟩
      · exact absurd hunit (by simp [unit?])
      · have hcons : (Segment.unit u :: segs).flatMap segmentItems =
            unit u :: segs.flatMap segmentItems := rfl
        obtain ⟨segs', hsegs, rfl⟩ := segments_of_units (hlist.symm.trans hcons.symm)
        have hless : segs'.length < segs.length + 1 := by
          have hpos := length_pos_iff.mpr (entity_ne_nil c)
          have hlength := congrArg List.length hsegs
          simp only [length_cons, length_append, length_map] at hlength
          omega
        obtain ⟨pieces, rfl, rfl⟩ := matchesParts_of_tagsBetween hrest
        exact ⟨.plain c :: pieces, rfl, hsegs.symm⟩
    | matched m =>
      have hitems : (Segment.matched m :: segs).flatMap segmentItems =
          Item.openTag :: (m.map Item.unit ++
            Item.closeTag :: segs.flatMap segmentItems) := by
        simp [segmentItems]
      rw [hitems] at h
      rcases tagsBetween_cons h with ⟨-, hinside⟩ | ⟨c, body', items', -, hlist, -⟩
      · obtain ⟨part, body', rfl, rfl, hrest⟩ := part_of_tagsBetween rfl hinside
        obtain ⟨pieces, rfl, rfl⟩ := matchesParts_of_tagsBetween hrest
        exact ⟨.marked part :: pieces, rfl, rfl⟩
      · cases hentity : entity c with
        | nil => exact absurd hentity (entity_ne_nil c)
        | cons d rest =>
          rw [hentity] at hlist
          exact absurd (List.cons.inj hlist).1 (by simp)
termination_by segs.length

end Yanta.SearchIndex
