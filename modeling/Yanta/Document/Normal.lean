import Yanta.Document.File
import Yanta.Go.Errors

/-!
# Normal and valid documents

What `Normalize` and `Validate` establish. Tags are the only field that
`Normalize` rewrites, and doing so twice changes nothing. Of the checks of
`Validate` only the one on the timestamps depends on the moment it is made, so a
document that was valid once is valid later exactly when its timestamps are.
-/

namespace Yanta.Document

open Go Vault DocumentFile List

/-! ## Tags -/

variable {u : Unit}

section

variable {lower : Char → Char}
variable {tags : List String} {seen : List String}

theorem mem_normalizeTagsFrom {name : String} :
    name ∈ normalizeTagsFrom lower seen tags ↔
      name ≠ "" ∧ name ∉ seen ∧ ∃ tag ∈ tags, normalizedTag lower tag = name := by
  induction tags generalizing seen with
  | nil => simp [normalizeTagsFrom]
  | cons tag tags ih =>
    simp only [normalizeTagsFrom]
    split
    next hskip =>
      rw [ih]
      constructor
      · rintro ⟨hne, hseen, t, ht, rfl⟩
        exact ⟨hne, hseen, t, mem_cons_of_mem _ ht, rfl⟩
      · rintro ⟨hne, hseen, t, ht, rfl⟩
        rcases mem_cons.mp ht with rfl | ht
        · exact absurd hskip (by simp [hne, hseen])
        · exact ⟨hne, hseen, t, ht, rfl⟩
    next hkeep =>
      push Not at hkeep
      rw [mem_cons, ih]
      constructor
      · rintro (rfl | ⟨hne, hseen, t, ht, rfl⟩)
        · exact ⟨hkeep.1, hkeep.2, tag, by simp, rfl⟩
        · exact ⟨hne, fun h => hseen (by simp [h]), t, by simp [ht], rfl⟩
      · rintro ⟨hne, hseen, t, ht, rfl⟩
        by_cases heq : normalizedTag lower t = normalizedTag lower tag
        · exact .inl heq
        · rcases mem_cons.mp ht with rfl | ht
          · exact absurd rfl heq
          · exact .inr ⟨hne, by simp [heq, hseen], t, ht, rfl⟩

theorem normalizeTagsFrom_nodup (seen tags : List String) :
    (normalizeTagsFrom lower seen tags).Nodup := by
  induction tags generalizing seen with
  | nil => simp [normalizeTagsFrom]
  | cons tag tags ih =>
    simp only [normalizeTagsFrom]
    split
    · exact ih seen
    · refine nodup_cons.mpr ⟨?_, ih _⟩
      intro hmem
      exact (mem_normalizeTagsFrom.mp hmem).2.1 (by simp)

/-- Tags that are normal already are kept as they are. -/
theorem normalizeTagsFrom_eq_self (hfixed : ∀ tag ∈ tags, normalizedTag lower tag = tag)
    (hne : ∀ tag ∈ tags, tag ≠ "") (hseen : ∀ tag ∈ tags, tag ∉ seen) (hnodup : tags.Nodup) :
    normalizeTagsFrom lower seen tags = tags := by
  induction tags generalizing seen with
  | nil => rfl
  | cons tag tags ih =>
    have hhead : normalizedTag lower tag = tag := hfixed tag (by simp)
    have hkeep : ¬(tag = "" ∨ tag ∈ seen) := by
      simp [hne tag (by simp), hseen tag (by simp)]
    obtain ⟨hnotMem, hnodup⟩ := nodup_cons.mp hnodup
    have htail :
        normalizeTagsFrom lower (tag :: seen) tags = tags := by
      apply ih
      · exact (forall_mem_cons.mp hfixed).2
      · exact (forall_mem_cons.mp hne).2
      · intro t ht hmem
        rcases mem_cons.mp hmem with rfl | hmem
        · exact hnotMem ht
        · exact hseen t (by simp [ht]) hmem
      · exact hnodup
    simp only [normalizeTagsFrom, hhead]
    rw [if_neg hkeep, htail]

theorem mem_normalizeTags {name : String} :
    name ∈ normalizeTags lower tags ↔
      name ≠ "" ∧ ∃ tag ∈ tags, normalizedTag lower tag = name := by
  simp [normalizeTags, mem_normalizeTagsFrom]

theorem normalizeTags_nodup (tags : List String) :
    (normalizeTags lower tags).Nodup :=
  normalizeTagsFrom_nodup [] tags

section

variable (hlower : ∀ c, lower (lower c) = lower c)
  (hspace : ∀ c, isSpace (lower c) = isSpace c)

include hlower hspace

theorem normalizedTag_idem (tag : String) :
    normalizedTag lower (normalizedTag lower tag) = normalizedTag lower tag := by
  rw [normalizedTag, normalizedTag, trimSpace_toLower hspace,
    trimSpace_trimSpace, toLower_toLower hlower]

theorem normalizeTags_idem (tags : List String) :
    normalizeTags lower (normalizeTags lower tags) = normalizeTags lower tags := by
  apply normalizeTagsFrom_eq_self
  · intro name hname
    obtain ⟨-, tag, -, rfl⟩ := mem_normalizeTags.mp hname
    exact normalizedTag_idem hlower hspace tag
  · exact fun name hname => (mem_normalizeTags.mp hname).1
  · simp
  · exact normalizeTags_nodup tags

end

/-- What `validateTags` guarantees of each tag. -/
theorem validateTagsFrom_ok (h : validateTagsFrom lower seen tags = .ok u) :
    ∀ tag ∈ tags, normalizedTag lower tag ≠ "" ∧
      len (normalizedTag lower tag) ≤ 64 ∧
      (normalizedTag lower tag).toList.all isTagChar = true := by
  induction tags generalizing seen with
  | nil => simp
  | cons tag tags ih =>
    simp only [validateTagsFrom] at h
    split_ifs at h with hne hlen hdup hchars
    intro t ht
    rcases mem_cons.mp ht with rfl | ht
    · exact ⟨hne, by omega, by simpa using hchars⟩
    · exact ih h t ht

end

/-! ## Whole documents -/

section

variable {β : Type} {rt : Runtime β}
variable {now : Time} {d : DocumentFile}

theorem validateTimestamps_eq_ok {created updated : Time} :
    validateTimestamps rt now created updated = .ok u ↔
      created ≠ zeroTime ∧ updated ≠ zeroTime ∧ created ≤ updated ∧
        created ≤ now + minute ∧ updated ≤ now + minute := by
  unfold validateTimestamps
  split
  next h1 => simp [h1]
  next h1 =>
    split
    next h2 => simp [h2]
    next h2 =>
      split
      next h3 => simp [not_le.mpr h3]
      next h3 =>
        split
        next h4 => simp [not_le.mpr h4]
        next h4 =>
          split
          next h5 => simp [not_le.mpr h5]
          next h5 =>
            simp only [true_iff]
            exact ⟨h1, h2, not_lt.mp h3, not_lt.mp h4, not_lt.mp h5⟩

theorem kindOf_kindOf (kind : String) : kindOf (kindOf kind) = kindOf kind := by
  unfold kindOf
  split <;> rfl

theorem DocumentFile.normalize_idem
    (hrt : rt.Faithful) (d : DocumentFile) :
    (d.normalize rt).normalize rt = d.normalize rt := by
  simp [normalize, kindOf_kindOf, normalizeTags_idem hrt.lower_lower hrt.isSpace_lower]

/-- The checks of `DocumentMeta.Validate` that do not look at the clock. -/
def DocumentMeta.ValidApartFromTime (rt : Runtime β) (m : DocumentMeta) : Prop :=
  validateAlias m.project = .ok () ∧ validateTitle m.title = .ok () ∧
    validateTags rt.lower m.tags = .ok () ∧ validateAliases m.aliases = .ok ()

theorem DocumentMeta.validate_eq_ok {m : DocumentMeta} :
    m.validate rt now = .ok u ↔
      m.ValidApartFromTime rt ∧
        validateTimestamps rt now m.created m.updated = .ok () := by
  simp [DocumentMeta.validate, bind_eq_ok, exists_unit,
    DocumentMeta.ValidApartFromTime, and_assoc]

/-- The checks of `DocumentFile.Validate` that do not look at the clock. -/
def DocumentFile.ValidApartFromTime (rt : Runtime β) (d : DocumentFile) : Prop :=
  d.docMeta.ValidApartFromTime rt ∧
    (if kindOf d.kind = documentKindDocument then validateBlocks 0 d.blocks
      else if kindOf d.kind = documentKindCanvas then validateScene d.scene
      else .error ("unknown document kind: " ++ kindOf d.kind)) = .ok ()

theorem DocumentFile.validate_eq_ok :
    d.validate rt now = .ok u ↔
      d.ValidApartFromTime rt ∧
        validateTimestamps rt now d.docMeta.created d.docMeta.updated = .ok () := by
  simp only [validate, bind_eq_ok, exists_unit, wrapError_eq_ok,
    DocumentMeta.validate_eq_ok]
  exact and_right_comm

theorem DocumentFile.validate_kind (h : d.validate rt now = .ok u) :
    kindOf d.kind = documentKindDocument ∨ kindOf d.kind = documentKindCanvas := by
  have hkind := (validate_eq_ok.mp h).1.2
  by_contra hnot
  push Not at hnot
  simp [hnot.1, hnot.2] at hkind

theorem DocumentFile.validate_project (h : d.validate rt now = .ok u) :
    validateAlias d.docMeta.project = .ok () :=
  (validate_eq_ok.mp h).1.1.1

theorem DocumentFile.validate_tags (h : d.validate rt now = .ok u) :
    validateTags rt.lower d.docMeta.tags = .ok () :=
  (validate_eq_ok.mp h).1.1.2.2.1

variable {data : β}

theorem toJSON_eq_ok :
    d.toJSON rt now = .ok data ↔
      (d.normalize rt).validate rt now = .ok () ∧
        rt.marshalDocument (d.normalize rt) = .ok data := by
  simp [toJSON, bind_eq_ok, exists_unit]

theorem fromJSON_eq_ok :
    fromJSON rt now data = .ok d ↔
      ∃ stored, rt.unmarshalDocument data = .ok stored ∧
        stored.normalize rt = d ∧ d.validate rt now = .ok () := by
  simp only [fromJSON, bind_eq_ok, exists_unit, wrapError_eq_ok, pure,
    Except.pure, Except.ok.injEq]
  constructor
  · rintro ⟨stored, hstored, hvalid, rfl⟩
    exact ⟨stored, hstored, rfl, hvalid⟩
  · rintro ⟨stored, hstored, rfl, hvalid⟩
    exact ⟨stored, hstored, hvalid, rfl⟩

/-- Reading back what was encoded gives the normalised document, provided its
timestamps are still acceptable. -/
theorem fromJSON_of_toJSON (hrt : rt.Faithful) {later : Time} {d' : DocumentFile}
    (h : d.toJSON rt now = .ok data) :
    fromJSON rt later data = .ok d' ↔
      d' = d.normalize rt ∧
        validateTimestamps rt later d.docMeta.created d.docMeta.updated = .ok () := by
  obtain ⟨hvalid, hdata⟩ := toJSON_eq_ok.mp h
  have hdecode := hrt.decode_encode _ _ hdata
  have happart := (validate_eq_ok.mp hvalid).1
  rw [fromJSON_eq_ok]
  constructor
  · rintro ⟨stored, hstored, rfl, hlater⟩
    rw [hdecode] at hstored
    cases hstored
    rw [normalize_idem hrt] at hlater ⊢
    exact ⟨rfl, (validate_eq_ok.mp hlater).2⟩
  · rintro ⟨rfl, htime⟩
    exact ⟨_, hdecode, normalize_idem hrt d,
      validate_eq_ok.mpr ⟨happart, htime⟩⟩

/-- What is valid at one time is valid later. -/
theorem DocumentFile.validate_later {later : Time} (h : d.validate rt now = .ok u)
    (hle : now ≤ later) : d.validate rt later = .ok () := by
  obtain ⟨happart, htime⟩ := validate_eq_ok.mp h
  obtain ⟨hcreated, hupdated, hordered, hc, hu⟩ := validateTimestamps_eq_ok.mp htime
  have hlater : now + minute ≤ later + minute := Int.add_le_add_right hle minute
  exact validate_eq_ok.mpr ⟨happart, validateTimestamps_eq_ok.mpr
    ⟨hcreated, hupdated, hordered, hc.trans hlater, hu.trans hlater⟩⟩

end

end Yanta.Document
