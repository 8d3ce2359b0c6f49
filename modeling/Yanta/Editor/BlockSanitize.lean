import Yanta.Go.JsonText

/-!
# Blocks of types the editor does not know

Before a document reaches the editor, `sanitizeUnknownBlocks` wraps every block whose type
is missing from the schema in a placeholder that stores the block's own JSON text. Before
it is saved, `restoreUnknownBlocks` puts the stored blocks back. A block is a JSON object
whose `children`, where they are an array, are blocks again.
-/

namespace Yanta.Editor

open Go Object List Option

def unknownBlockType : String := "unknownBlock"

/-- `JSON.stringify`, `JSON.parse` and the conversion of a value to the text that is
parsed. An empty text is not JSON. -/
structure JsonText where
  stringify : Json → String
  parse : String → Option Json
  toText : Json → String
  parse_stringify : ∀ value, parse (stringify value) = some value
  parse_empty : parse "" = none

/-- The truth value of a property, which is `undefined` where it is missing. -/
def truthy : Option Json → Bool
  | none | some .null => false
  | some (.bool b) => b
  | some (.num mantissa _) => mantissa != 0
  | some (.str s) => s != ""
  | some (.arr _) | some (.obj _) => true

/-- `value[key]` on a value other than `null`. -/
def property (value : Json) (key : String) : Option Json :=
  match value with
  | .obj members => get? members key
  | _ => none

/-- `{ ...members, key: value }` for a key the object has. An object of the editor has
one member a key, so the last one is the only one. -/
def spread (key : String) (value : Json) : Object → Object
  | [] => []
  | (k, old) :: rest =>
    if k == key && (get? rest key).isNone then (k, value) :: rest
    else (k, old) :: spread key value rest

/-- The children where they are an array; it is empty where they are not. -/
def childBlocks (block : Json) : List Json :=
  match property block "children" with
  | some (.arr items) => items
  | _ => []

/-- The block with other children. -/
def withChildren (block : Json) (children : List Json) : Json :=
  match block with
  | .obj members => .obj (spread "children" (.arr children) members)
  | _ => block

theorem get?_cons (k : String) (v : Json) (rest : Object) (key : String) :
    get? ((k, v) :: rest) key =
      (get? rest key).or (if k == key then some v else none) := by
  unfold get?
  rw [reverse_cons, List.find?_append, map_or]
  by_cases h : k = key <;> simp

variable {members : Object}

theorem sizeOf_of_get? {key : String} {value : Json} (h : get? members key = some value) :
    sizeOf value < sizeOf members := by
  induction members with
  | nil => simp [get?] at h
  | cons member rest ih =>
    obtain ⟨k, v⟩ := member
    rw [get?_cons, or_eq_some_iff] at h
    rcases h with hrest | ⟨-, hhead⟩
    · have hlt := ih hrest
      simp only [List.cons.sizeOf_spec]
      omega
    · obtain rfl : v = value := by
        by_cases hk : k = key <;> simp [hk] at hhead
        exact hhead
      simp only [List.cons.sizeOf_spec, Prod.mk.sizeOf_spec]
      omega

/-- The recursion on blocks goes to smaller values. -/
theorem sizeOf_childBlocks_lt :
    sizeOf (childBlocks (.obj members)) < sizeOf (Json.obj members) := by
  unfold childBlocks property
  split
  next items h =>
    have hlt := sizeOf_of_get? h
    simp only [Json.arr.sizeOf_spec, Json.obj.sizeOf_spec] at hlt ⊢
    omega
  next =>
    cases members <;> simp

section

variable (json : JsonText)

/-- The placeholder that keeps `block`. -/
def quarantined (block : Json) : Json :=
  .obj [("type", .str unknownBlockType),
    ("props", .obj [("originalType", (property block "type").getD .null),
      ("originalJson", .str (json.stringify block))])]

/-- `block.type && !knownTypes.has(block.type)`. -/
def isUnknown (knownTypes : String → Bool) (block : Json) : Bool :=
  truthy (property block "type") &&
    match property block "type" with
    | some (.str type) => !knownTypes type
    | _ => true

/-- `block.type === UNKNOWN_BLOCK_TYPE`. -/
def isPlaceholder (block : Json) : Bool :=
  match property block "type" with
  | some (.str type) => type == unknownBlockType
  | _ => false

/-- What a placeholder stores: `JSON.parse` of a text that is neither missing nor empty. -/
def storedBlock (block : Json) : Option Json :=
  match property block "props" with
  | none => none
  | some props =>
    let originalJson := property props "originalJson"
    if truthy originalJson then
      match originalJson with
      | some (.str text) => json.parse text
      | some value => json.parse (json.toText value)
      | none => none
    else none

mutual

def sanitizeUnknownBlocks (knownTypes : String → Bool) : List Json → Option (List Json)
  | [] => some []
  | block :: blocks => do
      let block ← sanitizeBlock knownTypes block
      let blocks ← sanitizeUnknownBlocks knownTypes blocks
      return block :: blocks
termination_by blocks => sizeOf blocks

/-- `sanitizeBlock`; reading a property of `null` throws. -/
def sanitizeBlock (knownTypes : String → Bool) : Json → Option Json
  | .null => none
  | .obj members =>
    if isUnknown knownTypes (.obj members) then some (quarantined json (.obj members))
    else if childBlocks (.obj members) = [] then some (.obj members)
    else do
      let children ← sanitizeUnknownBlocks knownTypes (childBlocks (.obj members))
      return withChildren (.obj members) children
  | block => some block
termination_by block => sizeOf block
decreasing_by exact sizeOf_childBlocks_lt

end

mutual

def restoreUnknownBlocks : List Json → Option (List Json)
  | [] => some []
  | block :: blocks => do
      let block ← restoreBlock block
      let blocks ← restoreUnknownBlocks blocks
      return block :: blocks
termination_by blocks => sizeOf blocks

/-- `restoreBlock`; a placeholder without a text that parses is left as it is. -/
def restoreBlock : Json → Option Json
  | .null => none
  | .obj members =>
    if isPlaceholder (.obj members) then
      some ((storedBlock json (.obj members)).getD (.obj members))
    else if childBlocks (.obj members) = [] then some (.obj members)
    else do
      let children ← restoreUnknownBlocks (childBlocks (.obj members))
      return withChildren (.obj members) children
  | block => some block
termination_by block => sizeOf block
decreasing_by exact sizeOf_childBlocks_lt

end

end

/-! ## Every block of a forest -/

/-- `inner` is `block` or stands below it at some depth. -/
inductive Within : Json → Json → Prop
  | self (block : Json) : Within block block
  | child {inner child block : Json} (hchild : child ∈ childBlocks block)
      (hinner : Within inner child) : Within inner block

/-- `block` is one of the forest's blocks, at any depth. -/
def Occurs (block : Json) (forest : List Json) : Prop := ∃ root ∈ forest, Within block root

/-- Every block with a type that is not empty has one the editor knows. -/
def AllKnown (knownTypes : String → Bool) (forest : List Json) : Prop :=
  ∀ block, Occurs block forest → truthy (property block "type") = true →
    ∃ type, property block "type" = some (.str type) ∧ knownTypes type = true

variable {block : Json}

theorem mem_childBlocks_sizeOf {child : Json} (h : child ∈ childBlocks block) :
    sizeOf child < sizeOf block := by
  cases block with
  | obj members => exact (sizeOf_lt_of_mem h).trans sizeOf_childBlocks_lt
  | _ => simp [childBlocks, property] at h

/-- Induction on blocks through their children. -/
theorem block_induction {motive : Json → Prop}
    (step : ∀ block, (∀ child ∈ childBlocks block, motive child) → motive block)
    (block : Json) : motive block :=
  step block fun child _ => block_induction step child
termination_by sizeOf block
decreasing_by exact mem_childBlocks_sizeOf ‹_›

/-! ## Replacing the children -/

section

variable {key : String} {members : Object}

theorem get?_spread_of_ne {other : String} (value : Json) (h : other ≠ key) :
    get? (spread key value members) other = get? members other := by
  induction members with
  | nil => rfl
  | cons member rest ih =>
    obtain ⟨k, old⟩ := member
    by_cases hlast : (k == key && (get? rest key).isNone) = true
    · have hk : k = key := by
        rw [Bool.and_eq_true] at hlast
        simpa using hlast.1
      rw [spread, if_pos hlast, get?_cons, get?_cons]
      simp [hk, h.symm]
    · rw [spread, if_neg hlast, get?_cons, get?_cons, ih]

theorem get?_spread_self (value : Json) (h : (get? members key).isSome = true) :
    get? (spread key value members) key = some value := by
  induction members with
  | nil => simp [get?] at h
  | cons member rest ih =>
    obtain ⟨k, old⟩ := member
    cases hrest : get? rest key with
    | none =>
      have hk : k = key := by
        by_contra hk
        rw [get?_cons, hrest] at h
        simp [hk] at h
      simp [spread, get?_cons, hk, hrest]
    | some v =>
      have hself := ih (by simp [hrest])
      simp [spread, get?_cons, hrest, hself]

theorem spread_spread (value value' : Json) :
    spread key value (spread key value' members) = spread key value members := by
  induction members with
  | nil => rfl
  | cons member rest ih =>
    obtain ⟨k, old⟩ := member
    cases hrest : get? rest key with
    | none => by_cases hk : k = key <;> simp [spread, hk, hrest, ih]
    | some v =>
      have hself : get? (spread key value' rest) key = some value' :=
        get?_spread_self value' (by simp [hrest])
      simp [spread, hrest, hself, ih]

theorem spread_get? {value : Json} (h : get? members key = some value) :
    spread key value members = members := by
  induction members with
  | nil => rfl
  | cons member rest ih =>
    obtain ⟨k, old⟩ := member
    cases hrest : get? rest key with
    | none =>
      rw [get?_cons, hrest] at h
      by_cases hk : k = key
      · simp at h
        simp [spread, hrest, h]
      · simp [hk] at h
    | some v =>
      rw [get?_cons, hrest] at h
      obtain rfl : v = value := by simpa using h
      simp [spread, hrest, ih hrest]

end

section

variable {block : Json}

theorem exists_members (h : childBlocks block ≠ []) :
    ∃ members, block = .obj members ∧
      get? members "children" = some (.arr (childBlocks block)) := by
  cases block with
  | obj members =>
    refine ⟨members, rfl, ?_⟩
    unfold childBlocks property at h ⊢
    split at h
    next items hitems => exact hitems
    next => exact absurd rfl h
  | _ => exact absurd rfl h

@[simp]
theorem type_withChildren (block : Json) (children : List Json) :
    property (withChildren block children) "type" = property block "type" := by
  cases block with
  | obj members => exact get?_spread_of_ne _ (by decide)
  | _ => rfl

@[simp]
theorem isUnknown_withChildren (knownTypes : String → Bool) (block : Json)
    (children : List Json) :
    isUnknown knownTypes (withChildren block children) = isUnknown knownTypes block := by
  simp [isUnknown]

@[simp]
theorem isPlaceholder_withChildren (block : Json) (children : List Json) :
    isPlaceholder (withChildren block children) = isPlaceholder block := by
  simp [isPlaceholder]

theorem childBlocks_withChildren (h : childBlocks block ≠ []) (children : List Json) :
    childBlocks (withChildren block children) = children := by
  obtain ⟨members, rfl, hchildren⟩ := exists_members h
  have hself := get?_spread_self (.arr children) (isSome_of_eq_some hchildren)
  simp [childBlocks, withChildren, property, hself]

theorem withChildren_withChildren (block : Json) (children children' : List Json) :
    withChildren (withChildren block children) children' = withChildren block children' := by
  cases block with
  | obj members => simp [withChildren, spread_spread]
  | _ => rfl

theorem withChildren_childBlocks (h : childBlocks block ≠ []) :
    withChildren block (childBlocks block) = block := by
  obtain ⟨members, hblock, hchildren⟩ := exists_members h
  rw [hblock] at hchildren ⊢
  simp [withChildren, spread_get? hchildren]

end

/-! ## One block -/

section

variable {json : JsonText} {knownTypes : String → Bool}
variable {forest : List Json}

/-- `sanitized` shows only known types and `restoreBlock` turns it back into `block`. -/
structure Sanitizes (json : JsonText) (knownTypes : String → Bool)
    (block sanitized : Json) : Prop where
  sanitize : sanitizeBlock json knownTypes block = some sanitized
  known : AllKnown knownTypes [sanitized]
  restore : restoreBlock json sanitized = some block

theorem allKnown_iff :
    AllKnown knownTypes forest ↔ ∀ root ∈ forest, AllKnown knownTypes [root] := by
  constructor
  · rintro h root hroot block ⟨root', hroot', hwithin⟩
    obtain rfl : root' = root := by simpa using hroot'
    exact h block ⟨root', hroot, hwithin⟩
  · rintro h block ⟨root, hroot, hwithin⟩
    exact h root hroot block ⟨root, mem_singleton_self root, hwithin⟩

/-- A block shows known types if it does itself and its children do. -/
theorem allKnown_singleton (hself : isUnknown knownTypes block = false)
    (hchildren : AllKnown knownTypes (childBlocks block)) : AllKnown knownTypes [block] := by
  rintro inner ⟨root, hroot, hwithin⟩ htype
  obtain rfl : root = block := by simpa using hroot
  cases hwithin with
  | self =>
    rw [isUnknown, htype] at hself
    cases ht : property inner "type" with
    | none => simp [ht, truthy] at htype
    | some value =>
      cases value with
      | str type => exact ⟨type, rfl, by simpa [ht] using hself⟩
      | _ => simp [ht] at hself
  | child hchild hinner => exact hchildren inner ⟨_, hchild, hinner⟩ htype

/-- The text a placeholder stores is never empty. -/
theorem stringify_ne_empty (json : JsonText) (block : Json) : json.stringify block ≠ "" := by
  intro h
  have hparse := json.parse_stringify block
  rw [h, json.parse_empty] at hparse
  exact some_ne_none block hparse.symm

theorem property_quarantined (json : JsonText) (block : Json) :
    property (quarantined json block) "type" = some (.str unknownBlockType) ∧
      childBlocks (quarantined json block) = [] ∧
      storedBlock json (quarantined json block) = some block := by
  refine ⟨rfl, rfl, ?_⟩
  have htext : truthy (some (.str (json.stringify block))) = true := by
    simpa [truthy] using stringify_ne_empty json block
  change (if truthy (some (.str (json.stringify block))) = true then
    json.parse (json.stringify block) else none) = some block
  rw [if_pos htext, json.parse_stringify]

theorem sanitizes_quarantined (hknown : knownTypes unknownBlockType = true)
    (hunknown : isUnknown knownTypes (.obj members) = true) :
    Sanitizes json knownTypes (.obj members) (quarantined json (.obj members)) := by
  obtain ⟨htype, hchildren, hstored⟩ := property_quarantined json (.obj members)
  refine ⟨?_, ?_, ?_⟩
  · rw [sanitizeBlock, if_pos hunknown]
  · apply allKnown_singleton
    · simp [isUnknown, htype, hknown]
    · rw [hchildren]
      rintro inner ⟨root, hroot, -⟩
      simp at hroot
  · have hplaceholder : isPlaceholder (quarantined json (.obj members)) = true := by
      simp [isPlaceholder, htype]
    rw [quarantined] at hplaceholder hstored ⊢
    rw [restoreBlock, hstored]
    rfl

theorem sanitizes_leaf (hunknown : isUnknown knownTypes (.obj members) = false)
    (hplain : isPlaceholder (.obj members) = false) (hleaf : childBlocks (.obj members) = []) :
    Sanitizes json knownTypes (.obj members) (.obj members) := by
  refine ⟨?_, ?_, ?_⟩
  · simp [sanitizeBlock, hunknown, hleaf]
  · apply allKnown_singleton hunknown
    rw [hleaf]
    rintro inner ⟨root, hroot, -⟩
    simp at hroot
  · simp [restoreBlock, hplain, hleaf]

/-! ## Whole forests -/

theorem exists_sanitizeUnknownBlocks
    (h : ∀ block ∈ forest, ∃ sanitized, Sanitizes json knownTypes block sanitized) :
    ∃ sanitized, sanitizeUnknownBlocks json knownTypes forest = some sanitized ∧
      AllKnown knownTypes sanitized ∧
      restoreUnknownBlocks json sanitized = some forest := by
  induction forest with
  | nil =>
    refine ⟨[], by rw [sanitizeUnknownBlocks], ?_, by rw [restoreUnknownBlocks]⟩
    rintro inner ⟨root, hroot, -⟩
    simp at hroot
  | cons block blocks ih =>
    obtain ⟨block', hblock⟩ := h block mem_cons_self
    obtain ⟨blocks', hsanitize, hknown, hrestore⟩ := ih fun b hb =>
      h b (mem_cons_of_mem _ hb)
    refine ⟨block' :: blocks', ?_, ?_, ?_⟩
    · rw [sanitizeUnknownBlocks, hblock.sanitize, hsanitize]
      rfl
    · rw [allKnown_iff] at hknown ⊢
      intro root hroot
      rcases mem_cons.mp hroot with rfl | hin
      · exact hblock.known
      · exact hknown root hin
    · rw [restoreUnknownBlocks, hblock.restore, hrestore]
      rfl

theorem sanitizes_children (hunknown : isUnknown knownTypes (.obj members) = false)
    (hplain : isPlaceholder (.obj members) = false)
    (hchildren : childBlocks (.obj members) ≠ []) (h : ∀ child ∈ childBlocks (.obj members),
      ∃ sanitized, Sanitizes json knownTypes child sanitized) :
    ∃ sanitized, Sanitizes json knownTypes (.obj members) sanitized := by
  obtain ⟨children, hsanitize, hknown, hrestore⟩ := exists_sanitizeUnknownBlocks h
  have hbelow := childBlocks_withChildren hchildren children
  refine ⟨withChildren (.obj members) children, ?_, ?_, ?_⟩
  · simp [sanitizeBlock, hunknown, hchildren, hsanitize]
  · apply allKnown_singleton
    · rw [isUnknown_withChildren, hunknown]
    · rw [hbelow]
      exact hknown
  · have hnonempty : children ≠ [] := by
      rintro rfl
      rw [restoreUnknownBlocks] at hrestore
      exact hchildren (Option.some.inj hrestore).symm
    have hplaceholder := isPlaceholder_withChildren (.obj members) children
    rw [hplain] at hplaceholder
    have hback := withChildren_withChildren (.obj members) children
      (childBlocks (.obj members))
    rw [withChildren_childBlocks hchildren] at hback
    rw [withChildren] at hback hbelow hplaceholder ⊢
    simp [restoreBlock, hplaceholder, hbelow, hnonempty, hrestore, hback]

/-- Every block of the forest is an object and none is a placeholder. -/
structure Storable (forest : List Json) : Prop where
  object : ∀ block, Occurs block forest → ∃ members, block = .obj members
  plain : ∀ block, Occurs block forest →
    property block "type" ≠ some (.str unknownBlockType)

theorem Storable.isPlaceholder_eq_false (h : Storable forest) (hblock : Occurs block forest) :
    isPlaceholder block = false := by
  have hplain := h.plain block hblock
  unfold isPlaceholder
  split
  next type ht =>
    rw [ht] at hplain
    simpa using hplain
  next => rfl

theorem Within.of_child {child root : Json} (h : Within block root)
    (hchild : child ∈ childBlocks block) : Within child root := by
  induction h with
  | self => exact .child hchild (.self child)
  | child hmem _ ih => exact .child hmem ih

theorem Occurs.child {child : Json} (h : Occurs block forest)
    (hchild : child ∈ childBlocks block) : Occurs child forest := by
  obtain ⟨root, hroot, hwithin⟩ := h
  exact ⟨root, hroot, hwithin.of_child hchild⟩

theorem exists_sanitizes (hknown : knownTypes unknownBlockType = true) (h : Storable forest)
    (block : Json) :
    Occurs block forest → ∃ sanitized, Sanitizes json knownTypes block sanitized := by
  induction block using block_induction with
  | step block ih =>
    intro hblock
    have hplain := h.isPlaceholder_eq_false hblock
    obtain ⟨members, rfl⟩ := h.object block hblock
    by_cases hunknown : isUnknown knownTypes (.obj members) = true
    · exact ⟨_, sanitizes_quarantined hknown hunknown⟩
    rw [Bool.not_eq_true] at hunknown
    by_cases hleaf : childBlocks (.obj members) = []
    · exact ⟨_, sanitizes_leaf hunknown hplain hleaf⟩
    · exact sanitizes_children hunknown hplain hleaf fun child hchild =>
        ih child hchild (hblock.child hchild)

/-- Unknown blocks survive an editing session: what the editor is given has only types it
knows, and restoring it gives the stored forest back. -/
theorem unknown_blocks_survive {forest : List Json}
    (hknown : knownTypes unknownBlockType = true) (hforest : Storable forest) :
    ∃ sanitized, sanitizeUnknownBlocks json knownTypes forest = some sanitized ∧
      AllKnown knownTypes sanitized ∧
      restoreUnknownBlocks json sanitized = some forest := by
  apply exists_sanitizeUnknownBlocks
  intro block hblock
  exact exists_sanitizes hknown hforest block ⟨block, hblock, .self block⟩

end

/-- The two functions at their own grammar; a value that is not a text converts to its
JSON spelling here. -/
def standardText : JsonText where
  stringify := Json.stringify
  parse := Json.parse
  toText := Json.stringify
  parse_stringify := Json.parse_stringify
  parse_empty := Json.parse_empty

/-- A paragraph with a child of a type that no extension provides. -/
def paragraphWithPoll : Json :=
  .obj [("type", .str "paragraph"),
    ("children", .arr [.obj [("type", .str "poll"), ("options", .arr [.num 1 0])]])]

theorem storable_paragraphWithPoll : Storable [paragraphWithPoll] := by
  have hall : ∀ block, Occurs block [paragraphWithPoll] →
      block = paragraphWithPoll ∨
        block = .obj [("type", .str "poll"), ("options", .arr [.num 1 0])] := by
    rintro block ⟨root, hroot, hwithin⟩
    obtain rfl : root = paragraphWithPoll := by simpa using hroot
    cases hwithin with
    | self => exact .inl rfl
    | child hchild hinner =>
      obtain rfl := mem_singleton.mp hchild
      cases hinner with
      | self => exact .inr rfl
      | child hchild _ => exact absurd hchild not_mem_nil
  refine ⟨fun block hblock => ?_, fun block hblock => ?_⟩
  · rcases hall block hblock with rfl | rfl <;> exact ⟨_, rfl⟩
  · rcases hall block hblock with rfl | rfl <;>
      simp [paragraphWithPoll, property, get?, unknownBlockType]

theorem unknown_blocks_survive_sample :
    ∃ sanitized,
      sanitizeUnknownBlocks standardText (fun type => type ∈ ["paragraph", "unknownBlock"])
        [paragraphWithPoll] = some sanitized ∧
      AllKnown (fun type => type ∈ ["paragraph", "unknownBlock"]) sanitized ∧
      restoreUnknownBlocks standardText sanitized = some [paragraphWithPoll] :=
  unknown_blocks_survive (by decide) storable_paragraphWithPoll

end Yanta.Editor
