import Yanta.Go.Json
import Yanta.Vault.Paths

/-!
# Document files

`internal/document/file.go`: the document file, its normalisation and its
validation. Times are nanoseconds since the Unix epoch. Slices are lists, so a
nil slice and an empty one are the same value; `Normalize` makes that true of
`Blocks` before `Validate` looks at it.
-/

namespace Yanta.Document

open Go Yanta.Vault

/-- An instant, in nanoseconds since the Unix epoch. -/
abbrev Time := Int

/-- `time.Time{}`, midnight of the first of January of year one. -/
def zeroTime : Time := -62135596800000000000

/-- `time.Minute`. -/
def minute : Int := 60000000000

inductive BlockNoteBlock where
  | mk (id type : String) (props : Object) (content : Option Json)
      (children : List BlockNoteBlock)
deriving Repr

namespace BlockNoteBlock

def id : BlockNoteBlock → String
  | mk id _ _ _ _ => id

def type : BlockNoteBlock → String
  | mk _ type _ _ _ => type

def props : BlockNoteBlock → Object
  | mk _ _ props _ _ => props

def content : BlockNoteBlock → Option Json
  | mk _ _ _ content _ => content

def children : BlockNoteBlock → List BlockNoteBlock
  | mk _ _ _ _ children => children

end BlockNoteBlock

structure DocumentMeta where
  project : String
  title : String
  tags : List String
  aliases : List String
  created : Time
  updated : Time
deriving DecidableEq, Repr

structure DocumentFile where
  docMeta : DocumentMeta
  kind : String
  scene : Option Json
  blocks : List BlockNoteBlock
  assets : List (String × String)
deriving Repr

def documentKindDocument : String := "document"

def documentKindCanvas : String := "canvas"

/-- The functions of Go's standard library that the document packages call and
that are not spelled out in this development: the case table of `unicode`, the
decoders and encoders of `encoding/json` for the stored file types, SHA-256,
URL parsing and time formatting. `β` is the type of file contents. -/
structure Runtime (β : Type) where
  /-- `unicode.ToLower`. -/
  lower : Char → Char
  /-- `len` of a file's contents. -/
  size : β → Nat
  /-- `json.MarshalIndent` of a document file; it fails on unencodable values. -/
  marshalDocument : DocumentFile → Except String β
  /-- `json.Unmarshal` into a document file. -/
  unmarshalDocument : β → Except String DocumentFile
  /-- Hexadecimal SHA-256 of `json.Marshal`, the empty string if that fails. -/
  hashDocument : DocumentFile → String
  /-- `len` of the raw message that spells a JSON value. -/
  rawSize : Json → Nat
  /-- `url.Parse`: the scheme, the host and the host name, or an error. -/
  parseURL : String → Option (String × String × String)
  /-- `Time.Format(time.RFC3339)`. -/
  formatRFC3339 : Time → String
  /-- `Time.Format(time.RFC3339Nano)`. -/
  formatRFC3339Nano : Time → String
  /-- `time.Parse(time.RFC3339Nano, _)` succeeds. -/
  parsesRFC3339Nano : String → Bool

/-- What the standard library promises. Raw messages are modelled by their
value and nil slices by empty ones, so nothing the encoder drops is visible in
the first clause. -/
structure Runtime.Faithful {β : Type} (rt : Runtime β) : Prop where
  /-- A document that was encoded decodes to itself. -/
  decode_encode : ∀ d data,
    rt.marshalDocument d = .ok data → rt.unmarshalDocument data = .ok d
  /-- Lower-casing twice is lower-casing once. -/
  lower_lower : ∀ c, rt.lower (rt.lower c) = rt.lower c
  /-- Spaces have no case. -/
  isSpace_lower : ∀ c, isSpace (rt.lower c) = isSpace c

/-- A runtime that stores documents as they are and knows no URLs. -/
def plainRuntime : Runtime DocumentFile where
  lower := id
  size _ := 0
  marshalDocument := .ok
  unmarshalDocument := .ok
  hashDocument d := d.docMeta.title
  rawSize _ := 0
  parseURL _ := none
  formatRFC3339 _ := ""
  formatRFC3339Nano _ := ""
  parsesRFC3339Nano _ := true

theorem plainRuntime_faithful : plainRuntime.Faithful where
  decode_encode d data h := by
    cases h
    rfl
  lower_lower _ := rfl
  isSpace_lower _ := rfl

/-! ## Validation -/

def validateTitle (title : String) : Except String Unit :=
  if title = "" then .error "title cannot be empty"
  else if 512 < len title then
    .error ("title cannot exceed 512 characters, got " ++ decimal (len title))
  else if containsAny title "\n\r" then .error "title cannot contain newlines"
  else .ok ()

/-- The characters a stored tag may have. -/
def isTagChar (c : Char) : Bool :=
  ('a' ≤ c && c ≤ 'z') || ('0' ≤ c && c ≤ '9') || c == '_' || c == '-'

/-- The tag as compared and stored: trimmed and lower-cased. -/
def normalizedTag (lower : Char → Char) (tag : String) : String :=
  toLower lower (trimSpace tag)

/-- The loop of `validateTags`; `seen` holds the tags met before. -/
def validateTagsFrom (lower : Char → Char) (seen : List String) :
    List String → Except String Unit
  | [] => .ok ()
  | tag :: tags =>
    let normalized := normalizedTag lower tag
    if normalized = "" then .error "empty tag not allowed"
    else if 64 < len normalized then
      .error ("tag exceeds 64 characters: " ++ tag)
    else if seen.contains normalized then .error ("duplicate tag: " ++ tag)
    else if !normalized.toList.all isTagChar then
      .error ("invalid tag format (must be lowercase alphanumeric + " ++
        "underscore/hyphen): " ++ tag)
    else validateTagsFrom lower (normalized :: seen) tags

def validateTags (lower : Char → Char) (tags : List String) :
    Except String Unit :=
  validateTagsFrom lower [] tags

/-- The characters of a document alias. -/
def isDocumentAliasChar (c : Char) : Bool :=
  ('a' ≤ c && c ≤ 'z') || ('A' ≤ c && c ≤ 'Z') || ('0' ≤ c && c ≤ '9') ||
    c == '-' || c == '_'

def validateAliases : List String → Except String Unit
  | [] => .ok ()
  | name :: names =>
    if len name < 2 || 128 < len name then
      .error ("alias must be 2-128 characters: " ++ name)
    else if !name.toList.all isDocumentAliasChar then
      .error ("invalid alias format: " ++ name)
    else validateAliases names

def validateTimestamps
    {β : Type} (rt : Runtime β) (now created updated : Time) :
    Except String Unit :=
  if created = zeroTime then .error "created timestamp cannot be zero"
  else if updated = zeroTime then .error "updated timestamp cannot be zero"
  else if updated < created then
    .error ("updated timestamp (" ++ rt.formatRFC3339 updated ++
      ") cannot be before created timestamp (" ++
      rt.formatRFC3339 created ++ ")")
  else if now + minute < created then
    .error "created timestamp cannot be in the future"
  else if now + minute < updated then
    .error "updated timestamp cannot be in the future"
  else .ok ()

/-- `fmt.Errorf("<label>: %w", err)` on an optional error. -/
def wrapError {α : Type} (label : String) : Except String α → Except String α
  | .error e => .error (label ++ ": " ++ e)
  | .ok a => .ok a

@[simp] theorem wrapError_eq_ok {α : Type} {label : String}
    {x : Except String α} {a : α} :
    wrapError label x = .ok a ↔ x = .ok a := by
  cases x <;> simp [wrapError]

def DocumentMeta.validate
    {β : Type} (rt : Runtime β) (now : Time) (m : DocumentMeta) :
    Except String Unit := do
  wrapError "invalid project" (validateAlias m.project)
  wrapError "invalid title" (validateTitle m.title)
  wrapError "invalid tags" (validateTags rt.lower m.tags)
  wrapError "invalid aliases" (validateAliases m.aliases)
  wrapError "invalid timestamps" (validateTimestamps rt now m.created m.updated)

/-- The nesting limit of `validateBlock`. -/
def maxDepth : Nat := 20

mutual

def validateBlock (depth : Nat) : BlockNoteBlock → Except String Unit
  | .mk id type _ _ children =>
    if maxDepth < depth then
      .error ("block nesting exceeds maximum depth of " ++ decimal maxDepth)
    else if id = "" then .error "block ID cannot be empty"
    else if type = "" then .error "block type cannot be empty"
    else validateChildren (depth + 1) 0 children

/-- The loop over the children, `i` being the index of the next one. -/
def validateChildren (depth i : Nat) :
    List BlockNoteBlock → Except String Unit
  | [] => .ok ()
  | child :: children =>
    match validateBlock depth child with
    | .error e => .error ("child block " ++ decimal i ++ ": " ++ e)
    | .ok () => validateChildren depth (i + 1) children

end

/-- The loop of `DocumentFile.Validate` over the top-level blocks. -/
def validateBlocks (i : Nat) : List BlockNoteBlock → Except String Unit
  | [] => .ok ()
  | block :: blocks =>
    match validateBlock 0 block with
    | .error e =>
      .error ("block " ++ decimal i ++ " validation failed: " ++ e)
    | .ok () => validateBlocks (i + 1) blocks

/-- An absent kind reads as `document`. -/
def kindOf (kind : String) : String :=
  if kind = "" then documentKindDocument else kind

/-- The scene checks of `DocumentFile.Validate` for the canvas kind. -/
def validateScene : Option Json → Except String Unit
  | none => .error "scene is required for canvas kind and must be valid JSON"
  | some .null => .error "scene cannot be null for canvas kind"
  | some (.obj _) => .ok ()
  | some _ => .error "scene must be a JSON object for canvas kind"

def DocumentFile.validate
    {β : Type} (rt : Runtime β) (now : Time) (df : DocumentFile) :
    Except String Unit := do
  wrapError "meta validation failed" (df.docMeta.validate rt now)
  let kind := kindOf df.kind
  if kind = documentKindDocument then validateBlocks 0 df.blocks
  else if kind = documentKindCanvas then validateScene df.scene
  else .error ("unknown document kind: " ++ kind)

/-! ## Normalisation -/

/-- The loop of `NormalizeTags` and of `normalizeTags` in the tag package. -/
def normalizeTagsFrom (lower : Char → Char) (seen : List String) :
    List String → List String
  | [] => []
  | tag :: tags =>
    let name := normalizedTag lower tag
    if name = "" ∨ name ∈ seen then normalizeTagsFrom lower seen tags
    else name :: normalizeTagsFrom lower (name :: seen) tags

def normalizeTags (lower : Char → Char) (tags : List String) : List String :=
  normalizeTagsFrom lower [] tags

def DocumentFile.normalize
    {β : Type} (rt : Runtime β) (df : DocumentFile) : DocumentFile :=
  { df with
    docMeta := { df.docMeta with tags := normalizeTags rt.lower df.docMeta.tags }
    kind := kindOf df.kind }

/-! ## Encoding -/

def DocumentFile.toJSON
    {β : Type} (rt : Runtime β) (now : Time) (df : DocumentFile) :
    Except String β := do
  let df := df.normalize rt
  wrapError "validation failed" (df.validate rt now)
  wrapError "marshaling document to JSON" (rt.marshalDocument df)

def fromJSON
    {β : Type} (rt : Runtime β) (now : Time) (data : β) :
    Except String DocumentFile := do
  let df ← wrapError "unmarshaling JSON" (rt.unmarshalDocument data)
  let df := df.normalize rt
  wrapError "validation failed" (df.validate rt now)
  return df

/-! ## Constructors -/

def newDocumentFile
    {β : Type} (rt : Runtime β) (now : Time)
    (project title : String) (tags : List String) : DocumentFile where
  docMeta :=
    { project := toLower rt.lower project
      title := trimSpace title
      tags := tags
      aliases := []
      created := now
      updated := now }
  kind := documentKindDocument
  scene := none
  blocks := []
  assets := []

def newCanvasFile
    {β : Type} (rt : Runtime β) (now : Time)
    (project title : String) (tags : List String)
    (scene : Option Json) (assets : List (String × String)) : DocumentFile where
  docMeta :=
    { project := toLower rt.lower project
      title := trimSpace title
      tags := tags
      aliases := []
      created := now
      updated := now }
  kind := documentKindCanvas
  scene := scene
  blocks := []
  assets := assets

def DocumentFile.updateTimestamp (now : Time) (df : DocumentFile) :
    DocumentFile :=
  { df with docMeta := { df.docMeta with updated := now } }

def computeFileHash {β : Type} (rt : Runtime β) (df : DocumentFile) : String :=
  rt.hashDocument df

end Yanta.Document
