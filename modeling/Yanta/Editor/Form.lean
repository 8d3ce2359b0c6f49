
/-!
# The form of the document editor

The editor keeps title, blocks, tags and, for a canvas, the drawing in one form
object. This file has the edits of the form, the key by which autosave compares
two states of it, and the request that a save sends to the backend.

The blocks and the drawing are of arbitrary types: what the editor does with
them goes through the functions collected in `Page`.
-/

namespace Yanta.Editor

inductive DocumentKind
  | document
  | canvas
  deriving DecidableEq, Repr

/-- The functions of the page on blocks and drawings. -/
structure Page (Block Scene : Type) where
  computeContentHash : List Block → String
  extractTitleFromBlocks : List Block → String
  /-- A `file` block with the URL of an image is sent as an `image` block. -/
  normalizeBlock : Block → Block
  /-- The `id:version;` digest of the elements. -/
  sceneKey : Scene → String
  /-- The digest of the persisted application state. -/
  appStateKey : Scene → String
  /-- The order in which the browser sorts strings. -/
  keyLE : String → String → Bool

structure FormData (Block Scene : Type) where
  title : String
  blocks : List Block
  tags : List String
  kind : DocumentKind
  scene : Option Scene
  assets : Option (List (String × String))
  deriving DecidableEq

section

variable {Block Scene : Type}

/-- The changes a user or a tag event makes through `updateFormData`. -/
inductive FormEdit (Block Scene : Type)
  | setTitle (title : String)
  | setBlocks (blocks : List Block)
  | setScene (scene : Scene) (assets : List (String × String))
  | removeTag (tag : String)
  | setTags (tags : List String)
  deriving DecidableEq

/-- The new form, or `none` when the updater returns the form it was given. -/
def FormEdit.apply (page : Page Block Scene) (prev : FormData Block Scene) :
    FormEdit Block Scene → Option (FormData Block Scene)
  | .setTitle title =>
    if prev.title = title then none else some { prev with title := title }
  | .setBlocks blocks =>
    some { prev with
      blocks := blocks, title := page.extractTitleFromBlocks blocks }
  | .setScene scene assets =>
    some { prev with scene := some scene, assets := some assets }
  | .removeTag tag =>
    if tag ∈ prev.tags then
      some { prev with tags := prev.tags.filter (· ≠ tag) }
    else
      none
  | .setTags tags =>
    -- The source compares sorted copies.
    if prev.tags.isPerm tags then none else some { prev with tags := tags }

/-! ## The comparison key -/

def assetsKey (page : Page Block Scene) :
    Option (List (String × String)) → String
  | none => ""
  | some assets =>
    ";".intercalate ((assets.mergeSort fun a b => page.keyLE a.1 b.1).map
      fun a => a.1 ++ "=" ++ a.2)

/-- The key of a rendered form. The hash of the blocks is a parameter because
it is computed a frame later than the rest. -/
def compareKey (page : Page Block Scene) (blocksHash : String)
    (form : FormData Block Scene) : String :=
  blocksHash ++ "\n" ++ form.title ++ "\n" ++ ",".intercalate form.tags ++ "\n" ++
    (form.scene.map page.sceneKey).getD "" ++ "\n" ++
    (form.scene.map page.appStateKey).getD "" ++ "\n" ++ assetsKey page form.assets

/-- The key of a form whose blocks have been hashed. -/
def contentKey (page : Page Block Scene) (form : FormData Block Scene) : String :=
  compareKey page (page.computeContentHash form.blocks) form

/-- Autosave uses the empty key for "nothing recorded yet". -/
theorem compareKey_ne_empty
    (page : Page Block Scene) (blocksHash : String) (form : FormData Block Scene) :
    compareKey page blocksHash form ≠ "" := by
  intro h
  have hlength := congrArg String.length h
  simp only [compareKey] at hlength
  simp at hlength

/-! ## The request -/

structure SaveDocumentRequest (Block Scene : Type) where
  path : String
  projectAlias : String
  title : String
  blocks : List Block
  tags : List String
  expectedHash : Option String
  kind : DocumentKind
  scene : Option Scene
  assets : Option (List (String × String))

/-- What a save read when it started. -/
structure SentSave (Block Scene : Type) where
  form : FormData Block Scene
  documentPath : String
  projectAlias : String
  expectedHash : Option String
  deriving DecidableEq

def SentSave.request (page : Page Block Scene) (sent : SentSave Block Scene) :
    SaveDocumentRequest Block Scene where
  path := sent.documentPath
  projectAlias := sent.projectAlias
  title := if sent.form.title = "" then "Untitled" else sent.form.title
  blocks :=
    match sent.form.kind with
    | .canvas => []
    | .document => sent.form.blocks.map page.normalizeBlock
  tags := sent.form.tags
  expectedHash := sent.expectedHash
  kind := sent.form.kind
  scene := sent.form.scene
  assets := sent.form.assets

/-- The part of a request that is the content of the document. -/
def SaveDocumentRequest.content (req : SaveDocumentRequest Block Scene) :
    FormData Block Scene where
  title := req.title
  blocks := req.blocks
  tags := req.tags
  kind := req.kind
  scene := req.scene
  assets := req.assets

/-- The content a save of this form would send. -/
def sentContent (page : Page Block Scene) (form : FormData Block Scene) :
    FormData Block Scene :=
  (SentSave.request page ⟨form, "", "", none⟩).content

end

end Yanta.Editor
