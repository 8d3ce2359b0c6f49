import Yanta.Go.Strings
import Yanta.Support.Runs
import Yanta.Editor.Form

/-!
# The document editor as a state machine

The form hook, the persistence hook and the autosave hook of one open document,
with everything they schedule: renders and their effects, the animation frame
that hashes the blocks, the debounce and retry timers, and the chain of saves.

React state is kept in a `Screen`. `now` has all updates made so far, `view` is
what was rendered last, and `effView` is the render whose effects ran last. A
ref that is written while rendering (`latestFormRef`, `enabledRef`,
`hasUnsavedChangesRef`) is a field of `view`; the closure in `onSaveRef`, which
an effect writes, sees the fields of `effView`.

An event is one task of the browser. The only promise callback that can be
pending between two tasks is the start of the first queued save, and it runs
before any other event.
-/

namespace Yanta.Editor

open Go Support

/-- The React state that the three hooks and their closures read. -/
structure Screen (Block Scene : Type) where
  form : FormData Block Scene
  hasChanges : Bool
  blocksHash : String
  hasUnsavedChanges : Bool
  currentProject : Option String
  documentHash : Option String
  hasConflict : Bool
  isArchived : Bool
  isLoading : Bool
  loadError : Bool
  isEditorReady : Bool
  shouldAutoSave : Bool
  deriving DecidableEq

/-- Who waits for a save: `performSave`, with the key it noted and its retry
count, or the effect that saves a new document at once. -/
inductive Owner
  | autoSave (savedKey : String) (retryCount : Nat)
  | direct
  deriving DecidableEq

/-- How far a run of `doSave` has got. -/
inductive Stage (Block Scene : Type)
  | queued
  /-- The backend has the request. -/
  | sending (sent : SentSave Block Scene)
  /-- The backend has saved; assets are linked and orphans cleaned up. -/
  | linking (sent : SentSave Block Scene) (savedPath : String)
  /-- `resetChanges` has been called; the new hash is being fetched. -/
  | hashing (sent : SentSave Block Scene)
  deriving DecidableEq

structure Run (Block Scene : Type) where
  owner : Owner
  currentProject : Option String
  documentHash : Option String
  stage : Stage Block Scene
  deriving DecidableEq

structure Session (Block Scene : Type) where
  now : Screen Block Scene
  view : Screen Block Scene
  effView : Screen Block Scene
  effectsPending : Bool
  /-- An edit whose `setHasChanges(true)` React runs at the next render. -/
  lateChanges : Bool
  pendingHash : Option (List Block)
  /-- The property of the component; empty for a new document. -/
  documentPath : String
  currentDocumentPath : String
  savingChain : List (Run Block Scene)
  timeout : Bool
  /-- The last autosave effect returned a cleanup that clears the timeout. -/
  clearsTimeout : Bool
  retryTimeout : Option Nat
  isSaving : Bool
  currentKey : String
  lastSavedKey : String
  initialKey : String
  hasUserMadeChanges : Bool
  prevIsInitialized : Bool
  saveError : Option String
  /-- History: the saves that the backend has completed. -/
  saved : List (SentSave Block Scene)
  /-- History: the keys recorded as saved while clearing the unsaved flag. -/
  recorded : List String
  /-- History: how many calls of `performSave` have resolved after a save. -/
  performed : Nat
  deriving DecidableEq

/-- What asks for an immediate save. -/
inductive SaveCause
  | command
  | blur
  | beforeUnload
  | flush
  deriving DecidableEq

/-- The progress of the first run of the chain. -/
inductive SaveEvent
  | start
  /-- The backend answers with the saved path or an error message. -/
  | respond (answer : Except String String)
  | linked
  | hashed (newHash : Option String)

inductive Event (Block Scene : Type)
  | edit (change : FormEdit Block Scene) (late : Bool)
  | render
  /-- The flags say whether the form and blocks are new objects. -/
  | effects (formMoved blocksMoved : Bool)
  | frame
  | debounce
  | retry
  | saveNow (cause : SaveCause)
  | save (e : SaveEvent)
  /-- The hash of the loaded file arrives. -/
  | hashLoaded (hash : Option String)
  | selectProject (project : Option String)
  | externalChange
  | keepMine (newHash : Option String)
  | status (isArchived isLoading loadError : Bool)
  | editorReady (ready : Bool)

section

variable {Block Scene : Type}

/-! ## What a render derives -/

/-- The `enabled` property that the persistence hook passes to autosave. -/
def Screen.enabled (v : Screen Block Scene) : Bool :=
  (if v.isArchived || v.loadError || v.hasConflict then false else v.hasChanges) &&
    !(v.isLoading || v.loadError)

def Screen.key (page : Page Block Scene) (v : Screen Block Scene) : String :=
  compareKey page v.blocksHash v.form

/-- The condition of the effect that saves a new document at once. -/
def Screen.savesDirectly (v : Screen Block Scene) : Bool :=
  (!v.isArchived && v.shouldAutoSave) && v.currentProject.isSome &&
    !(v.isLoading || v.loadError)

/-- Append a run to the chain. -/
def handleSave (chain : List (Run Block Scene)) (owner : Owner)
    (v : Screen Block Scene) : List (Run Block Scene) :=
  chain ++ [⟨owner, v.currentProject, v.documentHash, .queued⟩]

namespace Session

/-! ## Saving -/

/-- The part of `performSave` before its `await`. -/
def performSave (s : Session Block Scene) (retryCount : Nat) : Session Block Scene :=
  if s.isSaving then
    s
  else
    { s with
      isSaving := true, saveError := none
      savingChain :=
        handleSave s.savingChain (.autoSave s.currentKey retryCount) s.effView }

def saveNow (s : Session Block Scene) : Session Block Scene :=
  { s with timeout := false }.performSave 0

/-- `performSave` after its `await`, when the save resolved. -/
def noteSaved (s : Session Block Scene) (savedKey : String) : Session Block Scene :=
  if s.view.enabled && s.currentKey != savedKey then
    { s with
      lastSavedKey := savedKey, isSaving := false, performed := s.performed + 1
      now := { s.now with hasUnsavedChanges := true }, timeout := true }
  else
    { s with
      lastSavedKey := savedKey, isSaving := false, performed := s.performed + 1
      now := { s.now with hasUnsavedChanges := false }
      recorded := s.recorded ++ [savedKey] }

/-- `performSave` after its `await`, when the save was rejected. -/
def noteFailure (maxRetries : Nat) (s : Session Block Scene) (retryCount : Nat)
    (message : String) : Session Block Scene :=
  if retryCount < maxRetries then
    { s with
      isSaving := false, performed := s.performed + 1
      retryTimeout := some (retryCount + 1) }
  else
    { s with
      isSaving := false, performed := s.performed + 1, saveError := some message }

/-- The first run of the chain ends. -/
def settle (maxRetries : Nat) (s : Session Block Scene) (owner : Owner)
    (outcome : Except String Unit) : Session Block Scene :=
  let s := { s with savingChain := s.savingChain.tail }
  match owner, outcome with
  | .direct, _ => s
  | .autoSave savedKey _, .ok _ => s.noteSaved savedKey
  | .autoSave _ retryCount, .error message => s.noteFailure maxRetries retryCount message

/-- Change the stage of the first run. -/
def advance (s : Session Block Scene) (stage : Stage Block Scene) :
    Session Block Scene :=
  match s.savingChain with
  | [] => s
  | run :: rest => { s with savingChain := { run with stage := stage } :: rest }

/-- What `doSave` reads when it starts. -/
def readForm (s : Session Block Scene) (run : Run Block Scene) (projectAlias : String) :
    SentSave Block Scene where
  form := s.view.form
  documentPath := s.currentDocumentPath
  projectAlias := projectAlias
  expectedHash := run.documentHash.filter (· ≠ "")

/-- `doSave` up to the request. -/
def doSave (maxRetries : Nat) (s : Session Block Scene) (run : Run Block Scene) :
    Session Block Scene :=
  match run.currentProject with
  | none => s.settle maxRetries run.owner (.ok ())
  | some projectAlias => s.advance (.sending (s.readForm run projectAlias))

/-- The backend's answer to the request. -/
def receive (maxRetries : Nat) (s : Session Block Scene) (owner : Owner)
    (sent : SentSave Block Scene) : Except String String → Session Block Scene
  | .ok savedPath =>
    { s with saved := s.saved ++ [sent] }.advance (.linking sent savedPath)
  | .error message =>
    if contains message "ERR_CONFLICT" then
      { s with now := { s.now with hasConflict := true } }.settle maxRetries owner
        (.ok ())
    else
      s.settle maxRetries owner (.error message)

/-- `save` has returned the path. -/
def resetChanges (maxRetries : Nat) (s : Session Block Scene) (owner : Owner)
    (sent : SentSave Block Scene) (savedPath : String) : Session Block Scene :=
  if savedPath = "" then
    s.settle maxRetries owner (.ok ())
  else
    { s with
      now := { s.now with hasChanges := false }
      currentDocumentPath :=
        if sent.documentPath = "" then savedPath else s.currentDocumentPath }.advance
      (.hashing sent)

/-- The hash of the saved file has been fetched, or fetching it failed. -/
def completeSave (maxRetries : Nat) (s : Session Block Scene) (owner : Owner) :
    Option String → Session Block Scene
  | none => s.settle maxRetries owner (.ok ())
  | some newHash =>
    { s with
      now := { s.now with
        documentHash := some newHash, hasConflict := false } }.settle maxRetries owner
      (.ok ())

/-! ## Rendering -/

/-- Apply the queued updates and write the refs that follow the render. -/
def render (s : Session Block Scene) : Session Block Scene :=
  let screen := { s.now with hasChanges := s.now.hasChanges || s.lateChanges }
  { s with now := screen, view := screen, lateChanges := false, effectsPending := true }

/-! ## Effects

Each effect is one update of the record; the fields it leaves alone when its
condition fails keep their value. -/

/-- New blocks are hashed in the next animation frame. -/
def hashEffect (blocksMoved : Bool) (s : Session Block Scene) : Session Block Scene :=
  { s with
    pendingHash := if blocksMoved then some s.view.form.blocks else s.pendingHash }

/-- Save a new document at once. -/
def directSaveEffect (s : Session Block Scene) : Session Block Scene :=
  { s with
    now := { s.now with
      shouldAutoSave := s.now.shouldAutoSave && !s.view.savesDirectly }
    savingChain :=
      if s.view.savesDirectly then handleSave s.savingChain .direct s.view
      else s.savingChain }

/-- The editor has become ready since the last effects. -/
def initializes (s : Session Block Scene) : Bool :=
  s.view.isEditorReady && !s.prevIsInitialized

/-- Take the content on the screen as saved when the editor becomes ready. -/
def initializedEffect (page : Page Block Scene) (s : Session Block Scene) :
    Session Block Scene :=
  { s with
    initialKey := if s.initializes then s.view.key page else s.initialKey
    lastSavedKey := if s.initializes then s.view.key page else s.lastSavedKey
    hasUserMadeChanges := s.hasUserMadeChanges && !s.initializes
    prevIsInitialized := s.view.isEditorReady
    now := { s.now with
      hasUnsavedChanges := s.now.hasUnsavedChanges && !s.initializes } }

/-- The dependencies of the autosave effect changed since it last ran. -/
def watchMoved (page : Page Block Scene) (s : Session Block Scene) (formMoved : Bool) :
    Bool :=
  formMoved || s.view.enabled != s.effView.enabled ||
    s.view.key page != s.effView.key page

/-- The user has changed the document since the baseline was taken. -/
def touched (page : Page Block Scene) (s : Session Block Scene) : Bool :=
  s.hasUserMadeChanges || s.view.key page != s.initialKey

/-- The autosave effect starts the debounce timer. -/
def schedules (page : Page Block Scene) (s : Session Block Scene) : Bool :=
  s.view.enabled && s.view.key page != s.lastSavedKey && s.touched page && !s.isSaving

/-- The autosave effect. -/
def watchEffect (page : Page Block Scene) (moved : Bool) (s : Session Block Scene) :
    Session Block Scene :=
  { s with
    currentKey := if moved then s.view.key page else s.currentKey
    hasUserMadeChanges := if moved then s.touched page else s.hasUserMadeChanges
    now := { s.now with
      hasUnsavedChanges :=
        if moved then s.view.key page != s.lastSavedKey else s.now.hasUnsavedChanges }
    timeout :=
      if moved then s.schedules page || (s.timeout && !s.clearsTimeout) else s.timeout
    clearsTimeout := if moved then s.schedules page else s.clearsTimeout }

def runEffects (page : Page Block Scene) (s : Session Block Scene)
    (formMoved blocksMoved : Bool) : Session Block Scene :=
  { (((s.hashEffect blocksMoved).directSaveEffect).initializedEffect page).watchEffect
      page (s.watchMoved page formMoved) with
    effView := s.view, effectsPending := false }

section

variable (page : Page Block Scene) (s : Session Block Scene)
  (formMoved blocksMoved : Bool)

@[simp] theorem runEffects_effView :
    (s.runEffects page formMoved blocksMoved).effView = s.view := rfl

@[simp] theorem runEffects_savingChain :
    (s.runEffects page formMoved blocksMoved).savingChain =
      if s.view.savesDirectly then handleSave s.savingChain .direct s.view
      else s.savingChain := rfl

@[simp] theorem runEffects_initialKey :
    (s.runEffects page formMoved blocksMoved).initialKey =
      if s.initializes then s.view.key page else s.initialKey := rfl

@[simp] theorem runEffects_lastSavedKey :
    (s.runEffects page formMoved blocksMoved).lastSavedKey =
      if s.initializes then s.view.key page else s.lastSavedKey := rfl

@[simp] theorem runEffects_currentKey :
    (s.runEffects page formMoved blocksMoved).currentKey =
      if s.watchMoved page formMoved then s.view.key page else s.currentKey := rfl

@[simp] theorem runEffects_hasUserMadeChanges :
    (s.runEffects page formMoved blocksMoved).hasUserMadeChanges =
      if s.watchMoved page formMoved then (s.initializedEffect page).touched page
      else s.hasUserMadeChanges && !s.initializes := rfl

@[simp] theorem runEffects_timeout :
    (s.runEffects page formMoved blocksMoved).timeout =
      if s.watchMoved page formMoved then
        (s.initializedEffect page).schedules page || (s.timeout && !s.clearsTimeout)
      else s.timeout := rfl

@[simp] theorem runEffects_clearsTimeout :
    (s.runEffects page formMoved blocksMoved).clearsTimeout =
      if s.watchMoved page formMoved then (s.initializedEffect page).schedules page
      else s.clearsTimeout := rfl

theorem initializedEffect_touched :
    (s.initializedEffect page).touched page =
      if s.initializes then false else s.touched page := by
  cases h : s.initializes <;> simp [initializedEffect, touched, h]

theorem initializedEffect_schedules :
    (s.initializedEffect page).schedules page =
      (!s.initializes && s.schedules page) := by
  cases h : s.initializes <;> simp [initializedEffect, schedules, touched, h]

end

/-! ## Steps -/

/-- The first run of the chain has still to start. -/
def isStarting (s : Session Block Scene) : Bool :=
  match s.savingChain with
  | [] => false
  | run :: _ =>
    match run.stage with
    | .queued => true
    | _ => false

/-- When each caller of `saveNow` may call it. -/
def mayCall (s : Session Block Scene) : SaveCause → Bool
  | .command => !s.effView.isArchived && !s.effView.loadError
  | .blur =>
    s.effView.enabled && s.effView.isEditorReady && s.effView.hasUnsavedChanges &&
      !s.isSaving
  | .beforeUnload => s.effView.enabled && s.effView.hasUnsavedChanges
  | .flush => s.view.hasUnsavedChanges

/-- `updateFormData`. -/
def updateFormData (page : Page Block Scene) (s : Session Block Scene)
    (change : FormEdit Block Scene) (late : Bool) : Session Block Scene :=
  match change.apply page s.now.form with
  | none => s
  | some next =>
    { s with
      now := { s.now with form := next, hasChanges := s.now.hasChanges || !late }
      lateChanges := s.lateChanges || late }

/-- A change of the React state that the environment makes. -/
def setScreen (s : Session Block Scene) (screen : Screen Block Scene) :
    Session Block Scene :=
  { s with now := screen }

/-- The first run of the chain moves on. -/
def stepSave (maxRetries : Nat) (s : Session Block Scene) (run : Run Block Scene) :
    SaveEvent → Option (Session Block Scene)
  | .start =>
    match run.stage with
    | .queued => some (s.doSave maxRetries run)
    | _ => none
  | .respond answer =>
    match run.stage with
    | .sending sent => some (s.receive maxRetries run.owner sent answer)
    | _ => none
  | .linked =>
    match run.stage with
    | .linking sent savedPath =>
      some (s.resetChanges maxRetries run.owner sent savedPath)
    | _ => none
  | .hashed newHash =>
    match run.stage with
    | .hashing _ => some (s.completeSave maxRetries run.owner newHash)
    | _ => none

variable [DecidableEq Block] [DecidableEq Scene]

/-- The two flags of an effects event fit the objects they are about: content
that differs cannot be in the same object, and new blocks mean a new form. -/
def movesFit (s : Session Block Scene) (formMoved blocksMoved : Bool) : Bool :=
  (formMoved || s.view.form == s.effView.form) &&
    (blocksMoved || s.view.form.blocks == s.effView.form.blocks) &&
    (formMoved || !blocksMoved)

/-- A task other than the progress of a save. -/
def stepTask (page : Page Block Scene) (s : Session Block Scene) :
    Event Block Scene → Option (Session Block Scene)
  | .edit change late => some (s.updateFormData page change late)
  | .render => if s.effectsPending then none else some s.render
  | .effects formMoved blocksMoved =>
    if s.effectsPending && s.movesFit formMoved blocksMoved then
      some (s.runEffects page formMoved blocksMoved)
    else
      none
  | .frame =>
    s.pendingHash.map fun blocks =>
      { s with
        pendingHash := none
        now := { s.now with blocksHash := page.computeContentHash blocks } }
  | .debounce =>
    if s.timeout then some ({ s with timeout := false }.performSave 0) else none
  | .retry =>
    s.retryTimeout.map fun retryCount =>
      { s with retryTimeout := none }.performSave retryCount
  | .saveNow cause => if s.mayCall cause then some s.saveNow else none
  | .hashLoaded hash => some (s.setScreen { s.now with documentHash := hash })
  | .selectProject project => some (s.setScreen { s.now with currentProject := project })
  | .externalChange => some (s.setScreen { s.now with hasConflict := true })
  | .keepMine newHash =>
    some (s.setScreen { s.now with
      hasConflict := false
      documentHash := if s.documentPath = "" then s.now.documentHash else newHash })
  | .status isArchived isLoading loadError =>
    some (s.setScreen { s.now with
      isArchived := isArchived, isLoading := isLoading, loadError := loadError })
  | .editorReady ready => some (s.setScreen { s.now with isEditorReady := ready })
  | .save _ => none

def step (page : Page Block Scene) (maxRetries : Nat) (s : Session Block Scene) :
    Event Block Scene → Option (Session Block Scene)
  | .save e =>
    match s.savingChain with
    | [] => none
    | run :: _ => s.stepSave maxRetries run e
  | e => if s.isStarting then none else s.stepTask page e

end Session

/-! ## Opening a document -/

/-- How the editor was opened. -/
inductive Opened (Block Scene : Type)
  /-- An existing document has been loaded. -/
  | loaded (documentPath : String) (form : FormData Block Scene)
  /-- A new document, which is saved at once. -/
  | fresh (form : FormData Block Scene)

def Opened.form : Opened Block Scene → FormData Block Scene
  | .loaded _ form | .fresh form => form

/-- The content that was stored when the editor was opened. -/
def Opened.stored : Opened Block Scene → Option (FormData Block Scene)
  | .loaded _ form => some form
  | .fresh _ => none

/-- The form of a component that has not been given one. -/
def defaultFormData : FormData Block Scene where
  title := ""
  blocks := []
  tags := []
  kind := .document
  scene := none
  assets := none

/-- The screen as the effects of the first render saw it. -/
def Opened.mounted (page : Page Block Scene) (project : Option String)
    (opened : Opened Block Scene) : Screen Block Scene :=
  let form := match opened with
    | .loaded _ _ => defaultFormData
    | .fresh form => form
  { form := form, hasChanges := false
    blocksHash := page.computeContentHash form.blocks
    hasUnsavedChanges := false, currentProject := project, documentHash := none
    hasConflict := false, isArchived := false, isLoading := false, loadError := false
    isEditorReady := false, shouldAutoSave := false }

/-- The editor right after the form has been initialised. -/
def start (page : Page Block Scene) (project : Option String)
    (opened : Opened Block Scene) : Session Block Scene :=
  let screen := opened.mounted page project
  let path := match opened with
    | .loaded path _ => path
    | .fresh _ => ""
  { now := { screen with
      form := opened.form, hasUnsavedChanges := true
      shouldAutoSave := opened.stored.isNone }
    view := screen, effView := screen, effectsPending := false, lateChanges := false
    pendingHash := none, documentPath := path, currentDocumentPath := path
    savingChain := [], timeout := false, clearsTimeout := false, retryTimeout := none
    isSaving := false, currentKey := screen.key page, lastSavedKey := ""
    initialKey := "", hasUserMadeChanges := true, prevIsInitialized := false
    saveError := none, saved := [], recorded := [], performed := 0 }

/-! ## What is stored -/

/-- The content that is stored: the last save, or what was loaded. -/
def persisted (opened : Opened Block Scene) (s : Session Block Scene) :
    Option (FormData Block Scene) :=
  match s.saved.getLast? with
  | some sent => some sent.form
  | none => opened.stored

/-- The last content the backend has saved is the content of the form. -/
def ShowsSaved (page : Page Block Scene) (opened : Opened Block Scene)
    (s : Session Block Scene) : Prop :=
  ∃ form, persisted opened s = some form ∧
    sentContent page form = sentContent page s.now.form

end

/-! ## A document that is being edited -/

namespace SampleEditor

/-- Blocks are texts, and there are no drawings. -/
def page : Page String Unit where
  computeContentHash := String.join
  extractTitleFromBlocks blocks := blocks.headD "Untitled"
  normalizeBlock := id
  sceneKey _ := ""
  appStateKey _ := ""
  keyLE a b := decide (a ≤ b)

def form (title : String) : FormData String Unit where
  title := title
  blocks := ["a"]
  tags := []
  kind := .document
  scene := none
  assets := none

def opened : Opened String Unit := .loaded "p.json" (form "a")

def setTitle (title : String) : Event String Unit := .edit (.setTitle title) false

/-- The document is shown, its blocks are hashed, and the editor becomes ready. -/
def opening : List (Event String Unit) :=
  [.render, .effects true true, .frame, .editorReady true, .render,
    .effects false false]

/-- An edit is rendered and saved when the timer fires. -/
def editing : List (Event String Unit) :=
  [setTitle "b", .render, .effects true false, .debounce, .save .start]

def final (events : List (Event String Unit)) : Option (Session String Unit) :=
  run (Session.step page 3) (start page (some "@p") opened) events

end SampleEditor

end Yanta.Editor
