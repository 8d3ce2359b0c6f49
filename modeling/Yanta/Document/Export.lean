import Yanta.Asset.Reference
import Yanta.Document.Markdown
import Yanta.Go.Regexp
import Yanta.Vault.Tree

/-!
# Exporting a document

`Exporter` of `internal/document/export.go` converts a document to Markdown, copies the
assets that the text refers to next to the file and rewrites their URLs. The exporter looks
for URLs below `/api/assets/`, while the asset service gives out URLs below `/assets/`.
-/

namespace Yanta.Document

open Go Yanta.Asset List Regexp

/-! ## References in the text -/

structure AssetReference where
  projectAlias : String
  hash : String
  ext : String
  originalURL : Line
deriving DecidableEq, Repr

variable {ref : AssetReference} {projectAlias : String} {markdown : Line}

def apiAssets : Line := "/api/assets/".toList

/-- `(/api/assets/[^)]+)` in parentheses. -/
def targetPattern : Regexp :=
  .seq (.text [']', '(']) (.seq
    (.group 1 (.seq (.text apiAssets) (Regexp.plus true (.set fun c => c != ')'))))
    (.text [')']))

/-- `!\[[^\]]*\]\((/api/assets/[^)]+)\)`. -/
def imagePattern : Regexp :=
  .seq (.text ['!', '[']) (.seq (.star true (.set fun c => c != ']')) targetPattern)

/-- `\[[^\]]+\]\((/api/assets/[^)]+)\)`. -/
def linkPattern : Regexp :=
  .seq (.text ['[']) (.seq (Regexp.plus true (.set fun c => c != ']')) targetPattern)

/-- `^/api/assets/(@[^/]+)/([a-f0-9]{64})(\.[\w]+)?$`. -/
def assetPattern : Regexp :=
  .seq (.text apiAssets) (.seq
    (.group 1 (.seq (.text ['@']) (Regexp.plus true (.set fun c => c != '/'))))
    (.seq (.text ['/']) (.seq (.group 2 (Regexp.times 64 (.set isHashChar)))
      (.seq (Regexp.opt (.group 3 (.seq (.text ['.']) (Regexp.plus true (.set Regexp.word)))))
        .eot))))

/-- `parseAssetURL`; none if the URL has another form. -/
def parseAssetURL (url : Line) : Option AssetReference :=
  (assetPattern.findSubmatch (String.ofList url)).map fun captures =>
    { projectAlias := String.ofList (captures.get 1)
      hash := String.ofList (captures.get 2)
      ext := String.ofList (captures.get 3)
      originalURL := url }

/-- `extractAssetReferences`: images, and links to assets that are not among them yet. -/
def extractAssetReferences (markdown : Line) : List AssetReference :=
  let images := (imagePattern.findAllSubmatch markdown).filterMap fun captures =>
    parseAssetURL (captures.get 1)
  let links := (linkPattern.findAllSubmatch markdown).filterMap fun captures =>
    parseAssetURL (captures.get 1)
  links.foldl
    (fun refs ref =>
      if refs.any fun known => known.originalURL == ref.originalURL then refs
      else refs ++ [ref])
    images

/-- `rewriteAssetLinks`. -/
def rewriteAssetLinks (markdown : Line) (refs : List AssetReference) : Line :=
  refs.foldl
    (fun result ref =>
      replaceAux ref.originalURL ("./assets/" ++ ref.hash ++ ref.ext).toList result.length
        result)
    markdown

/-! ## The export -/

/-- The asset files of the projects, and the hash of their contents. -/
structure AssetFiles (α : Type) where
  lower : Char → Char
  file : String → String → Option α
  computeHash : α → String

/-- What the file system answers. -/
structure ExportFaults where
  read : Option String
  mkdir : Option String
  mkdirAssets : Option String
  writeAsset : String → Option String
  write : Option String

/-- The files that are written: assets by name, and the Markdown. -/
structure Exported (α : Type) where
  assets : List (String × α)
  markdown : Line

/-- How an export ends without a Markdown file. -/
inductive ExportFailure where
  | error (text : String)
  | panicked
deriving DecidableEq, Repr

section

variable {α β : Type} (rt : Runtime β) (files : AssetFiles α) (faults : ExportFaults)

/-- `ReadAsset`. -/
def readAsset (projectAlias hash ext : String) : Except String α := do
  wrapError "invalid hash" (checkHash hash)
  let ext := normalizeExtension files.lower ext
  wrapError "invalid extension" (checkExtension ext)
  match files.file projectAlias (hash ++ ext) with
  | none => .error ("asset not found: " ++ hash ++ ext)
  | some data =>
    let actualHash := files.computeHash data
    if actualHash ≠ hash then
      .error ("hash mismatch: expected " ++ hash ++ ", got " ++ actualHash)
    else .ok data

/-- `copyAsset`: the name of the copy and its contents. -/
def copyAsset (ref : AssetReference) : Except String (String × α) := do
  let data ← wrapError "reading asset from vault"
    (readAsset files ref.projectAlias ref.hash ref.ext)
  wrapError "creating assets directory" (attempt faults.mkdirAssets)
  wrapError "writing asset file" (attempt (faults.writeAsset (ref.hash ++ ref.ext)))
  return (ref.hash ++ ref.ext, data)

/-- The loop over the references. -/
def copyAssets : List AssetReference → Except String (List (String × α))
  | [] => .ok []
  | ref :: refs => do
      let copy ← wrapError ("copying asset " ++ String.ofList ref.originalURL)
        (copyAsset files faults ref)
      let copies ← copyAssets refs
      return copy :: copies

/-- What is written for the text of a document. -/
def exportMarkdown (markdown : Line) : Except String (Exported α) := do
  let refs := extractAssetReferences markdown
  wrapError "creating output directory" (attempt faults.mkdir)
  let assets ← copyAssets files faults refs
  wrapError "writing markdown file" (attempt faults.write)
  return ⟨assets, rewriteAssetLinks markdown refs⟩

/-- `ExportDocument`. -/
def exportDocument (now : Time) (v : Vault β) (documentPath outputPath : String) :
    Except ExportFailure (Exported α) :=
  if documentPath = "" then .error (.error "document path is required")
  else if outputPath = "" then .error (.error "output path is required")
  else
    match readFile rt now faults.read v documentPath with
    | .error e => .error (.error ("reading document: " ++ e.text))
    | .ok doc =>
      match toMarkdown rt doc with
      | none => .error .panicked
      | some markdown => (exportMarkdown files faults markdown).mapError .error

end

/-! ## The URLs of the service -/

/-- A URL that the asset service gives out for an asset of a project. -/
def ServiceURL (projectAlias hash ext url : String) : Prop :=
  Vault.validateAlias projectAlias = .ok () ∧ buildURL projectAlias hash ext = .ok url

/-- The URL of a reference that the exporter finds. -/
def ApiURL (url : Line) : Prop :=
  ∃ name hash ext : Line, url = apiAssets ++ ('@' :: (name ++ '/' :: (hash ++ ext))) ∧
    (∀ c ∈ name, c ≠ '/') ∧ hash.length = 64 ∧ (∀ c ∈ hash, isHashChar c = true) ∧
    ∀ c ∈ ext, c ≠ '(' ∧ c ≠ '/'

theorem apiURL_of_parseAssetURL {url : Line} (h : parseAssetURL url = some ref) :
    ref.originalURL = url ∧ ApiURL url := by
  obtain ⟨captures, hfind, rfl⟩ := Option.map_eq_some_iff.mp h
  refine ⟨rfl, ?_⟩
  refine findSubmatch_spec (motive := fun _ => ApiURL url) ?_ hfind
  intro c t hrun
  rw [String.toList_ofList] at hrun
  obtain ⟨c₁, s₁, hapi, hrest⟩ := mem_seq.mp hrun
  obtain ⟨c₂, s₂, hgroup, hrest₂⟩ := mem_seq.mp hrest
  obtain ⟨c₃, hproject, -⟩ := mem_group.mp hgroup
  obtain ⟨c₄, s₄, hat, hplus⟩ := mem_seq.mp hproject
  obtain ⟨c₅, s₅, hslash, hrest₃⟩ := mem_seq.mp hrest₂
  obtain ⟨c₆, s₆, hgroup₂, hrest₄⟩ := mem_seq.mp hrest₃
  obtain ⟨c₇, htimes, -⟩ := mem_group.mp hgroup₂
  obtain ⟨c₈, s₈, hopt, heot⟩ := mem_seq.mp hrest₄
  obtain ⟨-, hurl⟩ := mem_text.mp hapi
  obtain ⟨-, hs₁⟩ := mem_text.mp hat
  obtain ⟨-, name, -, hname, hs₄⟩ := mem_plus_set.mp hplus
  obtain ⟨-, hs₂⟩ := mem_text.mp hslash
  obtain ⟨-, hash, hlength, hhash, hs₅⟩ := mem_times_set.mp htimes
  obtain ⟨-, hs₈, -⟩ := mem_eot.mp heot
  obtain ⟨ext, hs₆, hext⟩ : ∃ ext, s₆ = ext ∧ ∀ c ∈ ext, c ≠ '(' ∧ c ≠ '/' := by
    rcases mem_alt.mp hopt with hsome | hnone
    · obtain ⟨c₉, hdot, -⟩ := mem_group.mp hsome
      obtain ⟨c₁₀, s₁₀, hdot, hword⟩ := mem_seq.mp hdot
      obtain ⟨-, hs₆⟩ := mem_text.mp hdot
      obtain ⟨-, word, -, hword, hs₁₀⟩ := mem_plus_set.mp hword
      refine ⟨_, hs₆, ?_⟩
      rw [hs₁₀, hs₈, append_nil]
      intro c hc
      rcases mem_cons.mp hc with rfl | hc
      · decide
      · have hwordChar := hword c hc
        constructor <;> rintro rfl <;> exact absurd hwordChar (by decide)
    · obtain ⟨-, hs⟩ := mem_empty.mp hnone
      exact ⟨[], by rw [← hs, hs₈], by simp⟩
  refine ⟨name, hash, ext, ?_, ?_, hlength, hhash, hext⟩
  · rw [hurl, hs₁, hs₄, hs₂, hs₅, hs₆]
    simp
  · intro c hc
    simpa using hname c hc

/-- The form of the URLs of the service. -/
def AssetPath (url : Line) : Prop :=
  ∃ name hash ext : Line, url = "/assets/".toList ++ ('@' :: (name ++ '/' :: (hash ++ ext))) ∧
    (∀ c ∈ name, c ≠ '/') ∧ hash.length = 64 ∧ (∀ c ∈ hash, isHashChar c = true) ∧
    ∀ c ∈ ext, c ≠ '/'

theorem ne_slash_of_isHashChar {c : Char} (h : isHashChar c = true) : c ≠ '/' := by
  rintro rfl
  exact absurd h (by decide)

theorem assetPath_of_serviceURL {hash ext url : String}
    (h : ServiceURL projectAlias hash ext url) : AssetPath url.toList := by
  obtain ⟨halias, hurl⟩ := h
  obtain ⟨name, hname, -, hchars⟩ := Vault.validateAlias_chars halias
  obtain ⟨hhash, hext, rfl⟩ := buildURL_eq_ok hurl
  rw [validateHash, Bool.and_eq_true, beq_iff_eq, all_eq_true] at hhash
  refine ⟨name, hash.toList, ext.toList, ?_, ?_, hhash.1, hhash.2, ?_⟩
  · simp [assetURL, hname]
  · rintro c hc rfl
    exact absurd (hchars _ hc) (by decide)
  · rintro c hc rfl
    cases hlist : ext.toList with
    | nil => simp [hlist] at hc
    | cons d ds =>
      simp only [validateExtension, hlist, Bool.and_eq_true, all_eq_true] at hext
      rw [hlist] at hc
      rcases mem_cons.mp hc with rfl | hc
      · exact absurd hext.1.1.1 (by decide)
      · exact absurd (hext.2 _ hc) (by decide)

/-! ## What a replacement leaves -/

/-- What stands behind a slash. -/
theorem slash_suffix {a b u : Line} (ha : ∀ c ∈ a, c ≠ '/') (h : '/' :: u <:+ a ++ '/' :: b) :
    u = b ∨ '/' :: u <:+ b := by
  obtain ⟨w, hw⟩ := h
  rcases append_eq_append_iff.mp hw with ⟨z, hz, hz'⟩ | ⟨z, hz, hz'⟩
  · cases z with
    | nil => exact .inl (List.cons.inj hz').2
    | cons x z =>
      have hx : x = '/' := (List.cons.inj hz').1.symm
      exact absurd hx (ha x (by rw [hz]; simp))
  · cases z with
    | nil => exact .inl (List.cons.inj hz').2.symm
    | cons x z => exact .inr ⟨z, (List.cons.inj hz').2.symm⟩

theorem exists_cons_cons {hash : Line} (h : hash.length = 64) :
    ∃ h₀ h₁ rest, hash = h₀ :: h₁ :: rest := by
  cases hash with
  | nil => simp at h
  | cons h₀ hash =>
    cases hash with
    | nil => simp at h
    | cons h₁ rest => exact ⟨h₀, h₁, rest, rfl⟩

/-- No URL of the exporter starts in a URL of the service. -/
theorem not_apiURL_prefix {keep old : Line} (hkeep : AssetPath keep) (hold : ApiURL old)
    (post u : Line) (hu : u <:+ '(' :: keep) (hne : u ≠ []) : ¬old <+: u ++ post := by
  obtain ⟨name, hash, ext, rfl, hname, hlength, hhash, hext⟩ := hkeep
  obtain ⟨name', hash', ext', rfl, -⟩ := hold
  intro hpre
  cases u with
  | nil => exact hne rfl
  | cons x u =>
    have hslash : x = '/' := by
      have hhead := (cons_prefix_cons.mp hpre).1
      exact hhead.symm
    subst hslash
    have htail := (cons_prefix_cons.mp hpre).2
    have hfirst : ∀ {y : Char} {rest : Line}, u = y :: rest → y = 'a' := by
      rintro y rest rfl
      exact (cons_prefix_cons.mp htail).1.symm
    have hsecond : ∀ {y z : Char} {rest : Line}, u = y :: z :: rest → z = 'p' := by
      rintro y z rest rfl
      exact (cons_prefix_cons.mp (cons_prefix_cons.mp htail).2).1.symm
    -- The three slashes of the URL, one after the other.
    rcases slash_suffix (a := ['(']) (by simp) hu with rfl | hu₂
    · exact absurd (hsecond rfl) (by decide)
    rcases slash_suffix (a := "assets".toList) (by simp) hu₂ with rfl | hu₃
    · exact absurd (hfirst rfl) (by decide)
    have hproject : ∀ c ∈ '@' :: name, c ≠ '/' := by
      intro c hc
      rcases mem_cons.mp hc with rfl | hc
      · decide
      · exact hname c hc
    rcases slash_suffix hproject hu₃ with rfl | hu₄
    · obtain ⟨h₀, h₁, rest, rfl⟩ := exists_cons_cons hlength
      have hp : h₁ = 'p' := hsecond rfl
      exact absurd (hhash h₁ (by simp)) (by rw [hp]; decide)
    · have hin : '/' ∈ hash ++ ext := hu₄.subset mem_cons_self
      rcases mem_append.mp hin with hin | hin
      · exact ne_slash_of_isHashChar (hhash _ hin) rfl
      · exact hext _ hin rfl

/-- No URL of the exporter reaches into a URL of the service behind a parenthesis. -/
theorem not_apiURL_crosses {keep old : Line} (hkeep : AssetPath keep) (hold : ApiURL old)
    (post u v : Line) (hv : v ≠ []) (heq : old = u ++ v) : ¬v <+: '(' :: keep ++ post := by
  obtain ⟨name, hash, ext, rfl, -⟩ := hkeep
  obtain ⟨name', hash', ext', rfl, hname', hlength', hhash', hext'⟩ := hold
  intro hpre
  obtain ⟨v', hv', hbehind⟩ : ∃ v', v = '(' :: v' ∧ v' <+: _ ++ post := by
    cases v with
    | nil => exact absurd rfl hv
    | cons x v =>
      obtain ⟨rfl, hrest⟩ := cons_prefix_cons.mp hpre
      exact ⟨v, rfl, hrest⟩
  have hsplit : (apiAssets ++ '@' :: name') ++ '/' :: (hash' ++ ext') = u ++ '(' :: v' := by
    rw [← hv', ← heq]
    simp
  -- The parenthesis is in the alias of the exporter's URL, since nothing else has one.
  rcases append_eq_append_iff.mp hsplit with ⟨w, -, hw⟩ | ⟨w, hw, hw'⟩
  · have hin : '(' ∈ '/' :: (hash' ++ ext') := by rw [hw]; simp
    rcases mem_cons.mp hin with hin | hin
    · exact absurd hin (by decide)
    · rcases mem_append.mp hin with hin | hin
      · exact absurd (hhash' _ hin) (by decide)
      · exact (hext' _ hin).1 rfl
  cases w with
  | nil => exact absurd (List.cons.inj hw').1 (by decide)
  | cons x w =>
    obtain ⟨rfl, hw''⟩ := List.cons.inj hw'
    rw [hw''] at hbehind
    cases w with
    | nil =>
      obtain ⟨h₀, h₁, rest, rfl⟩ := exists_cons_cons hlength'
      have hs : h₁ = 's' := (cons_prefix_cons.mp (cons_prefix_cons.mp
        (cons_prefix_cons.mp hbehind).2).2).1
      exact absurd (hhash' h₁ (by simp)) (by rw [hs]; decide)
    | cons y w =>
      have hy : y = '/' := (cons_prefix_cons.mp hbehind).1
      subst hy
      have hsplit' : (apiAssets ++ ['@']) ++ name' = u ++ '(' :: '/' :: w := by
        rw [← hw]
        simp
      rcases append_eq_append_iff.mp hsplit' with ⟨z, -, hz⟩ | ⟨z, hz, hz'⟩
      · exact hname' '/' (by rw [hz]; simp) rfl
      · cases z with
        | nil => exact hname' '/' (by rw [← nil_append name', ← hz']; simp) rfl
        | cons x z =>
          have hin : x ∈ apiAssets ++ ['@'] := by rw [hz]; simp
          rw [← (List.cons.inj hz').1] at hin
          exact absurd hin (by decide)

section

/-- The references that are found have URLs of the exporter's form. -/
theorem apiURL_of_mem (h : ref ∈ extractAssetReferences markdown) :
    ApiURL ref.originalURL := by
  have hparsed : ∀ {found : List Captures} {ref : AssetReference},
      ref ∈ found.filterMap (fun captures => parseAssetURL (captures.get 1)) →
        ApiURL ref.originalURL := by
    intro found ref hin
    obtain ⟨captures, -, hparse⟩ := mem_filterMap.mp hin
    obtain ⟨hurl, hapi⟩ := apiURL_of_parseAssetURL hparse
    rwa [hurl]
  have hfold : ∀ (links refs : List AssetReference),
      (∀ ref ∈ refs, ApiURL ref.originalURL) → (∀ ref ∈ links, ApiURL ref.originalURL) →
      ∀ ref ∈ links.foldl (fun refs ref =>
        if refs.any fun known => known.originalURL == ref.originalURL then refs
        else refs ++ [ref]) refs, ApiURL ref.originalURL := by
    intro links
    induction links with
    | nil => exact fun refs hrefs _ => hrefs
    | cons link links ih =>
      intro refs hrefs hlinks
      rw [foldl_cons]
      refine ih _ ?_ (forall_mem_cons.mp hlinks).2
      intro ref hin
      split_ifs at hin
      · exact hrefs ref hin
      · rcases mem_append.mp hin with hin | hin
        · exact hrefs ref hin
        · rw [mem_singleton.mp hin]
          exact hlinks link mem_cons_self
  exact hfold _ _ (fun ref => hparsed) (fun ref => hparsed) ref h

/-- Rewriting leaves the URLs of the service as they are. -/
theorem shown_rewriteAssetLinks {url : String} (hurl : AssetPath url.toList)
    {refs : List AssetReference} (hrefs : ∀ ref ∈ refs, ApiURL ref.originalURL)
    (h : Shown url markdown) : Shown url (rewriteAssetLinks markdown refs) := by
  induction refs generalizing markdown with
  | nil => exact h
  | cons ref refs ih =>
    have hapi := hrefs ref mem_cons_self
    refine ih (forall_mem_cons.mp hrefs).2 ?_
    exact infix_replaceAux (fun post u => not_apiURL_prefix hurl hapi post u)
      (fun post u v _ => not_apiURL_crosses hurl hapi post u v) h

end

/-- The asset is copied and the text refers to the copy instead of the URL. -/
def Carried {α : Type} (out : Exported α) (hash ext url : String) : Prop :=
  hash ++ ext ∈ out.assets.map Prod.fst ∧
    ("./assets/" ++ hash ++ ext).toList <:+: out.markdown ∧ ¬url.toList <:+: out.markdown

/-- An export carries no asset that the document refers to by a URL of the service. -/
theorem not_carried {α β : Type} {rt : Runtime β} {files : AssetFiles α}
    {faults : ExportFaults} {now : Time} {v : Vault β} {path outputPath : String}
    {doc : DocumentFile} (hread : readFile rt now faults.read v path = .ok doc)
    {hash ext url : String} (hurl : ServiceURL projectAlias hash ext url)
    (htarget : url ∈ doc.targets) {out : Exported α}
    (hout : exportDocument rt files faults now v path outputPath = .ok out) :
    ¬Carried out hash ext url := by
  unfold exportDocument at hout
  split_ifs at hout
  rw [hread] at hout
  simp only at hout
  cases hmarkdown : toMarkdown rt doc with
  | none => simp [hmarkdown] at hout
  | some markdown =>
    have hexport : exportMarkdown files faults markdown = .ok out := by
      rw [hmarkdown] at hout
      cases hresult : exportMarkdown files faults markdown with
      | error text => simp [hresult, Except.mapError] at hout
      | ok out' =>
        simp only [hresult] at hout
        rw [Except.ok.inj hout]
    obtain ⟨_, -, hexport⟩ := bind_eq_ok.mp hexport
    obtain ⟨assets, -, hexport⟩ := bind_eq_ok.mp hexport
    obtain ⟨_, -, hexport⟩ := bind_eq_ok.mp hexport
    obtain rfl := Except.ok.inj hexport
    rintro ⟨-, -, hnot⟩
    have hrefs : ∀ ref ∈ extractAssetReferences markdown, ApiURL ref.originalURL :=
      fun ref hin => apiURL_of_mem hin
    have hshown := shown_rewriteAssetLinks (assetPath_of_serviceURL hurl) hrefs
      (shown_toMarkdown htarget hmarkdown)
    exact hnot ((suffix_cons '(' url.toList).isInfix.trans hshown)

section

variable {α β : Type} (rt : Runtime β) (files : AssetFiles α) (faults : ExportFaults)
  (now : Time) (v : Vault β) (path outputPath : String) (doc : DocumentFile)

/-- Every asset that the document refers to by a URL of the service and whose file can be
read is carried by the export. -/
def CarriesAssets : Prop :=
  ∀ projectAlias hash ext url data, ServiceURL projectAlias hash ext url →
    url ∈ doc.targets → readAsset files projectAlias hash ext = .ok data →
    ∃ out, exportDocument rt files faults now v path outputPath = .ok out ∧
      Carried out hash ext url

/-- The document refers to such an asset. -/
def RefersToAsset : Prop :=
  ∃ projectAlias hash ext url data, ServiceURL projectAlias hash ext url ∧
    url ∈ doc.targets ∧ readAsset files projectAlias hash ext = .ok data

end

/-- A document of these blocks. -/
def sampleDocument (blocks : List BlockNoteBlock) : DocumentFile where
  docMeta := ⟨"@my-notes", "T", [], [], 0, 0⟩
  kind := documentKindDocument
  scene := none
  blocks := blocks
  assets := []

/-- A vault with the document alone. -/
def sampleVault (blocks : List BlockNoteBlock) : Vault DocumentFile :=
  AList.singleton "projects/@my-notes/a.json" ⟨sampleDocument blocks, 0⟩

def sampleHash : String := String.ofList (List.replicate 64 'a')

/-- One asset, whose contents are its hash. -/
def sampleFiles : AssetFiles String where
  lower := id
  file projectAlias name :=
    if projectAlias = "@my-notes" ∧ name = sampleHash ++ ".png" then some sampleHash else none
  computeHash := id

def noFaults : ExportFaults := ⟨none, none, none, fun _ => none, none⟩

/-- An image of the document. -/
def sampleImage : BlockNoteBlock :=
  .mk "1" "image" [("url", .str (assetURL "@my-notes" sampleHash ".png"))] none []

end Yanta.Document
