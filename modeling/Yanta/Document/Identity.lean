import Yanta.Document.Save
import Yanta.Project.Store
import Yanta.Support.Runs

/-!
# What saves keep of a document

Every save builds a new file from the request and takes the creation time and the aliases
from the file it replaces. Over any sequence of saves of one document, failed ones included,
its kind, creation time and aliases stay as they were, and a save that succeeds stores the
title, the tags and the content of its request.
-/

namespace Yanta.Document

open Go Yanta.Vault Index Support

/-- What identifies a document; a file without a kind is a document. -/
structure Identity where
  kind : String
  created : Time
  aliases : List String
deriving DecidableEq, Repr

def DocumentFile.identity (d : DocumentFile) : Identity :=
  ⟨kindOf d.kind, d.docMeta.created, d.docMeta.aliases⟩

/-- The file has the title, the tags and the content that the request asks for. -/
structure StoresRequest (lower : Char → Char) (req : SaveRequest) (d : DocumentFile) :
    Prop where
  title : d.docMeta.title = trimSpace req.title
  tags : d.docMeta.tags = normalizeTags lower req.tags
  document : kindOf req.kind = documentKindDocument → d.blocks = req.blocks
  canvas : kindOf req.kind = documentKindCanvas →
    d.scene = req.scene ∧ d.assets = req.assets

section

variable {β : Type} {rt : Runtime β} {env : SaveEnv} {req : SaveRequest} {v : Vault β}
  {db : Db} {absPath : String} {ident : Identity}

variable (rt) in
/-- The next save, whether it succeeds or not. -/
def saveStep (s : Workspace β) (call : SaveEnv × SaveRequest) : Option (Workspace β) :=
  let outcome := save rt call.1 s.vault s.db call.2
  some ⟨outcome.vault, outcome.db⟩

variable (rt) in
/-- The file at the path, if there is one, is that of the document. -/
def KeepsIdentity (absPath : String) (ident : Identity) (v : Vault β) : Prop :=
  ∀ file, v.lookup absPath = some file →
    ∃ stored, rt.unmarshalDocument file.data = .ok stored ∧ stored.identity = ident

variable (rt) in
theorem identity_normalize (d : DocumentFile) : (d.normalize rt).identity = d.identity := by
  simp [DocumentFile.identity, DocumentFile.normalize, kindOf_kindOf]

variable (rt) in
theorem kindOf_requestedFile (now : Time)
    (h : kindOf req.kind = documentKindCanvas ∨ kindOf req.kind = documentKindDocument) :
    kindOf (requestedFile rt now req).kind = kindOf req.kind := by
  rw [requestedFile]
  split_ifs with hcanvas
  · rw [hcanvas]
    rfl
  · rw [h.resolve_left hcanvas]
    rfl

theorem storesRequest_merged (now : Time) (existing : DocumentFile) :
    StoresRequest rt.lower req
      ((mergedFile (requestedFile rt now req) existing).normalize rt) where
  title := by
    simp only [requestedFile]
    split_ifs <;> rfl
  tags := by
    simp only [requestedFile]
    split_ifs <;> rfl
  document h := by
    have hcanvas : kindOf req.kind ≠ documentKindCanvas := by
      rw [h]
      decide
    simp [DocumentFile.normalize, mergedFile, requestedFile, if_neg hcanvas]
  canvas h := by
    simp only [requestedFile, if_pos h]
    exact ⟨rfl, rfl⟩

/-- What an update is about to store has the identity of the file that was read. -/
theorem saveDocument_identity {d : DocumentFile} (hpath : documentPath req.path = .ok absPath)
    (hkeeps : KeepsIdentity rt absPath ident v) (h : saveDocument rt env v req = .ok d) :
    d.identity = ident ∧ StoresRequest rt.lower req (d.normalize rt) := by
  simp only [saveDocument, bind_eq_ok, if_neg (ne_empty_of_documentPath hpath),
    label_eq_ok] at h
  obtain ⟨docFile, hbuild, existing, hread, hmerge⟩ := h
  obtain ⟨-, -, hkind, rfl⟩ := saveBuild_eq_ok.mp hbuild
  obtain ⟨hsame, -, rfl⟩ := saveMerge_eq_ok.mp hmerge
  refine ⟨?_, storesRequest_merged env.buildTime existing⟩
  obtain ⟨absPath', file, hpath', hfile, -, -, hjson⟩ := readFile_eq_ok.mp hread
  obtain rfl : absPath = absPath' := Except.ok.inj (hpath.symm.trans hpath')
  obtain ⟨stored, hstored, rfl, -⟩ := fromJSON_eq_ok.mp hjson
  obtain ⟨stored', hstored', rfl⟩ := hkeeps file hfile
  obtain rfl : stored = stored' := Except.ok.inj (hstored.symm.trans hstored')
  rw [← identity_normalize rt stored]
  simp only [DocumentFile.identity, mergedFile, kindOf_requestedFile rt env.buildTime hkind,
    hsame]

section

variable (env db) (hrt : rt.Faithful) (hpath : documentPath req.path = .ok absPath)
  (hkeeps : KeepsIdentity rt absPath ident v)

include hrt hpath hkeeps

/-- The outcome of an update: nothing was written, or the new contents are there, or they
were removed again; a success means that they are there and can be read. -/
theorem save_update_cases :
    ((save rt env v db req).vault = v ∧ (save rt env v db req).result.isOk = false) ∨
    ((save rt env v db req).vault.lookup absPath = none ∧
      (save rt env v db req).result.isOk = false) ∨
    ∃ file stored, (save rt env v db req).vault.lookup absPath = some file ∧
      rt.unmarshalDocument file.data = .ok stored ∧ stored.identity = ident ∧
      StoresRequest rt.lower req stored := by
  have hsavePath : savePath env req = req.path := if_neg (ne_empty_of_documentPath hpath)
  rcases save_cases hrt env v db req with hsame | ⟨absPath', d, hpath', hdoc, -, hthere⟩
  · exact .inl hsame
  · rw [hsavePath] at hpath'
    obtain rfl : absPath = absPath' := Except.ok.inj (hpath.symm.trans hpath')
    obtain ⟨hident, hstores⟩ := saveDocument_identity hpath hkeeps hdoc
    rcases hthere with hgone | ⟨file, hfile, hstored⟩
    · exact .inr (.inl hgone)
    · exact .inr (.inr ⟨file, _, hfile, hstored, (identity_normalize rt d).trans hident,
        hstores⟩)

theorem keepsIdentity_save :
    KeepsIdentity rt absPath ident (save rt env v db req).vault := by
  rcases save_update_cases env db hrt hpath hkeeps with
    ⟨hsame, -⟩ | ⟨hgone, -⟩ | ⟨file, stored, hfile, hstored, hident, -⟩
  · rw [hsame]
    exact hkeeps
  · intro file hfile
    rw [hgone] at hfile
    cases hfile
  · intro file' hfile'
    obtain rfl : file = file' := Option.some.inj (hfile.symm.trans hfile')
    exact ⟨stored, hstored, hident⟩

end

end

/-- Over any saves of the document at a path, its kind, creation time and aliases stay as
they were, and each save that succeeds stores what it was asked for. -/
theorem saves_keep_identity {β : Type} (rt : Runtime β) (hrt : rt.Faithful)
    (absPath : String) (s s' : Workspace β) (file : VaultFile β) (stored : DocumentFile)
    (hfile : s.vault.lookup absPath = some file)
    (hstored : rt.unmarshalDocument file.data = .ok stored)
    (calls : List (SaveEnv × SaveRequest))
    (hcalls : ∀ call ∈ calls, documentPath call.2.path = .ok absPath)
    (hrun : run (saveStep rt) s calls = some s') (env : SaveEnv) (req : SaveRequest)
    (hpath : documentPath req.path = .ok absPath)
    (hok : (save rt env s'.vault s'.db req).result.isOk = true) :
    ∃ file' stored', (save rt env s'.vault s'.db req).vault.lookup absPath = some file' ∧
      rt.unmarshalDocument file'.data = .ok stored' ∧
      stored'.identity = stored.identity ∧ StoresRequest rt.lower req stored' := by
  have hstart : KeepsIdentity rt absPath stored.identity s.vault := by
    intro file₀ hfile₀
    obtain rfl : file = file₀ := Option.some.inj (hfile.symm.trans hfile₀)
    exact ⟨stored, hstored, rfl⟩
  have hend : KeepsIdentity rt absPath stored.identity s'.vault := by
    refine run_invariant_of_guarded
      (I := fun s : Workspace β => KeepsIdentity rt absPath stored.identity s.vault)
      ?_ hstart (guarded_of_forall_mem hcalls) hrun
    intro t call t' ht hcall hstep
    have hkeep := keepsIdentity_save call.1 t.db hrt hcall ht
    rw [← Option.some.inj hstep]
    exact hkeep
  rcases save_update_cases env s'.db hrt hpath hend with ⟨-, hfailed⟩ | ⟨-, hfailed⟩ | hthere
  · rw [hfailed] at hok
    cases hok
  · rw [hfailed] at hok
    cases hok
  · exact hthere

namespace SampleSave

/-- The update without the tag that the index refuses. -/
def untagged : SaveRequest := { request with tags := [] }

def once : SaveOutcome DocumentFile := save plainRuntime env vault db untagged

def twice : SaveOutcome DocumentFile := save plainRuntime env once.vault once.db untagged

end SampleSave

open SampleSave

theorem saves_keep_identity_sample :
    ∃ file' stored', twice.vault.lookup path = some file' ∧
      plainRuntime.unmarshalDocument file'.data = .ok stored' ∧
      stored'.identity = document.identity ∧
      StoresRequest plainRuntime.lower untagged stored' :=
  saves_keep_identity plainRuntime plainRuntime_faithful path
    ⟨vault, db⟩ ⟨once.vault, once.db⟩
    ⟨document, 0⟩ document (AList.lookup_insert ∅) rfl
    [(env, untagged)] (by decide +kernel) rfl env
    untagged (by decide +kernel) (by decide +kernel)

end Yanta.Document
