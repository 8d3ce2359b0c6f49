import Yanta.Document.Lifecycle
import Yanta.Index.ScanSuccess

/-!
# The vault and the database agree

The invariant that the commands on projects and documents maintain: every
project has its metadata file, the document files of the vault are exactly the
documents that have a row, and the file behind each row is one that the database
still accepts. Archiving is a mark on a row, so it plays no role here.

The four kinds of change that the commands make are treated once each: marks on
rows, the project rows, removed documents and stored documents.
-/

namespace Yanta.System

open Go Vault Document Index Project Option

/-- A document path that the scan finds under the name it is stored by. -/
structure Placed (path : String) : Prop where
  isKey : isDocumentKey path = true
  clean : pathClean path = path
  normal : normalizeDocumentPath path = path
  resolves : documentPath path = .ok path

section

variable {β : Type} (rt : Runtime β)

/-- The row of a path is the row of a file that the database accepts. -/
structure Indexed (s : Workspace β) (path : String) (row : DocRow) : Prop where
  placed : Placed path
  stored : ∃ file docFile now, s.vault.lookup path = some file ∧
    fromJSON rt now file.data = .ok docFile ∧
    row.projectAlias = docFile.docMeta.project ∧
    Accepts rt s.db path docFile file.mtime

/-- The key is that of a file directly in the directory of a valid alias. -/
def InProject (key : String) : Prop :=
  ∃ projectAlias name, validateAlias projectAlias = .ok () ∧
    split key '/' = ["projects", projectAlias, name]

structure Consistent (s : Workspace β) : Prop where
  projects : ∀ p ∈ s.db.project, validateAlias p.projectAlias = .ok () ∧
    (s.vault.lookup (metadataPath p.projectAlias)).isSome = true
  aliases : s.db.project.Pairwise fun p q => p.projectAlias ≠ q.projectAlias
  dirs : ∀ key, (s.vault.lookup key).isSome = true → InProject key
  files : ∀ key, isDocumentKey key = true → (s.vault.lookup key).isSome = true →
    (s.db.doc.lookup key).isSome = true
  rows : ∀ path row, s.db.doc.lookup path = some row → Indexed rt s path row

theorem consistent_empty : Consistent rt (Workspace.empty : Workspace β) where
  projects p hp := by cases hp
  aliases := List.Pairwise.nil
  dirs key h := by cases h
  files key _ h := by cases h
  rows path row h := by cases h

variable {rt}

/-- What the database has to keep for a document to stay acceptable. -/
theorem accepts_mono
    {db db' : Db} {path : String} {docFile : DocumentFile} {mtime : Int}
    (h : Accepts rt db path docFile mtime)
    (hproject : db'.hasProject docFile.docMeta.project = true)
    (htag : db'.tag = db.tag) : Accepts rt db' path docFile mtime :=
  ⟨h.validPath, h.mtimeNonneg, hproject, by rw [htag]; exact h.tagsNotDeleted,
    h.linksFit, h.linksShort⟩

/-! ## The four kinds of change -/

/-- Marks on document rows do not matter. -/
theorem Consistent.setMarks {s s' : Workspace β} (h : Consistent rt s)
    (hvault : ∀ key, s'.vault.lookup key = s.vault.lookup key)
    (hproject : s'.db.project = s.db.project) (htag : s'.db.tag = s.db.tag)
    (hdoc : ∀ path, (s'.db.doc.lookup path).map DocRow.projectAlias =
      (s.db.doc.lookup path).map DocRow.projectAlias) :
    Consistent rt s' where
  projects := by
    rw [hproject]
    intro p hp
    rw [hvault]
    exact h.projects p hp
  aliases := by
    rw [hproject]
    exact h.aliases
  dirs key hkey := h.dirs key (by rwa [← hvault])
  files key hkey hsome := by
    have hmap := congrArg Option.isSome (hdoc key)
    simp only [isSome_map] at hmap
    rw [hmap]
    exact h.files key hkey (by rwa [← hvault])
  rows path row' hrow' := by
    have hmap := hdoc path
    rw [hrow', map_some, eq_comm, map_eq_some_iff] at hmap
    obtain ⟨row, hrow, halias⟩ := hmap
    obtain ⟨hplaced, file, docFile, now, hfile, hjson, hproj, hacc⟩ := h.rows path row hrow
    refine ⟨hplaced, file, docFile, now, (hvault path).trans hfile, hjson,
      halias.symm.trans hproj, accepts_mono hacc ?_ htag⟩
    rw [Db.hasProject, hproject]
    exact hacc.projectExists

/-- The project rows change, and perhaps a metadata file is written. -/
theorem Consistent.setProjects {s : Workspace β} (h : Consistent rt s)
    {vault : Vault β} {rows : List ProjectRow}
    (hrows : ∀ p ∈ rows, validateAlias p.projectAlias = .ok () ∧
      (vault.lookup (metadataPath p.projectAlias)).isSome = true)
    (haliases : rows.Pairwise fun p q => p.projectAlias ≠ q.projectAlias)
    (hkeeps : ∀ path row, s.db.doc.lookup path = some row →
      ∃ p ∈ rows, p.projectAlias = row.projectAlias)
    (hdirs : ∀ key, (vault.lookup key).isSome = true → InProject key)
    (hvault : ∀ key, isDocumentKey key = true →
      vault.lookup key = s.vault.lookup key) :
    Consistent rt ⟨vault, { s.db with project := rows }⟩ where
  projects := hrows
  aliases := haliases
  dirs := hdirs
  files key hkey hsome := h.files key hkey (by rwa [← hvault key hkey])
  rows path row hrow := by
    obtain ⟨hplaced, file, docFile, now, hfile, hjson, hproj, hacc⟩ := h.rows path row hrow
    refine ⟨hplaced, file, docFile, now, (hvault path hplaced.isKey).trans hfile, hjson,
      hproj, accepts_mono hacc ?_ rfl⟩
    rw [hasProject_eq_true_iff, ← hproj]
    exact hkeeps path row hrow

/-- Documents are removed together with their files. -/
theorem Consistent.remove {s s' : Workspace β} (h : Consistent rt s)
    {paths : List String} (hpaths : ∀ p ∈ paths, isDocumentKey p = true)
    (hproject : s'.db.project = s.db.project) (htag : s'.db.tag = s.db.tag)
    (hdoc : ∀ p, s'.db.doc.lookup p = if p ∈ paths then none else s.db.doc.lookup p)
    (hvault : ∀ p, s'.vault.lookup p = if p ∈ paths then none else s.vault.lookup p) :
    Consistent rt s' where
  projects := by
    rw [hproject]
    intro p hp
    obtain ⟨hvalid, hmeta⟩ := h.projects p hp
    have hnot : metadataPath p.projectAlias ∉ paths := by
      intro hmem
      have hkey := hpaths _ hmem
      rw [not_isDocumentKey_metadataPath hvalid] at hkey
      cases hkey
    rw [hvault, if_neg hnot]
    exact ⟨hvalid, hmeta⟩
  aliases := by
    rw [hproject]
    exact h.aliases
  dirs key hkey := by
    rw [hvault] at hkey
    split at hkey
    · cases hkey
    · exact h.dirs key hkey
  files key hkey hsome := by
    rw [hvault] at hsome
    split at hsome
    · cases hsome
    next hnot =>
      rw [hdoc, if_neg hnot]
      exact h.files key hkey hsome
  rows path row hrow := by
    rw [hdoc] at hrow
    split at hrow
    · cases hrow
    next hnot =>
      obtain ⟨hplaced, file, docFile, now, hfile, hjson, hproj, hacc⟩ :=
        h.rows path row hrow
      refine ⟨hplaced, file, docFile, now, ?_, hjson, hproj, accepts_mono hacc ?_ htag⟩
      · rw [hvault, if_neg hnot]
        exact hfile
      · rw [Db.hasProject, hproject]
        exact hacc.projectExists

/-- A document is stored that the database accepts. -/
theorem Consistent.store {s : Workspace β} (h : Consistent rt s)
    {vault : Vault β} {path : String} {docFile : DocumentFile} {file : VaultFile β}
    {now : Time} {faults : IndexFaults} (hplaced : Placed path) (hin : InProject path)
    (hfile : vault.lookup path = some file)
    (hother : ∀ key, key ≠ path → vault.lookup key = s.vault.lookup key)
    (hjson : fromJSON rt now file.data = .ok docFile)
    (hacc : Accepts rt s.db path docFile file.mtime) :
    Consistent rt ⟨vault, storeDocument rt faults s.db path docFile file⟩ where
  projects := by
    simp only [storeDocument_project]
    intro p hp
    obtain ⟨hvalid, hmeta⟩ := h.projects p hp
    have hne : metadataPath p.projectAlias ≠ path := by
      rintro rfl
      have hkey := hplaced.isKey
      rw [not_isDocumentKey_metadataPath hvalid] at hkey
      cases hkey
    rw [hother _ hne]
    exact ⟨hvalid, hmeta⟩
  aliases := by
    simp only [storeDocument_project]
    exact h.aliases
  dirs key hkey := by
    by_cases heq : key = path
    · rw [heq]
      exact hin
    · exact h.dirs key (by rwa [← hother key heq])
  files key hkey hsome := by
    simp only [storeDocument_doc]
    by_cases heq : key = path
    · rw [heq, AList.lookup_insert]
      rfl
    · rw [AList.lookup_insert_ne heq]
      exact h.files key hkey (by rwa [← hother key heq])
  rows p row hrow := by
    simp only [storeDocument_doc] at hrow
    by_cases heq : p = path
    · subst heq
      rw [AList.lookup_insert, Option.some.injEq] at hrow
      subst hrow
      exact ⟨hplaced, file, docFile, now, hfile, hjson, rfl, accepts_storeDocument hacc⟩
    · rw [AList.lookup_insert_ne heq] at hrow
      obtain ⟨hplaced', file', docFile', now', hfile', hjson', hproj', hacc'⟩ :=
        h.rows p row hrow
      exact ⟨hplaced', file', docFile', now', (hother p heq).trans hfile', hjson', hproj',
        accepts_storeDocument hacc'⟩

end

end Yanta.System
