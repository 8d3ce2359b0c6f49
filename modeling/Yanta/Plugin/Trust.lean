import Yanta.Plugin.Install
import Yanta.Support.Runs

/-!
# Where trust labels come from

A plugin is listed as verified, or as installed from a signed package, because of
a metadata file in its own directory. `InstallFromPackage` writes that file, but
`InstallFromDirectory` copies one that the source brings along. The main result is
about whole runs of plugin operations: the labels are earned in every run in which
no source directory brings a metadata file that reads as a label.
-/

namespace Yanta.Plugin

open Go Support List Option Progress

/-! ## What an install leaves behind -/

/-- The file system grew at `dest` only, by nodes that satisfy `P`. -/
structure Grown (fs fs' : FileSystem Bytes) (dest : Path)
    (P : Path → Node Bytes → Prop) : Prop where
  keeps : ∀ q, fs q ≠ none → fs' q ≠ none
  origin : ∀ q node, fs' q = some node →
    fs q = some node ∨ (node = .dir ∧ q <+: dest) ∨ ∃ r, q = dest ++ r ∧ P r node
  parents : (∀ q, fs' q = fs q) ∨ ∀ q, q <+: dest → fs' q ≠ none

section

variable {fs fs' : FileSystem Bytes} {dest : Path} {P : Path → Node Bytes → Prop}
variable {root : Path} {name : String} {tree : PluginTree}

theorem Grown.refl (fs : FileSystem Bytes) (dest : Path)
    (P : Path → Node Bytes → Prop) : Grown fs fs dest P :=
  ⟨fun _ hq => hq, fun _ _ h => .inl h, .inl fun _ => rfl⟩

theorem Grown.place (h : Grown fs fs' dest P) (hparents : ∀ q, q <+: dest → fs' q ≠ none)
    (htree : ∀ r node, tree r = some node → P r node) :
    Grown fs (place fs' dest tree) dest P := by
  refine ⟨fun q hq => place_ne_none (h.keeps q hq), ?_,
    .inr fun q hq => place_ne_none (hparents q hq)⟩
  intro q node hnode
  rcases place_eq_some hnode with hold | ⟨r, hr, hnode⟩
  · exact h.origin q node hold
  · exact .inr (.inr ⟨r, hr, htree r node hnode⟩)

theorem mkdirAll_parents (fs : FileSystem Bytes) (dest : Path) :
    ∀ q, q <+: dest → mkdirAll fs dest q ≠ none :=
  fun _ hq => isSome_iff_ne_none.mp (mkdirAll_isSome hq)

theorem grown_copyDirectory (fault : Option (String × (Path → Progress)))
    (htree : ∀ r node progress, (tree r).bind (Progress.node progress) = some node →
      P r node) :
    Grown fs (copyDirectory fault fs dest tree).2 dest P := by
  have hmkdir : Grown fs (mkdirAll fs dest) dest P := by
    refine ⟨fun q hq => mkdirAll_ne_none hq, ?_, .inr (mkdirAll_parents fs dest)⟩
    intro q node hnode
    rcases mkdirAll_eq_some hnode with h | h
    · exact .inl h
    · exact .inr (.inl h)
  cases fault with
  | none =>
    apply hmkdir.place (mkdirAll_parents fs dest)
    intro r node hnode
    apply htree r node .complete
    rw [hnode, bind_some, node_complete]
  | some fault =>
    obtain ⟨e, progress⟩ := fault
    unfold copyDirectory copyTree
    by_cases hmissing : progress [] = .missing
    · simp only [hmissing]
      exact Grown.refl fs dest P
    · simp only [hmissing]
      apply hmkdir.place (mkdirAll_parents fs dest)
      intro r node hnode
      exact htree r node (progress r) hnode

theorem grown_writePackage (rt : PluginRuntime) (faults : InstallFaults)
    (package : PackageTree) (metadata : InstallMetadata) :
    Grown fs (writePackage rt faults fs dest package metadata).2 dest
      fun r node => r = [] → node = .dir := by
  have hcopy : Grown fs (copyDirectory faults.copy fs dest package.nodes).2 dest
      fun r node => r = [] → node = .dir := by
    apply grown_copyDirectory
    intro r node progress hnode hr
    rw [hr] at hnode
    exact eq_dir_of_node_dir hnode
  unfold writePackage
  cases hfault : faults.copy with
  | some fault =>
    rw [hfault] at hcopy
    exact hcopy
  | none =>
    rw [hfault] at hcopy
    obtain ⟨node, hnode⟩ := persistInstallMetadata_snd rt faults.persistMetadata
      (copyDirectory none fs dest package.nodes).2 dest metadata
    have hparents : ∀ q, q <+: dest →
        (copyDirectory none fs dest package.nodes).2 q ≠ none :=
      fun q hq => place_ne_none (mkdirAll_parents fs dest q hq)
    simp only [copyDirectory, copyTree, branch_ok] at hnode hcopy hparents ⊢
    rw [hnode]
    apply hcopy.place hparents
    rintro r node' hr rfl
    simp [metadataTree] at hr

/-- What an install leaves of the metadata file of an entry: the file that was
there, or one it wrote to this very entry. -/
theorem metadata_of_grown (h : Grown (mkdirAll fs root) fs' dest P)
    (hfree : mkdirAll fs root dest = none) (hroot : ∀ node, P [] node → node = .dir)
    {data : Bytes} (hdata : fs' (root ++ [name, installMetadataFile]) = some (.file data)) :
    fs (root ++ [name, installMetadataFile]) = some (.file data) ∨
      (dest = root ++ [name] ∧ P [installMetadataFile] (.file data)) := by
  have hup : ¬ dest <+: root := by
    intro hpre
    exact mkdirAll_parents fs root dest hpre hfree
  rcases h.origin _ _ hdata with hold | ⟨hdir, -⟩ | ⟨r, hr, hnode⟩
  · rcases mkdirAll_eq_some hold with hold | ⟨hdir, -⟩
    · exact .inl hold
    · cases hdir
  · cases hdir
  · -- The destination is the entry itself or the place of the file.
    right
    have hlong : root <+: dest := by
      have hboth : dest <+: root ++ [name, installMetadataFile] := ⟨r, hr.symm⟩
      rcases prefix_or_prefix_of_prefix hboth
        (prefix_append root [name, installMetadataFile]) with hd | hd
      · exact absurd hd hup
      · exact hd
    obtain ⟨tail, rfl⟩ := hlong
    cases tail with
    | nil => simp at hup
    | cons first tail =>
      cases tail with
      | nil =>
        obtain ⟨rfl, rfl⟩ : name = first ∧ [installMetadataFile] = r := by
          simpa using hr
        exact ⟨rfl, hnode⟩
      | cons second tail =>
        have hr' : [name, installMetadataFile] = first :: second :: (tail ++ r) := by
          simpa using hr
        have hnil : tail ++ r = [] := by
          simp only [List.cons.injEq] at hr'
          exact hr'.2.2.symm
        rw [(append_eq_nil_iff.mp hnil).2] at hnode
        have := hroot _ hnode
        cases this

/-- The entry of a metadata file is there. -/
def EntriesExist (root : Path) (fs : FileSystem Bytes) : Prop :=
  ∀ name, fs (root ++ [name, installMetadataFile]) ≠ none → fs (root ++ [name]) ≠ none

theorem entriesExist_of_grown (hentries : EntriesExist root fs)
    (h : Grown (mkdirAll fs root) fs' dest P) (hfree : mkdirAll fs root dest = none) :
    EntriesExist root fs' := by
  intro name hnew
  have hsub : root ++ [name] <+: root ++ [name, installMetadataFile] :=
    ⟨[installMetadataFile], by simp⟩
  -- An old file has an old entry.
  have hold : mkdirAll fs root (root ++ [name, installMetadataFile]) ≠ none →
      fs' (root ++ [name]) ≠ none := by
    intro hq
    rw [mkdirAll_elsewhere (by
      intro hpre
      have := hpre.length_le
      simp at this)] at hq
    exact h.keeps _ (mkdirAll_ne_none (hentries name hq))
  obtain ⟨node, hnode⟩ := ne_none_iff_exists'.mp hnew
  rcases h.parents with hsame | hparents
  · exact hold (hsame _ ▸ hnew)
  · rcases h.origin _ _ hnode with hq | ⟨-, hpre⟩ | ⟨r, hr, -⟩
    · exact hold (by simp [hq])
    · exact hparents _ (hsub.trans hpre)
    · apply hparents
      rcases prefix_or_prefix_of_prefix hsub ⟨r, hr.symm⟩ with hd | hd
      · exact hd
      · -- The destination is not above the entry, where something is already.
        rcases Nat.lt_or_ge dest.length (root ++ [name]).length with hlt | hge
        · have hup : dest <+: root := by
            refine prefix_of_prefix_length_le hd (prefix_append _ _) ?_
            simpa [Nat.lt_succ_iff] using hlt
          exact absurd hfree (mkdirAll_parents fs root dest hup)
        · rw [hd.eq_of_length_le hge]

theorem entriesExist_removeAll (hentries : EntriesExist root fs) (stuck : List Path) :
    EntriesExist root (removeAll fs dest stuck) := by
  intro name hnew
  have hsub : root ++ [name] <+: root ++ [name, installMetadataFile] :=
    ⟨[installMetadataFile], by simp⟩
  apply removeAll_keeps_parent hsub hnew
  apply hentries
  obtain ⟨node, hnode⟩ := ne_none_iff_exists'.mp hnew
  rw [removeAll_eq_some hnode]
  simp

/-- The install wrote to a free destination, and possibly removed it again. -/
def WroteTo (root : Path) (fs fs' : FileSystem Bytes) (dest : Path)
    (P : Path → Node Bytes → Prop) : Prop :=
  mkdirAll fs root dest = none ∧ ∃ fs₂, Grown (mkdirAll fs root) fs₂ dest P ∧
    (fs' = fs₂ ∨ ∃ stuck, fs' = removeAll fs₂ dest stuck)

theorem WroteTo.metadata (h : WroteTo root fs fs' dest P)
    (hroot : ∀ node, P [] node → node = .dir) {data : Bytes}
    (hdata : fs' (root ++ [name, installMetadataFile]) = some (.file data)) :
    fs (root ++ [name, installMetadataFile]) = some (.file data) ∨
      (dest = root ++ [name] ∧ P [installMetadataFile] (.file data)) := by
  obtain ⟨hfree, fs₂, hgrown, rfl | ⟨stuck, rfl⟩⟩ := h
  · exact metadata_of_grown hgrown hfree hroot hdata
  · exact metadata_of_grown hgrown hfree hroot (removeAll_eq_some hdata)

theorem WroteTo.entriesExist (h : WroteTo root fs fs' dest P) (hentries : EntriesExist root fs) :
    EntriesExist root fs' := by
  obtain ⟨hfree, fs₂, hgrown, rfl | ⟨stuck, rfl⟩⟩ := h
  · exact entriesExist_of_grown hentries hgrown hfree
  · exact entriesExist_removeAll (entriesExist_of_grown hentries hgrown hfree) stuck

theorem finishInstall_snd (faults : InstallFaults) (dest : Path) (record : InstallRecord)
    (steps : Except String Unit × FileSystem Bytes) :
    (finishInstall faults dest record steps).2 = steps.2 ∨
      ∃ stuck, (finishInstall faults dest record steps).2 =
        removeAll steps.2 dest stuck := by
  unfold finishInstall
  split
  · exact .inr ⟨_, rfl⟩
  · split
    · exact .inr ⟨_, rfl⟩
    · exact .inl rfl

end

/-! ## Runs of plugin operations -/

/-- The plugin directory's file system, the trusted keys and, for each path that
was installed to, the package it came from and the keys trusted then; a path
filled from a directory has no package. -/
structure PluginState where
  fs : FileSystem Bytes
  keys : TrustedKeys
  package : Path → Option (PackageTree × TrustedKeys)

variable {name sourcePath : String} {s' : PluginState}

inductive PluginEvent where
  | installDirectory (faults : InstallFaults) (sourcePath : String)
      (source : PluginTree)
  | installPackage (faults : InstallFaults) (sourcePath : String)
      (opened : Except String PackageTree)
  | uninstall (faults : UninstallFaults) (id : String)
  | changeKeys (keys : TrustedKeys)
  | rescan

section

variable (rt : PluginRuntime) (root : Path)
variable {s : PluginState}

/-- The destination that an install of the given id writes to. -/
def writesTo (faults : InstallFaults) (fs : FileSystem Bytes) (id : String) :
    Option Path :=
  branch (prepareDest root faults fs id).1 (fun _ => none)
    fun _ => some (joinPath root id)

def recordDirectory (faults : InstallFaults) (s : PluginState) (sourcePath : String)
    (source : PluginTree) : Path → Option (PackageTree × TrustedKeys) :=
  branch (directoryManifest rt sourcePath source) (fun _ => s.package) fun m =>
    ((writesTo root faults s.fs m.id).map fun dest =>
      Function.update s.package dest none).getD s.package

def recordPackage (faults : InstallFaults) (s : PluginState) (sourcePath : String)
    (opened : Except String PackageTree) : Path → Option (PackageTree × TrustedKeys) :=
  branch (packageManifest rt s.keys sourcePath opened) (fun _ => s.package) fun c =>
    ((writesTo root faults s.fs c.1.id).map fun dest =>
      Function.update s.package dest (some (c.2.1, s.keys))).getD s.package

def step (s : PluginState) : PluginEvent → Option PluginState
  | .installDirectory faults sourcePath source =>
    some { s with
      fs := (installFromDirectory rt root faults s.fs sourcePath source).2
      package := recordDirectory rt root faults s sourcePath source }
  | .installPackage faults sourcePath opened =>
    some { s with
      fs := (installFromPackage rt root faults s.fs s.keys sourcePath opened).2
      package := recordPackage rt root faults s sourcePath opened }
  | .uninstall faults id =>
    some { s with fs := (Plugin.uninstall root faults s.fs id).2 }
  | .changeKeys keys => some { s with keys := keys }
  | .rescan => some s

/-- The metadata reads as a trust label. -/
def IsLabel (metadata : InstallMetadata) : Prop :=
  metadata.source = pluginSourcePackage ∨
    metadata.isolation = isolationModeSignedPackage ∨
    metadata.verificationStatus = verificationStatusVerified

/-- The plugin is listed as verified or as installed from a signed package. -/
def Trusted (record : InstallRecord) : Prop :=
  record.source = pluginSourcePackage ∨
    record.isolation = isolationModeSignedPackage ∨
    record.verificationStatus = verificationStatusVerified

/-- The path was filled by a package whose signature was accepted with the keys
trusted at that time. -/
def FromVerifiedPackage (s : PluginState) (path : Path) : Prop :=
  ∃ package keys metadata, s.package path = some (package, keys) ∧
    verifyPackageSignature rt.toSigningRuntime package keys = .ok metadata

/-- Every plugin that the scan lists with a trust label came from a package whose
signature was accepted. -/
def LabelsEarned (s : PluginState) : Prop :=
  ∀ name record, scanEntry rt root s.fs name = some record → Trusted record →
    FromVerifiedPackage rt s (root ++ [name])

/-- No beginning of the metadata file that the directory brings, if it brings
one, reads as a trust label. -/
def BringsNoLabel (source : PluginTree) : Prop :=
  ∀ data, source [installMetadataFile] = some (.file data) →
    ∀ n metadata, rt.unmarshalMetadata (data.take n) = .ok metadata → ¬ IsLabel metadata

/-- The condition on one operation. -/
def HonestSource : PluginEvent → Prop
  | .installDirectory _ _ source => BringsNoLabel rt source
  | _ => True

variable {rt root}

/-- An install that is refused makes at most the plugin directory. -/
def MadeRoot (root : Path) (fs fs' : FileSystem Bytes) : Prop :=
  fs' = fs ∨ fs' = mkdirAll fs root

theorem MadeRoot.metadata {fs fs' : FileSystem Bytes} (h : MadeRoot root fs fs') :
    fs' (root ++ [name, installMetadataFile]) =
      fs (root ++ [name, installMetadataFile]) := by
  rcases h with rfl | rfl
  · rfl
  · apply mkdirAll_elsewhere
    intro hpre
    have := hpre.length_le
    simp at this

theorem MadeRoot.entriesExist {fs fs' : FileSystem Bytes}
    (h : MadeRoot root fs fs') (hentries : EntriesExist root fs) :
    EntriesExist root fs' := by
  intro name hnew
  rw [h.metadata] at hnew
  rcases h with rfl | rfl
  · exact hentries name hnew
  · exact mkdirAll_ne_none (hentries name hnew)

/-- What an install from a directory does: at most make the plugin directory, or
write part of the source to a free destination and forget what was there. -/
theorem installFromDirectory_cases (faults : InstallFaults) (s : PluginState)
    (sourcePath : String) (source : PluginTree) :
    (MadeRoot root s.fs (installFromDirectory rt root faults s.fs sourcePath source).2 ∧
      recordDirectory rt root faults s sourcePath source = s.package) ∨
    ∃ dest, source [] = some .dir ∧
      recordDirectory rt root faults s sourcePath source =
        Function.update s.package dest none ∧
      WroteTo root s.fs (installFromDirectory rt root faults s.fs sourcePath source).2
        dest fun r node => ∃ progress, (source r).bind (Progress.node progress) =
          some node := by
  unfold installFromDirectory recordDirectory
  cases hm : directoryManifest rt sourcePath source with
  | error e => exact .inl ⟨.inl rfl, rfl⟩
  | ok m =>
    rcases prepareDest_cases root faults s.fs m.id with ⟨e, herr, hmade⟩ | ⟨hok, hfs, hfree⟩
    · left
      simp only [branch_ok, writesTo, herr]
      exact ⟨hmade, rfl⟩
    · right
      simp only [branch_ok, writesTo, hok, hfs]
      refine ⟨joinPath root m.id, directoryManifest_dir rt hm, rfl, hfree, _,
        grown_copyDirectory faults.copy fun r node progress h => ⟨progress, h⟩, ?_⟩
      exact finishInstall_snd _ _ _ _

theorem verify_of_packageManifest {keys : TrustedKeys} {opened : Except String PackageTree}
    {c : Manifest × PackageTree × InstallMetadata}
    (h : packageManifest rt keys sourcePath opened = .ok c) :
    verifyPackageSignature rt.toSigningRuntime c.2.1 keys = .ok c.2.2 := by
  unfold packageManifest at h
  split at h
  · cases h
  · split at h
    · cases h
    next package =>
      rw [bind_eq_ok] at h
      obtain ⟨manifest, -, h⟩ := h
      split at h
      · cases h
      · split at h
        · cases h
        · rw [bind_eq_ok] at h
          obtain ⟨metadata, hverify, h⟩ := h
          rw [← Except.ok.inj h]
          exact hverify

/-- What an install from a package does. -/
theorem installFromPackage_cases (faults : InstallFaults) (s : PluginState)
    (sourcePath : String) (opened : Except String PackageTree) :
    (MadeRoot root s.fs
        (installFromPackage rt root faults s.fs s.keys sourcePath opened).2 ∧
      recordPackage rt root faults s sourcePath opened = s.package) ∨
    ∃ dest package metadata,
      verifyPackageSignature rt.toSigningRuntime package s.keys = .ok metadata ∧
      recordPackage rt root faults s sourcePath opened =
        Function.update s.package dest (some (package, s.keys)) ∧
      WroteTo root s.fs
        (installFromPackage rt root faults s.fs s.keys sourcePath opened).2
        dest fun r node => r = [] → node = .dir := by
  unfold installFromPackage recordPackage
  cases hc : packageManifest rt s.keys sourcePath opened with
  | error e => exact .inl ⟨.inl rfl, rfl⟩
  | ok c =>
    rcases prepareDest_cases root faults s.fs c.1.id with ⟨e, herr, hmade⟩ | ⟨hok, hfs, hfree⟩
    · left
      simp only [branch_ok, writesTo, herr]
      exact ⟨hmade, rfl⟩
    · right
      simp only [branch_ok, writesTo, hok, hfs]
      refine ⟨joinPath root c.1.id, c.2.1, c.2.2, verify_of_packageManifest hc, rfl,
        hfree, _, grown_writePackage rt faults c.2.1 c.2.2, ?_⟩
      exact finishInstall_snd _ _ _ _

/-! ## The invariant -/

variable (rt root) in
/-- Every metadata file that reads as a label is in an entry that a verified
package filled. -/
structure LabelsTraced (s : PluginState) : Prop where
  labels : ∀ name data metadata,
    s.fs (root ++ [name, installMetadataFile]) = some (.file data) →
    rt.unmarshalMetadata data = .ok metadata → IsLabel metadata →
    FromVerifiedPackage rt s (root ++ [name])
  entries : EntriesExist root s.fs

/-- Only a metadata file that reads as a label makes the scan list one. -/
theorem label_of_trusted {fs : FileSystem Bytes} {record : InstallRecord}
    (h : scanEntry rt root fs name = some record) (htrusted : Trusted record) :
    ∃ data metadata, fs (root ++ [name, installMetadataFile]) = some (.file data) ∧
      rt.unmarshalMetadata data = .ok metadata ∧ IsLabel metadata := by
  have hload : ∃ metadata,
      loadInstallMetadata rt (fun r => fs (root ++ name :: r)) = some metadata ∧
        IsLabel metadata := by
    unfold scanEntry at h
    simp only at h
    split at h
    · cases h
    · rw [← Option.some.inj h] at htrusted
      cases hmetadata : loadInstallMetadata rt (fun r => fs (root ++ name :: r)) with
      | none =>
        exfalso
        revert htrusted
        simp only [Trusted, hmetadata]
        decide
      | some metadata =>
        refine ⟨metadata, rfl, ?_⟩
        simp only [Trusted, hmetadata, fieldOr] at htrusted
        have hfield : ∀ {value default label : String}, label ≠ default →
            (if trimSpace value = "" then default else value) = label →
            value = label := by
          intro value default label hne hif
          split at hif
          · exact absurd hif.symm hne
          · exact hif
        rcases htrusted with hlabel | hlabel | hlabel
        · exact .inl (hfield (by decide) hlabel)
        · exact .inr (.inl (hfield (by decide) hlabel))
        · exact .inr (.inr (hfield (by decide) hlabel))
  obtain ⟨metadata, hload, hlabel⟩ := hload
  unfold loadInstallMetadata readTop at hload
  split at hload
  next data hdata =>
    rw [bind_some] at hload
    cases hdecode : rt.unmarshalMetadata data with
    | error e => simp [hdecode] at hload
    | ok decoded =>
      rw [hdecode] at hload
      refine ⟨data, metadata, hdata, ?_, hlabel⟩
      rw [← Option.some.inj hload]
      exact hdecode
  next => cases hload

theorem labelsEarned_of_labelsTraced (h : LabelsTraced rt root s) : LabelsEarned rt root s := by
  intro name record hscan htrusted
  obtain ⟨data, metadata, hdata, hdecode, hlabel⟩ := label_of_trusted hscan htrusted
  exact h.labels name data metadata hdata hdecode hlabel

section

variable (hs : LabelsTraced rt root s)

include hs

theorem LabelsTraced.of_madeRoot (hmade : MadeRoot root s.fs s'.fs)
    (hrecord : s'.package = s.package) :
    LabelsTraced rt root s' := by
  refine ⟨fun name data metadata hdata hdecode hlabel => ?_,
    hmade.entriesExist hs.entries⟩
  rw [hmade.metadata] at hdata
  simpa only [FromVerifiedPackage, hrecord] using
    hs.labels name data metadata hdata hdecode hlabel

theorem labelsTraced_installDirectory {faults : InstallFaults} {source : PluginTree}
    (hsource : BringsNoLabel rt source) :
    LabelsTraced rt root
      { s with
        fs := (installFromDirectory rt root faults s.fs sourcePath source).2
        package := recordDirectory rt root faults s sourcePath source } := by
  rcases installFromDirectory_cases faults s sourcePath source with
    ⟨hmade, hrecord⟩ | ⟨dest, hdir, hrecord, hwrote⟩
  · apply hs.of_madeRoot
    · exact hmade
    · exact hrecord
  · refine ⟨fun name data metadata hdata hdecode hlabel => ?_,
      hwrote.entriesExist hs.entries⟩
    have hroot : ∀ node, (∃ progress, (source []).bind (Progress.node progress) =
        some node) → node = .dir := by
      rintro node ⟨progress, hnode⟩
      rw [hdir] at hnode
      exact eq_dir_of_node_dir hnode
    rcases hwrote.metadata hroot hdata with hold | ⟨-, progress, hnode⟩
    · -- The destination was free, so it is not the entry of an old file.
      have hne : root ++ [name] ≠ dest := by
        rintro rfl
        have hentry := hs.entries name (by simp [hold])
        exact mkdirAll_ne_none hentry hwrote.1
      simpa only [FromVerifiedPackage, hrecord, Function.update_of_ne hne] using
        hs.labels name data metadata hold hdecode hlabel
    · exfalso
      obtain ⟨node, hsrc, hnode⟩ := bind_eq_some_iff.mp hnode
      obtain ⟨original, n, rfl, rfl⟩ := exists_take_of_node_file hnode
      exact hsource original hsrc n metadata hdecode hlabel

theorem labelsTraced_installPackage {faults : InstallFaults}
    {opened : Except String PackageTree} :
    LabelsTraced rt root
      { s with
        fs := (installFromPackage rt root faults s.fs s.keys sourcePath opened).2
        package := recordPackage rt root faults s sourcePath opened } := by
  rcases installFromPackage_cases faults s sourcePath opened with
    ⟨hmade, hrecord⟩ | ⟨dest, package, verified, hverify, hrecord, hwrote⟩
  · apply hs.of_madeRoot
    · exact hmade
    · exact hrecord
  · refine ⟨fun name data metadata hdata hdecode hlabel => ?_,
      hwrote.entriesExist hs.entries⟩
    by_cases hdest : root ++ [name] = dest
    · refine ⟨package, s.keys, verified, ?_, hverify⟩
      simp [hrecord, hdest]
    · have hold : s.fs (root ++ [name, installMetadataFile]) = some (.file data) := by
        rcases hwrote.metadata (fun node h => h rfl) hdata with hold | ⟨heq, -⟩
        · exact hold
        · exact absurd heq.symm hdest
      simpa only [FromVerifiedPackage, hrecord, Function.update_of_ne hdest] using
        hs.labels name data metadata hold hdecode hlabel

theorem labelsTraced_uninstall {faults : UninstallFaults} {id : String} :
    LabelsTraced rt root { s with fs := (Plugin.uninstall root faults s.fs id).2 } := by
  rcases uninstall_cases root faults s.fs id with hfs | ⟨trimmed, stuck, -, hfs⟩
  · rw [hfs]
    exact hs
  · rw [hfs]
    refine ⟨fun name data metadata hdata hdecode hlabel => ?_,
      entriesExist_removeAll hs.entries stuck⟩
    exact hs.labels name data metadata (removeAll_eq_some hdata) hdecode hlabel

theorem labelsTraced_step {e : PluginEvent} (he : HonestSource rt e)
    (hstep : step rt root s e = some s') :
    LabelsTraced rt root s' := by
  cases e with
  | installDirectory faults sourcePath source =>
    rw [← Option.some.inj hstep]
    exact labelsTraced_installDirectory hs he
  | installPackage faults sourcePath opened =>
    rw [← Option.some.inj hstep]
    exact labelsTraced_installPackage hs
  | uninstall faults id =>
    rw [← Option.some.inj hstep]
    exact labelsTraced_uninstall hs
  | changeKeys keys =>
    rw [← Option.some.inj hstep]
    exact ⟨hs.labels, hs.entries⟩
  | rescan =>
    rw [← Option.some.inj hstep]
    exact hs

end

/-- Trust labels are earned in every run from an empty plugin directory in which
no directory that is installed brings a label. -/
theorem labelsEarned_run {s s' : PluginState} {es : List PluginEvent}
    (hempty : ∀ p, StrictlyBelow root p → s.fs p = none)
    (hsources : ∀ e ∈ es, HonestSource rt e)
    (hrun : run (step rt root) s es = some s') : LabelsEarned rt root s' := by
  apply labelsEarned_of_labelsTraced
  have hnone : ∀ name rest, s.fs (root ++ name :: rest) = none := by
    intro name rest
    exact hempty _ (strictlyBelow_iff.mpr ⟨name, rest, rfl⟩)
  have hstart : LabelsTraced rt root s :=
    { labels := by
        intro name data metadata hdata
        rw [hnone] at hdata
        cases hdata
      entries := by
        intro name hname
        exact absurd (hnone name [installMetadataFile]) hname }
  exact run_invariant_of_guarded (G := fun _ e => HonestSource rt e)
    (fun s e s' hs he hstep => labelsTraced_step hs he hstep) hstart
    (guarded_of_forall_mem hsources) hrun

end

namespace SampleTrust

def root : Path := ["home", "yanta", "plugins"]

def manifestPath : PackagePath := ⟨"plugin.toml", by decide⟩
def buildPath : PackagePath := ⟨"main.meta.json", by decide⟩

def package : PackageTree where
  files := [(manifestPath, [1]), (SampleSigning.keyFile, [0]), (buildPath, []),
    (packageSignatureFile, [])]
  nodup := by decide

def signature : PackageSignature :=
  ⟨"ed25519", "publisher", "key", hexEncode (digestInput package), ""⟩

def label : InstallMetadata :=
  ⟨"package", "signed_package", true, "verified", "publisher", "key"⟩

def build : PluginBuildMetadata :=
  ⟨"yanta-plugin-cli", "bun", "yanta-esm-v1", forbiddenBundledRuntimePackages, [], "00"⟩

/-- Decoders for which the byte 7 spells the metadata of a verified package. -/
def runtime : PluginRuntime where
  sha256 := id
  decodeBase64 text := .ok (List.replicate (if text = "" then 64 else 32) 0)
  verify _ _ _ := true
  unmarshalSignature _ := .ok signature
  lower c := c
  textOf _ := ""
  decodeManifest data :=
    (⟨if data = [1] then "signed" else "evil", "Plugin", "1.0.0", "1", "main.js"⟩, none)
  unmarshalBuild _ := .ok build
  unmarshalMetadata data := if data = [7] then .ok label else .error "not metadata"
  marshalMetadata _ := [7]

def keys : TrustedKeys := fun _ => some ⟨"publisher", "ed25519", "public"⟩

/-- Nothing is installed and no key is trusted. -/
def start : PluginState := ⟨fun _ => none, fun _ => none, fun _ => none⟩

/-- A directory with the files of a plugin and the given metadata file. -/
def source (metadata : Option (Node Bytes)) : PluginTree := fun r =>
  if r = [] then some .dir
  else if r = ["plugin.toml"] ∨ r = ["main.meta.json"] then some (.file [])
  else if r = ["main.js"] then some (.file [0])
  else if r = [installMetadataFile] then metadata
  else none

def honest : List PluginEvent :=
  [.changeKeys keys, .installPackage InstallFaults.none "/tmp/signed.zip" (.ok package),
    .installDirectory InstallFaults.none "/tmp/evil" (source none)]

def forged : PluginEvent :=
  .installDirectory InstallFaults.none "/tmp/evil" (source (some (.file [7])))

def forgedState : PluginState where
  fs := (installFromDirectory runtime root InstallFaults.none start.fs "/tmp/evil"
    (source (some (.file [7])))).2
  keys := start.keys
  package := recordDirectory runtime root InstallFaults.none start "/tmp/evil"
    (source (some (.file [7])))

theorem honest_isSome : (run (step runtime root) start honest).isSome = true := rfl

def honestState : PluginState :=
  (run (step runtime root) start honest).get honest_isSome

end SampleTrust

open SampleTrust

theorem labelsEarned_run_sample :
    (scanEntry runtime root honestState.fs
        "signed").map InstallRecord.verificationStatus = some "verified" ∧
      LabelsEarned runtime root honestState := by
  have hempty : ∀ p, StrictlyBelow root p → start.fs p = none :=
    fun _ _ => rfl
  have hsources : ∀ e ∈ honest, HonestSource runtime e := by
    simp only [honest, forall_mem_cons]
    refine ⟨trivial, trivial, ?_, by simp⟩
    intro data hdata
    cases hdata
  have hrun : run (step runtime root) start
      honest = some honestState :=
    (some_get _).symm
  exact ⟨by decide +kernel, labelsEarned_run hempty hsources hrun⟩

/-- A directory install that brings its own metadata file is listed as a
verified package, with no key trusted at all. -/
theorem directory_install_forges_label :
    run (step runtime root) start
        [forged] = some forgedState ∧
      (scanEntry runtime root forgedState.fs
        "evil").map InstallRecord.verificationStatus = some "verified" ∧
      ¬ LabelsEarned runtime root forgedState := by
  have hlabel : (scanEntry runtime root
      forgedState.fs "evil").map InstallRecord.verificationStatus =
        some "verified" := by
    decide +kernel
  have hnone : (forgedState.package
      (root ++ ["evil"])).isNone = true := by
    decide +kernel
  refine ⟨rfl, hlabel, fun hearned => ?_⟩
  obtain ⟨record, hscan, hverified⟩ := map_eq_some_iff.mp hlabel
  obtain ⟨package, keys, metadata, hpackage, -⟩ :=
    hearned "evil" record hscan (.inr (.inr hverified))
  rw [hpackage] at hnone
  cases hnone

end Yanta.Plugin
