import Yanta.Plugin.Install

/-!
# Plugin operations and the plugin directory

The id of a plugin is joined to the plugin directory without a check that the
result stays there. The main result says exactly for which ids the installs, their
clean-up and `Uninstall` touch nothing outside.
-/

namespace Yanta.Plugin

open Go Support

/-- Nothing changed outside the directory. -/
def Untouched (root : Path) (fs fs' : FileSystem Bytes) : Prop :=
  ∀ p, ¬ StrictlyBelow root p → fs' p = fs p

/-- Everything that changed is strictly inside the plugin directory, apart from
the directories made to have a plugin directory at all. -/
def ChangesInside (root : Path) (fs fs' : FileSystem Bytes) : Prop :=
  ∀ p, fs' p ≠ fs p →
    StrictlyBelow root p ∨ (p <+: root ∧ fs p = none ∧ fs' p = some .dir)

/-- Everything that changed belongs to one entry of the plugin directory. -/
def AtMostOnePlugin (root : Path) (fs fs' : FileSystem Bytes) : Prop :=
  ∃ name, ∀ p, fs' p ≠ fs p → root ++ [name] <+: p

theorem Untouched.refl (root : Path) (fs : FileSystem Bytes) : Untouched root fs fs :=
  fun _ _ => rfl

section

variable {root : Path} {fs fs' : FileSystem Bytes}

theorem Untouched.trans {fs'' : FileSystem Bytes} (h : Untouched root fs fs')
    (h' : Untouched root fs' fs'') : Untouched root fs fs'' :=
  fun p hp => (h' p hp).trans (h p hp)

variable {dest : Path}

section

variable (hdest : StrictlyBelow root dest)

include hdest

theorem untouched_removeAll (fs : FileSystem Bytes) (stuck : List Path) :
    Untouched root fs (removeAll fs dest stuck) := by
  intro p hp
  apply removeAll_outside
  intro hpre
  exact hp (hdest.trans_below hpre)

theorem untouched_place (fs tree : FileSystem Bytes) :
    Untouched root fs (place fs dest tree) := by
  intro p hp
  apply place_outside
  intro hpre
  exact hp (hdest.trans_below hpre)

/-- Making a directory inside the root makes nothing outside, if the root is
there. -/
theorem untouched_mkdirAll (hroot : ∀ p, p <+: root → (fs p).isSome = true) :
    Untouched root fs (mkdirAll fs dest) := by
  intro p hp
  by_cases hpre : p <+: dest
  · have hup : p <+: root := by
      rcases List.prefix_or_prefix_of_prefix hpre hdest.1 with h | h
      · exact h
      · by_cases heq : p = root
        · rw [heq]
        · exact absurd ⟨h, heq⟩ hp
    obtain ⟨node, hnode⟩ := Option.isSome_iff_exists.mp (hroot p hup)
    simp [mkdirAll, hnode]
  · exact mkdirAll_elsewhere hpre

theorem untouched_copyDirectory (hroot : ∀ p, p <+: root → (fs p).isSome = true)
    (fault : Option (String × (Path → Progress))) (tree : PluginTree) :
    Untouched root fs (copyDirectory fault fs dest tree).2 := by
  have hcopy : ∀ written, Untouched root fs (place (mkdirAll fs dest) dest written) :=
    fun written => (untouched_mkdirAll hdest hroot).trans (untouched_place hdest _ written)
  cases fault with
  | none => exact hcopy tree
  | some fault =>
    obtain ⟨e, progress⟩ := fault
    unfold copyDirectory copyTree
    by_cases hmissing : progress [] = .missing
    · simp only [hmissing]
      exact Untouched.refl root fs
    · simp only [hmissing]
      exact hcopy _

theorem untouched_finishInstall {faults : InstallFaults} {record : InstallRecord}
    {steps : Except String Unit × FileSystem Bytes} (h : Untouched root fs steps.2) :
    Untouched root fs (finishInstall faults dest record steps).2 := by
  have hremove := h.trans (untouched_removeAll hdest steps.2 faults.stuck)
  unfold finishInstall
  split
  · exact hremove
  · split
    · exact hremove
    · exact h

end

theorem untouched_writePackage (rt : PluginRuntime) (hdest : StrictlyBelow root dest)
    (hroot : ∀ p, p <+: root → (fs p).isSome = true) (faults : InstallFaults)
    (package : PackageTree) (metadata : InstallMetadata) :
    Untouched root fs (writePackage rt faults fs dest package metadata).2 := by
  have hcopy := untouched_copyDirectory hdest hroot faults.copy package.nodes
  unfold writePackage
  simp only
  cases hfiles : (copyDirectory faults.copy fs dest package.nodes).1 with
  | error e => simpa [hfiles] using hcopy
  | ok u =>
    rw [branch_ok]
    obtain ⟨node, hnode⟩ := persistInstallMetadata_snd rt faults.persistMetadata
      (copyDirectory faults.copy fs dest package.nodes).2 dest metadata
    rw [hnode]
    exact hcopy.trans (untouched_place hdest _ _)

/-! ## One operation -/

theorem changesInside_of_untouched (h : Untouched root fs fs') : ChangesInside root fs fs' := by
  intro p hp
  by_contra hnot
  rw [not_or] at hnot
  exact hp (h p hnot.1)

/-- Making the plugin directory and then working inside it. -/
theorem changesInside_of_mkdirAll (h : Untouched root (mkdirAll fs root) fs') :
    ChangesInside root fs fs' := by
  intro p hp
  by_cases hbelow : StrictlyBelow root p
  · exact .inl hbelow
  · right
    rw [h p hbelow] at hp ⊢
    by_cases hpre : p <+: root
    · cases hnode : fs p with
      | none => simp [mkdirAll, hpre, hnode]
      | some node => simp [mkdirAll, hnode] at hp
    · exact absurd (mkdirAll_elsewhere hpre) hp

/-- An install stays inside if its destination does, or if the destination is
the plugin directory or above, where it is refused. -/
theorem changesInside_install {faults : InstallFaults} {id : String}
    {rest : Unit → Except String InstallRecord × FileSystem Bytes}
    (hid : StrictlyBelow root (joinPath root id) ∨ joinPath root id <+: root)
    (hrest : StrictlyBelow root (joinPath root id) →
      (prepareDest root faults fs id).2 = mkdirAll fs root →
      Untouched root (mkdirAll fs root) (rest ()).2) :
    ChangesInside root fs
      (branch (prepareDest root faults fs id).1
        (fun e => (.error e, (prepareDest root faults fs id).2)) rest).2 := by
  rcases prepareDest_cases root faults fs id with ⟨e, herr, hfs⟩ | ⟨hok, hfs, hfree⟩
  · rw [herr]
    rcases hfs with hfs | hfs <;> rw [hfs]
    · exact changesInside_of_untouched (Untouched.refl root fs)
    · exact changesInside_of_mkdirAll (Untouched.refl root _)
  · rw [hok]
    rcases hid with hbelow | hup
    · exact changesInside_of_mkdirAll (hrest hbelow hfs)
    · have hsome : (mkdirAll fs root (joinPath root id)).isSome = true :=
        mkdirAll_isSome hup
      rw [hfree] at hsome
      cases hsome

section

variable (rt : PluginRuntime) (root : Path)
variable {sourcePath : String}

theorem changesInside_installFromDirectory {source : PluginTree}
    (hid : ∀ m, directoryManifest rt sourcePath source = .ok m →
      StrictlyBelow root (joinPath root m.id) ∨ joinPath root m.id <+: root)
    (faults : InstallFaults) (fs : FileSystem Bytes) :
    ChangesInside root fs
      (installFromDirectory rt root faults fs sourcePath source).2 := by
  unfold installFromDirectory
  cases hm : directoryManifest rt sourcePath source with
  | error e => exact changesInside_of_untouched (Untouched.refl root fs)
  | ok m =>
    apply changesInside_install (hid m hm)
    intro hbelow hfs
    apply untouched_finishInstall hbelow
    rw [hfs]
    exact untouched_copyDirectory hbelow (fun _ => mkdirAll_isSome) _ _

theorem changesInside_installFromPackage {keys : TrustedKeys}
    {opened : Except String PackageTree}
    (hid : ∀ c, packageManifest rt keys sourcePath opened = .ok c →
      StrictlyBelow root (joinPath root c.1.id) ∨ joinPath root c.1.id <+: root)
    (faults : InstallFaults) (fs : FileSystem Bytes) :
    ChangesInside root fs
      (installFromPackage rt root faults fs keys sourcePath opened).2 := by
  unfold installFromPackage
  cases hc : packageManifest rt keys sourcePath opened with
  | error e => exact changesInside_of_untouched (Untouched.refl root fs)
  | ok c =>
    apply changesInside_install (hid c hc)
    intro hbelow hfs
    apply untouched_finishInstall hbelow
    rw [hfs]
    exact untouched_writePackage rt hbelow (fun _ => mkdirAll_isSome) _ _ _

theorem uninstall_stays {id : String}
    (hid : ∀ t, uninstallId id = .ok t → StrictlyBelow root (joinPath root t))
    (faults : UninstallFaults) (fs : FileSystem Bytes) :
    ChangesInside root fs (uninstall root faults fs id).2 ∧
      AtMostOnePlugin root fs (uninstall root faults fs id).2 := by
  rcases uninstall_cases root faults fs id with hfs | ⟨trimmed, stuck, ht, hfs⟩
  · rw [hfs]
    exact ⟨changesInside_of_untouched (Untouched.refl root fs),
      "", fun p hp => absurd rfl hp⟩
  · have hbelow := hid trimmed ht
    rw [hfs]
    refine ⟨changesInside_of_untouched (untouched_removeAll hbelow fs stuck), ?_⟩
    obtain ⟨name, rest, hpath⟩ := strictlyBelow_iff.mp hbelow
    refine ⟨name, fun p hp => ?_⟩
    by_contra hnot
    apply hp
    apply removeAll_outside
    intro hpre
    apply hnot
    refine List.IsPrefix.trans ?_ hpre
    rw [hpath]
    exact ⟨rest, by simp⟩

/-! ## All operations on an id -/

/-- Whatever the file system holds and whatever fails, the installs and their
clean-up touch only the inside of the plugin directory, and `Uninstall` touches at
most one plugin there. -/
def StaysInside (keys : TrustedKeys) (sourcePath : String) (source : PluginTree)
    (opened : Except String PackageTree) (id : String) : Prop :=
  ∀ fs,
    (∀ faults, ChangesInside root fs
      (installFromDirectory rt root faults fs sourcePath source).2) ∧
    (∀ faults, ChangesInside root fs
      (installFromPackage rt root faults fs keys sourcePath opened).2) ∧
    ∀ faults, ChangesInside root fs (uninstall root faults fs id).2 ∧
      AtMostOnePlugin root fs (uninstall root faults fs id).2

/-- The text, having climbed out of the directory, comes back into it and names
something there. -/
def NamesInside (id : String) : Prop :=
  StrictlyBelow (root.drop (root.length - (climb id).ups)) (climb id).names.reverse

/-- The text leads to the directory or above it. -/
def NamesAbove (id : String) : Prop :=
  (climb id).names.reverse <+: root.drop (root.length - (climb id).ups)

/-- A fault-free copy makes its destination. -/
theorem copyDirectory_none_dest {tree : PluginTree} (htree : tree [] = some .dir) :
    (copyDirectory none fs dest tree).2 dest = some .dir := by
  have h := place_append (mkdirAll fs dest) tree dest []
  rw [List.append_nil, htree] at h
  exact h

/-- With nothing there and nothing failing, an accepted install gets to the copy
unless its destination is the plugin directory or above. -/
theorem prepareDest_empty {id : String} (h : ¬ joinPath root id <+: root) :
    prepareDest root InstallFaults.none (fun _ => none) id =
      (.ok (), mkdirAll (fun _ => none) root) := by
  have hfree : mkdirAll (fun _ => none : FileSystem Bytes) root (joinPath root id) = none :=
    mkdirAll_elsewhere h
  simp [prepareDest, InstallFaults.none, hfree]

/-- A file system in which something appears stays inside only where it is. -/
theorem strictlyBelow_of_changesInside (h : ChangesInside root (fun _ => none) fs')
    (hdest : fs' dest = some .dir) : StrictlyBelow root dest ∨ dest <+: root := by
  rcases h dest (by simp [hdest]) with hbelow | hup
  · exact .inl hbelow
  · exact .inr hup.1

theorem installFromDirectory_dest {source : PluginTree} {m : Manifest}
    (hm : directoryManifest rt sourcePath source = .ok m) (hup : ¬ joinPath root m.id <+: root) :
    (installFromDirectory rt root InstallFaults.none (fun _ => none) sourcePath source).2
      (joinPath root m.id) = some .dir := by
  rw [installFromDirectory, hm]
  simp only [prepareDest_empty root hup, branch_ok]
  exact copyDirectory_none_dest (directoryManifest_dir rt hm)

theorem installFromPackage_dest {keys : TrustedKeys} {opened : Except String PackageTree}
    {c : Manifest × PackageTree × InstallMetadata}
    (hc : packageManifest rt keys sourcePath opened = .ok c)
    (hup : ¬ joinPath root c.1.id <+: root) :
    (installFromPackage rt root InstallFaults.none (fun _ => none) keys sourcePath
      opened).2 (joinPath root c.1.id) = some .dir := by
  rw [installFromPackage, hc]
  simp only [prepareDest_empty root hup, branch_ok]
  have hcopy : (copyDirectory none (mkdirAll (fun _ => none) root)
      (joinPath root c.1.id) c.2.1.nodes).2 (joinPath root c.1.id) = some .dir :=
    copyDirectory_none_dest rfl
  have hplace := place_append
    (copyDirectory none (mkdirAll (fun _ => none) root) (joinPath root c.1.id)
      c.2.1.nodes).2
    (metadataTree (some (.file (rt.marshalMetadata c.2.2)))) (joinPath root c.1.id) []
  rw [List.append_nil, hcopy] at hplace
  exact hplace

theorem uninstall_dest {id trimmed : String} (ht : uninstallId id = .ok trimmed)
    (hfs : (fs (joinPath root trimmed)).isSome = true) :
    (uninstall root ⟨none, none⟩ fs id).2 (joinPath root trimmed) = none := by
  have hne : ¬ (fs (joinPath root trimmed)).isNone = true := by
    obtain ⟨node, hnode⟩ := Option.isSome_iff_exists.mp hfs
    simp [hnode]
  rw [uninstall, ht, branch_ok]
  simp only [if_neg hne]
  simp [removeAll]

/-- The ids with which the plugin operations stay in the plugin directory. -/
theorem staysInside_iff
    (keys : TrustedKeys) (sourcePath : String) (source : PluginTree)
    (opened : Except String PackageTree) (id : String) :
    StaysInside rt root keys sourcePath source opened id ↔
      (∀ m, directoryManifest rt sourcePath source = .ok m →
        NamesInside root m.id ∨ NamesAbove root m.id) ∧
      (∀ c, packageManifest rt keys sourcePath opened = .ok c →
        NamesInside root c.1.id ∨ NamesAbove root c.1.id) ∧
      ∀ t, uninstallId id = .ok t → NamesInside root t := by
  have hinside : ∀ t, NamesInside root t ↔ StrictlyBelow root (joinPath root t) :=
    fun t => strictlyBelow_joinPath_iff.symm
  have habove : ∀ t, NamesAbove root t ↔ joinPath root t <+: root :=
    fun t => joinPath_prefix_iff.symm
  simp only [hinside, habove]
  constructor
  · intro h
    refine ⟨fun m hm => ?_, fun c hc => ?_, fun t ht => ?_⟩
    · by_cases hup : joinPath root m.id <+: root
      · exact .inr hup
      · exact strictlyBelow_of_changesInside root ((h _).1 InstallFaults.none)
          (installFromDirectory_dest rt root hm hup)
    · by_cases hup : joinPath root c.1.id <+: root
      · exact .inr hup
      · exact strictlyBelow_of_changesInside root ((h _).2.1 InstallFaults.none)
          (installFromPackage_dest rt root hc hup)
    · -- Where every path exists, the removal is a change.
      have hchange := ((h (fun _ => some .dir)).2.2 ⟨none, none⟩).1 (joinPath root t)
      rw [uninstall_dest root ht rfl] at hchange
      rcases hchange (by simp) with hbelow | hup
      · exact hbelow
      · cases hup.2.1
  · rintro ⟨hdir, hpkg, hun⟩ fs
    exact ⟨fun faults => changesInside_installFromDirectory rt root hdir faults fs,
      fun faults => changesInside_installFromPackage rt root hpkg faults fs,
      fun faults => uninstall_stays root hun faults fs⟩

end

end

namespace SamplePlugins

def root : Path := ["home", "yanta", "plugins"]

/-- Two plugins, and the notes next to the plugin directory. -/
def fs : FileSystem Bytes := fun p =>
  if p <+: root then some .dir
  else if p = root ++ ["one"] ∨ p = root ++ ["two"] then some .dir
  else if p = ["home", "yanta", "vault"] then some (.file [1])
  else none

def build : PluginBuildMetadata :=
  ⟨"yanta-plugin-cli", "bun", "yanta-esm-v1", forbiddenBundledRuntimePackages, [], "00"⟩

/-- Decoders that read every manifest as one with the given id. -/
def runtime (id : String) : PluginRuntime where
  sha256 _ := [0]
  decodeBase64 _ := .ok []
  verify _ _ _ := true
  unmarshalSignature _ := .error ""
  lower c := c
  textOf _ := ""
  decodeManifest _ := (⟨id, "Plugin", "1.0.0", "1", "main.js"⟩, none)
  unmarshalBuild _ := .ok build
  unmarshalMetadata _ := .error ""
  marshalMetadata _ := []

def source : PluginTree := fun r =>
  if r = [] then some .dir
  else if r = ["plugin.toml"] ∨ r = ["main.js"] ∨ r = ["main.meta.json"] then
    some (.file [])
  else none

end SamplePlugins

open SamplePlugins

/-- `Uninstall` of two dots removes the directory that holds the notes, of one
dot all plugins, and an accepted manifest installs next to the plugin directory. -/
theorem operations_leave_plugin_directory :
    (uninstall root ⟨none, none⟩ fs "..").2
        ["home", "yanta", "vault"] = none ∧
      fs ["home", "yanta", "vault"] = some (.file [1]) ∧
      (uninstall root ⟨none, none⟩ fs ".").2
        (root ++ ["one"]) = none ∧
      (uninstall root ⟨none, none⟩ fs ".").2
        (root ++ ["two"]) = none ∧
      (installFromDirectory (runtime "../evil") root
        InstallFaults.none fs "/tmp/evil" source).2
        ["home", "yanta", "evil", "main.js"] = some (.file []) := by
  decide +kernel

end Yanta.Plugin
