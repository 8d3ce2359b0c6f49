import Yanta.Index.Rebuild

/-!
# When a scan succeeds

What the loops over project directories and over documents do to the database,
and when they come to an end. A project directory is scanned through a query
that hides archived rows, so the alias of an archived project blocks the scan;
apart from that, directories and documents that can be read are taken.
-/

namespace Yanta.Index

open Go Vault Document Project List

variable {aliases corrupt : List String}

section

variable {β : Type} {rt : VaultRuntime β}
variable {projectAlias : String} {env : ScanEnv} {s s' : Workspace β}

/-! ## One project directory -/

/-- Only the journal rows change. -/
theorem indexAllJournals_eq (v : Vault β) (db : Db) :
    indexAllJournals rt v db =
      { db with ftsJournal := (indexAllJournals rt v db).ftsJournal } := by
  refine List.foldlRecOn
    (motive := fun db' : Db => db' = { db with ftsJournal := db'.ftsJournal }) _ _ rfl ?_
  intro db' hdb' projectAlias _
  refine List.foldlRecOn
    (motive := fun db' : Db => db' = { db with ftsJournal := db'.ftsJournal }) _ _ hdb' ?_
  intro db' hdb' name _
  rw [hdb']
  rfl

theorem readProjectMetadata_ok {v : Vault β} {metadata : ProjectMetadata}
    (h : readProjectMetadata rt v projectAlias = .ok metadata) :
    metadata.projectAlias = projectAlias ∧ metadata.name ≠ "" := by
  unfold readProjectMetadata at h
  split at h
  · cases h
  · split at h
    · cases h
    · simp only [bind_eq_ok] at h
      obtain ⟨read, -, h⟩ := h
      split_ifs at h with halias hname
      cases h
      exact ⟨not_not.mp halias, hname⟩

/-- What one project directory does: nothing, new data for the active row of the
alias, or a new row for an alias that had none. -/
theorem scanProject_cases (h : scanProject rt env s projectAlias = .ok s') :
    ((getProjectByAlias s.db projectAlias).isSome = true ∧
      ∃ (cond : ProjectRow → Bool) (name startDate endDate : String),
        s' = ⟨s.vault, setProjects s.db cond (setData name startDate endDate)⟩) ∨
    (s.db.hasProject projectAlias = false ∧ ∃ p : ProjectRow,
      p.projectAlias = projectAlias ∧ p.deleted = false ∧
      validateAlias projectAlias = .ok () ∧ p.id = env.projectId projectAlias ∧
      s'.db = { s.db with project := s.db.project ++ [p] } ∧
      ∀ key, key ≠ metadataPath projectAlias →
        s'.vault.lookup key = s.vault.lookup key) := by
  have hsame : ∀ db : Db, setProjects db (fun _ => false) (setData "" "" "") = db := by
    intro db
    simp [setProjects]
  unfold scanProject at h
  by_cases hexists : projectMetadataExists s.vault projectAlias = true
  · simp only [hexists, if_true, bind_eq_ok, labelText_eq_ok, pure, Except.pure,
      Except.ok.injEq] at h
    obtain ⟨metadata, hread, db, hscan, rfl⟩ := h
    obtain ⟨halias, -⟩ := readProjectMetadata_ok hread
    unfold scanMetadata at hscan
    cases hget : getProjectByAlias s.db projectAlias with
    | some existing =>
      rw [hget] at hscan
      dsimp only at hscan
      left
      refine ⟨rfl, ?_⟩
      split at hscan
      · rw [labelText_eq_ok, updateProject_eq_ok] at hscan
        obtain ⟨-, -, rfl⟩ := hscan
        exact ⟨_, _, _, _, rfl⟩
      · cases hscan
        exact ⟨fun _ => false, "", "", "", by rw [hsame]⟩
    | none =>
      rw [hget] at hscan
      rw [labelText_eq_ok, createProject_eq_ok] at hscan
      obtain ⟨⟨-, hvalid⟩, -, hfree, rfl⟩ := hscan
      rw [halias] at hvalid hfree
      right
      exact ⟨hfree, _, halias, rfl, hvalid, rfl, rfl, fun _ _ => rfl⟩
  · simp only [hexists, Bool.false_eq_true, if_false] at h
    by_cases hsome : (getProjectByAlias s.db projectAlias).isSome = true
    · simp only [hsome, if_true, Except.ok.injEq] at h
      left
      refine ⟨hsome, fun _ => false, "", "", "", ?_⟩
      rw [hsame, h]
    · simp only [hsome, Bool.false_eq_true, if_false, bind_eq_ok, labelText_eq_ok,
        createProject_eq_ok, pure, Except.pure, Except.ok.injEq] at h
      obtain ⟨db, ⟨⟨-, hvalid⟩, -, hfree, rfl⟩, vault, hwrite, rfl⟩ := h
      right
      refine ⟨hfree, _, rfl, rfl, hvalid, rfl, rfl, ?_⟩
      intro key hkey
      unfold writeProjectMetadata at hwrite
      split_ifs at hwrite
      cases hwrite
      exact AList.lookup_insert_ne hkey

/-! ## Scanning the projects -/

/-- The alias is taken by an archived project only. -/
def Blocked (db : Db) (projectAlias : String) : Prop :=
  db.hasProject projectAlias = true ∧ getProjectByAlias db projectAlias = none

/-- What scanning project directories may change. -/
structure ProjectsOnly (s s' : Workspace β) : Prop where
  db : s'.db = { s.db with project := s'.db.project }
  keeps : ∀ a, s.db.hasProject a = true → s'.db.hasProject a = true
  documents : ∀ key, isDocumentKey key = true →
    s'.vault.lookup key = s.vault.lookup key

theorem ProjectsOnly.refl (s : Workspace β) : ProjectsOnly s s :=
  ⟨rfl, fun _ h => h, fun _ _ => rfl⟩

theorem ProjectsOnly.trans {t u : Workspace β} (h : ProjectsOnly s t) (h' : ProjectsOnly t u) :
    ProjectsOnly s u where
  db := by
    rw [h'.db, h.db]
  keeps a ha := h'.keeps a (h.keeps a ha)
  documents key hkey := (h'.documents key hkey).trans (h.documents key hkey)

/-- New names and dates leave the aliases, the ids and the marks alone. -/
theorem mem_setData
    {db : Db} {cond : ProjectRow → Bool} {name startDate endDate : String}
    {p : ProjectRow}
    (hp : p ∈ (setProjects db cond (setData name startDate endDate)).project) :
    ∃ q ∈ db.project, q.projectAlias = p.projectAlias ∧ q.deleted = p.deleted ∧
      q.id = p.id := by
  obtain ⟨q, hq, rfl⟩ := mem_map.mp hp
  refine ⟨q, hq, ?_⟩
  split <;> exact ⟨rfl, rfl, rfl⟩

theorem hasProject_setData
    (db : Db) (cond : ProjectRow → Bool) (name startDate endDate a : String) :
    (setProjects db cond (setData name startDate endDate)).hasProject a =
      db.hasProject a := by
  simp only [Db.hasProject, setProjects, any_map]
  congr 1
  funext q
  simp only [Function.comp_apply]
  split <;> rfl

theorem projectsOnly_of_scanProject (h : scanProject rt env s projectAlias = .ok s') :
    ProjectsOnly s s' := by
  rcases scanProject_cases h with ⟨-, cond, name, startDate, endDate, rfl⟩ |
    ⟨-, p, -, -, hvalid, -, hdb, hlookup⟩
  · refine ⟨rfl, ?_, fun _ _ => rfl⟩
    intro a ha
    exact (hasProject_setData ..).trans ha
  · refine ⟨by rw [hdb], ?_, ?_⟩
    · intro a ha
      rw [hdb, hasProject_eq_true_iff]
      obtain ⟨q, hq, hqa⟩ := hasProject_eq_true_iff.mp ha
      exact ⟨q, by simp [hq], hqa⟩
    · intro key hkey
      apply hlookup
      rintro rfl
      rw [not_isDocumentKey_metadataPath hvalid] at hkey
      cases hkey

variable (rt) in
theorem projectsOnly_scanProjects
    (env : ScanEnv) (aliases : List String) (s : Workspace β) :
    ProjectsOnly s (scanProjects rt env aliases s).state := by
  induction aliases generalizing s with
  | nil => exact .refl s
  | cons a aliases ih =>
    cases hscan : scanProject rt env s a with
    | error e =>
      rw [scanProjects, hscan]
      exact .refl s
    | ok t =>
      rw [scanProjects, hscan]
      exact (projectsOnly_of_scanProject hscan).trans (ih t)

/-- A blocked alias stays blocked, and its own directory cannot be scanned. -/
theorem blocked_scanProject {a : String} (h : scanProject rt env s projectAlias = .ok s')
    (hblocked : Blocked s.db a) : a ≠ projectAlias ∧ Blocked s'.db a := by
  obtain ⟨hhas, hnone⟩ := hblocked
  have hkeeps := (projectsOnly_of_scanProject h).keeps a hhas
  rw [getProjectByAlias_eq_none] at hnone
  rcases scanProject_cases h with ⟨hsome, cond, name, startDate, endDate, rfl⟩ |
    ⟨hfree, p, hpa, -, -, -, hdb, -⟩
  · refine ⟨?_, hkeeps, ?_⟩
    · rintro rfl
      obtain ⟨q, hq⟩ := Option.isSome_iff_exists.mp hsome
      obtain ⟨hmem, hqa, hactive⟩ := mem_of_getProjectByAlias hq
      rw [hnone q hmem hqa] at hactive
      cases hactive
    · rw [getProjectByAlias_eq_none]
      intro p hp hpa
      obtain ⟨q, hq, hqa, hqd, -⟩ := mem_setData hp
      rw [← hqd]
      exact hnone q hq (hqa.trans hpa)
  · have hne : a ≠ projectAlias := by
      rintro rfl
      rw [hhas] at hfree
      cases hfree
    refine ⟨hne, hkeeps, ?_⟩
    rw [getProjectByAlias_eq_none, hdb]
    intro q hq hqa
    rcases mem_append.mp hq with hq | hq
    · exact hnone q hq hqa
    · obtain rfl : q = p := by simpa using hq
      exact absurd (hqa.symm.trans hpa) hne

theorem scanProjects_blocked {a : String} (hblocked : Blocked s.db a) (ha : a ∈ aliases) :
    ∃ e, (scanProjects rt env aliases s).result = .error e := by
  induction aliases generalizing s with
  | nil => cases ha
  | cons b aliases ih =>
    cases hscan : scanProject rt env s b with
    | error e => exact ⟨e, by rw [scanProjects, hscan, branch_error]⟩
    | ok s' =>
      obtain ⟨hne, hblocked'⟩ := blocked_scanProject hscan hblocked
      have ha' := mem_of_ne_of_mem hne ha
      rw [scanProjects, hscan]
      exact ih hblocked' ha'

/-- What the success of the scan rests on: no project is archived, and the ids
it draws are new. -/
structure ProjectsReady (env : ScanEnv) (db : Db) : Prop where
  active : ∀ p ∈ db.project, p.deleted = false
  aliasValid : ∀ p ∈ db.project, validateAlias p.projectAlias = .ok ()
  idFresh : ∀ p ∈ db.project, ∀ a, p.id = env.projectId a → p.projectAlias = a

theorem projectsReady_of_scanProject (hinj : Function.Injective env.projectId)
    (h : scanProject rt env s projectAlias = .ok s') (hready : ProjectsReady env s.db) :
    ProjectsReady env s'.db := by
  have hrows : ∀ p ∈ s'.db.project, p.deleted = false ∧
      validateAlias p.projectAlias = .ok () ∧
      ∀ a, p.id = env.projectId a → p.projectAlias = a := by
    intro p hp
    rcases scanProject_cases h with ⟨-, cond, name, startDate, endDate, rfl⟩ |
      ⟨-, new, hpa, hpd, hvalid, hpid, hdb, -⟩
    · obtain ⟨q, hq, ha, hd, hi⟩ := mem_setData hp
      rw [← ha, ← hd, ← hi]
      exact ⟨hready.active q hq, hready.aliasValid q hq, hready.idFresh q hq⟩
    · rw [hdb, mem_append, mem_singleton] at hp
      rcases hp with hp | rfl
      · exact ⟨hready.active p hp, hready.aliasValid p hp, hready.idFresh p hp⟩
      · rw [hpa, hpid]
        exact ⟨hpd, hvalid, fun a hid => hinj hid⟩
  exact ⟨fun p hp => (hrows p hp).1, fun p hp => (hrows p hp).2.1,
    fun p hp => (hrows p hp).2.2⟩

theorem projectOfDir_name_ne_empty {u : Unit} (halias : validateAlias projectAlias = .ok u) :
    (projectOfDir rt env projectAlias).name ≠ "" := by
  obtain ⟨content, hlist, hne, -⟩ := validateAlias_chars halias
  obtain ⟨c, cs, rfl⟩ := exists_cons_of_ne_nil hne
  have htrim : trimPrefix projectAlias "@" = String.ofList (c :: cs) := by
    rw [trimPrefix, if_pos (by simp [hasPrefix, hlist]), hlist]
    rfl
  have htitle : ∀ chars : List Char, chars ≠ [] → toTitleFrom rt false chars ≠ [] := by
    intro chars hchars
    cases chars with
    | nil => exact absurd rfl hchars
    | cons d ds =>
      rw [toTitleFrom]
      split <;> simp
  have hreplace : (replaceAll (String.ofList (c :: cs)) "-" " ").toList ≠ [] := by
    simp only [replaceAll, String.toList_ofList, length_cons, replaceAux]
    split <;> simp
  intro hname
  have hempty : (toTitle rt (replaceAll (trimPrefix projectAlias "@") "-" " ")).toList =
      [] := by
    rw [show toTitle rt _ = "" from hname]
    rfl
  rw [htrim, toTitle, String.toList_ofList] at hempty
  refine htitle _ ?_ hempty
  simpa [toLower] using hreplace

/-- A readable project directory is scanned without an error. -/
theorem scanProject_ok (hready : ProjectsReady env s.db)
    (halias : validateAlias projectAlias = .ok ())
    (hread : projectMetadataExists s.vault projectAlias = true →
      ∃ metadata, readProjectMetadata rt s.vault projectAlias = .ok metadata) :
    ∃ s', scanProject rt env s projectAlias = .ok s' := by
  have hcreate : ∀ p : ProjectRow, getProjectByAlias s.db projectAlias = none →
      p.projectAlias = projectAlias → p.id = env.projectId projectAlias → p.name ≠ "" →
      ∃ db, createProject s.db p = .ok db := by
    intro p hnone hpa hpid hname
    have hfree : s.db.hasProject projectAlias = false := by
      rw [hasProject_eq_false_iff]
      intro q hq hqa
      have hdel := getProjectByAlias_eq_none.mp hnone q hq hqa
      rw [hready.active q hq] at hdel
      cases hdel
    refine ⟨_, createProject_eq_ok.mpr ⟨⟨hname, hpa ▸ halias⟩, ?_, hpa ▸ hfree, rfl⟩⟩
    intro q hq hid
    have hqa := hready.idFresh q hq projectAlias (hid.trans hpid)
    exact hasProject_eq_false_iff.mp hfree q hq hqa
  unfold scanProject
  by_cases hexists : projectMetadataExists s.vault projectAlias = true
  · obtain ⟨metadata, hmetadata⟩ := hread hexists
    obtain ⟨hma, hmn⟩ := readProjectMetadata_ok hmetadata
    obtain ⟨db, hdb⟩ : ∃ db, scanMetadata env s.db projectAlias metadata = .ok db := by
      unfold scanMetadata
      cases hget : getProjectByAlias s.db projectAlias with
      | some existing =>
        obtain ⟨hmem, hea, hactive⟩ := mem_of_getProjectByAlias hget
        dsimp only
        split
        · refine ⟨_, labelText_eq_ok.mpr (updateProject_eq_ok.mpr ⟨⟨hmn, ?_⟩, ?_, rfl⟩)⟩
          · exact hready.aliasValid existing hmem
          · exact (getProjectById_isSome hmem hactive :)
        · exact ⟨s.db, rfl⟩
      | none =>
        obtain ⟨db, hdb⟩ := hcreate ⟨env.projectId projectAlias, metadata.projectAlias,
          metadata.name, metadata.startDate, metadata.endDate, false⟩ hget hma rfl hmn
        exact ⟨db, labelText_eq_ok.mpr hdb⟩
    refine ⟨⟨s.vault, db⟩, ?_⟩
    simp only [hexists, if_true, bind_eq_ok, labelText_eq_ok]
    exact ⟨metadata, hmetadata, db, hdb, rfl⟩
  · cases hget : getProjectByAlias s.db projectAlias with
    | some existing => exact ⟨s, by simp [hexists]⟩
    | none =>
      have hname : (projectOfDir rt env projectAlias).name ≠ "" :=
        projectOfDir_name_ne_empty halias
      obtain ⟨db, hdb⟩ := hcreate (projectOfDir rt env projectAlias) hget rfl rfl hname
      obtain ⟨vault, hvault⟩ : ∃ vault, writeProjectMetadata rt env.mtime s.vault
          (metadataOf rt env.now (projectOfDir rt env projectAlias)) = .ok vault :=
        ⟨_, writeProjectMetadata_eq (ne_empty_of_validateAlias halias) hname⟩
      refine ⟨⟨vault, db⟩, ?_⟩
      simp only [hexists, Bool.false_eq_true, if_false, Option.isSome_none, bind_eq_ok,
        labelText_eq_ok]
      exact ⟨db, hdb, vault, hvault, rfl⟩

variable (rt) in
theorem readProjectMetadata_congr {v v' : Vault β}
    (h : v'.lookup (metadataPath projectAlias) = v.lookup (metadataPath projectAlias)) :
    readProjectMetadata rt v' projectAlias = readProjectMetadata rt v projectAlias ∧
      projectMetadataExists v' projectAlias = projectMetadataExists v projectAlias := by
  simp [readProjectMetadata, projectMetadataExists, h]

/-- The directories of valid aliases are scanned without an error when their
metadata can be read and no project is archived. -/
theorem scanProjects_ok (hinj : Function.Injective env.projectId) (hnodup : aliases.Nodup)
    (hready : ProjectsReady env s.db) (halias : ∀ a ∈ aliases, validateAlias a = .ok ())
    (hread : ∀ a ∈ aliases, projectMetadataExists s.vault a = true →
      ∃ metadata, readProjectMetadata rt s.vault a = .ok metadata) :
    ∃ s', scanProjects rt env aliases s = ⟨.ok (), s'⟩ ∧ ProjectsOnly s s' ∧
      ProjectsReady env s'.db := by
  induction aliases generalizing s with
  | nil => exact ⟨s, rfl, .refl s, hready⟩
  | cons a aliases ih =>
    obtain ⟨hfresh, hnodup⟩ := nodup_cons.mp hnodup
    have ha := halias a (by simp)
    obtain ⟨t, hscan⟩ := scanProject_ok hready ha (hread a (by simp))
    have hmetadata : ∀ b ∈ aliases,
        t.vault.lookup (metadataPath b) = s.vault.lookup (metadataPath b) := by
      intro b hb
      rcases scanProject_cases hscan with ⟨-, _, _, _, _, rfl⟩ |
        ⟨-, _, -, -, -, -, -, hlookup⟩
      · rfl
      · apply hlookup
        intro heq
        have := metadataPath_injective (halias b (by simp [hb])) ha heq
        exact hfresh (this ▸ hb)
    obtain ⟨s', hrest, honly, hready'⟩ := ih hnodup
      (projectsReady_of_scanProject hinj hscan hready)
      (forall_mem_cons.mp halias).2 (by
        intro b hb hexists
        obtain ⟨hr, he⟩ := readProjectMetadata_congr rt (hmetadata b hb)
        rw [hr]
        exact hread b (by simp [hb]) (he ▸ hexists))
    refine ⟨s', ?_, (projectsOnly_of_scanProject hscan).trans honly, hready'⟩
    rw [scanProjects, hscan, branch_ok, hrest]

/-! ## Scanning the documents -/

variable (rt) in
/-- The document at a path can be read and the database accepts it. -/
def Indexable (env : ScanEnv) (v : Vault β) (db : Db) (path : String) : Prop :=
  ∃ absPath file docFile, documentPath path = .ok absPath ∧
    v.lookup absPath = some file ∧ rt.size file.data ≤ maxDocumentFileBytes ∧
    fromJSON rt.toRuntime (env.clock path) file.data = .ok docFile ∧
    Accepts rt.toRuntime db path docFile file.mtime

/-- Whatever the scan comes to, it archives nothing. -/
theorem indexDocuments_isArchived {v : Vault β} {paths : List String} {db : Db}
    (h : ∀ p, db.isArchived p = false) :
    ∀ p, (indexDocuments rt env v paths corrupt db).2.isArchived p = false := by
  induction paths generalizing corrupt db with
  | nil => exact h
  | cons path paths ih =>
    rw [indexDocuments]
    cases hindex : indexDocument rt.toRuntime (env.clock path) (env.faults path) v db
        path with
    | error e =>
      rw [branch_error]
      split
      · exact ih h
      · exact h
    | ok db' =>
      apply ih
      obtain ⟨_, file, docFile, -, -, -, -, -, -, -, -, hcases⟩ :=
        indexDocument_eq_ok.mp hindex
      rcases hcases with ⟨harch, -⟩ | ⟨-, -, -, rfl⟩
      · rw [h path] at harch
        cases harch
      · intro p
        rw [storeDocument_isArchived, h p, Bool.and_false]

/-- Documents that can be read and are accepted are all indexed. -/
theorem indexDocuments_ok (hfaults : ∀ p, env.faults p = IndexFaults.none) {v : Vault β}
    {paths : List String} {db : Db} (harch : ∀ p, db.isArchived p = false)
    (hpaths : ∀ p ∈ paths, Indexable rt env v db p) :
    ∃ db', indexDocuments rt env v paths corrupt db = (.ok corrupt, db') ∧
      db'.project = db.project ∧
      ∀ p, db'.isActive p = true ↔ db.isActive p = true ∨ p ∈ paths := by
  induction paths generalizing db with
  | nil => exact ⟨db, rfl, rfl, by simp⟩
  | cons path paths ih =>
    obtain ⟨absPath, file, docFile, hpath, hfile, hsize, hjson, hacc⟩ :=
      hpaths path (by simp)
    have hclean : CleanWrite rt.toRuntime IndexFaults.none docFile :=
      ⟨rfl, rfl, rfl, .inr rfl, rfl, .inr rfl, rfl, rfl⟩
    have hindex : indexDocument rt.toRuntime (env.clock path) (env.faults path) v db
        path = .ok (storeDocument rt.toRuntime .none db path docFile file) := by
      rw [hfaults]
      exact indexDocument_eq_ok.mpr ⟨absPath, file, docFile, hpath, hfile, hsize, hjson,
        rfl, rfl, rfl, rfl, .inr ⟨harch path, hacc, hclean, rfl⟩⟩
    have hrest : ∀ p ∈ paths,
        Indexable rt env v (storeDocument rt.toRuntime .none db path docFile file) p := by
      intro p hp
      obtain ⟨absPath, file, docFile, h1, h2, h3, h4, hacc⟩ := hpaths p (by simp [hp])
      exact ⟨absPath, file, docFile, h1, h2, h3, h4, accepts_storeDocument hacc⟩
    have harch' : ∀ p, (storeDocument rt.toRuntime .none db path docFile file).isArchived
        p = false := by
      intro p
      rw [storeDocument_isArchived, harch p, Bool.and_false]
    obtain ⟨db', hdocs, hproject, hactive⟩ := ih harch' hrest
    refine ⟨db', ?_, by rw [hproject, storeDocument_project], ?_⟩
    · rw [indexDocuments, hindex, branch_ok, hdocs]
    · intro p
      rw [hactive, storeDocument_isActive, mem_cons]
      rw [Bool.or_eq_true, decide_eq_true_eq, or_comm (a := p = path), or_assoc]

end

end Yanta.Index
