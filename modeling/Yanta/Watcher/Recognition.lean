import Yanta.Watcher.Reports

/-!
# Recognising the app's own writes

The condition under which the watcher does not take a write of the app for a
change made by another program, and the invariant that carries it: a path that
was written, whose last write by the app is noted, and which no other program
has written since, can be read, and the hash of its document is the recorded
one. This module shows that the services and other programs keep the invariant.
-/

namespace Yanta.FileWatcher

open Vault Document Index Support List Option History

/-- `DocumentPath` names the file itself, or refuses it. -/
def selfNamed (path : String) : Bool :=
  match documentPath path with
  | .ok absPath => absPath == path
  | .error _ => true

/-- No callback stands between its read of the file and its report. -/
def idleAt (running : List Callback) (path : String) : Bool :=
  running.all fun c => !(c.relPath == path && c.midway)

section

variable {ι β : Type} [DecidableEq ι] (calls : ι → Call)

/-- The condition on the next move of a callback. When it is about to look at
the file, the app's last write is noted; a recorded hash is forgotten only after
a write that makes it useless; and callbacks of one path take turns. -/
def callbackIsSafe (s : System ι β) (k : Nat) (env : CallbackEnv) (c : Callback) :
    Bool :=
  match c.stage with
  | .started =>
    if c.op.stores then
      selfNamed c.relPath && env.readFault.isNone && !s.history.unnoted c.relPath &&
        idleAt (s.running.eraseIdx k) c.relPath
    else
      !c.op.removes || s.history.unnoted c.relPath ||
        decide (s.history.known c.relPath < s.history.writes c.relPath)
  | .changed _ | .indexed _ => idleAt (s.running.eraseIdx k) c.relPath
  | _ => true

/-- The condition on a step: the app does not write a file while a callback is
between its read of the file and its report, and callbacks move safely. -/
def stepIsSafe (s : System ι β) : Event ι β → Bool
  | .call e => (fileOf (calls e.1) (s.calls.phase e.1)).all (idleAt s.running)
  | .edit path _ => idleAt s.running path
  | .advance k env => s.running[k]?.all (callbackIsSafe s k env)
  | _ => true

/-- Every report is about a file that another program has written since the
last version the app wrote or reconciled. -/
def ReportsExternal (s : System ι β) : Prop :=
  ∀ r ∈ s.history.reports, r.external = true

end

/-! ## The invariant -/

section

variable {ι β : Type} {rt : Runtime β} {s t : System ι β}

variable (rt) in
/-- The file can be read, now and later, and its document has this hash. -/
def HashesTo (s : System ι β) (path hash : String) : Prop :=
  ∃ d, readFile rt s.clock none s.vault path = .ok d ∧ computeFileHash rt d = hash

variable (rt) in
/-- A callback between its read and its report has seen a write that the app
does not know, and if there was none since, the hash it holds is the file's. -/
structure MidwayInv (s : System ι β) (c : Callback) : Prop where
  named : selfNamed c.relPath = true
  unknown : s.history.known c.relPath < c.seen
  seen : c.seen ≤ s.history.writes c.relPath
  hash : ∀ hash, c.stage.hash = some hash → c.seen = s.history.writes c.relPath →
    HashesTo rt s c.relPath hash

variable (rt) in
structure ReportInv (s : System ι β) : Prop where
  timers : ∀ t ∈ s.watcher.timers, s.history.touched t.relPath = true
  running : ∀ c ∈ s.running, s.history.touched c.relPath = true
  known : ∀ p, s.history.known p ≤ s.history.writes p
  recognised : ∀ p, selfNamed p = true → s.history.touched p = true →
    s.history.unnoted p = false → s.history.known p = s.history.writes p →
    HashesTo rt s p (s.watcher.reconciledHashes p)
  midway : ∀ c ∈ s.running, c.midway = true → MidwayInv rt s c
  reports : ReportsExternal s

/-- The two states agree on the file at `p` and on what happened to it. -/
structure SameAt (p : String) (s t : System ι β) : Prop where
  clock : s.clock ≤ t.clock
  file : t.vault.lookup p = s.vault.lookup p
  touched : t.history.touched p = s.history.touched p
  unnoted : t.history.unnoted p = s.history.unnoted p
  writes : t.history.writes p = s.history.writes p
  known : t.history.known p = s.history.known p
  hash : t.watcher.reconciledHashes p = s.watcher.reconciledHashes p

theorem hashesTo_of_same {p hash : String} (hnamed : selfNamed p = true)
    (hclock : s.clock ≤ t.clock) (hfile : t.vault.lookup p = s.vault.lookup p)
    (h : HashesTo rt s p hash) : HashesTo rt t p hash := by
  obtain ⟨d, hread, hhash⟩ := h
  refine ⟨d, ?_, hhash⟩
  have hlater := readFile_later hread hclock
  rw [← hlater]
  apply readFile_congr
  intro absPath hpath
  have heq : absPath = p := by
    simpa [selfNamed, hpath] using hnamed
  rw [heq, hfile]

theorem midwayInv_of_same {c : Callback} (hclock : s.clock ≤ t.clock)
    (hfile : t.vault.lookup c.relPath = s.vault.lookup c.relPath)
    (hwrites : t.history.writes c.relPath = s.history.writes c.relPath)
    (hknown : t.history.known c.relPath = s.history.known c.relPath) (h : MidwayInv rt s c) :
    MidwayInv rt t c where
  named := h.named
  unknown := by
    rw [hknown]
    exact h.unknown
  seen := by
    rw [hwrites]
    exact h.seen
  hash := by
    intro hash hstage hseen
    rw [hwrites] at hseen
    exact hashesTo_of_same h.named hclock hfile (h.hash hash hstage hseen)

/-- What is left to show of a step that concerns only the path `p`. -/
theorem reportInv_of_step (p : String) (hs : ReportInv rt s) (hsame : ∀ q, q ≠ p → SameAt q s t)
    (htimers : ∀ x ∈ t.watcher.timers, t.history.touched x.relPath = true)
    (hrunning : ∀ c ∈ t.running, t.history.touched c.relPath = true)
    (hknown : t.history.known p ≤ t.history.writes p)
    (hrecognised : selfNamed p = true → t.history.touched p = true →
      t.history.unnoted p = false → t.history.known p = t.history.writes p →
      HashesTo rt t p (t.watcher.reconciledHashes p))
    (hold : ∀ c ∈ t.running, c.midway = true → c.relPath ≠ p → c ∈ s.running)
    (hmidway : ∀ c ∈ t.running, c.midway = true → c.relPath = p → MidwayInv rt t c)
    (hreports : ReportsExternal t) : ReportInv rt t where
  timers := htimers
  running := hrunning
  known := by
    intro q
    by_cases hq : q = p
    · rw [hq]
      exact hknown
    · rw [(hsame q hq).known, (hsame q hq).writes]
      exact hs.known q
  recognised := by
    intro q hnamed htouched hunnoted heq
    by_cases hq : q = p
    · subst hq
      exact hrecognised hnamed htouched hunnoted heq
    · have h := hsame q hq
      rw [h.touched] at htouched
      rw [h.unnoted] at hunnoted
      rw [h.known, h.writes] at heq
      rw [h.hash]
      exact hashesTo_of_same hnamed h.clock h.file
        (hs.recognised q hnamed htouched hunnoted heq)
  midway := by
    intro c hc hmid
    by_cases hp : c.relPath = p
    · exact hmidway c hc hmid hp
    · have h := hsame _ hp
      exact midwayInv_of_same h.clock h.file h.writes h.known
        (hs.midway c (hold c hc hmid hp) hmid)
  reports := hreports

theorem not_midway_of_idleAt
    {running : List Callback} {p : String} (h : idleAt running p = true)
    {c : Callback} (hc : c ∈ running) (hp : c.relPath = p) : c.midway = false := by
  have hall := all_eq_true.mp h c hc
  simpa [hp] using hall

/-- A step that changes neither the files nor what is known about them. -/
theorem reportInv_of_quiet (hs : ReportInv rt s) (hclock : s.clock ≤ t.clock)
    (hvault : t.vault = s.vault) (hhistory : t.history = s.history)
    (hhash : t.watcher.reconciledHashes = s.watcher.reconciledHashes)
    (htimers : ∀ x ∈ t.watcher.timers, s.history.touched x.relPath = true)
    (hrunning : ∀ c ∈ t.running, s.history.touched c.relPath = true)
    (hmidway : ∀ c ∈ t.running, c.midway = true → c ∈ s.running ∨ MidwayInv rt t c) :
    ReportInv rt t := by
  refine ⟨?_, ?_, ?_, ?_, ?_, ?_⟩
  · rw [hhistory]
    exact htimers
  · rw [hhistory]
    exact hrunning
  · rw [hhistory]
    exact hs.known
  · intro p hnamed htouched hunnoted heq
    rw [hhistory] at htouched hunnoted heq
    rw [hhash]
    exact hashesTo_of_same hnamed hclock (by rw [hvault])
      (hs.recognised p hnamed htouched hunnoted heq)
  · intro c hc hmid
    rcases hmidway c hc hmid with hold | hnew
    · exact midwayInv_of_same hclock (by rw [hvault]) (by rw [hhistory])
        (by rw [hhistory]) (hs.midway c hold hmid)
    · exact hnew
  · intro r hr
    rw [hhistory] at hr
    exact hs.reports r hr

/-- A write marks its path and no other. -/
theorem touched_update
    {touched : String → Bool} {p q : String} (h : touched q = true) :
    Function.update touched p true q = true := by
  by_cases hq : q = p
  · rw [hq, Function.update_self]
  · rw [Function.update_of_ne hq]
    exact h

/-- The app writes a file that no callback is about to report. -/
theorem reportInv_appWrote {p : String} (hs : ReportInv rt s)
    (hidle : idleAt s.running p = true) (hclock : t.clock = s.clock)
    (hwatcher : t.watcher = s.watcher) (hrunning : t.running = s.running)
    (hvault : ∀ q, q ≠ p → t.vault.lookup q = s.vault.lookup q)
    (hhistory : t.history = s.history.appWrote p) : ReportInv rt t := by
  refine reportInv_of_step p hs ?_ ?_ ?_ ?_ ?_ ?_ ?_ ?_
  · intro q hq
    refine ⟨hclock.ge, hvault q hq, ?_, ?_, ?_, ?_, by rw [hwatcher]⟩ <;>
      simp [hhistory, appWrote, hq]
  · intro x hx
    rw [hwatcher] at hx
    rw [hhistory]
    exact touched_update (hs.timers x hx)
  · intro c hc
    rw [hrunning] at hc
    rw [hhistory]
    exact touched_update (hs.running c hc)
  · simp [hhistory, appWrote]
  · intro _ _ hunnoted
    simp [hhistory, appWrote] at hunnoted
  · intro c hc _ _
    rwa [hrunning] at hc
  · intro c hc hmid hp
    rw [hrunning] at hc
    rw [not_midway_of_idleAt hidle hc hp] at hmid
    cases hmid
  · intro r hr
    rw [hhistory] at hr
    exact hs.reports r hr

/-- Another program writes a file. -/
theorem reportInv_otherWrote {p : String} (hs : ReportInv rt s) (hclock : t.clock = s.clock)
    (hwatcher : t.watcher = s.watcher) (hrunning : t.running = s.running)
    (hvault : ∀ q, q ≠ p → t.vault.lookup q = s.vault.lookup q)
    (hhistory : t.history = s.history.otherWrote p) : ReportInv rt t := by
  have hwrites : t.history.writes p = s.history.writes p + 1 := by
    simp [hhistory, otherWrote]
  have hknown : t.history.known = s.history.known := by
    simp [hhistory, otherWrote]
  have hle := hs.known p
  refine reportInv_of_step p hs ?_ ?_ ?_ ?_ ?_ ?_ ?_ ?_
  · intro q hq
    refine ⟨hclock.ge, hvault q hq, ?_, ?_, ?_, ?_, by rw [hwatcher]⟩ <;>
      simp [hhistory, otherWrote, hq]
  · intro x hx
    rw [hwatcher] at hx
    rw [hhistory]
    exact touched_update (hs.timers x hx)
  · intro c hc
    rw [hrunning] at hc
    rw [hhistory]
    exact touched_update (hs.running c hc)
  · rw [hknown]
    omega
  · intro _ _ _ heq
    rw [hknown] at heq
    omega
  · intro c hc _ _
    rwa [hrunning] at hc
  · intro c hc hmid hp
    rw [hrunning] at hc
    have hold := hs.midway c hc hmid
    have hseen := hold.seen
    rw [hp] at hseen
    refine ⟨hold.named, ?_, ?_, ?_⟩
    · rw [hknown]
      exact hold.unknown
    · rw [hp]
      omega
    · intro _ _ heq
      rw [hp] at heq
      omega
  · intro r hr
    rw [hhistory] at hr
    exact hs.reports r hr

end

/-! ## Steps -/

section

variable {ι β : Type} [DecidableEq ι] {rt : Runtime β} {root : String} {calls : ι → Call}
  {s t : System ι β}

omit [DecidableEq ι] in
theorem reportInv_begin (clock : Time) (v : Vault β) (db : Db) :
    ReportInv rt (begin clock v db : System ι β) := by
  refine ⟨?_, ?_, ?_, ?_, ?_, ?_⟩
  · intro t ht
    cases ht
  · intro c hc
    cases hc
  · intro p
    exact le_refl _
  · intro p _ htouched
    cases htouched
  · intro c hc
    cases hc
  · intro r hr
    cases hr

theorem reportInv_call {e : ι × StepEnv} (hs : ReportInv rt s)
    (hsafe : stepIsSafe calls s (.call e) = true) (hstep : stepCall rt calls s e = some t) :
    ReportInv rt t := by
  unfold stepCall at hstep
  split_ifs at hstep with hnote
  obtain ⟨u, hu, rfl⟩ := map_eq_some_iff.mp hstep
  obtain ⟨m, hm, hshared, -, -⟩ := Threads.step_eq_some.mp hu
  rcases act_files hm with ⟨hvault, hlog⟩ | ⟨hlog, path, hfile, hvault⟩
  · rw [← hshared] at hvault hlog
    refine reportInv_of_quiet hs (le_refl _) hvault ?_ rfl hs.timers hs.running
      fun _ hc _ => .inl hc
    simp [historyAfter, hlog]
  · rw [← hshared] at hvault hlog
    have hidle : idleAt s.running path = true := by
      simpa [stepIsSafe, hfile] using hsafe
    refine reportInv_appWrote hs hidle rfl rfl rfl hvault ?_
    simp [historyAfter, hlog, hfile]

/-- A hash is noted under the path it was read from. -/
theorem reportInv_afterNote {i : ι} {now : Time} {fault : Option String} {docPath hash : String}
    (hs : ReportInv rt s) (hclock : s.clock ≤ now)
    (hhash : diskContentHash rt now fault s.vault docPath = some hash) (hne : hash ≠ "") :
    ReportInv rt (afterNote s i now docPath (some hash)) := by
  obtain ⟨d, hread, hd⟩ := diskContentHash_eq_some.mp hhash
  obtain ⟨-, -, -, -, -, hfault, -⟩ := readFile_eq_ok.mp hread
  subst hfault
  have hwatcher : (afterNote s i now docPath (some hash)).watcher =
      setReconciled s.watcher docPath hash := if_neg hne
  have hhistory : (afterNote s i now docPath (some hash)).history =
      s.history.appNoted docPath := if_neg hne
  refine reportInv_of_step docPath hs ?_ ?_ ?_ ?_ ?_ ?_ ?_ ?_
  · intro q hq
    refine ⟨hclock, rfl, ?_, ?_, ?_, ?_, ?_⟩ <;>
      simp [hhistory, hwatcher, appNoted, setReconciled, hq]
  · rw [hhistory, hwatcher]
    exact hs.timers
  · rw [hhistory]
    exact hs.running
  · rw [hhistory]
    exact hs.known docPath
  · intro _ _ _ _
    rw [hwatcher, setReconciled_self]
    exact ⟨d, hread, hd⟩
  · intro c hc _ _
    exact hc
  · intro c hc hmid _
    exact midwayInv_of_same hclock rfl (by rw [hhistory]; rfl) (by rw [hhistory]; rfl)
      (hs.midway c hc hmid)
  · rw [ReportsExternal, hhistory]
    exact hs.reports

theorem reportInv_note {i : ι} {now : Time} {fault : Option String} (hs : ReportInv rt s)
    (hstep : stepNote rt calls s i now fault = some t) : ReportInv rt t := by
  unfold stepNote at hstep
  split_ifs at hstep with hnow
  have hclock : s.clock ≤ now := not_lt.mp hnow
  obtain ⟨docPath, -, rfl⟩ := map_eq_some_iff.mp hstep
  cases hhash : diskContentHash rt now fault s.vault docPath with
  | none =>
    exact reportInv_of_quiet hs hclock rfl rfl rfl hs.timers hs.running
      fun _ hc _ => .inl hc
  | some hash =>
    by_cases hempty : hash = ""
    · subst hempty
      exact reportInv_of_quiet hs hclock rfl rfl rfl hs.timers hs.running
        fun _ hc _ => .inl hc
    · exact reportInv_afterNote hs hclock hhash hempty

theorem timers_handleEvent
    {w : Watcher} {path : String} {op : Op} {x : Timer}
    (h : x ∈ (handleEvent root w path op).timers) :
    x ∈ w.timers ∨ x.relPath = path := by
  unfold handleEvent at h
  split_ifs at h with hdoc
  · rcases mem_append.mp h with h | h
    · left
      rw [stopTimer_eq] at h
      exact (mem_filter.mp h).1
    · right
      rw [mem_singleton.mp h]
  · exact .inl h

omit [DecidableEq ι] in
theorem reportInv_notify {path : String} {op : Op} (hs : ReportInv rt s)
    (htouched : s.history.touched path = true) :
    ReportInv rt { s with watcher := handleEvent root s.watcher path op } := by
  have htimers : ∀ x ∈ (handleEvent root s.watcher path op).timers,
      s.history.touched x.relPath = true := by
    intro x hx
    rcases timers_handleEvent hx with h | h
    · exact hs.timers x h
    · rw [h]
      exact htouched
  have hhash := reconciledHashes_handleEvent root s.watcher path op
  generalize handleEvent root s.watcher path op = w at htimers hhash ⊢
  exact reportInv_of_quiet hs (le_refl _) rfl rfl hhash htimers hs.running fun _ hc _ => .inl hc

omit [DecidableEq ι] in
theorem reportInv_fire {k : Nat} (hs : ReportInv rt s) (hstep : stepFire s k = some t) :
    ReportInv rt t := by
  obtain ⟨x, hx, rfl⟩ := map_eq_some_iff.mp hstep
  refine reportInv_of_quiet hs (le_refl _) rfl rfl rfl ?_ ?_ ?_
  · intro y hy
    exact hs.timers y (mem_of_mem_eraseIdx hy)
  · intro c hc
    rcases mem_append.mp hc with h | h
    · exact hs.running c h
    · rw [mem_singleton.mp h]
      exact hs.timers x (mem_of_getElem? hx)
  · intro c hc hmid
    rcases mem_append.mp hc with h | h
    · exact .inl h
    · rw [mem_singleton.mp h] at hmid
      cases hmid

end

end Yanta.FileWatcher
