import Yanta.Watcher.Recognition

/-!
# The watcher and the app's own writes

The moves of a callback keep the invariant of `Yanta.Watcher.Recognition`, so in
every run whose steps are safe the watcher reports only what another program has
written. A tag command shows that the condition is needed: its write is never
noted.
-/

namespace Yanta.FileWatcher

open Go Vault Document Index Support List Option SampleTagRace

section

variable {ι β : Type} {rt : Runtime β} {root : String} {calls : ι → Call}
variable {s : System ι β} {k : Nat} {c : Callback} {now : Time}

/-! ## Moves of a callback -/

/-- The callbacks after a move: the others, and the one that moved. -/
theorem mem_running_afterAdvance {c' : Callback} {a : Advance}
    (h : c' ∈ (afterAdvance s k now c a).running) :
    c' ∈ s.running.eraseIdx k ∨ ∃ stage, a.next = some stage ∧ c' = c.at s.history stage := by
  rcases mem_append.mp h with h | h
  · exact .inl h
  · right
    obtain ⟨stage, hstage, hat⟩ := map_eq_some_iff.mp (mem_toList.mp h)
    exact ⟨stage, hstage, hat.symm⟩

section

variable (hs : ReportInv rt s) (hk : s.running[k]? = some c)

include hs hk

theorem running_touched_afterAdvance {a : Advance} :
    ∀ c' ∈ (afterAdvance s k now c a).running, s.history.touched c'.relPath = true := by
  intro c' hc'
  rcases mem_running_afterAdvance hc' with h | ⟨stage, -, rfl⟩
  · exact hs.running c' (mem_of_mem_eraseIdx h)
  · exact hs.running c (mem_of_getElem? hk)

/-- A move that reports nothing and leaves the recorded hashes alone. -/
theorem reportInv_advance_quiet {a : Advance}
    (hclock : s.clock ≤ now) (hreports : a.reports = false)
    (hhash : a.watcher.reconciledHashes = s.watcher.reconciledHashes)
    (htimers : a.watcher.timers = s.watcher.timers)
    (hmidway : ∀ stage, a.next = some stage → (c.at s.history stage).midway = true →
      MidwayInv rt (afterAdvance s k now c a) (c.at s.history stage)) :
    ReportInv rt (afterAdvance s k now c a) := by
  refine reportInv_of_quiet hs hclock rfl (by simp [afterAdvance, hreports]) hhash ?_
    (running_touched_afterAdvance hs hk) ?_
  · intro x hx
    rw [afterAdvance, htimers] at hx
    exact hs.timers x hx
  · intro c' hc' hmid
    rcases mem_running_afterAdvance hc' with h | ⟨stage, hnext, rfl⟩
    · exact .inl (mem_of_mem_eraseIdx h)
    · exact .inr (hmidway stage hnext hmid)

/-- The callback compares hashes. If it goes on, some write of another program
is not known yet: otherwise the recorded hash would be the file's. -/
theorem reportInv_compareHash {env : CallbackEnv}
    (hclock : s.clock ≤ env.now) (hstage : c.stage = .started)
    (hnamed : selfNamed c.relPath = true) (hfault : env.readFault = none)
    (hnoted : s.history.unnoted c.relPath = false) :
    ReportInv rt (afterAdvance s k env.now c
      (compareHash rt env s.vault s.calls.shared.db s.watcher c.relPath)) := by
  have htouched := hs.running c (mem_of_getElem? hk)
  have hunknown : s.history.known c.relPath = s.history.writes c.relPath →
      diskContentHash rt env.now env.readFault s.vault c.relPath =
        some (s.watcher.reconciledHashes c.relPath) := by
    intro heq
    obtain ⟨d, hread, hd⟩ := hs.recognised c.relPath hnamed htouched hnoted heq
    rw [hfault]
    exact diskContentHash_eq_some.mpr ⟨d, readFile_later hread hclock, hd⟩
  unfold compareHash
  generalize hhash : diskContentHash rt env.now env.readFault s.vault c.relPath = read
    at hunknown
  have hgoes : s.history.known c.relPath ≠ s.history.writes c.relPath →
      ReportInv rt (afterAdvance s k env.now c
        (goOn s.watcher s.calls.shared.db (.changed read))) := by
    intro hne
    refine reportInv_advance_quiet hs hk hclock rfl rfl rfl ?_
    intro stage hnext _
    cases hnext
    refine ⟨hnamed, ?_, ?_, ?_⟩
    · simp only [Callback.at, hstage]
      exact lt_of_le_of_ne (hs.known c.relPath) hne
    · simp only [Callback.at, hstage]
      exact le_refl _
    · intro hash h _
      obtain ⟨d, hread, hd⟩ := diskContentHash_eq_some.mp (hhash.trans h)
      rw [hfault] at hread
      exact ⟨d, hread, hd⟩
  cases read with
  | none =>
    refine hgoes fun heq => ?_
    cases hunknown heq
  | some diskHash =>
    by_cases hrec : isReconciled s.watcher c.relPath diskHash = true
    · simp only [hrec]
      refine reportInv_advance_quiet hs hk hclock rfl rfl rfl ?_
      intro stage hnext hmid
      cases hnext
      cases hmid
    · simp only [hrec]
      refine hgoes fun heq => hrec ?_
      cases hunknown heq
      simp [isReconciled]

/-- The callback forgets the recorded hash of a path it would not recognise. -/
theorem reportInv_forget (hclock : s.clock ≤ now)
    (huseless : s.history.unnoted c.relPath = true ∨
      s.history.known c.relPath < s.history.writes c.relPath) :
    ReportInv rt (afterAdvance s k now c
      (goOn (forgetReconciled s.watcher c.relPath) s.calls.shared.db .forgotten)) := by
  refine reportInv_of_step c.relPath hs ?_ hs.timers (running_touched_afterAdvance hs hk)
    (hs.known _) ?_ ?_ ?_ hs.reports
  · intro q hq
    refine ⟨hclock, rfl, rfl, rfl, rfl, rfl, ?_⟩
    simp [afterAdvance, goOn, forgetReconciled, hq]
  · intro _ _ hunnoted heq
    change s.history.unnoted c.relPath = false at hunnoted
    change s.history.known c.relPath = s.history.writes c.relPath at heq
    rcases huseless with h | h
    · rw [h] at hunnoted
      cases hunnoted
    · omega
  · intro c' hc' hmid _
    rcases mem_running_afterAdvance hc' with h | ⟨stage, hnext, rfl⟩
    · exact mem_of_mem_eraseIdx h
    · cases hnext
      cases hmid
  · intro c' hc' hmid _
    rcases mem_running_afterAdvance hc' with h | ⟨stage, hnext, rfl⟩
    · exact midwayInv_of_same hclock rfl rfl rfl
        (hs.midway c' (mem_of_mem_eraseIdx h) hmid)
    · cases hnext
      cases hmid

/-- The callback reports the change and records the hash it has read. -/
theorem reportInv_report {hash : Option String}
    (hclock : s.clock ≤ now) (hstage : c.stage = .indexed hash)
    (hidle : idleAt (s.running.eraseIdx k) c.relPath = true) :
    ReportInv rt (afterAdvance s k now c
      (report s.calls.shared.db s.watcher c.relPath hash)) := by
  have hmid : c.midway = true := by
    simp [Callback.midway, hstage]
  have hinv := hs.midway c (mem_of_getElem? hk) hmid
  have hlt : s.history.known c.relPath < s.history.writes c.relPath :=
    lt_of_lt_of_le hinv.unknown hinv.seen
  have hreports : ∀ reconciled, ∀ r ∈
      (s.history.reported c.relPath reconciled c.seen).reports, r.external = true := by
    intro reconciled r hr
    rcases mem_append.mp hr with h | h
    · exact hs.reports r h
    · rw [mem_singleton.mp h]
      exact decide_eq_true hlt
  have hrunning : ∀ {a : Advance}, a.next = some .finishing →
      ∀ c' ∈ (afterAdvance s k now c a).running, c'.midway = true →
        c' ∈ s.running ∧ c'.relPath ≠ c.relPath := by
    intro a hnext c' hc' hmid'
    rcases mem_running_afterAdvance hc' with h | ⟨stage, hstage', rfl⟩
    · refine ⟨mem_of_mem_eraseIdx h, fun hp => ?_⟩
      rw [not_midway_of_idleAt hidle h hp] at hmid'
      cases hmid'
    · rw [hnext] at hstage'
      cases hstage'
      cases hmid'
  have hreport : report s.calls.shared.db s.watcher c.relPath hash =
      ⟨hash.elim s.watcher (setReconciled s.watcher c.relPath), s.calls.shared.db,
        some .finishing, true, none⟩ := by
    cases hash <;> rfl
  rw [hreport]
  refine reportInv_of_step c.relPath hs ?_ ?_ (running_touched_afterAdvance hs hk) ?_ ?_ ?_ ?_
    (hreports _)
  · intro q hq
    refine ⟨hclock, rfl, rfl, rfl, rfl, ?_, ?_⟩
    · cases hash <;> simp [afterAdvance, History.reported, hstage, Stage.hash, hq]
    · cases hash <;> simp [afterAdvance, setReconciled, hq]
  · cases hash <;> exact hs.timers
  · simp only [afterAdvance, History.reported, hstage, Stage.hash]
    cases hash with
    | none => exact hs.known c.relPath
    | some diskHash =>
      simp only [isSome_some, if_true, Function.update_self]
      exact hinv.seen
  · intro _ _ _ heq
    simp only [afterAdvance, History.reported, hstage, Stage.hash] at heq
    cases hash with
    | none => exact absurd heq (Nat.ne_of_lt hlt)
    | some diskHash =>
      simp only [isSome_some, if_true, Function.update_self] at heq
      simp only [afterAdvance, elim_some, setReconciled_self]
      exact hashesTo_of_same hinv.named hclock rfl
        (hinv.hash diskHash (by rw [hstage]; rfl) heq)
  · intro c' hc' hmid' _
    exact (hrunning rfl c' hc' hmid').1
  · intro c' hc' hmid' hp
    exact absurd hp (hrunning rfl c' hc' hmid').2

/-- The call of the indexer: the callback still holds the hash it has read. -/
theorem reportInv_index {hash : Option String} {result : Except DocError Db}
    (hclock : s.clock ≤ now) (hstage : c.stage = .changed hash) :
    ReportInv rt (afterAdvance s k now c
      (callIndexer s.watcher s.calls.shared.db (.indexed hash) result)) := by
  have hmid : c.midway = true := by
    simp [Callback.midway, hstage]
  have hinv := hs.midway c (mem_of_getElem? hk) hmid
  have hseen : (c.at s.history (.indexed hash)).seen = c.seen := by
    simp [Callback.at, hstage]
  have hnew : ∀ t : System ι β, s.clock ≤ t.clock → t.vault = s.vault →
      t.history = s.history → MidwayInv rt t (c.at s.history (.indexed hash)) := by
    intro t htime hvault hhistory
    have hsame := midwayInv_of_same (t := t) htime (by rw [hvault]) (by rw [hhistory])
      (by rw [hhistory]) hinv
    refine ⟨hsame.named, ?_, ?_, ?_⟩
    · rw [hseen]
      exact hsame.unknown
    · rw [hseen]
      exact hsame.seen
    · intro h hh heq
      rw [hseen] at heq
      refine hsame.hash h ?_ heq
      rw [hstage]
      exact hh
  cases result with
  | ok | error =>
    refine reportInv_advance_quiet hs hk hclock rfl rfl rfl ?_
    intro stage hnext _
    cases hnext
    exact hnew _ hclock rfl rfl

omit hk

theorem reportInv_advance {t : System ι β} {env : CallbackEnv}
    (hsafe : stepIsSafe calls s (.advance k env) = true)
    (hstep : stepAdvance rt s k env = some t) : ReportInv rt t := by
  unfold stepAdvance at hstep
  split_ifs at hstep with hnow
  have hclock : s.clock ≤ env.now := not_lt.mp hnow
  obtain ⟨c, hk, rfl⟩ := map_eq_some_iff.mp hstep
  have hsafe' : callbackIsSafe s k env c = true := by
    simpa [stepIsSafe, hk] using hsafe
  have hstill : ∀ a : Advance, a.next = none ∨ a.next = some .finishing →
      a.reports = false → a.watcher.reconciledHashes = s.watcher.reconciledHashes →
      a.watcher.timers = s.watcher.timers →
        ReportInv rt (afterAdvance s k env.now c a) := by
    intro a hnext hreports hhash htimers
    refine reportInv_advance_quiet hs hk hclock hreports hhash htimers ?_
    intro stage hstage hmid
    rcases hnext with h | h
    · rw [h] at hstage
      cases hstage
    · rw [h] at hstage
      cases hstage
      cases hmid
  cases hstage : c.stage with
  | started =>
    simp only [callbackIsSafe, hstage] at hsafe'
    by_cases hstores : c.op.stores = true
    · simp only [hstores, if_true, Bool.and_eq_true, isNone_iff_eq_none,
        Bool.not_eq_true'] at hsafe'
      obtain ⟨⟨⟨hnamed, hfault⟩, hnoted⟩, -⟩ := hsafe'
      rw [executeIndexing, if_pos hstores]
      exact reportInv_compareHash hs hk hclock hstage hnamed hfault hnoted
    · rw [executeIndexing, if_neg hstores]
      by_cases hremoves : c.op.removes = true
      · rw [if_pos hremoves]
        simp only [hstores, hremoves, Bool.false_eq_true, if_false, Bool.not_true,
          Bool.false_or, Bool.or_eq_true, decide_eq_true_eq] at hsafe'
        exact reportInv_forget hs hk hclock hsafe'
      · rw [if_neg hremoves]
        exact hstill _ (.inr rfl) rfl rfl rfl
  | changed hash =>
    rw [executeIndexing]
    exact reportInv_index hs hk hclock hstage
  | indexed hash =>
    simp only [callbackIsSafe, hstage] at hsafe'
    exact reportInv_report hs hk hclock hstage hsafe'
  | forgotten =>
    rw [executeIndexing]
    cases removeDocumentCompletely env.removeFaults s.calls.shared.db c.relPath with
    | ok | error => exact hstill _ (.inr rfl) rfl rfl rfl
  | finishing =>
    exact hstill _ (.inl rfl) rfl rfl rfl

end

variable [DecidableEq ι]

theorem reportInv_step {t : System ι β} {e : Event ι β} (hs : ReportInv rt s)
    (hsafe : stepIsSafe calls s e = true)
    (hstep : step rt root calls s e = some t) :
    ReportInv rt t := by
  cases e with
  | call e => exact reportInv_call hs hsafe hstep
  | note i now fault => exact reportInv_note hs hstep
  | edit path file =>
    cases hstep
    exact reportInv_appWrote hs hsafe rfl rfl rfl (fun _ hq => lookup_putFile hq) rfl
  | other path file =>
    cases hstep
    exact reportInv_otherWrote hs rfl rfl rfl (fun _ hq => lookup_putFile hq) rfl
  | notify path op =>
    rw [step] at hstep
    split_ifs at hstep with htouched
    cases hstep
    exact reportInv_notify hs htouched
  | fire k => exact reportInv_fire hs hstep
  | advance k env => exact reportInv_advance hs hsafe hstep

/-- In every run whose steps are safe, every report is about a file that another
program has written since the last version that the app wrote or reconciled. -/
theorem own_writes_not_reported
    (rt : Runtime β) (root : String) (calls : ι → Call) (clock : Time) (v : Vault β)
    (db : Db) (es : List (Event ι β)) (s : System ι β)
    (hsafe : Guarded (step rt root calls) (fun s e => stepIsSafe calls s e = true)
      (begin clock v db) es)
    (hrun : run (step rt root calls) (begin clock v db) es = some s) :
    ReportsExternal s := by
  have hinv : ReportInv rt s :=
    run_invariant_of_guarded (fun _ _ _ hs hguard hstep => reportInv_step hs hguard hstep)
      (reportInv_begin clock v db) hsafe hrun
  exact hinv.reports

end

/-! ## Two runs -/

namespace SampleReports

def write : Op := ⟨false, true, false, false, false⟩

def env : CallbackEnv where
  now := 0
  readFault := none
  indexFaults := .none
  removeFaults _ := none

/-- The file system tells of a write, the timer fires and the callback moves. -/
def watched (moves : Nat) : List (Event Bool DocumentFile) :=
  .notify SampleTagRace.path write :: .fire 0 :: List.replicate moves (.advance 0 env)

def move (i : Bool) : Event Bool DocumentFile := .call (i, SampleTagRace.env)

/-- A save that notes its hash; then another program changes the title. -/
def saved : List (Event Bool DocumentFile) :=
  [move true, move true, move true, .note true 0 none, move true, move true] ++
    watched 2 ++
    [.other SampleTagRace.path (some ⟨SampleTagRace.document "C", 0⟩)] ++ watched 4

/-- A command that adds a tag. -/
def tagged : List (Event Bool DocumentFile) :=
  [move false, move false, move false] ++ watched 4

def final (es : List (Event Bool DocumentFile)) : Option (System Bool DocumentFile) :=
  run (step plainRuntime "/v" SampleTagRace.calls)
    (begin 0 SampleTagRace.vault SampleTagRace.db) es

end SampleReports

open SampleReports

theorem own_writes_not_reported_sample :
    ∃ s, final saved = some s ∧
      s.history.reports = [⟨SampleTagRace.path, true⟩] ∧ ReportsExternal s := by
  have hreports : (final saved).map
      (fun s => s.history.reports) = some [⟨path, true⟩] := by
    decide +kernel
  obtain ⟨s, hs, hlist⟩ := map_eq_some_iff.mp hreports
  exact ⟨s, hs, hlist, own_writes_not_reported plainRuntime "/v" calls 0
    vault db saved s (by decide +kernel) hs⟩

/-- No other program runs. The tag command writes the file without a note, and
the watcher reports the write as an external change. -/
theorem tag_command_reported :
    ∃ s, final tagged = some s ∧ ¬ ReportsExternal s := by
  have hreports : (final tagged).map
      (fun s => s.history.reports) = some [⟨path, false⟩] := by
    decide +kernel
  obtain ⟨s, hs, hlist⟩ := map_eq_some_iff.mp hreports
  refine ⟨s, hs, fun hexternal => ?_⟩
  have hfalse := hexternal ⟨path, false⟩ (by rw [hlist]; simp)
  cases hfalse

end Yanta.FileWatcher
