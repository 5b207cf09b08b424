import Kolas.Lib.Run
import Kolas.Logging.Retention
import Mathlib.Data.List.Perm.Subperm

/-!
# Writing and sweeping

A file sink's appender writes to the file of the current period, and its retention task
sweeps the same directory: it reads the directory and then removes one file after another,
while the appender goes on writing.  `LogDir` is the directory with the two of them; other
programs write files there whose names do not begin with the sink's prefix.  Every write is
later than all before it, and the file of a period is new when the appender comes to it.

* `run_swept`: a sweep that nothing interrupts does what `runRetention` does.
* `current_of_reach`: while at least one file is to be kept, the file last written is in the
  directory, newer than every other log file, and not among those to be removed.
* `spares_active_iff`: so no sweep of any run ever aims at the file being written exactly
  when `keep_files` is not zero.
-/

namespace Kolas.Logging

open Kolas.Lib

/-- The readable entries of a log directory, the time of the last write, the file it was
made to, and what the sweep that is going on has still to remove. -/
@[ext] structure LogDir where
  files : List DirEntry
  distinct : (files.map DirEntry.name).Nodup
  clock : Int
  active : Option OsName
  pending : List OsName

/-- The appender writes, another program does, or the retention task reads the directory or
removes a file. -/
inductive DirAction
  | write (t : CalendarHour) (now : Int)
  | other (entry : DirEntry)
  | read (contents : Directory)
  | remove (result : RemoveResult)

namespace LogDir

variable (d : LogDir)

/-- The entry takes the place of any other of its name. -/
def put (entry : DirEntry) : List DirEntry :=
  entry :: d.files.filter fun e => e.name ≠ entry.name

theorem nodup_put (entry : DirEntry) : ((d.put entry).map DirEntry.name).Nodup := by
  rw [put, List.map_cons, List.nodup_cons]
  refine ⟨?_, (List.filter_sublist.map _).nodup d.distinct⟩
  intro hmem
  obtain ⟨e, he, hname⟩ := List.mem_map.mp hmem
  exact of_decide_eq_true (List.mem_filter.mp he).2 hname

theorem mem_put {entry e : DirEntry} :
    e ∈ d.put entry ↔ e = entry ∨ e ∈ d.files ∧ e.name ≠ entry.name := by
  simp [put]

theorem name_mem_put {entry : DirEntry} {name : OsName} (h : name ∈ d.files.map DirEntry.name) :
    name ∈ (d.put entry).map DirEntry.name := by
  by_cases hname : name = entry.name
  · exact hname ▸ List.mem_cons_self
  · obtain ⟨e, he, rfl⟩ := List.mem_map.mp h
    exact List.mem_map.mpr ⟨e, d.mem_put.mpr (Or.inr ⟨he, hname⟩), rfl⟩

/-- The appender has written at `now`. -/
def written (name : OsName) (now : Int) : LogDir :=
  { d with
    files := d.put ⟨name, true, some now⟩
    distinct := d.nodup_put _
    clock := now
    active := some name }

/-- Another program has written. -/
def added (entry : DirEntry) : LogDir :=
  { d with files := d.put entry, distinct := d.nodup_put entry }

/-- The file is gone. -/
def without (name : OsName) : LogDir :=
  { d with
    files := d.files.filter fun e => e.name ≠ name
    distinct := (List.filter_sublist.map _).nodup d.distinct }

/-- The appender goes on with its file or begins a new one; the first it opens may be there
already, if no sweep is going on. -/
def Opens (name : OsName) : Prop :=
  d.active = some name ∨ name ∉ d.files.map DirEntry.name ∨ d.active = none ∧ d.pending = []

instance (name : OsName) : Decidable (d.Opens name) := by unfold Opens; infer_instance

variable (cfg : FileSinkConfig)

def step (d : LogDir) : DirAction → Option LogDir
  | .write t now =>
    if d.clock < now ∧ d.Opens (.utf8 (cfg.fileName t)) then
      some (d.written (.utf8 (cfg.fileName t)) now)
    else none
  | .other entry =>
    match entry.name with
    | .utf8 text =>
      if cfg.filePrefix.toList.isPrefixOf text.toList then none else some (d.added entry)
    | .other _ => some (d.added entry)
  | .read contents =>
    match cfg.keepFiles with
    | none => none
    | some keep =>
      if d.pending = [] ∧ (readable contents.entries).Subperm d.files then
        -- what it will try to remove does not depend on what comes of the removals
        some { d with pending := (runRetention cfg.path (.ok contents) cfg.filePrefix keep
          fun _ => .notFound).attempted }
      else none
  | .remove result =>
    match d.pending with
    | [] => none
    | name :: rest =>
      if result = .removed then some { d.without name with pending := rest }
      else some { d with pending := rest }

/-- The log files are no newer than the last write, which was made to one that is newer
than every other and that no sweep is about to remove. -/
structure Current (d : LogDir) : Prop where
  past : ∀ e ∈ d.files, e.Candidate cfg.filePrefix → ∀ m, e.modified = some m → m ≤ d.clock
  newest : ∀ name, d.active = some name →
    ∃ e ∈ d.files, e.name = name ∧ e.Candidate cfg.filePrefix ∧ e.modified = some d.clock ∧
      ∀ e' ∈ d.files, e'.Candidate cfg.filePrefix → e' ≠ e →
        ∀ m, e'.modified = some m → m < d.clock
  spared : ∀ name, d.active = some name → name ∉ d.pending
  once : d.pending.Nodup
  there : ∀ name ∈ d.pending, name ∈ d.files.map DirEntry.name

/-- The appender has not written yet and no sweep is going on. -/
structure Opening (d : LogDir) : Prop where
  past : ∀ e ∈ d.files, e.Candidate cfg.filePrefix → ∀ m, e.modified = some m → m ≤ d.clock
  active : d.active = none
  pending : d.pending = []

/-- No sweep is about to remove the file being written. -/
def SparesActive : Prop := ∀ name, d.active = some name → name ∉ d.pending

variable {d cfg}

/-- A log file of the sink is a candidate of its sweeps. -/
theorem candidate_fileName (t : CalendarHour) (now : Int) :
    (⟨.utf8 (cfg.fileName t), true, some now⟩ : DirEntry).Candidate cfg.filePrefix := by
  refine ⟨rfl, ⟨_, rfl, ?_⟩, rfl⟩
  rw [FileSinkConfig.fileName, String.toList_append, String.toList_append, List.append_assoc]
  exact List.prefix_append ..

/-- **A sweep leaves the newest out.** -/
theorem Current.spares (h : d.Current cfg) {keep : Nat} (hkeep : 0 < keep) {contents : Directory}
    (hseen : (readable contents.entries).Subperm d.files) {name : OsName}
    (hactive : d.active = some name) (dir : String) (remove : OsName → RemoveResult) :
    name ∉ (runRetention dir (.ok contents) cfg.filePrefix keep remove).attempted := by
  intro hattempted
  obtain ⟨e, he, rfl, hcandidate, htime, hnewest⟩ := h.newest name hactive
  rw [attempted_runRetention] at hattempted
  obtain ⟨file, hbeyond, hname⟩ := List.mem_map.mp hattempted
  -- the entries that the sweep takes for log files
  have hentry : ∀ file' ∈ contents.logFiles cfg.filePrefix, ∃ e' ∈ d.files,
      e'.Candidate cfg.filePrefix ∧ e'.modified = some file'.1 ∧ e'.name = file'.2 := by
    intro file' hfile'
    obtain ⟨e', he', hlog⟩ := List.mem_filterMap.mp hfile'
    exact ⟨e', hseen.subset he', DirEntry.logFile_eq_some hlog⟩
  have hsame : ∀ e' ∈ d.files, e'.name = e.name → e' = e := fun e' he' heq =>
    List.inj_on_of_nodup_map d.distinct he' he heq
  have hfile := mem_of_mem_beyond hbeyond
  obtain ⟨e', he', -, htime', hname'⟩ := hentry file hfile
  obtain rfl : e' = e := hsame e' he' (hname'.trans hname)
  have hclock : file.1 = d.clock := Option.some.inj (htime'.symm.trans htime)
  refine not_mem_beyond_of_greatest hkeep
    (List.Nodup.of_map Prod.snd (nodup_logFiles contents cfg.filePrefix)) hfile ?_ hbeyond
  intro other hother hne
  obtain ⟨o, ho, hocandidate, hotime, honame⟩ := hentry other hother
  rw [hclock]
  refine hnewest o ho hocandidate ?_ other.1 hotime
  rintro rfl
  exact hne (eq_of_mem_logFiles hother hfile (honame.symm.trans hname'))

/-! ### Runs -/

theorem Current.written (h : d.Current cfg) {t : CalendarHour} {now : Int} (hlt : d.clock < now)
    (hopens : d.Opens (.utf8 (cfg.fileName t))) :
    (d.written (.utf8 (cfg.fileName t)) now).Current cfg := by
  have hold : ∀ e ∈ d.files, e.Candidate cfg.filePrefix → ∀ m, e.modified = some m → m < now :=
    fun e he hcandidate m hm => lt_of_le_of_lt (h.past e he hcandidate m hm) hlt
  refine ⟨?_, ?_, ?_, h.once, ?_⟩
  · intro e he hcandidate m hm
    rcases d.mem_put.mp he with rfl | ⟨he, -⟩
    · obtain rfl := Option.some.inj hm
      exact le_refl _
    · exact le_of_lt (hold e he hcandidate m hm)
  · intro name hname
    obtain rfl := Option.some.inj hname
    refine ⟨_, d.mem_put.mpr (Or.inl rfl), rfl, candidate_fileName t now, rfl, ?_⟩
    intro e he hcandidate hne m hm
    rcases d.mem_put.mp he with heq | ⟨he, -⟩
    · exact absurd heq hne
    · exact hold e he hcandidate m hm
  · intro name hname hpending
    obtain rfl := Option.some.inj hname
    rcases hopens with hactive | hnew | ⟨-, hidle⟩
    · exact h.spared _ hactive hpending
    · exact hnew (h.there _ hpending)
    · rw [LogDir.written, hidle] at hpending
      exact List.not_mem_nil hpending
  · exact fun name hname => d.name_mem_put (h.there name hname)

theorem Current.added (h : d.Current cfg) {entry : DirEntry}
    (hname : ∀ e : DirEntry, e.Candidate cfg.filePrefix → e.name ≠ entry.name) :
    (d.added entry).Current cfg := by
  have hnot : ¬ entry.Candidate cfg.filePrefix := fun hcandidate => hname entry hcandidate rfl
  refine ⟨?_, ?_, h.spared, h.once, fun name hmem => d.name_mem_put (h.there name hmem)⟩
  · intro e he hcandidate m hm
    rcases d.mem_put.mp he with rfl | ⟨he, -⟩
    · exact absurd hcandidate hnot
    · exact h.past e he hcandidate m hm
  · intro name hactive
    obtain ⟨e, he, hename, hcandidate, htime, hnewest⟩ := h.newest name hactive
    refine ⟨e, d.mem_put.mpr (Or.inr ⟨he, hname e hcandidate⟩), hename, hcandidate, htime, ?_⟩
    intro e' he' hcandidate' hne m hm
    rcases d.mem_put.mp he' with rfl | ⟨he', -⟩
    · exact absurd hcandidate' hnot
    · exact hnewest e' he' hcandidate' hne m hm

/-- The sweep is done with its next file, which is still there. -/
theorem Current.kept (h : d.Current cfg) {name : OsName} {rest : List OsName}
    (hpending : d.pending = name :: rest) : Current cfg { d with pending := rest } := by
  have hsub : ∀ name' ∈ rest, name' ∈ d.pending := fun name' hmem =>
    hpending ▸ List.mem_cons_of_mem name hmem
  refine ⟨h.past, h.newest, ?_, ?_, fun name' hmem => h.there name' (hsub name' hmem)⟩
  · exact fun name' hactive hmem => h.spared name' hactive (hsub name' hmem)
  · have honce := h.once
    rw [hpending] at honce
    exact honce.tail

/-- The sweep has removed its next file. -/
theorem Current.removed (h : d.Current cfg) {name : OsName} {rest : List OsName}
    (hpending : d.pending = name :: rest) :
    Current cfg { d.without name with pending := rest } := by
  have hkept := h.kept hpending
  have honce := h.once
  rw [hpending] at honce
  refine ⟨?_, ?_, hkept.spared, hkept.once, ?_⟩
  · exact fun e he => h.past e (List.mem_filter.mp he).1
  · intro active hactive
    obtain ⟨e, he, hename, hcandidate, htime, hnewest⟩ := h.newest active hactive
    refine ⟨e, List.mem_filter.mpr ⟨he, decide_eq_true ?_⟩, hename, hcandidate, htime, ?_⟩
    · rintro heq
      exact h.spared active hactive (hpending ▸ (hename ▸ heq) ▸ List.mem_cons_self)
    · exact fun e' he' => hnewest e' (List.mem_filter.mp he').1
  · intro name' hmem
    obtain ⟨e, he, rfl⟩ := List.mem_map.mp (hkept.there name' hmem)
    refine List.mem_map.mpr ⟨e, List.mem_filter.mpr ⟨he, decide_eq_true ?_⟩, rfl⟩
    rintro rfl
    exact (List.nodup_cons.mp honce).1 hmem

/-- A name that the sink's prefix does not begin is no candidate's. -/
theorem name_ne_of_other {entry : DirEntry} {d' : LogDir} (h : d.step cfg (.other entry) = some d') :
    (∀ e : DirEntry, e.Candidate cfg.filePrefix → e.name ≠ entry.name) ∧ d' = d.added entry := by
  cases hentry : entry.name with
  | utf8 text =>
    simp only [LogDir.step, hentry] at h
    by_cases hbegins : cfg.filePrefix.toList.isPrefixOf text.toList = true
    · rw [if_pos hbegins] at h
      cases h
    · rw [if_neg hbegins] at h
      refine ⟨?_, (Option.some.inj h).symm⟩
      intro e hcandidate heq
      obtain ⟨text', htext, hprefix⟩ := hcandidate.named
      obtain rfl := OsName.utf8.inj (htext.symm.trans heq)
      exact hbegins (List.isPrefixOf_iff_prefix.mpr hprefix)
  | other bytes =>
    simp only [LogDir.step, hentry] at h
    refine ⟨?_, (Option.some.inj h).symm⟩
    intro e hcandidate heq
    obtain ⟨text', htext, -⟩ := hcandidate.named
    exact OsName.noConfusion (htext.symm.trans heq)

theorem Current.step (h : d.Current cfg) (hkeep : cfg.keepFiles ≠ some 0) {action : DirAction}
    {d' : LogDir} (hstep : d.step cfg action = some d') : d'.Current cfg := by
  cases action with
  | write t now =>
    simp only [LogDir.step] at hstep
    split at hstep
    · rename_i hguard
      obtain rfl := Option.some.inj hstep
      exact h.written hguard.1 hguard.2
    · cases hstep
  | other entry =>
    obtain ⟨hname, rfl⟩ := name_ne_of_other hstep
    exact h.added hname
  | read contents =>
    cases hcfg : cfg.keepFiles with
    | none =>
      simp only [LogDir.step, hcfg] at hstep
      cases hstep
    | some keep =>
      simp only [LogDir.step, hcfg] at hstep
      split at hstep
      · rename_i hguard
        obtain rfl := Option.some.inj hstep
        have hpos : 0 < keep := Nat.pos_of_ne_zero fun hzero => hkeep (hzero ▸ hcfg)
        refine ⟨h.past, h.newest, ?_, nodup_attempted .., ?_⟩
        · exact fun name hactive => h.spares hpos hguard.2 hactive cfg.path _
        · intro name hattempted
          obtain ⟨e, he, rfl⟩ := mem_attempted hattempted
          exact List.mem_map_of_mem (hguard.2.subset (List.mem_filter.mp he).1)
      · cases hstep
  | remove result =>
    simp only [LogDir.step] at hstep
    split at hstep
    · cases hstep
    · rename_i name rest hpending
      split at hstep
      · obtain rfl := Option.some.inj hstep
        exact h.removed hpending
      · obtain rfl := Option.some.inj hstep
        exact h.kept hpending

theorem Opening.current (h : d.Opening cfg) : d.Current cfg := by
  refine ⟨h.past, ?_, ?_, ?_, ?_⟩
  · intro name hactive
    rw [h.active] at hactive
    cases hactive
  · intro name hactive
    rw [h.active] at hactive
    cases hactive
  · rw [h.pending]
    exact List.nodup_nil
  · intro name hmem
    rw [h.pending] at hmem
    exact absurd hmem List.not_mem_nil

/-- **The file last written is the newest** in every state that a run reaches, while at
least one is to be kept. -/
theorem current_of_reach {d' : LogDir} (h : d.Opening cfg) (hkeep : cfg.keepFiles ≠ some 0)
    (hreach : Reach (LogDir.step cfg) d d') : d'.Current cfg :=
  Reaches.invariant hreach h.current fun _ _ _ hcurrent _ hstep => hcurrent.step hkeep hstep

/-! ### A sweep on its own -/

/-- The rest of a sweep that nothing interrupts. -/
theorem run_remove (remove : OsName → RemoveResult) {names : List OsName}
    (hpending : d.pending = names) :
    run (LogDir.step cfg) d (names.map fun name => .remove (remove name)) =
      some { d with
        files := d.files.filter fun e => e.name ∉ names.filter fun name => remove name = .removed
        distinct := (List.filter_sublist.map _).nodup d.distinct
        pending := [] } := by
  induction names generalizing d with
  | nil =>
    refine congrArg some (LogDir.ext ?_ rfl rfl hpending)
    exact (List.filter_eq_self.mpr fun e _ => rfl).symm
  | cons name rest ih =>
    rw [List.map_cons, run]
    by_cases hremoved : remove name = .removed
    · have hnext : LogDir.step cfg d (.remove (remove name)) =
          some { d.without name with pending := rest } := by
        simp only [LogDir.step, hpending, if_pos hremoved]
      rw [hnext, Option.bind_some, ih rfl]
      refine congrArg some (LogDir.ext ?_ rfl rfl rfl)
      simp only [without, List.filter_filter]
      refine List.filter_congr fun e _ => ?_
      by_cases he : e.name = name
      · simp [he, hremoved]
      · simp [he]
    · have hnext : LogDir.step cfg d (.remove (remove name)) =
          some { d with pending := rest } := by
        simp only [LogDir.step, hpending, if_neg hremoved]
      rw [hnext, Option.bind_some, ih rfl, List.filter_cons_of_neg (by simpa using hremoved)]

/-- **A sweep that nothing interrupts** removes what `runRetention` removes. -/
theorem run_swept {keep : Nat} (hcfg : cfg.keepFiles = some keep) (hidle : d.pending = [])
    {contents : Directory} (hseen : (readable contents.entries).Subperm d.files)
    (remove : OsName → RemoveResult) {s : Sweep}
    (hs : s = runRetention cfg.path (.ok contents) cfg.filePrefix keep remove) :
    run (LogDir.step cfg) d
        (.read contents :: s.attempted.map fun name => .remove (remove name)) =
      some { d with
        files := d.files.filter fun e => e.name ∉ s.removed
        distinct := (List.filter_sublist.map _).nodup d.distinct } := by
  subst hs
  have hread : LogDir.step cfg d (.read contents) = some { d with pending :=
      (runRetention cfg.path (.ok contents) cfg.filePrefix keep remove).attempted } := by
    simp only [LogDir.step, hcfg, if_pos (And.intro hidle hseen), attempted_runRetention]
  rw [run, hread, Option.bind_some, run_remove remove rfl, removed_runRetention]
  exact congrArg some (LogDir.ext rfl rfl rfl hidle.symm)

/-! ### The file being written -/

/-- An hour to write in. -/
def firstHour : CalendarHour := ⟨2026, 7, 5, 0, by decide, by decide, by decide, by decide⟩

/-- A directory with nothing in it. -/
def fresh : LogDir := ⟨[], List.nodup_nil, 0, none, []⟩

/-- **When no sweep ever aims at the file being written**: some files are to be kept. -/
theorem spares_active_iff (cfg : FileSinkConfig) :
    (∀ d d' : LogDir, d.Opening cfg → Reach (LogDir.step cfg) d d' → d'.SparesActive) ↔
      cfg.keepFiles ≠ some 0 := by
  constructor
  · intro hspares hkeep
    let name : OsName := .utf8 (cfg.fileName firstHour)
    let contents : Directory := ⟨[.ok ⟨name, true, some 1⟩], List.nodup_singleton _⟩
    let s : Sweep := runRetention cfg.path (.ok contents) cfg.filePrefix 0 fun _ => .notFound
    have hopening : fresh.Opening cfg := by
      refine ⟨?_, rfl, rfl⟩
      intro e he
      cases he
    have hwrite : LogDir.step cfg fresh (.write firstHour 1) = some (fresh.written name 1) := by
      have hguard : fresh.clock < 1 ∧ fresh.Opens name := ⟨Int.one_pos, .inr (.inr ⟨rfl, rfl⟩)⟩
      simp only [LogDir.step, name, if_pos hguard]
    have hread : LogDir.step cfg (fresh.written name 1) (.read contents) =
        some { fresh.written name 1 with pending := s.attempted } := by
      have hguard : (fresh.written name 1).pending = [] ∧
          (readable contents.entries).Subperm (fresh.written name 1).files :=
        ⟨rfl, List.Subperm.refl _⟩
      simp only [LogDir.step, hkeep, if_pos hguard, s]
    -- with none to keep, the only file is the one to be removed
    have hcandidates : contents.candidates cfg.filePrefix = [⟨name, true, some 1⟩] :=
      List.filter_eq_self.mpr fun e he =>
        decide_eq_true (List.mem_singleton.mp he ▸ candidate_fileName firstHour 1)
    have hattempted : name ∈ s.attempted := by
      have hlength : s.attempted.length = 1 := by
        rw [length_attempted, hcandidates]
        rfl
      obtain ⟨name', hname'⟩ := List.exists_mem_of_length_pos (hlength ▸ Nat.one_pos)
      obtain ⟨e, he, rfl⟩ := mem_attempted hname'
      rw [hcandidates, List.mem_singleton] at he
      rwa [he] at hname'
    have hreach : Reach (LogDir.step cfg) fresh _ :=
      (Reaches.single (a := .write firstHour 1) trivial hwrite).tail (a := .read contents) trivial
        hread
    exact hspares fresh _ hopening hreach name rfl hattempted
  · intro hkeep d d' hopening hreach
    exact (current_of_reach hopening hkeep hreach).spared

end LogDir

end Kolas.Logging
