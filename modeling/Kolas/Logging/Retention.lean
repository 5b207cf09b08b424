import Kolas.Lib.Lists
import Kolas.Lib.Newest
import Mathlib.Data.Int.Order.Basic

/-!
# Retention of log files

`run_retention` of `logging/sink/file.rs`.  A directory's contents are what `read_dir`
yields, in any order; what the calls of `remove_file` return is up to the file system
(`remove`).

* `sweep_keeps_newest`: a sweep removes the oldest of its log files and nothing else.
* `sweep_spares_iff`: a sweep takes a name that begins with its prefix for one of its
  files, and so spares the files of another sink exactly when none of them does.
-/

namespace Kolas.Logging

open Kolas.Lib

/-- A file name is text, or it is not. -/
inductive OsName
  | utf8 (text : String)
  | other (bytes : List UInt8)
  deriving DecidableEq, Repr

/-- A directory entry; `isFile` follows links, and `modified` is what its metadata say,
if they can be read. -/
structure DirEntry where
  name : OsName
  isFile : Bool
  modified : Option Int
  deriving DecidableEq, Repr

/-- The entries of a directory that can be read. -/
def readable (entries : List (Except String DirEntry)) : List DirEntry :=
  entries.filterMap Except.toOption

/-- The contents of a directory: no two entries have one name. -/
structure Directory where
  entries : List (Except String DirEntry)
  distinct : ((readable entries).map DirEntry.name).Nodup

/-- What `remove_file` comes to. -/
inductive RemoveResult
  | removed
  | notFound
  | failed (message : String)
  deriving DecidableEq, Repr

/-- What a sweep has done: the files it has tried to remove, those it has removed, and
what it has printed. -/
structure Sweep where
  attempted : List OsName := []
  removed : List OsName := []
  printed : List String := []

/-- `Path::join`, displayed. -/
def joinPath (dir : String) (name : OsName) : String :=
  match name with
  | .utf8 text =>
    if dir.toList.isEmpty || dir.toList.getLast? == some '/' then dir ++ text
    else dir ++ "/" ++ text
  -- the files of a sweep have no such names
  | .other _ => dir

/-- The entry as a log file with its time, unless it is skipped. -/
def DirEntry.logFile (filePrefix : String) (entry : DirEntry) : Option (Int × OsName) :=
  if entry.isFile then
    match entry.name with
    | .utf8 text =>
      if filePrefix.toList.isPrefixOf text.toList then
        entry.modified.map fun mtime => (mtime, entry.name)
      else none
    | .other _ => none
  else none

/-- One call of `remove_file`. -/
def removeFile (dir : String) (remove : OsName → RemoveResult) (s : Sweep)
    (file : Int × OsName) : Sweep :=
  let s := { s with attempted := s.attempted ++ [file.2] }
  match remove file.2 with
  | .removed => { s with removed := s.removed ++ [file.2] }
  | .notFound => s
  | .failed message =>
    { s with printed := s.printed ++
      ["[kolas/log] retention: failed to remove " ++ joinPath dir file.2 ++ ": " ++ message] }

/-- The log files of a directory. -/
def Directory.logFiles (contents : Directory) (filePrefix : String) : List (Int × OsName) :=
  (readable contents.entries).filterMap (DirEntry.logFile filePrefix)

def runRetention (dir : String) (contents : Except String Directory) (filePrefix : String)
    (keep : Nat) (remove : OsName → RemoveResult) : Sweep :=
  match contents with
  | .error message =>
    { printed := ["[kolas/log] retention: failed to read dir " ++ dir ++ ": " ++ message] }
  | .ok contents =>
    (beyond Prod.fst keep (contents.logFiles filePrefix)).foldl (removeFile dir remove) {}

/-- The directory afterwards. -/
def Directory.after (contents : Directory) (s : Sweep) : List DirEntry :=
  (readable contents.entries).filter fun entry => entry.name ∉ s.removed

/-! ### What a sweep removes -/

/-- A regular file with readable metadata whose name begins with the prefix. -/
structure DirEntry.Candidate (filePrefix : String) (entry : DirEntry) : Prop where
  isFile : entry.isFile = true
  named : ∃ text, entry.name = .utf8 text ∧ filePrefix.toList <+: text.toList
  dated : entry.modified.isSome = true

theorem DirEntry.logFile_eq_some {filePrefix : String} {entry : DirEntry} {file : Int × OsName}
    (h : entry.logFile filePrefix = some file) :
    entry.Candidate filePrefix ∧ entry.modified = some file.1 ∧ entry.name = file.2 := by
  unfold logFile at h
  split at h
  · rename_i hfile
    split at h
    · rename_i text hname
      split at h
      · rename_i hstarts
        obtain ⟨mtime, hmtime, rfl⟩ := Option.map_eq_some_iff.mp h
        exact ⟨⟨hfile, ⟨text, hname, List.isPrefixOf_iff_prefix.mp hstarts⟩, by rw [hmtime]; rfl⟩,
          hmtime, rfl⟩
      · cases h
    · cases h
  · cases h

theorem DirEntry.isSome_logFile {filePrefix : String} {entry : DirEntry} :
    (entry.logFile filePrefix).isSome = true ↔ entry.Candidate filePrefix := by
  constructor
  · intro h
    obtain ⟨file, hfile⟩ := Option.isSome_iff_exists.mp h
    exact (logFile_eq_some hfile).1
  · intro h
    obtain ⟨hfile, ⟨text, hname, hstarts⟩, hdated⟩ := h
    unfold logFile
    rw [if_pos hfile, hname]
    dsimp only
    rw [if_pos (List.isPrefixOf_iff_prefix.mpr hstarts), Option.isSome_map, hdated]

instance (filePrefix : String) (entry : DirEntry) : Decidable (entry.Candidate filePrefix) :=
  decidable_of_iff _ DirEntry.isSome_logFile

/-- The candidates of a directory. -/
def Directory.candidates (contents : Directory) (filePrefix : String) : List DirEntry :=
  (readable contents.entries).filter fun entry => entry.Candidate filePrefix

theorem foldl_removeFile (dir : String) (remove : OsName → RemoveResult)
    (files : List (Int × OsName)) (s : Sweep) :
    (files.foldl (removeFile dir remove) s).attempted = s.attempted ++ files.map Prod.snd ∧
      (files.foldl (removeFile dir remove) s).removed = s.removed ++
        (files.map Prod.snd).filter fun name => remove name = .removed := by
  induction files generalizing s with
  | nil => simp
  | cons file files ih =>
    rw [List.foldl_cons, (ih _).1, (ih _).2, List.map_cons]
    cases hremove : remove file.2 with
    | removed => simp [removeFile, hremove]
    | notFound => simp [removeFile, hremove]
    | failed message => simp [removeFile, hremove]

variable {contents : Directory} {filePrefix : String} {keep : Nat}

theorem attempted_runRetention (dir : String) (contents : Directory) (filePrefix : String)
    (keep : Nat) (remove : OsName → RemoveResult) :
    (runRetention dir (.ok contents) filePrefix keep remove).attempted =
      (beyond Prod.fst keep (contents.logFiles filePrefix)).map Prod.snd :=
  (foldl_removeFile dir remove _ {}).1

theorem removed_runRetention (dir : String) (contents : Directory) (filePrefix : String)
    (keep : Nat) (remove : OsName → RemoveResult) :
    (runRetention dir (.ok contents) filePrefix keep remove).removed =
      (runRetention dir (.ok contents) filePrefix keep remove).attempted.filter
        fun name => remove name = .removed := by
  rw [attempted_runRetention]
  exact (foldl_removeFile dir remove _ {}).2

theorem length_logFiles (contents : Directory) (filePrefix : String) :
    (contents.logFiles filePrefix).length = (contents.candidates filePrefix).length := by
  rw [Directory.logFiles, List.length_filterMap_eq_countP, List.countP_eq_length_filter,
    Directory.candidates]
  refine congrArg List.length (List.filter_congr ?_)
  intro entry _
  exact Bool.eq_iff_iff.mpr (by rw [decide_eq_true_eq, DirEntry.isSome_logFile])

theorem nodup_logFiles (contents : Directory) (filePrefix : String) :
    ((contents.logFiles filePrefix).map Prod.snd).Nodup := by
  refine List.Sublist.nodup ?_ contents.distinct
  exact map_filterMap_sublist (fun entry file h => (DirEntry.logFile_eq_some h).2.2.symm) _

theorem nodup_attempted (dir : String) (contents : Directory) (filePrefix : String) (keep : Nat)
    (remove : OsName → RemoveResult) :
    (runRetention dir (.ok contents) filePrefix keep remove).attempted.Nodup := by
  rw [attempted_runRetention]
  refine List.Sublist.nodup (beyond_sublist.map Prod.snd) ?_
  exact ((descending_perm _).map Prod.snd).nodup_iff.mpr (nodup_logFiles contents filePrefix)

theorem length_attempted (dir : String) (contents : Directory) (filePrefix : String) (keep : Nat)
    (remove : OsName → RemoveResult) :
    (runRetention dir (.ok contents) filePrefix keep remove).attempted.length =
      (contents.candidates filePrefix).length -
        min keep (contents.candidates filePrefix).length := by
  rw [attempted_runRetention, List.length_map, length_beyond, length_logFiles]

/-- A candidate is a log file, of its time and name. -/
theorem mem_logFiles {entry : DirEntry} (h : entry ∈ contents.candidates filePrefix) :
    ∃ mtime, entry.modified = some mtime ∧ (mtime, entry.name) ∈ contents.logFiles filePrefix := by
  obtain ⟨hmem, hcandidate⟩ := List.mem_filter.mp h
  obtain ⟨file, hfile⟩ := Option.isSome_iff_exists.mp
    (DirEntry.isSome_logFile.mpr (of_decide_eq_true hcandidate))
  obtain ⟨-, hmtime, hname⟩ := DirEntry.logFile_eq_some hfile
  exact ⟨file.1, hmtime, hname ▸ List.mem_filterMap.mpr ⟨entry, hmem, hfile⟩⟩

theorem mem_attempted {dir : String} {remove : OsName → RemoveResult} {name : OsName}
    (h : name ∈ (runRetention dir (.ok contents) filePrefix keep remove).attempted) :
    ∃ entry ∈ contents.candidates filePrefix, entry.name = name := by
  rw [attempted_runRetention] at h
  obtain ⟨file, hfile, rfl⟩ := List.mem_map.mp h
  obtain ⟨entry, hentry, hlog⟩ := List.mem_filterMap.mp (mem_of_mem_beyond hfile)
  obtain ⟨hcandidate, -, hname⟩ := DirEntry.logFile_eq_some hlog
  exact ⟨entry, List.mem_filter.mpr ⟨hentry, decide_eq_true hcandidate⟩, hname⟩

/-- Two log files of one name are one. -/
theorem eq_of_mem_logFiles {file file' : Int × OsName}
    (h : file ∈ contents.logFiles filePrefix) (h' : file' ∈ contents.logFiles filePrefix)
    (hname : file.2 = file'.2) : file = file' :=
  List.inj_on_of_nodup_map (nodup_logFiles contents filePrefix) h h' hname

/-- **What is kept is no older** than what the sweep tries to remove. -/
theorem le_of_kept {dir : String} {remove : OsName → RemoveResult} {kept gone : DirEntry}
    {keptTime goneTime : Int} (hkept : kept ∈ contents.candidates filePrefix)
    (hgone : gone ∈ contents.candidates filePrefix) (hkeptTime : kept.modified = some keptTime)
    (hgoneTime : gone.modified = some goneTime)
    (hnot : kept.name ∉ (runRetention dir (.ok contents) filePrefix keep remove).attempted)
    (hattempted : gone.name ∈ (runRetention dir (.ok contents) filePrefix keep remove).attempted) :
    goneTime ≤ keptTime := by
  obtain ⟨mtime, hmtime, hfile⟩ := mem_logFiles hkept
  obtain rfl : mtime = keptTime := Option.some.inj (hmtime.symm.trans hkeptTime)
  obtain ⟨mtime', hmtime', hfile'⟩ := mem_logFiles hgone
  obtain rfl : mtime' = goneTime := Option.some.inj (hmtime'.symm.trans hgoneTime)
  rw [attempted_runRetention] at hnot hattempted
  obtain ⟨file, hbeyond, hname⟩ := List.mem_map.mp hattempted
  obtain rfl := eq_of_mem_logFiles (mem_of_mem_beyond hbeyond) hfile' hname
  exact le_of_not_mem_beyond hfile
    (fun hmem => hnot (List.mem_map.mpr ⟨_, hmem, rfl⟩)) hbeyond

/-- What a sweep does to a directory. -/
structure Sweep.KeepsNewest (contents : Directory) (filePrefix : String) (keep : Nat)
    (remove : OsName → RemoveResult) (s : Sweep) : Prop where
  count : s.attempted.length = (contents.candidates filePrefix).length -
    min keep (contents.candidates filePrefix).length
  once : s.attempted.Nodup
  among : ∀ name ∈ s.attempted, ∃ entry ∈ contents.candidates filePrefix, entry.name = name
  newest : ∀ kept ∈ contents.candidates filePrefix, ∀ gone ∈ contents.candidates filePrefix,
    kept.name ∉ s.attempted → gone.name ∈ s.attempted →
    ∀ keptTime goneTime, kept.modified = some keptTime → gone.modified = some goneTime →
    goneTime ≤ keptTime
  /-- What has become of the other removals does not matter. -/
  goesOn : ∀ (dir : String) (remove' : OsName → RemoveResult),
    (runRetention dir (.ok contents) filePrefix keep remove').attempted = s.attempted
  after : ∀ entry, entry ∈ contents.after s ↔
    entry ∈ readable contents.entries ∧
      ¬ (entry.name ∈ s.attempted ∧ remove entry.name = .removed)

/-- **A sweep keeps the newest log files**: of the n candidates it tries to remove all but
`keep`, each once and none newer than one it keeps, and nothing but these removals
changes the directory. -/
theorem sweep_keeps_newest (dir : String) (contents : Directory) (filePrefix : String) (keep : Nat)
    (remove : OsName → RemoveResult) :
    (runRetention dir (.ok contents) filePrefix keep remove).KeepsNewest contents filePrefix keep
      remove := by
  refine ⟨length_attempted .., nodup_attempted .., fun name h => mem_attempted h, ?_, ?_, ?_⟩
  · intro kept hkept gone hgone hnot hattempted keptTime goneTime hkeptTime hgoneTime
    exact le_of_kept hkept hgone hkeptTime hgoneTime hnot hattempted
  · intro dir' remove'
    rw [attempted_runRetention, attempted_runRetention]
  · intro entry
    rw [Directory.after, List.mem_filter, removed_runRetention, decide_eq_true_eq,
      List.mem_filter, decide_eq_true_eq]

/-! ### The files of another sink -/

/-- `RotationKind`. -/
inductive RotationKind
  | hourly
  | daily
  | never
  deriving DecidableEq, Repr

/-- `FileSinkConfig`, less the level, the format and the excluded targets. -/
structure FileSinkConfig where
  path : String
  filePrefix : String
  rotation : RotationKind
  keepFiles : Option Nat
  deriving DecidableEq, Repr

def isLeapYear (year : Nat) : Bool := year % 4 == 0 && (year % 100 != 0 || year % 400 == 0)

def daysInMonth (year month : Nat) : Nat :=
  if month = 2 then if isLeapYear year then 29 else 28
  else if month = 4 ∨ month = 6 ∨ month = 9 ∨ month = 11 then 30
  else 31

/-- An hour of the calendar. -/
structure CalendarHour where
  year : Nat
  month : Nat
  day : Nat
  hour : Nat
  year_lt : year < 10000
  month_range : 1 ≤ month ∧ month ≤ 12
  day_range : 1 ≤ day ∧ day ≤ daysInMonth year month
  hour_lt : hour < 24

/-- A number with leading zeros. -/
def padded (width n : Nat) : String :=
  String.ofList (List.replicate (width - (Nat.toDigits 10 n).length) '0' ++ Nat.toDigits 10 n)

/-- `<year>-<month>-<day>`. -/
def CalendarHour.date (t : CalendarHour) : String :=
  padded 4 t.year ++ "-" ++ padded 2 t.month ++ "-" ++ padded 2 t.day

/-- What the rolling appender puts after a sink's prefix and a dot. -/
def RotationKind.ending (rotation : RotationKind) (t : CalendarHour) : String :=
  match rotation with
  | .never => "log"
  | .daily => t.date ++ ".log"
  | .hourly => t.date ++ "-" ++ padded 2 t.hour ++ ".log"

/-- The name of the sink's log file at `t`. -/
def FileSinkConfig.fileName (cfg : FileSinkConfig) (t : CalendarHour) : String :=
  cfg.filePrefix ++ "." ++ cfg.rotation.ending t

/-- The name is that of a log file of the sink. -/
def FileSinkConfig.Owns (cfg : FileSinkConfig) (name : OsName) : Prop :=
  ∃ t, name = .utf8 (cfg.fileName t)

/-- The sweep removes no file of the sink. -/
def Sweep.Spares (s : Sweep) (cfg : FileSinkConfig) : Prop := ∀ name ∈ s.removed, ¬ cfg.Owns name

/-- The prefix begins the sink's own, or it is the sink's own, a dot and the beginning of
an ending. -/
def Covers (filePrefix : String) (cfg : FileSinkConfig) : Prop :=
  filePrefix.toList <+: cfg.filePrefix.toList ∨
    ∃ t rest, rest <+: (cfg.rotation.ending t).toList ∧
      filePrefix.toList = cfg.filePrefix.toList ++ '.' :: rest

/-- A prefix covers a sink when it begins the name of one of its files. -/
theorem covers_iff_fileName {cfg : FileSinkConfig} :
    Covers filePrefix cfg ↔ ∃ t, filePrefix.toList <+: (cfg.fileName t).toList := by
  have hname : ∀ t, (cfg.fileName t).toList =
      cfg.filePrefix.toList ++ '.' :: (cfg.rotation.ending t).toList := by
    intro t
    rw [FileSinkConfig.fileName, String.toList_append, String.toList_append, List.append_assoc]
    rfl
  constructor
  · intro h
    rcases h with hbegins | ⟨t, rest, hrest, heq⟩
    · let t : CalendarHour := ⟨1970, 1, 1, 0, by decide, by decide, by decide, by decide⟩
      refine ⟨t, ?_⟩
      rw [hname]
      exact List.prefix_append_of_prefix hbegins
    · refine ⟨t, ?_⟩
      rw [hname, heq]
      exact (List.prefix_append_right_inj _).mpr (List.cons_prefix_cons.mpr ⟨rfl, hrest⟩)
  · intro h
    obtain ⟨t, tail, heq⟩ := h
    rw [hname] at heq
    rcases List.append_eq_append_iff.mp heq with ⟨own, hown, -⟩ | ⟨rest, hown, hrest⟩
    · exact .inl ⟨own, hown.symm⟩
    · cases rest with
      | nil => exact .inl ⟨[], by rw [hown, List.append_nil, List.append_nil]⟩
      | cons dot rest =>
        obtain ⟨rfl, hending⟩ := List.cons.inj hrest
        exact .inr ⟨t, rest, ⟨tail, hending.symm⟩, hown⟩

/-- A file of this name, or a newer one whose name is longer. -/
def crowdedEntry (name : String) (i : Nat) : DirEntry where
  name := .utf8 (name ++ String.ofList (List.replicate i 'x'))
  isFile := true
  modified := some (if i = 0 then 0 else 1)

theorem crowdedEntry_name_inj {name : String} {i j : Nat}
    (h : (crowdedEntry name i).name = (crowdedEntry name j).name) : i = j := by
  have htext := congrArg (fun text => text.toList.length) (OsName.utf8.inj h)
  simpa using htext

theorem readable_map_ok (files : List DirEntry) : readable (files.map .ok) = files := by
  rw [readable, List.filterMap_map]
  exact List.filterMap_some

/-- A directory with this file and `keep` newer ones. -/
def crowded (name : String) (keep : Nat) : Directory where
  entries := ((List.range (keep + 1)).map (crowdedEntry name)).map .ok
  distinct := by
    rw [readable_map_ok, List.map_map]
    exact List.nodup_range.map fun i j h => crowdedEntry_name_inj h

theorem candidates_crowded {name : String} (h : filePrefix.toList <+: name.toList) :
    (crowded name keep).candidates filePrefix =
      (List.range (keep + 1)).map (crowdedEntry name) := by
  rw [Directory.candidates, crowded, readable_map_ok, List.filter_eq_self]
  intro entry hentry
  obtain ⟨i, -, rfl⟩ := List.mem_map.mp hentry
  refine decide_eq_true ⟨rfl, ⟨_, rfl, ?_⟩, rfl⟩
  rw [String.toList_append]
  exact List.prefix_append_of_prefix h

/-- In such a directory the sweep removes this file. -/
theorem mem_attempted_crowded {name : String} (h : filePrefix.toList <+: name.toList)
    (dir : String) (remove : OsName → RemoveResult) : .utf8 name ∈
      (runRetention dir (.ok (crowded name keep)) filePrefix keep remove).attempted := by
  have hname : (crowdedEntry name 0).name = .utf8 name := by simp [crowdedEntry]
  have hmem : ∀ i ≤ keep, crowdedEntry name i ∈ (crowded name keep).candidates filePrefix := by
    intro i hi
    rw [candidates_crowded h]
    exact List.mem_map.mpr ⟨i, List.mem_range.mpr (by omega), rfl⟩
  have hlength := length_attempted dir (crowded name keep) filePrefix keep remove
  rw [candidates_crowded h, List.length_map, List.length_range] at hlength
  obtain ⟨removed, hremoved⟩ := List.exists_mem_of_length_pos
    (show 0 < (runRetention dir (.ok (crowded name keep)) filePrefix keep remove).attempted.length
      by omega)
  obtain ⟨entry, hentry, rfl⟩ := mem_attempted hremoved
  rw [candidates_crowded h] at hentry
  obtain ⟨i, hi, rfl⟩ := List.mem_map.mp hentry
  cases i with
  | zero => exact hname ▸ hremoved
  | succ i =>
    by_contra hnot
    have hle := le_of_kept (hmem 0 (Nat.zero_le _))
      (hmem (i + 1) (by have hlt := List.mem_range.mp hi; omega)) rfl rfl (hname ▸ hnot) hremoved
    rw [if_neg (Nat.succ_ne_zero i), if_pos rfl] at hle
    exact absurd hle (by decide)

/-- **When a sweep spares the files of another sink**, whatever the directory, and for
every number of files to keep: its prefix does not cover the sink. -/
theorem sweep_spares_iff (filePrefix : String) (cfg : FileSinkConfig) (keep : Nat) :
    (∀ (dir : String) (contents : Directory) (remove : OsName → RemoveResult),
      (runRetention dir (.ok contents) filePrefix keep remove).Spares cfg) ↔
      ¬ Covers filePrefix cfg := by
  rw [covers_iff_fileName]
  constructor
  · intro hspares h
    obtain ⟨t, hbegins⟩ := h
    refine hspares "logs" (crowded (cfg.fileName t) keep) (fun _ => .removed) _ ?_ ⟨t, rfl⟩
    rw [removed_runRetention]
    exact List.mem_filter.mpr ⟨mem_attempted_crowded hbegins _ _, rfl⟩
  · intro hnot dir contents remove name hremoved howns
    obtain ⟨t, rfl⟩ := howns
    rw [removed_runRetention] at hremoved
    obtain ⟨entry, hentry, hname⟩ := mem_attempted (List.mem_filter.mp hremoved).1
    obtain ⟨-, ⟨text, htext, hbegins⟩, -⟩ := of_decide_eq_true (List.mem_filter.mp hentry).2
    obtain rfl := OsName.utf8.inj (htext.symm.trans hname)
    exact hnot ⟨t, hbegins⟩

/-- A sink beside `app`, in the same directory. -/
def errorSink : FileSinkConfig := ⟨"./storage/logs", "app-error", .never, some 7⟩

/-- The log of `app` and an older one of `app-error`. -/
def twoLogs : Directory :=
  ⟨[.ok ⟨.utf8 "app.log", true, some 1⟩, .ok ⟨.utf8 "app-error.log", true, some 0⟩], by decide⟩

theorem removed_twoLogs (dir : String) : (runRetention dir (.ok twoLogs) "app" 1
    (fun _ => .removed)).removed = [.utf8 "app-error.log"] := by
  have hlogs : twoLogs.logFiles "app" = [(1, .utf8 "app.log"), (0, .utf8 "app-error.log")] := by
    decide
  rw [removed_runRetention, attempted_runRetention, hlogs, beyond, descending,
    List.mergeSort_of_pairwise (by decide)]
  rfl

/-- The sweep for `app`, which is to keep one file, removes the log of `app-error`. -/
theorem app_removes_error_log :
    (runRetention "./storage/logs" (.ok twoLogs) "app" 1 (fun _ => .removed)).removed =
      [.utf8 "app-error.log"] ∧
    ¬ (runRetention "./storage/logs" (.ok twoLogs) "app" 1 (fun _ => .removed)).Spares
      errorSink := by
  refine ⟨removed_twoLogs _, ?_⟩
  intro hspares
  refine hspares (.utf8 "app-error.log") ?_
    ⟨⟨2026, 7, 5, 0, by decide, by decide, by decide, by decide⟩, rfl⟩
  rw [removed_twoLogs]
  exact List.mem_singleton_self _

end Kolas.Logging
