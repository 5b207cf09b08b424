import Kolas.Console.CommandLine
import Kolas.Database.AutoMigrate
import Kolas.Database.Migrate
import Kolas.Lib.FixedWidth

/-!
# Creating migrations

`MigrationCreateCommand::execute` of `console/commands/migration_create.rs`.  A migration is two
files whose names begin with the time of their creation, to the millisecond; SQLx reads
that prefix as the migration's version.

* `UtcTime.version_lt_iff`: versions are in the order of time.
* `content_of_createAll`: commands given one after another create two files each, and change
  no other file.
* `rollback_created`: rollbacks undo the migrations from the last created on, one each.
-/

namespace Kolas.Database

open Kolas.Console Kolas.Lib

/-! ### Versions -/

/-- A UTC time to the millisecond, until the year 9999. -/
structure UtcTime where
  year : Nat
  month : Nat
  day : Nat
  hour : Nat
  minute : Nat
  second : Nat
  milli : Nat
  year_le : year ≤ 9999
  month_pos : 1 ≤ month
  month_le : month ≤ 12
  day_le : day ≤ 31
  hour_le : hour ≤ 23
  minute_le : minute ≤ 59
  second_le : second ≤ 60
  milli_le : milli ≤ 999

namespace UtcTime

def fields (t : UtcTime) : List FixedField :=
  [⟨4, t.year, by decide, Nat.lt_of_le_of_lt t.year_le (by decide)⟩,
    ⟨2, t.month, by decide, Nat.lt_of_le_of_lt t.month_le (by decide)⟩,
    ⟨2, t.day, by decide, Nat.lt_of_le_of_lt t.day_le (by decide)⟩,
    ⟨2, t.hour, by decide, Nat.lt_of_le_of_lt t.hour_le (by decide)⟩,
    ⟨2, t.minute, by decide, Nat.lt_of_le_of_lt t.minute_le (by decide)⟩,
    ⟨2, t.second, by decide, Nat.lt_of_le_of_lt t.second_le (by decide)⟩,
    ⟨3, t.milli, by decide, Nat.lt_of_le_of_lt t.milli_le (by decide)⟩]

/-- `format("%Y%m%d%H%M%S%3f")`. -/
def format (t : UtcTime) : List Char := FixedField.text t.fields

/-- The number that the digits are. -/
def version (t : UtcTime) : Nat := FixedField.number t.fields

/-- One time is before the other. -/
def Before (t t' : UtcTime) : Prop :=
  [t.year, t.month, t.day, t.hour, t.minute, t.second, t.milli] <
    [t'.year, t'.month, t'.day, t'.hour, t'.minute, t'.second, t'.milli]

instance (t t' : UtcTime) : Decidable (t.Before t') := inferInstanceAs (Decidable (_ < _))

end UtcTime

/-! ### The command -/

/-- The files of a machine. -/
structure Files where
  present : String → Bool
  content : String → Option String

/-- What the file system answers to one command. -/
structure FileResults where
  createDirAll : Except String Unit
  write : String → Except String Unit

def Files.addDir (files : Files) (dir : String) : Files :=
  { files with present := Function.update files.present dir true }

def Files.write (files : Files) (path text : String) : Files :=
  ⟨Function.update files.present path true, Function.update files.content path (some text)⟩

/-- The directory for new migrations: it needs no connection. -/
def migrationDir (config : DatabaseConfig) (args : Args) : String :=
  match args.get "connection" with
  | some connection => config.migrationsPathFor connection
  | none => config.globalMigrationsPath

/-- The file's name, without its ending. -/
def migrationName (now : UtcTime) (name : String) : String :=
  String.ofList now.format ++ "_" ++ name

/-- `execute`: the files, what is printed, and the result. -/
def migrationCreate (config : DatabaseConfig) (now : UtcTime) (io : FileResults) (files : Files)
    (args : Args) : Files × List String × Except String Unit :=
  match args.positionalAt 0 with
  | none => (files, [], .error "Usage: migration:create <name>")
  | some name =>
    let dir := migrationDir config args
    match if files.present dir then .ok () else io.createDirAll with
    | .error err => (files, [], .error err)
    | .ok () =>
      let files := files.addDir dir
      let up := dir ++ "/" ++ migrationName now name ++ ".up.sql"
      let down := dir ++ "/" ++ migrationName now name ++ ".down.sql"
      match io.write up with
      | .error err => (files, [], .error err)
      | .ok () =>
        let files := files.write up "-- Write your UP migration here\n"
        match io.write down with
        | .error err => (files, [], .error err)
        | .ok () =>
          (files.write down "-- Write your DOWN migration here\n",
            ["Created " ++ up, "Created " ++ down], .ok ())

/-- One call of the command. -/
structure Creation where
  now : UtcTime
  io : FileResults
  args : Args

namespace Creation

variable (config : DatabaseConfig) (c : Creation)

/-- The files after a call that succeeds. -/
def create (files : Files) : Except String Files :=
  (migrationCreate config c.now c.io files c.args).2.2.map fun _ =>
    (migrationCreate config c.now c.io files c.args).1

/-- The name the migration is given. -/
def name : String := (c.args.positionalAt 0).getD ""

/-- The up file's name in its directory. -/
def upName : String := migrationName c.now c.name ++ ".up.sql"

def upPath : String :=
  migrationDir config c.args ++ "/" ++ migrationName c.now c.name ++ ".up.sql"

def downPath : String :=
  migrationDir config c.args ++ "/" ++ migrationName c.now c.name ++ ".down.sql"

end Creation

/-- The files after calls that all succeed. -/
def createAll (config : DatabaseConfig) (files : Files) (creations : List Creation) :
    Except String Files := creations.foldlM (fun files c => c.create config files) files

/-! ### The order of the versions -/

namespace UtcTime

variable {t t' : UtcTime}

/-- **Versions are in the order of time.** -/
theorem version_lt_iff (t t' : UtcTime) : t.version < t'.version ↔ t.Before t' :=
  FixedField.number_lt_iff rfl

theorem version_pos (t : UtcTime) : 0 < t.version := by
  have hmonth := t.month_pos
  show 0 < t.year * 10 ^ 13 + (t.month * 10 ^ 11 + _)
  omega

theorem version_lt (t : UtcTime) : t.version < 10 ^ 17 := FixedField.number_lt t.fields

theorem readNumber_format (t : UtcTime) : readNumber t.format = some t.version :=
  FixedField.readNumber_text (List.cons_ne_nil _ _)

theorem length_format (t : UtcTime) : t.format.length = 17 := FixedField.length_text t.fields

theorem format_inj (h : t.format = t'.format) : t.version = t'.version := by
  have hread := t.readNumber_format
  rw [h, t'.readNumber_format] at hread
  exact (Option.some.inj hread).symm

end UtcTime

/-! ### The files -/

section

variable {config : DatabaseConfig} {files files' : Files} {c c' : Creation} {dir : String}

theorem migrationName_inj {t t' : UtcTime} {name name' ending : String}
    (h : migrationName t name ++ ending = migrationName t' name' ++ ending) :
    t.version = t'.version := by
  have hchars := congrArg String.toList h
  simp only [migrationName, String.toList_append, String.toList_ofList, List.append_assoc] at hchars
  have hlength : t.format.length = t'.format.length := by
    rw [t.length_format, t'.length_format]
  exact UtcTime.format_inj (List.append_inj_left hchars hlength)

/-- No up file has the name of a down file. -/
theorem upPath_ne_downPath (c c' : Creation) : c.upPath config ≠ c'.downPath config := by
  intro h
  have hchars := congrArg String.toList h
  have hup : ".up.sql".toList = ['.', 'u'] ++ "p.sql".toList := rfl
  have hdown : ".down.sql".toList = ['.', 'd', 'o', 'w'] ++ "n.sql".toList := rfl
  simp only [Creation.upPath, Creation.downPath, String.toList_append, hup, hdown,
    ← List.append_assoc] at hchars
  have hlast : "p.sql".toList = "n.sql".toList := List.append_inj_right' hchars rfl
  exact absurd hlast (by decide)

theorem create_eq (h : c.create config files = .ok files') :
    files' = ((files.addDir (migrationDir config c.args)).write (c.upPath config)
      "-- Write your UP migration here\n").write (c.downPath config)
        "-- Write your DOWN migration here\n" := by
  unfold Creation.create at h
  cases hname : c.args.positionalAt 0 with
  | none =>
    rw [migrationCreate, hname] at h
    cases h
  | some name =>
    have hown : c.name = name := by rw [Creation.name, hname, Option.getD_some]
    rw [Creation.upPath, Creation.downPath, hown]
    rw [migrationCreate, hname] at h
    dsimp only at h
    split at h
    · cases h
    · split at h
      · cases h
      · split at h
        · cases h
        · exact (Except.ok.inj h).symm

/-- The content of a path after one command. -/
theorem content_of_create (h : c.create config files = .ok files') (path : String) :
    files'.content path =
      if path = c.upPath config then some "-- Write your UP migration here\n"
      else if path = c.downPath config then some "-- Write your DOWN migration here\n"
      else files.content path := by
  rw [create_eq h]
  show Function.update (Function.update files.content _ _) _ _ path = _
  by_cases hup : path = c.upPath config
  · subst hup
    rw [Function.update_of_ne (upPath_ne_downPath c c), Function.update_self, if_pos rfl]
  · rw [if_neg hup]
    by_cases hdown : path = c.downPath config
    · subst hdown
      rw [Function.update_self, if_pos rfl]
    · rw [Function.update_of_ne hdown, Function.update_of_ne hup, if_neg hdown]

/-- Two commands at different times name different files. -/
theorem paths_ne (hbefore : c.now.Before c'.now)
    (hdir : migrationDir config c.args = migrationDir config c'.args) :
    c.upPath config ≠ c'.upPath config ∧ c.downPath config ≠ c'.downPath config := by
  have hlt := (UtcTime.version_lt_iff _ _).mpr hbefore
  have hne : ∀ ending, migrationDir config c.args ++ "/" ++ migrationName c.now c.name ++ ending ≠
      migrationDir config c'.args ++ "/" ++ migrationName c'.now c'.name ++ ending := by
    intro ending h
    have hchars := congrArg String.toList h
    simp only [hdir, String.toList_append, List.append_assoc] at hchars
    have hname : migrationName c.now c.name ++ ending = migrationName c'.now c'.name ++ ending := by
      refine String.toList_inj.mp ?_
      rw [String.toList_append, String.toList_append]
      exact List.append_cancel_left (List.append_cancel_left hchars)
    exact absurd (migrationName_inj hname) (Nat.ne_of_lt hlt)
  exact ⟨hne _, hne _⟩

/-- **Commands given one after another** create two files each, all different, and leave
every other file as it is. -/
theorem content_of_createAll {creations : List Creation}
    (h : createAll config files creations = .ok files')
    (hclock : creations.Pairwise fun c c' => c.now.Before c'.now)
    (hdir : ∀ c ∈ creations, migrationDir config c.args = dir) :
    (creations.map (Creation.upPath config) ++ creations.map (Creation.downPath config)).Nodup ∧
      ∀ path, files'.content path =
        if path ∈ creations.map (Creation.upPath config) then
          some "-- Write your UP migration here\n"
        else if path ∈ creations.map (Creation.downPath config) then
          some "-- Write your DOWN migration here\n"
        else files.content path := by
  have hne : creations.Pairwise fun c c' => c.upPath config ≠ c'.upPath config ∧
      c.downPath config ≠ c'.downPath config := by
    refine hclock.imp_of_mem ?_
    intro c c' hc hc' hbefore
    exact paths_ne hbefore ((hdir c hc).trans (hdir c' hc').symm)
  refine ⟨?_, ?_⟩
  · rw [List.nodup_append]
    refine ⟨List.pairwise_map.mpr (hne.imp And.left), List.pairwise_map.mpr (hne.imp And.right), ?_⟩
    intro path hup other hdown
    obtain ⟨c, -, rfl⟩ := List.mem_map.mp hup
    obtain ⟨c', -, rfl⟩ := List.mem_map.mp hdown
    exact upPath_ne_downPath c c'
  · intro path
    clear hne hclock hdir
    induction creations generalizing files with
    | nil =>
      obtain rfl := Except.ok.inj h
      simp
    | cons c creations ih =>
      rw [createAll, List.foldlM_cons] at h
      cases hfirst : c.create config files with
      | error err =>
        rw [hfirst] at h
        cases h
      | ok next =>
        rw [hfirst] at h
        rw [ih h, content_of_create hfirst, List.map_cons, List.map_cons]
        by_cases hup : path = c.upPath config
        · subst hup
          have hnot : c.upPath config ∉ creations.map (Creation.downPath config) := by
            intro hmem
            obtain ⟨c', -, heq⟩ := List.mem_map.mp hmem
            exact upPath_ne_downPath c c' heq.symm
          simp [hnot]
        · by_cases hdown : path = c.downPath config
          · subst hdown
            simp [hup]
          · simp [hup, hdown]

end

/-! ### Rolling back what was created -/

/-- SQLx reads the digits before the first underscore of an up file's name as an `i64`. -/
def ReadsVersions (readVersion : String → Option Int) : Prop :=
  ∀ (digits : List Char) (name : String) (n : Nat), readNumber digits = some n → n < 2 ^ 63 →
    readVersion (String.ofList digits ++ "_" ++ name ++ ".up.sql") = some (n : Int)

/-- The versions of the migrations created. -/
def createdVersions (readVersion : String → Option Int) (creations : List Creation) : Finset Int :=
  (creations.filterMap fun c => readVersion c.upName).toFinset

section

variable {readVersion : String → Option Int} {creations : List Creation}

theorem readVersion_upName (hread : ReadsVersions readVersion) (c : Creation) :
    readVersion c.upName = some (c.now.version : Int) := by
  have hlt := c.now.version_lt
  exact hread _ _ _ c.now.readNumber_format (by omega)

theorem createdVersions_eq (hread : ReadsVersions readVersion) (creations : List Creation) :
    createdVersions readVersion creations =
      (creations.map fun c => (c.now.version : Int)).toFinset := by
  have hsome : (fun c : Creation => readVersion c.upName) =
      some ∘ fun c => (c.now.version : Int) := funext (readVersion_upName hread)
  rw [createdVersions, hsome, List.filterMap_eq_map]

/-- Without its newest element, an increasing list is one shorter. -/
theorem withoutNewest_toFinset {versions : List Int} {v : Int}
    (h : (versions ++ [v]).Pairwise (· < ·)) :
    withoutNewest (versions ++ [v]).toFinset = versions.toFinset := by
  have hlast : ∀ u ∈ versions, u < v := by
    intro u hu
    exact (List.pairwise_append.mp h).2.2 u hu v (List.mem_singleton_self v)
  have hgreatest : IsGreatest ((versions ++ [v]).toFinset : Set Int) v := by
    refine ⟨by simp, ?_⟩
    intro u hu
    rcases List.mem_append.mp (List.mem_toFinset.mp (Finset.mem_coe.mp hu)) with hmem | hmem
    · exact le_of_lt (hlast u hmem)
    · exact le_of_eq (List.mem_singleton.mp hmem)
  rw [withoutNewest_of_isGreatest hgreatest]
  ext u
  simp only [Finset.mem_erase, List.mem_toFinset, List.mem_append, List.mem_singleton]
  constructor
  · rintro ⟨hne, hmem⟩
    exact hmem.resolve_right hne
  · intro hmem
    exact ⟨(hlast u hmem).ne, Or.inl hmem⟩

theorem withoutNewest_iterate_toFinset {versions : List Int} (h : versions.Pairwise (· < ·))
    (n : Nat) :
    withoutNewest^[n] versions.toFinset = (versions.take (versions.length - n)).toFinset := by
  induction n generalizing versions with
  | zero => simp
  | succ n ih =>
    rw [Function.iterate_succ_apply]
    rcases List.eq_nil_or_concat' versions with rfl | ⟨before, v, rfl⟩
    · have hempty : withoutNewest ([] : List Int).toFinset = ([] : List Int).toFinset :=
        Finset.filter_empty _
      rw [hempty, ih List.Pairwise.nil, List.take_nil, List.take_nil]
    · rw [withoutNewest_toFinset h, ih (List.pairwise_append.mp h).1]
      congr 1
      rw [List.take_append_of_le_length (by simp)]
      simp

/-- **Rollbacks undo the migrations from the last created on**, one each. -/
theorem rollback_created {M : Migrator} (hM : M.Lawful) (hread : ReadsVersions readVersion)
    (hclock : creations.Pairwise fun c c' => c.now.Before c'.now) (n : Nat) :
    (createdVersions readVersion creations).card = creations.length ∧
      rollbackTimes M (createdVersions readVersion creations) n =
        .ok (createdVersions readVersion (creations.take (creations.length - n))) := by
  have hsorted : (creations.map fun c => (c.now.version : Int)).Pairwise (· < ·) := by
    rw [List.pairwise_map]
    refine hclock.imp ?_
    intro c c' hbefore
    exact Int.ofNat_lt.mpr ((UtcTime.version_lt_iff _ _).mpr hbefore)
  have hpos : ∀ v ∈ createdVersions readVersion creations, 0 < v := by
    intro v hv
    rw [createdVersions_eq hread, List.mem_toFinset] at hv
    obtain ⟨c, -, rfl⟩ := List.mem_map.mp hv
    exact Int.ofNat_lt.mpr c.now.version_pos
  refine ⟨?_, ?_⟩
  · rw [createdVersions_eq hread, List.toFinset_card_of_nodup (hsorted.imp ne_of_lt),
      List.length_map]
  · rw [(undoesEach_iff hM _).mpr hpos n, createdVersions_eq hread, createdVersions_eq hread,
      withoutNewest_iterate_toFinset hsorted, List.length_map, List.map_take]

end

/-- The last millisecond of a year, and the first one of the next. -/
def newYearsEve : Creation where
  now := ⟨2025, 12, 31, 23, 59, 59, 999, by decide, by decide, by decide, by decide, by decide,
    by decide, by decide, by decide⟩
  io := ⟨.ok (), fun _ => .ok ()⟩
  args := Args.parse ["create_users"]

def newYear : Creation where
  now := ⟨2026, 1, 1, 0, 0, 0, 0, by decide, by decide, by decide, by decide, by decide,
    by decide, by decide, by decide⟩
  io := ⟨.ok (), fun _ => .ok ()⟩
  args := Args.parse ["create_books"]

/-- A version up to the first underscore. -/
def readPrefix (name : String) : Option Int :=
  (readNumber (name.toList.takeWhile fun c => c ≠ '_')).bind fun n =>
    if n < 2 ^ 63 then some (n : Int) else none

theorem readPrefix_reads : ReadsVersions readPrefix := by
  intro digits name n hnumber hlt
  have hdigits : ∀ c ∈ digits, decide (c ≠ '_') = true := by
    intro c hc
    refine decide_eq_true ?_
    rintro rfl
    unfold readNumber at hnumber
    split at hnumber
    · rename_i hall
      exact absurd (List.all_eq_true.mp hall.2 _ hc) (by decide)
    · cases hnumber
  have hchars : (String.ofList digits ++ "_" ++ name ++ ".up.sql").toList =
      digits ++ '_' :: (name ++ ".up.sql").toList := by
    simp only [String.toList_append, String.toList_ofList, List.append_assoc]
    rfl
  have hcut : (digits ++ '_' :: (name ++ ".up.sql").toList).takeWhile
      (fun c => decide (c ≠ '_')) = digits := by
    rw [List.takeWhile_append_of_pos hdigits, List.takeWhile_cons_of_neg (by decide),
      List.append_nil]
  rw [readPrefix, hchars, hcut, hnumber, Option.bind_some, if_pos hlt]

def oneConnection : DatabaseConfig := ⟨none, false, none, []⟩

theorem content_twoCreations : ∃ files,
    createAll oneConnection ⟨fun _ => false, fun _ => none⟩ [newYearsEve, newYear] = .ok files ∧
      files.content "./database/migrations/20260101000000000_create_books.up.sql" =
        some "-- Write your UP migration here\n" ∧
      files.content "./database/migrations/README.md" = none := by
  obtain ⟨files, hfiles⟩ : ∃ files,
      createAll oneConnection ⟨fun _ => false, fun _ => none⟩ [newYearsEve, newYear] = .ok files :=
    ⟨_, rfl⟩
  have hclock : [newYearsEve, newYear].Pairwise fun c c' => c.now.Before c'.now := by decide
  have hdir : ∀ c ∈ [newYearsEve, newYear],
      migrationDir oneConnection c.args = "./database/migrations" := by
    intro c hc
    simp only [List.mem_cons, List.not_mem_nil, or_false] at hc
    rcases hc with rfl | rfl <;> rfl
  obtain ⟨-, hcontent⟩ := content_of_createAll hfiles hclock hdir
  refine ⟨files, hfiles, ?_, ?_⟩
  · rw [hcontent]
    decide
  · rw [hcontent]
    decide

theorem rollback_twoCreations : rollbackTimes directory
    (createdVersions readPrefix [newYearsEve, newYear]) 1 =
      .ok (createdVersions readPrefix [newYearsEve]) :=
  (rollback_created directory_lawful readPrefix_reads (by decide) 1).2

end Kolas.Database
