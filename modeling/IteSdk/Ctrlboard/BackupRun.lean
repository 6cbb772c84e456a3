import IteSdk.Ctrlboard.Backup

/-!
# What `BackupInit` recovers

A public partition that is whole stays as it is; one that is not gets the files
of the backup partition, if that is whole.
-/

namespace IteSdk.Ctrlboard

open Lib Lib.Checked

variable {env : BackupEnv} {defaults : DirEntries} {state : BackupState}
  {files : List FilePath}

def AllThere (volume : Volume) (files : List FilePath) : Prop :=
  ∀ file ∈ files, (volume.read file).isSome = true

def AllShort (files : List FilePath) : Prop :=
  ∀ file ∈ files, 2 + pathLength file < backupPathSize

/-- The public partition is the public one, and holds all files. -/
def Healthy (volume : Volume) (files : List FilePath) : Prop :=
  volume.read backupSpecialFile = none ∧ AllThere volume files

theorem checkFiles_returns (short : AllShort files) :
    ∃ status, Returns (checkFiles files) state status state ∧
      (AllThere (state.volumes .config) files → status ≠ .needRestoreFromBackup) ∧
      (AllThere (state.volumes .backup) files → ¬ AllThere (state.volumes .config) files →
        status = .needRestoreFromBackup) := by
  induction files with
  | nil =>
    refine ⟨.nothing, Returns.pure, by nofun, fun _ missing => ?_⟩
    exact absurd (by nofun : AllThere _ []) missing
  | cons file rest ih =>
    obtain ⟨shortHere, shortRest⟩ := List.forall_mem_cons.mp short
    obtain ⟨status, returns, whole, broken⟩ := ih shortRest
    cases config : ((state.volumes .config).read file).isSome with
    | false =>
      refine ⟨.needRestoreFromBackup, ?_, ?_, fun _ _ => rfl⟩
      · rw [checkFiles]
        apply Returns.require shortHere
        apply Returns.bind Returns.call
        rw [if_pos config]
        exact Returns.pure
      · intro there
        rw [there file List.mem_cons_self] at config
        cases config
    | true =>
      cases backup : ((state.volumes .backup).read file).isSome with
      | false =>
        refine ⟨.needRestoreDefault, ?_, by nofun, ?_⟩
        · rw [checkFiles]
          apply Returns.require shortHere
          apply Returns.bind Returns.call
          rw [if_neg (by simp [config])]
          apply Returns.require shortHere
          apply Returns.bind Returns.call
          rw [if_pos backup]
          exact Returns.pure
        · intro there
          rw [there file List.mem_cons_self] at backup
          cases backup
      | true =>
        refine ⟨status, ?_, ?_, ?_⟩
        · rw [checkFiles]
          apply Returns.require shortHere
          apply Returns.bind Returns.call
          rw [if_neg (by simp [config])]
          apply Returns.require shortHere
          apply Returns.bind Returns.call
          rw [if_neg (by simp [backup])]
          exact returns
        · exact fun there => whole (List.forall_mem_cons.mp there).2
        · intro there missing
          apply broken (List.forall_mem_cons.mp there).2
          intro restThere
          exact missing (List.forall_mem_cons.mpr ⟨config, restThere⟩)

theorem checkBackupStatus_returns (short : AllShort state.gtBackupList) :
    ∃ status, Returns checkBackupStatus state status state ∧
      (Healthy (state.volumes .config) state.gtBackupList → status ≠ .needRestoreFromBackup) ∧
      (AllThere (state.volumes .backup) state.gtBackupList →
        ¬ Healthy (state.volumes .config) state.gtBackupList →
        status = .needRestoreFromBackup) := by
  cases special : ((state.volumes .config).read backupSpecialFile).isSome with
  | true =>
    refine ⟨.needRestoreFromBackup, ?_, ?_, fun _ _ => rfl⟩
    · apply Returns.bind Returns.call
      rw [if_pos special]
      exact Returns.pure
    · intro healthy
      rw [healthy.1] at special
      cases special
  | false =>
    obtain ⟨status, returns, whole, broken⟩ := @checkFiles_returns state _ short
    refine ⟨status, ?_, fun healthy => whole healthy.2, ?_⟩
    · apply Returns.bind Returns.call
      rw [if_neg (by simp [special])]
      exact Returns.bind Returns.call returns
    · intro there missing
      apply broken there
      intro configThere
      refine missing ⟨?_, configThere⟩
      exact Option.not_isSome_iff_eq_none.mp (by simp [special])

structure Writable (volume : Volume) (files : List FilePath) : Prop where
  clean : volume.Clean
  creatable :
    ∀ file ∈ files, file ≠ [] ∧ volume.IsDirectory file.dropLast ∧ ¬ volume.IsDirectory file

theorem Writable.store {volume : Volume} (writable : Writable volume files)
    {file : FilePath} (member : file ∈ files) (content : List UInt8) :
    volume.Creatable file ∧ Writable (volume.store file content) files := by
  obtain ⟨notRoot, parent, notDirectory⟩ := writable.creatable file member
  have creatable : volume.Creatable file :=
    ⟨notRoot, parent, fun here => notDirectory (Or.inr here), writable.clean file⟩
  refine ⟨creatable, writable.clean.update (by nofun), fun other inside => ?_⟩
  rw [creatable.isDirectory_store, creatable.isDirectory_store]
  exact writable.creatable other inside

theorem fileSyncFile_returns {all : List FilePath} (short : AllShort files)
    (there : AllThere (state.volumes .backup) files)
    (writable : Writable (state.volumes .config) all) (inside : ∀ file ∈ files, file ∈ all) :
    ∃ after, Returns (fileSyncFile .backup .config files) state () after ∧
      after.volumes .backup = state.volumes .backup ∧
      (∀ file, file ∉ files →
        (after.volumes .config).read file = (state.volumes .config).read file) ∧
      ∀ file ∈ files, (after.volumes .config).read file = (state.volumes .backup).read file := by
  induction files generalizing state with
  | nil =>
    exact ⟨state, Returns.pure, rfl, fun _ _ => rfl, by nofun⟩
  | cons file rest ih =>
    obtain ⟨shortHere, shortRest⟩ := List.forall_mem_cons.mp short
    obtain ⟨thereHere, thereRest⟩ := List.forall_mem_cons.mp there
    obtain ⟨insideHere, insideRest⟩ := List.forall_mem_cons.mp inside
    obtain ⟨content, read⟩ := Option.isSome_iff_exists.mp thereHere
    obtain ⟨creatable, writableNext⟩ := writable.store insideHere content
    let next : BackupState :=
      { state with
        volumes :=
          Function.update state.volumes .config ((state.volumes .config).store file content) }
    have config : next.volumes .config = (state.volumes .config).store file content := by
      dsimp only [next]
      exact Function.update_self _ _ _
    have backup : next.volumes .backup = state.volumes .backup := by
      dsimp only [next]
      exact Function.update_of_ne (by decide) _ _
    obtain ⟨after, returns, same, others, copied⟩ :=
      @ih next shortRest (backup.symm ▸ thereRest) (config.symm ▸ writableNext) insideRest
    refine ⟨after, ?_, same.trans backup, ?_, ?_⟩
    · rw [fileSyncFile]
      apply Returns.require shortHere
      apply Returns.bind Returns.call
      dsimp only
      rw [read]
      apply Returns.require rfl
      apply Returns.require shortHere
      apply Returns.bind Returns.call
      apply Returns.require creatable
      exact Returns.bind Returns.call returns
    · intro other outside
      obtain ⟨different, absent⟩ := List.ne_and_not_mem_of_not_mem_cons outside
      rw [others other absent, config, Volume.read_store_of_ne different]
    · intro other member
      by_cases again : other ∈ rest
      · rw [copied other again, backup]
      · obtain rfl : other = file := (List.mem_cons.mp member).resolve_right again
        rw [others other again, config, Volume.read_store_self, read]

theorem empty_clean : Volume.empty.Clean := by
  intro path damaged
  cases damaged

section

variable (managed : Managed env defaults)

include managed

theorem Managed.restored : Restored .empty (ugRestoreDir env [] defaults .empty) [] defaults :=
  ugRestoreDir_restored (Or.inl rfl) managed.proper (fun _ _ _ => rfl) empty_clean

theorem Managed.isDirectory {dir : FilePath} (named : dir ≠ []) :
    (ugRestoreDir env [] defaults .empty).IsDirectory dir ↔ dir ∈ defaults.directories [] := by
  rw [managed.restored.directories]
  apply or_iff_right
  intro before
  cases before with
  | inl root => exact named root
  | inr found => cases found

theorem Managed.writable : Writable (ugRestoreDir env [] defaults .empty) (defaults.files []) := by
  refine ⟨managed.restored.clean, fun file member => ?_⟩
  obtain ⟨named, parent⟩ := files_parent member
  refine ⟨named, ?_, ?_⟩
  · rw [managed.restored.directories]
    exact parent.imp Or.inl id
  · rw [managed.isDirectory named]
    exact files_not_directories managed.proper member

theorem Managed.creatable_special :
    (ugRestoreDir env [] defaults .empty).Creatable backupSpecialFile := by
  have named : backupSpecialFile ≠ [] := by nofun
  refine ⟨named, Or.inl rfl, ?_, managed.restored.clean _⟩
  intro directory
  exact managed.special ((managed.isDirectory named).mp (Or.inr directory))

end

def BackupState.withDefaults (state : BackupState) (env : BackupEnv)
    (defaults : DirEntries) (drive : BackupDrive) : BackupState :=
  { state with
    volumes := Function.update state.volumes drive (ugRestoreDir env [] defaults .empty) }

theorem restoreDefaults_returns {drive : BackupDrive} :
    Returns (restoreDefaults env defaults drive) state ()
      (state.withDefaults env defaults drive) := by
  apply Returns.bind Returns.call
  apply Returns.bind Returns.call
  rw [Returns, setVolume, outcome_call]
  dsimp only
  rw [Function.update_self, Function.update_idem]
  rfl

theorem withDefaults_volumes {drive : BackupDrive} :
    (state.withDefaults env defaults drive).volumes drive = ugRestoreDir env [] defaults .empty :=
  Function.update_self _ _ _

theorem withDefaults_volumes_of_ne {drive other : BackupDrive} (different : other ≠ drive) :
    (state.withDefaults env defaults drive).volumes other = state.volumes other :=
  Function.update_of_ne different _ _

def BackupState.listed (state : BackupState) (defaults : DirEntries) : BackupState :=
  { state with gtBackupList := defaults.files [] }

section

variable (managed : Managed env defaults) (fresh : state.gtBackupList = [])

include managed fresh

theorem Managed.lists :
    Returns (traverseFileList env [] defaults) state () (state.listed defaults) := by
  have count :
      state.gtBackupList.length + (defaults.files []).length ≤ maxBackupCount := by
    rw [fresh, List.length_nil, Nat.zero_add]
    exact managed.count
  have returns := traverseFileList_returns count
    (fun file member => by have := managed.short file member; omega)
    managed.filePaths managed.dirPaths
  rw [fresh, List.nil_append] at returns
  exact returns

theorem backupInit_whole (healthy : Healthy (state.volumes .config) (defaults.files [])) :
    ∃ after, Returns (backupInit env defaults) state () after ∧
      after.volumes .config = state.volumes .config := by
  let listed := state.listed defaults
  have short : AllShort listed.gtBackupList := managed.short
  obtain ⟨status, checked, whole, _⟩ := checkBackupStatus_returns short
  have notBroken : status ≠ .needRestoreFromBackup := whole healthy
  cases status with
  | needRestoreFromBackup =>
    exact absurd rfl notBroken
  | nothing =>
    refine ⟨listed, ?_, rfl⟩
    apply Returns.bind (managed.lists fresh)
    exact Returns.bind checked Returns.pure
  | needRestoreDefault =>
    let restored := listed.withDefaults env defaults .backup
    let after : BackupState :=
      { restored with
        volumes :=
          Function.update restored.volumes .backup
            ((restored.volumes .backup).store backupSpecialFile specialContent) }
    refine ⟨after, ?_, ?_⟩
    · apply Returns.bind (managed.lists fresh)
      apply Returns.bind checked
      apply Returns.bind restoreDefaults_returns
      apply Returns.bind Returns.call
      apply Returns.require
      · dsimp only
        rw [withDefaults_volumes]
        exact managed.creatable_special
      · exact Returns.call
    · dsimp only [after]
      rw [Function.update_of_ne (by decide)]
      exact withDefaults_volumes_of_ne (by decide)

theorem backupInit_broken (broken : ¬ Healthy (state.volumes .config) (defaults.files []))
    (there : AllThere (state.volumes .backup) (defaults.files [])) :
    ∃ after, Returns (backupInit env defaults) state () after ∧
      after.volumes .backup = state.volumes .backup ∧
      ∀ file ∈ defaults.files [],
        (after.volumes .config).read file = (state.volumes .backup).read file := by
  let listed := state.listed defaults
  have short : AllShort listed.gtBackupList := managed.short
  obtain ⟨status, checked, _, missing⟩ := checkBackupStatus_returns short
  obtain rfl : status = .needRestoreFromBackup := missing there broken
  let restored := listed.withDefaults env defaults .config
  have config : restored.volumes .config = ugRestoreDir env [] defaults .empty :=
    withDefaults_volumes
  have backup : restored.volumes .backup = state.volumes .backup :=
    withDefaults_volumes_of_ne (by decide)
  have writable : Writable (restored.volumes .config) (defaults.files []) := by
    rw [config]
    exact managed.writable
  rw [← backup] at there
  obtain ⟨after, synced, same, _, copied⟩ :=
    fileSyncFile_returns managed.short there writable fun _ member => member
  refine ⟨after, ?_, same.trans backup, fun file member => ?_⟩
  · apply Returns.bind (managed.lists fresh)
    apply Returns.bind checked
    apply Returns.bind restoreDefaults_returns
    exact Returns.bind Returns.call synced
  · rw [copied file member, backup]

end

theorem backupInit_recovers (managed : Managed env defaults)
    (fresh : state.gtBackupList = []) :
    (Healthy (state.volumes .config) (defaults.files []) →
      ∃ after, Returns (backupInit env defaults) state () after ∧
        after.volumes .config = state.volumes .config) ∧
    (¬ Healthy (state.volumes .config) (defaults.files []) →
      AllThere (state.volumes .backup) (defaults.files []) →
      ∃ after, Returns (backupInit env defaults) state () after ∧
        after.volumes .backup = state.volumes .backup ∧
        ∀ file ∈ defaults.files [],
          (after.volumes .config).read file = (state.volumes .backup).read file) :=
  ⟨backupInit_whole managed fresh, backupInit_broken managed fresh⟩

/-- A file `a` and a file `c` in a directory `b`. -/
def smallDefaults : DirEntries := .file [97] [0] (.dir [98] (.file [99] [0, 0] .done) .done)

def smallEnv : BackupEnv := { pathMax := 512, room := fun _ _ _ => true }

/-- The backup has a newer `a`; the public partition has `a` and `c`, or only
`a`. -/
def smallState (whole : Bool) : BackupState :=
  { volumes := fun
      | .config => fun path =>
        if path = [[97]] then some (.file [1])
        else if path = [[98]] then some .directory
        else if whole = true ∧ path = [[98], [99]] then some (.file [1, 1])
        else none
      | .backup => fun path =>
        if path = [[97]] then some (.file [2])
        else if path = [[98]] then some .directory
        else if path = [[98], [99]] then some (.file [2, 2])
        else none
    gtBackupList := [] }

theorem smallDefaults_managed : Managed smallEnv smallDefaults where
  count := by decide
  short := by decide
  filePaths := by decide
  dirPaths := by decide
  proper := by refine ⟨by decide, by decide, by decide, ?_, ?_⟩ <;> trivial
  special := by decide

theorem backupInit_recovers_small :
    ∃ after, Returns (backupInit smallEnv smallDefaults) (smallState false) () after ∧
      after.volumes .backup = (smallState false).volumes .backup ∧
      ∀ file ∈ smallDefaults.files [],
        (after.volumes .config).read file = ((smallState false).volumes .backup).read file := by
  apply (backupInit_recovers smallDefaults_managed rfl).2
  · intro healthy
    have there := healthy.2 [[98], [99]] (by decide)
    cases there
  · unfold AllThere
    decide

/-- A public partition that is whole does not get the backup's content. -/
theorem backupInit_keeps_public :
    Managed smallEnv smallDefaults ∧
      ∃ after, Returns (backupInit smallEnv smallDefaults) (smallState true) () after ∧
        [[97]] ∈ smallDefaults.files [] ∧
        ((smallState true).volumes .backup).read [[97]] = some [2] ∧
        (after.volumes .config).read [[97]] = some [1] :=
  ⟨smallDefaults_managed, _, rfl, by decide, rfl, rfl⟩

end IteSdk.Ctrlboard
