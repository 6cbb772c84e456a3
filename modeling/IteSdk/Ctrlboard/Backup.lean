import IteSdk.Lib.Checked
import IteSdk.Lib.Volume
import IteSdk.Upgrade.Crc

/-!
# Backup of configuration files

`backup.c` of the control board with `ugRestoreDir` of `ug_reset.c`, on a file
system that does what it is asked for.  The default copies on the private drive
are only read; they are given as what `readdir` and reading them yield.
-/

namespace IteSdk.Ctrlboard

section

open Lib Upgrade

/-- The drives that change: `CONFIG_DRIVE` and `BACKUP_DRIVE`. -/
inductive BackupDrive
  | config
  | backup
  deriving DecidableEq

/-- The entries that `readdir` yields one after the other. -/
inductive DirEntries
  | done
  | file (name : FileName) (content : List UInt8) (rest : DirEntries)
  | dir (name : FileName) (inside rest : DirEntries)
  deriving DecidableEq

/-- The volumes and `gtBackupList`. -/
structure BackupState where
  volumes : BackupDrive → Volume
  gtBackupList : List FilePath

/-- How `BackupInit` may stop: an assertion fails, or a table or a buffer is too
small. -/
inductive BackupStop
  | assertion
  | overflow
  deriving DecidableEq

abbrev Backup : Type → Type := Checked BackupState BackupStop

/-- `PATH_MAX`, and whether a volume has room for a file of some size. -/
structure BackupEnv where
  pathMax : Nat
  room : Volume → FilePath → Nat → Bool

def maxBackupCount : Nat := 64

/-- The size of `BACKUP_FILE_PATH.path` and of `filePath`. -/
def backupPathSize : Nat := 256

/-- `strlen` of a path with a slash in front of every name. -/
def pathLength (path : FilePath) : Nat := (path.map fun name => name.length + 1).sum

/-- `name[0] == '~'`. -/
def isRemoval (name : FileName) : Bool := name.head? = some '~'.toNat.toUInt8

/-- `strlen` of the default copies' directory, `A:/backup/B`. -/
def defaultLength : Nat := 11

def getState {α : Type} (function : BackupState → α) : Backup α :=
  Checked.call fun state => (function state, state)

def setVolume (drive : BackupDrive) (volume : Volume) : Backup Unit :=
  Checked.call fun state =>
    ((), { state with volumes := Function.update state.volumes drive volume })

def assertThat (condition : Prop) [Decidable condition] : Backup Unit :=
  Checked.require condition .assertion

def fits (condition : Prop) [Decidable condition] : Backup Unit :=
  Checked.require condition .overflow

/-- `sprintf(filePath, "%s:/%s", ..)`. -/
def filePathFits (path : FilePath) : Backup Unit := fits (2 + pathLength path < backupPathSize)

def traverseFileList (env : BackupEnv) (path : FilePath) : DirEntries → Backup Unit
  | .done => pure ()
  | .file name _ rest => do
      Checked.provided (isRemoval name = false) do
        fits (defaultLength + pathLength (path ++ [name]) < env.pathMax)
        let count ← getState fun state => state.gtBackupList.length
        fits (count < maxBackupCount)
        -- The string starts behind the slash.
        fits (pathLength (path ++ [name]) ≤ backupPathSize)
        Checked.call fun state =>
          ((),
            { state with
              gtBackupList := state.gtBackupList ++ [path ++ [name]] })
      traverseFileList env path rest
  | .dir name inside rest => do
      fits (defaultLength + 1 + pathLength (path ++ [name]) < env.pathMax)
      traverseFileList env (path ++ [name]) inside
      traverseFileList env path rest

/-- `_FileSyncFile` over the rest of the list. -/
def fileSyncFile (srcPartition dstPartition : BackupDrive) : List FilePath → Backup Unit
  | [] => pure ()
  | path :: rest => do
      filePathFits path
      let content ← getState fun state => (state.volumes srcPartition).read path
      assertThat (content.isSome = true)
      filePathFits path
      let volume ← getState fun state => state.volumes dstPartition
      assertThat (volume.Creatable path)
      setVolume dstPartition (volume.store path (content.getD []))
      fileSyncFile srcPartition dstPartition rest

inductive BackupStatus
  | nothing
  | needRestoreFromBackup
  | needRestoreDefault
  deriving DecidableEq

/-- The loop of `_CheckBackupStatus`: the first file that cannot be opened
decides. -/
def checkFiles : List FilePath → Backup BackupStatus
  | [] => pure .nothing
  | path :: rest => do
      filePathFits path
      let config ← getState fun state => (state.volumes .config).read path
      if config.isSome = false then
        pure .needRestoreFromBackup
      else do
        filePathFits path
        let backup ← getState fun state => (state.volumes .backup).read path
        if backup.isSome = false then
          pure .needRestoreDefault
        else
          checkFiles rest

/-- `backup_special_file`, which only the backup partition has. -/
def backupSpecialFile : FilePath :=
  [("backup_special_file".toList).map (·.toNat.toUInt8)]

def checkBackupStatus : Backup BackupStatus := do
  let special ← getState fun state => (state.volumes .config).read backupSpecialFile
  if special.isSome = true then
    pure .needRestoreFromBackup
  else do
    let files ← getState fun state => state.gtBackupList
    checkFiles files

/-- What the `ioctl` calls of `_ReinitFatVolume` do to the volume. -/
def reinitFatVolume (drive : BackupDrive) : Backup Unit := setVolume drive .empty

/-- The loop of `ugCopyFile` that writes: what was written when it ends. -/
def copyLoop (bufsize : Nat) : Nat → List UInt8 → List UInt8 → Option (List UInt8)
  | 0, _, _ => none
  | fuel + 1, remaining, written =>
    if remaining.drop bufsize = [] then
      some (written ++ remaining.take bufsize)
    else
      copyLoop bufsize fuel (remaining.drop bufsize) (written ++ remaining.take bufsize)

def ugCopyFile (env : BackupEnv) (destPath : FilePath) (content : List UInt8)
    (volume : Volume) : Volume :=
  if env.room volume destPath content.length = true ∧ volume.Creatable destPath then
    match copyLoop (min cfgUgBufSize content.length) (content.length + 1) content []
    with
    | some written => volume.store destPath written
    | none => volume
  else
    volume

/-- `ugRestoreDir`.  An entry that starts with a tilde names one to remove. -/
def ugRestoreDir (env : BackupEnv) (dest : FilePath) : DirEntries → Volume → Volume
  | .done, volume => volume
  | .file name content rest, volume =>
    ugRestoreDir env dest rest
      (if isRemoval name then
        volume.remove (dest ++ [name.tail])
      else
        ugCopyFile env (dest ++ [name]) content volume)
  | .dir name inside rest, volume =>
    ugRestoreDir env dest rest
      (if isRemoval name then
        volume.removeDirectory (dest ++ [name.tail])
      else
        match volume.mkdir (dest ++ [name]) with
        | none => volume
        | some made => ugRestoreDir env (dest ++ [name]) inside made)

def restoreDefaults (env : BackupEnv) (defaults : DirEntries)
    (drive : BackupDrive) : Backup Unit := do
  reinitFatVolume drive
  let volume ← getState fun state => state.volumes drive
  setVolume drive (ugRestoreDir env [] defaults volume)

/-- `"1234"` with its final zero. -/
def specialContent : List UInt8 := [49, 50, 51, 52, 0]

def backupInit (env : BackupEnv) (defaults : DirEntries) : Backup Unit := do
  traverseFileList env [] defaults
  let status ← checkBackupStatus
  match status with
  | .needRestoreFromBackup => do
      restoreDefaults env defaults .config
      let files ← getState fun state => state.gtBackupList
      fileSyncFile .backup .config files
  | .needRestoreDefault => do
      restoreDefaults env defaults .backup
      let volume ← getState fun state => state.volumes .backup
      assertThat (volume.Creatable backupSpecialFile)
      setVolume .backup (volume.store backupSpecialFile specialContent)
  | .nothing => pure ()

end

/-!
# The default copies

The list of files that the default copies stand for, and the directories that
restoring them makes.
-/

section

open Lib Lib.Checked Upgrade

variable {env : BackupEnv} {entries : DirEntries} {path other : FilePath}
  {volume : Volume}

namespace DirEntries

def files (path : FilePath) : DirEntries → List FilePath
  | .done => []
  | .file name _ rest =>
    if isRemoval name then
      rest.files path
    else
      (path ++ [name]) :: rest.files path
  | .dir name inside rest => inside.files (path ++ [name]) ++ rest.files path

def directories (path : FilePath) : DirEntries → List FilePath
  | .done => []
  | .file _ _ rest => rest.directories path
  | .dir name inside rest =>
    (path ++ [name]) :: (inside.directories (path ++ [name]) ++ rest.directories path)

def names : DirEntries → List FileName
  | .done => []
  | .file name _ rest => name :: rest.names
  | .dir name _ rest => name :: rest.names

/-- No name comes twice in a directory, and no directory is marked for removal. -/
def Proper : DirEntries → Prop
  | .done => True
  | .file name _ rest => name ∉ rest.names ∧ rest.Proper
  | .dir name inside rest =>
    name ∉ rest.names ∧ isRemoval name = false ∧ inside.Proper ∧ rest.Proper

end DirEntries

structure Managed (env : BackupEnv) (defaults : DirEntries) : Prop where
  count : (defaults.files []).length ≤ maxBackupCount
  short : ∀ file ∈ defaults.files [], 2 + pathLength file < backupPathSize
  filePaths : ∀ file ∈ defaults.files [], defaultLength + pathLength file < env.pathMax
  dirPaths : ∀ dir ∈ defaults.directories [], defaultLength + 1 + pathLength dir < env.pathMax
  proper : defaults.Proper
  special : backupSpecialFile ∉ defaults.directories []

theorem traverseFileList_returns {state : BackupState}
    (count : state.gtBackupList.length + (entries.files path).length ≤ maxBackupCount)
    (short : ∀ file ∈ entries.files path, pathLength file ≤ backupPathSize)
    (filePaths : ∀ file ∈ entries.files path, defaultLength + pathLength file < env.pathMax)
    (dirPaths :
      ∀ dir ∈ entries.directories path, defaultLength + 1 + pathLength dir < env.pathMax) :
    Returns (traverseFileList env path entries) state ()
      { state with
        gtBackupList := state.gtBackupList ++ entries.files path } := by
  induction entries generalizing path state with
  | done =>
    rw [DirEntries.files, List.append_nil]
    exact Returns.pure
  | file name content rest ih =>
    rw [traverseFileList]
    cases removal : isRemoval name with
    | true =>
      have listed : (DirEntries.file name content rest).files path = rest.files path :=
        if_pos removal
      rw [listed] at count short filePaths ⊢
      apply Returns.provided_not (by decide)
      exact ih count short filePaths dirPaths
    | false =>
      have listed : (DirEntries.file name content rest).files path =
          (path ++ [name]) :: rest.files path :=
        if_neg (by simp [removal])
      rw [listed] at count short filePaths ⊢
      rw [List.length_cons] at count
      have here : path ++ [name] ∈ (path ++ [name]) :: rest.files path := List.mem_cons_self
      let next : BackupState :=
        { state with
          gtBackupList := state.gtBackupList ++ [path ++ [name]] }
      have nextCount :
          next.gtBackupList.length + (rest.files path).length ≤ maxBackupCount := by
        dsimp only [next]
        rw [List.length_append, List.length_singleton]
        omega
      have added := ih nextCount (fun file member => short file (List.mem_cons_of_mem _ member))
        (fun file member => filePaths file (List.mem_cons_of_mem _ member))
        dirPaths
      dsimp only [next] at added
      rw [List.append_assoc] at added
      refine Returns.provided rfl ?_ added
      apply Returns.require (filePaths _ here)
      refine Returns.bind Returns.call (Returns.require ?_ ?_)
      · dsimp only
        omega
      · exact Returns.require (short _ here) Returns.call
  | dir name inside rest insideHypothesis restHypothesis =>
    rw [DirEntries.files, List.length_append] at count
    rw [DirEntries.files] at short filePaths ⊢
    rw [traverseFileList]
    let next : BackupState :=
      { state with
        gtBackupList := state.gtBackupList ++ inside.files (path ++ [name]) }
    have nextCount :
        next.gtBackupList.length + (rest.files path).length ≤ maxBackupCount := by
      dsimp only [next]
      rw [List.length_append]
      omega
    have insideCount :
        state.gtBackupList.length + (inside.files (path ++ [name])).length ≤ maxBackupCount := by
      omega
    have first := insideHypothesis insideCount
      (fun file member => short file (List.mem_append_left _ member))
      (fun file member => filePaths file (List.mem_append_left _ member))
      (fun dir member => dirPaths dir (List.mem_cons_of_mem _ (List.mem_append_left _ member)))
    have second := restHypothesis nextCount
      (fun file member => short file (List.mem_append_right _ member))
      (fun file member => filePaths file (List.mem_append_right _ member))
      (fun dir member => dirPaths dir (List.mem_cons_of_mem _ (List.mem_append_right _ member)))
    dsimp only [next] at second
    rw [List.append_assoc] at second
    apply Returns.require (dirPaths _ List.mem_cons_self)
    exact first.bind second

theorem copyLoop_eq {bufsize fuel : Nat} {remaining written : List UInt8}
    (moves : remaining ≠ [] → 0 < bufsize) (enough : remaining.length < fuel) :
    copyLoop bufsize fuel remaining written = some (written ++ remaining) := by
  induction fuel generalizing remaining written with
  | zero =>
    omega
  | succ fuel ih =>
    rw [copyLoop]
    split
    · rename_i last
      rw [List.take_of_length_le (List.drop_eq_nil_iff.mp last)]
    · rename_i more
      have some_ : remaining ≠ [] := by
        rintro rfl
        exact more List.drop_nil
      have positive := moves some_
      have shorter : (remaining.drop bufsize).length < fuel := by
        have length := List.length_pos_iff.mpr some_
        rw [List.length_drop]
        omega
      rw [ih (fun _ => positive) shorter, List.append_assoc, List.take_append_drop]

variable {content : List UInt8} {file : FilePath}

theorem ugCopyFile_eq :
    ugCopyFile env path content volume =
      if env.room volume path content.length = true ∧ volume.Creatable path then
        volume.store path content
      else
        volume := by
  have copied :
      copyLoop (min cfgUgBufSize content.length) (content.length + 1) content
          [] = some content := by
    apply copyLoop_eq _ (Nat.lt_succ_self _)
    intro some_
    exact Nat.lt_min.mpr ⟨by decide, List.length_pos_iff.mpr some_⟩
  rw [ugCopyFile, copied]

theorem ugCopyFile_isDirectory :
    (ugCopyFile env path content volume).IsDirectory other ↔ volume.IsDirectory other := by
  rw [ugCopyFile_eq]
  split
  · rename_i able
    exact able.2.isDirectory_store
  · rfl

theorem ugCopyFile_clean (clean : volume.Clean) : (ugCopyFile env path content volume).Clean := by
  rw [ugCopyFile_eq]
  split
  · exact clean.update (by nofun)
  · exact clean

theorem ugCopyFile_of_ne (different : other ≠ path) :
    ugCopyFile env path content volume other = volume other := by
  rw [ugCopyFile_eq]
  split
  · exact Function.update_of_ne different _ volume
  · rfl

def Vacant (volume : Volume) (path : FilePath) (names : List FileName) : Prop :=
  ∀ name ∈ names, ∀ below, volume (path ++ name :: below) = none

theorem remove_none (vacant : volume other = none) : volume.remove path other = none := by
  rw [Volume.remove]
  split
  · by_cases same : other = path
    · rw [same, Function.update_self]
    · rw [Function.update_of_ne same]
      exact vacant
  · exact vacant

structure Restored (before after : Volume) (path : FilePath)
    (entries : DirEntries) : Prop where
  clean : after.Clean
  directories :
    ∀ other, after.IsDirectory other ↔ before.IsDirectory other ∨ other ∈ entries.directories path
  frame :
    ∀ other, before other = none →
      after other = none ∨ ∃ name ∈ entries.names, ∃ below, other = path ++ name :: below

theorem ugRestoreDir_restored (directory : volume.IsDirectory path)
    (proper : entries.Proper) (vacant : Vacant volume path entries.names) (clean : volume.Clean) :
    Restored volume (ugRestoreDir env path entries volume) path entries := by
  induction entries generalizing path volume with
  | done =>
    refine ⟨clean, fun other => ?_, fun other before => Or.inl before⟩
    rw [DirEntries.directories]
    exact (or_iff_left List.not_mem_nil).symm
  | file name content rest ih =>
    obtain ⟨fresh, restProper⟩ := proper
    rw [ugRestoreDir]
    -- An entry for a file makes no directory.
    obtain ⟨next, nextEq⟩ : ∃ next, next =
        if isRemoval name then
          volume.remove (path ++ [name.tail])
        else
          ugCopyFile env (path ++ [name]) content volume := ⟨_, rfl⟩
    have directories (other : FilePath) :
        next.IsDirectory other ↔ volume.IsDirectory other := by
      rw [nextEq]
      split
      · exact Volume.isDirectory_remove
      · exact ugCopyFile_isDirectory
    have nextClean : next.Clean := by
      rw [nextEq]
      split
      · exact clean.remove
      · exact ugCopyFile_clean clean
    have nextNone (other : FilePath) (different : other ≠ path ++ [name])
        (before : volume other = none) : next other = none := by
      rw [nextEq]
      split
      · exact remove_none before
      · rw [ugCopyFile_of_ne different]
        exact before
    have nextVacant : Vacant next path rest.names := by
      intro other member below
      apply nextNone
      · intro same
        have names := List.append_cancel_left same
        rw [(List.cons.inj names).1] at member
        exact fresh member
      · exact vacant other (List.mem_cons_of_mem name member) below
    have restored := ih ((directories path).mpr directory) restProper nextVacant nextClean
    rw [← nextEq]
    refine ⟨restored.clean, fun other => ?_, fun other before => ?_⟩
    · rw [restored.directories, directories, DirEntries.directories]
    · by_cases here : other = path ++ [name]
      · exact Or.inr ⟨name, List.mem_cons_self, [], here⟩
      · rcases restored.frame other (nextNone other here before) with
          none_ | ⟨below, member, place⟩
        · exact Or.inl none_
        · exact Or.inr ⟨below, List.mem_cons_of_mem name member, place⟩
  | dir name inside rest insideHypothesis restHypothesis =>
    obtain ⟨fresh, kept, insideProper, restProper⟩ := proper
    have here : volume (path ++ [name]) = none := vacant name List.mem_cons_self []
    let made : Volume := Function.update volume (path ++ [name]) (some .directory)
    have makes : volume.mkdir (path ++ [name]) = some made := by
      apply if_pos
      refine ⟨by simp, ?_, here⟩
      rw [List.dropLast_concat]
      exact directory
    have notDirectory : ¬ volume.IsDirectory (path ++ [name]) := by
      rintro (root | found)
      · simp at root
      · rw [here] at found
        cases found
    have madeDirectories (other : FilePath) :
        made.IsDirectory other ↔ volume.IsDirectory other ∨ other = path ++ [name] := by
      by_cases same : other = path ++ [name]
      · refine iff_of_true (Or.inr ?_) (Or.inr same)
        rw [same]
        exact Function.update_self _ _ _
      · rw [or_iff_left same, Volume.IsDirectory, Volume.IsDirectory]
        rw [show made other = volume other from
          Function.update_of_ne same _ _]
    have madeNone (other : FilePath) (different : other ≠ path ++ [name])
        (before : volume other = none) : made other = none :=
      (Function.update_of_ne different _ _).trans before
    have insideVacant : Vacant made (path ++ [name]) inside.names := by
      intro other _ below
      rw [List.append_assoc]
      apply madeNone
      · intro same
        have names := List.append_cancel_left same
        cases (List.cons.inj names).2
      · exact vacant name List.mem_cons_self (other :: below)
    have first := insideHypothesis ((madeDirectories _).mpr (Or.inr rfl))
      insideProper insideVacant (clean.update (by decide))
    rw [ugRestoreDir, if_neg (by simp [kept]), makes]
    dsimp only
    have restVacant :
        Vacant (ugRestoreDir env (path ++ [name]) inside made) path rest.names := by
      intro other member below
      have different : other ≠ name := ne_of_mem_of_not_mem member fresh
      have before : made (path ++ other :: below) = none := by
        apply madeNone
        · intro same
          exact different (List.cons.inj (List.append_cancel_left same)).1
        · exact vacant other (List.mem_cons_of_mem name member) below
      rcases first.frame _ before with none_ | ⟨_, _, _, place⟩
      · exact none_
      · rw [List.append_assoc] at place
        exact absurd (List.cons.inj (List.append_cancel_left place)).1 different
    have directoryStill :
        (ugRestoreDir env (path ++ [name]) inside made).IsDirectory path := by
      rw [first.directories, madeDirectories]
      exact Or.inl (Or.inl directory)
    have second := restHypothesis directoryStill restProper restVacant first.clean
    refine ⟨second.clean, fun other => ?_, fun other before => ?_⟩
    · rw [second.directories, first.directories, madeDirectories,
        DirEntries.directories, List.mem_cons, List.mem_append]
      tauto
    · by_cases same : other = path ++ [name]
      · exact Or.inr ⟨name, List.mem_cons_self, [], same⟩
      · rcases first.frame other (madeNone other same before) with
          none_ | ⟨child, _, below, place⟩
        · rcases second.frame other none_ with
            stays | ⟨sibling, member, below, place⟩
          · exact Or.inl stays
          · exact Or.inr ⟨sibling, List.mem_cons_of_mem name member, below, place⟩
        · rw [List.append_assoc] at place
          exact Or.inr ⟨name, List.mem_cons_self, child :: below, place⟩

theorem files_below (member : file ∈ entries.files path) :
    ∃ name ∈ entries.names, ∃ below, file = path ++ name :: below := by
  induction entries generalizing path with
  | done =>
    cases member
  | file name content rest ih =>
    rw [DirEntries.files] at member
    have later (behind : file ∈ rest.files path) :
        ∃ other ∈ name :: rest.names, ∃ below, file = path ++ other :: below := by
      obtain ⟨other, inside, below, place⟩ := ih behind
      exact ⟨other, List.mem_cons_of_mem name inside, below, place⟩
    split at member
    · exact later member
    · rcases List.mem_cons.mp member with here | behind
      · exact ⟨name, List.mem_cons_self, [], here⟩
      · exact later behind
  | dir name inside rest insideHypothesis restHypothesis =>
    rw [DirEntries.files] at member
    rcases List.mem_append.mp member with within | behind
    · obtain ⟨child, _, below, place⟩ := insideHypothesis within
      refine ⟨name, List.mem_cons_self, child :: below, ?_⟩
      rw [place, List.append_assoc]
      rfl
    · obtain ⟨other, found, below, place⟩ := restHypothesis behind
      exact ⟨other, List.mem_cons_of_mem name found, below, place⟩

theorem directories_below {dir : FilePath} (member : dir ∈ entries.directories path) :
    ∃ name ∈ entries.names, ∃ below, dir = path ++ name :: below := by
  induction entries generalizing path with
  | done =>
    cases member
  | file name content rest ih =>
    obtain ⟨other, found, below, place⟩ := ih member
    exact ⟨other, List.mem_cons_of_mem name found, below, place⟩
  | dir name inside rest insideHypothesis restHypothesis =>
    rw [DirEntries.directories, List.mem_cons, List.mem_append] at member
    rcases member with here | within | behind
    · exact ⟨name, List.mem_cons_self, [], here⟩
    · obtain ⟨child, _, below, place⟩ := insideHypothesis within
      refine ⟨name, List.mem_cons_self, child :: below, ?_⟩
      rw [place, List.append_assoc]
      rfl
    · obtain ⟨other, found, below, place⟩ := restHypothesis behind
      exact ⟨other, List.mem_cons_of_mem name found, below, place⟩

theorem files_parent (member : file ∈ entries.files path) :
    file ≠ [] ∧ (file.dropLast = path ∨ file.dropLast ∈ entries.directories path) := by
  induction entries generalizing path with
  | done =>
    cases member
  | file name content rest ih =>
    rw [DirEntries.files] at member
    split at member
    · exact ih member
    · rcases List.mem_cons.mp member with rfl | behind
      · exact ⟨by simp, Or.inl List.dropLast_concat⟩
      · exact ih behind
  | dir name inside rest insideHypothesis restHypothesis =>
    rw [DirEntries.files] at member
    rw [DirEntries.directories, List.mem_cons, List.mem_append]
    rcases List.mem_append.mp member with within | behind
    · obtain ⟨notRoot, parent⟩ := insideHypothesis within
      exact ⟨notRoot, by tauto⟩
    · obtain ⟨notRoot, parent⟩ := restHypothesis behind
      exact ⟨notRoot, by tauto⟩

theorem below_injective {left right : FileName} {first second : FilePath}
    (same : path ++ left :: first = path ++ right :: second) :
    left = right :=
  (List.cons.inj (List.append_cancel_left same)).1

theorem files_not_directories (proper : entries.Proper) (member : file ∈ entries.files path) :
    file ∉ entries.directories path := by
  induction entries generalizing path with
  | done =>
    cases member
  | file name content rest ih =>
    obtain ⟨fresh, restProper⟩ := proper
    rw [DirEntries.files] at member
    split at member
    · exact ih restProper member
    · rcases List.mem_cons.mp member with rfl | behind
      · intro directory
        have behind : path ++ [name] ∈ rest.directories path := directory
        obtain ⟨other, found, below, place⟩ := directories_below behind
        rw [← below_injective place] at found
        exact fresh found
      · exact ih restProper behind
  | dir name inside rest insideHypothesis restHypothesis =>
    obtain ⟨fresh, _, insideProper, restProper⟩ := proper
    rw [DirEntries.files] at member
    rw [DirEntries.directories, List.mem_cons, List.mem_append]
    rcases List.mem_append.mp member with within | behind
    · obtain ⟨child, _, below, place⟩ := files_below within
      rw [List.append_assoc] at place
      rintro (here | inner | later)
      · rw [place] at here
        cases (List.cons.inj (List.append_cancel_left here)).2
      · exact insideHypothesis insideProper within inner
      · obtain ⟨other, found, _, place'⟩ := directories_below later
        rw [← below_injective (place.symm.trans place')] at found
        exact fresh found
    · obtain ⟨sibling, found, below, place⟩ := files_below behind
      rintro (here | inner | later)
      · rw [below_injective (place.symm.trans here)] at found
        exact fresh found
      · obtain ⟨_, _, _, place'⟩ := directories_below inner
        rw [List.append_assoc] at place'
        rw [below_injective (place.symm.trans place')] at found
        exact fresh found
      · exact restHypothesis restProper behind later

end

end IteSdk.Ctrlboard
