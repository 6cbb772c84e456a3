import Mathlib.Data.List.Basic

/-!
# Mounting the partitions of a disk

`FatMount` and `FatUnmount` over the table of drives.  The file system is a part of the
state as far as it knows which volumes there are; what its calls return is given.
-/

namespace IteSdk.ItpFat

def itpMaxDrive : Nat := 26

def itpMaxPartition : Nat := 10

def itpDeviceFat : Int := 0x200

def itpDiskNand : Int := 5

def itpDiskNor : Int := 6

def errNotFormatted : Int := 2

def errMediaTooSmall : Int := 25

def errMediaTooLarge : Int := 26

/-- `ITPDriveStatus`, without what only the mounting of a disk writes. -/
structure ITPDriveStatus where
  disk : Int
  device : Int
  avail : Bool
  name : List (BitVec 8)
  deriving DecidableEq

/-- A volume that is registered with the file system under a number. -/
structure FatVolume where
  drvnumber : Nat
  disk : Int
  partition : Nat
  deriving DecidableEq

/-- `drivers` tells which disks have a driver, and `written` what has been sent to the
readers of `ITP_DEVICE_DRIVE`. -/
structure FatDrives where
  table : List ITPDriveStatus
  volumes : List FatVolume
  drivers : Int → Bool
  written : List ITPDriveStatus

/-- The table after `DriveInit`. -/
def FatDrives.init : FatDrives :=
  { table := List.replicate itpMaxDrive ⟨-1, -1, false, List.replicate 4 0⟩
    volumes := []
    drivers := fun _ => false
    written := [] }

/-- What the file system answers for one partition.  A volume that is not formatted is
registered like one that is; `registers` is whether one with another error is. -/
structure PartitionAnswers where
  secnum : BitVec 32
  initVolume : Int
  registers : Bool
  formatFat16 : Int
  formatOther : Int
  delVolume : Int

structure UnmountAnswers where
  delVolume : Nat → Int
  releaseDriver : Int

/-- What the file system answers in `FatMount`, and in the `FatUnmount` that it may
call. -/
structure MountAnswers where
  createDriver : Int
  getPartition : Int
  partition : Nat → PartitionAnswers
  unmount : UnmountAnswers

/-- `f_initvolumepartition` has failed, and not because nothing is formatted. -/
def PartitionAnswers.fails (answers : PartitionAnswers) : Bool :=
  answers.initVolume ≠ 0 ∧ answers.initVolume ≠ errNotFormatted

namespace FatDrives

/-- `f_initvolumepartition`. -/
def initVolumePartition (drives : FatDrives) (answers : PartitionAnswers)
    (volume : FatVolume) : FatDrives :=
  if answers.fails ∧ answers.registers = false then drives
  else { drives with volumes := drives.volumes ++ [volume] }

/-- `f_delvolume`, which returns `ret`. -/
def delVolume (drives : FatDrives) (ret : Int) (drvnumber : Nat) : FatDrives :=
  if ret = 0 then
    { drives with
      volumes := drives.volumes.filter fun volume => volume.drvnumber ≠ drvnumber }
  else drives

/-- `driveStatus` is the pointer that the search has ended with, null at first. -/
def mountDrive (drives : FatDrives) (driveStatus : Option Nat) (disk : Int) (j : Nat) : FatDrives :=
  match driveStatus.bind fun index => (drives.table[index]?).map (index, ·) with
  | some (index, entry) =>
    let mounted : ITPDriveStatus :=
      { disk := disk
        device := itpDeviceFat
        avail := true
        name := ((entry.name.set 0 (BitVec.ofNat 8 (0x41 + j))).set 1 0x3A).set 2 0x2F }
    { drives with
      table := drives.table.set index mounted
      written := drives.written ++ [mounted] }
  | none => drives

end FatDrives

def fatFormat (answers : PartitionAnswers) : Int :=
  if answers.formatFat16 = errMediaTooSmall ∨ answers.formatFat16 = errMediaTooLarge then
    answers.formatOther
  else 0

/-- The search for a drive from `j` on: the index and the pointer it ends with. -/
def findDrive : List ITPDriveStatus → Nat → Option Nat → Nat × Option Nat
  | [], j, driveStatus => (j, driveStatus)
  | entry :: rest, j, _ =>
    if entry.avail then findDrive rest (j + 1) (some j) else (j, some j)

/-- The variables of the loop in `FatMount`. -/
structure Mounting where
  drives : FatDrives
  j : Nat
  driveStatus : Option Nat

/-- `ret` when the drive is about to be recorded. -/
def PartitionAnswers.ret (answers : PartitionAnswers) (disk : Int) : Int :=
  if disk = itpDiskNand ∧ answers.initVolume = errNotFormatted then fatFormat answers
  else answers.initVolume

/-- A turn of the loop; it returns from the function with a code. -/
def mountPartition (disk : Int) (force : Bool) (i : Nat) (answers : PartitionAnswers)
    (mounting : Mounting) : Except (Int × FatDrives) Mounting :=
  if answers.secnum = 0 then .ok mounting
  else
    let (j, driveStatus) :=
      findDrive (mounting.drives.table.drop mounting.j) mounting.j mounting.driveStatus
    let drives := mounting.drives.initVolumePartition answers ⟨j, disk, i⟩
    let drives := if answers.fails then drives.delVolume answers.delVolume j else drives
    if answers.fails ∧ force = false then .error (answers.initVolume, drives)
    else if answers.ret disk = errNotFormatted ∧ force = false then
      .ok ⟨drives.delVolume answers.delVolume j, j, driveStatus⟩
    else .ok ⟨drives.mountDrive driveStatus disk j, j, driveStatus⟩

def mountPartitions (disk : Int) (force : Bool) (partition : Nat → PartitionAnswers) :
    List Nat → Mounting → Except (Int × FatDrives) Mounting
  | [], mounting => .ok mounting
  | i :: rest, mounting =>
    match mountPartition disk force i (partition i) mounting with
    | .error returned => .error returned
    | .ok mounting => mountPartitions disk force partition rest mounting

/-- A turn of the loop in `FatUnmount`, with `ret1`. -/
def unmountDrive (answers : UnmountAnswers) (disk : Int) (state : Int × FatDrives)
    (i : Nat) : Int × FatDrives :=
  match state.2.table[i]? with
  | some entry =>
    if entry.avail ∧ entry.disk = disk ∧ entry.device = itpDeviceFat then
      let ret2 := answers.delVolume i
      let drives := state.2.delVolume ret2 i
      let unmounted := { entry with avail := false }
      (if ret2 = 0 then 0 else if state.1 ≤ 0 then ret2 else state.1,
        { drives with
          table := drives.table.set i unmounted
          written := drives.written ++ [unmounted] })
    else state
  | none => state

def fatUnmount (answers : UnmountAnswers) (disk : Int) (drives : FatDrives) : Int × FatDrives :=
  let (ret1, drives) := (List.range itpMaxDrive).foldl (unmountDrive answers disk) (-1, drives)
  let drives := { drives with drivers := fun other => drives.drivers other && other ≠ disk }
  (if 0 < answers.releaseDriver ∧ ret1 ≤ 0 then answers.releaseDriver else ret1, drives)

/-- The disk is mounted once more, when the third partition of the NOR has been found to
be missing and the table of partitions has been restored. -/
def MountAnswers.remounts (answers : MountAnswers) (norPartition3 : Bool) (disk : Int) : Bool :=
  norPartition3 ∧ disk = itpDiskNor ∧ (answers.partition 3).secnum = 0

/-- `FatMount`, which may call itself: one list of answers for each of the calls.  When
they are used up the last call goes on, and the state is the one it begins with. -/
def fatMount (norPartition3 : Bool) (disk : Int) (force : Bool) :
    List MountAnswers → FatDrives → Int × FatDrives
  | [], drives => (0, drives)
  | answers :: later, drives =>
    if drives.drivers disk = false ∧ answers.createDriver ≠ 0 then
      (answers.createDriver, drives)
    else
      let drives := { drives with drivers := fun other => drives.drivers other || other = disk }
      if answers.getPartition ≠ 0 then (answers.getPartition, drives)
      else
        match
          mountPartitions disk force answers.partition (List.range itpMaxPartition)
            ⟨drives, 0, none⟩
        with
        | .error returned => returned
        | .ok mounting =>
          if answers.remounts norPartition3 disk then
            let unmounted := (fatUnmount answers.unmount disk mounting.drives).2
            (0, (fatMount norPartition3 disk force later unmounted).2)
          else (0, mounting.drives)

inductive FatCall
  | mount (disk : Int) (force : Bool) (answers : List MountAnswers)
  | unmount (disk : Int) (answers : UnmountAnswers)

def fatCall (norPartition3 : Bool) (drives : FatDrives) : FatCall → FatDrives
  | .mount disk force answers => (fatMount norPartition3 disk force answers drives).2
  | .unmount disk answers => (fatUnmount answers disk drives).2

end IteSdk.ItpFat
