import IteSdk.Lib.Transition
import Mathlib.Data.BitVec
import Mathlib.Logic.Function.Iterate

/-!
# The storages of the control board

`StorageCheck` looks at the table of drives and reports one storage that was inserted or
removed.  It remembers the drive that it has reported by its place in the table, and the
drive at this place may be another one the next time.
-/

namespace IteSdk.Ctrlboard

open Lib

def itpMaxDrive : Nat := 26

/-- `ITPDriveStatus`; the disk types are numbered as in the enumeration `ITPDisk`. -/
structure ItpDriveStatus where
  disk : Nat
  avail : Bool
  name : List UInt8

/-- The table that `ITP_IOCTL_GET_TABLE` returns, by the places of its drives. -/
abbrev DriveTable := Nat → ItpDriveStatus

inductive StorageType
  | usb
  | sd
  | internal
  deriving DecidableEq

inductive StorageAction
  | unknown
  | inserted (kind : StorageType)
  | removed (kind : StorageType)
  | usbDeviceInserted
  | usbDeviceRemoved
  deriving DecidableEq

/-- `storageTable`, `storageCurrType` and `storageInUsbDeviceMode`. -/
structure Storage where
  table : StorageType → Option Nat
  currType : Option StorageType
  inUsbDeviceMode : Bool

/-- The storage that a disk is: `ITP_DISK_SD0` to `ITP_DISK_SD1`, or `ITP_DISK_MSC00` to
`ITP_DISK_MSC17`. -/
def kindOf (disk : Nat) : Option StorageType :=
  if disk ≤ 1 then some .sd else if 7 ≤ disk ∧ disk ≤ 22 then some .usb else none

/-- The removable storage that takes over from a removed one. -/
def StorageType.other : StorageType → StorageType
  | .sd => .usb
  | _ => .sd

def isInternal (bootStorageType : Nat) (publicDrive : UInt8) (drive : ItpDriveStatus) : Bool :=
  drive.disk == bootStorageType && drive.name.head? == some publicDrive && drive.avail

def storageInit (bootStorageType : Nat) (publicDrive : UInt8) (drives : DriveTable) : Storage :=
  match (List.range itpMaxDrive).find? fun i =>
    isInternal bootStorageType publicDrive (drives i) with
  | some i => ⟨Function.update (fun _ => none) .internal (some i), some .internal, false⟩
  | none => ⟨fun _ => none, none, false⟩

def Storage.insert (storage : Storage) (kind : StorageType) (i : Nat) : Storage :=
  { storage with
    table := Function.update storage.table kind (some i)
    currType :=
      if storage.currType = none ∨ storage.currType = some .internal then some kind
      else storage.currType }

def Storage.remove (storage : Storage) (kind : StorageType) : Storage :=
  { storage with
    table := Function.update storage.table kind none
    currType :=
      if storage.currType = some kind then
        if (storage.table kind.other).isSome then some kind.other else some .internal
      else storage.currType }

/-- What `StorageCheck` does about one drive of the table. -/
def checkDrive (storage : Storage) (drives : DriveTable) (i : Nat) :
    Option (Storage × StorageAction) :=
  match kindOf (drives i).disk with
  | none => none
  | some kind =>
    if (drives i).avail = true ∧ storage.table kind = none then
      some (storage.insert kind i, .inserted kind)
    else if (drives i).avail = false ∧ storage.table kind = some i then
      some (storage.remove kind, .removed kind)
    else none

/-- `usbConnected` is the answer of the USB device driver, which is false where it is not
configured. -/
def storageCheck (usbConnected : Bool) (storage : Storage) (drives : DriveTable) :
    Storage × StorageAction :=
  if storage.inUsbDeviceMode then
    if usbConnected then (storage, .unknown)
    else ({ storage with inUsbDeviceMode := false }, .usbDeviceRemoved)
  else if usbConnected then ({ storage with inUsbDeviceMode := true }, .usbDeviceInserted)
  else
    ((List.range itpMaxDrive).findSome? (checkDrive storage drives)).getD (storage, .unknown)

/-! ## What the storages should be -/

def DriveTable.Available (drives : DriveTable) (kind : StorageType) (i : Nat) : Prop :=
  i < itpMaxDrive ∧ kindOf (drives i).disk = some kind ∧ (drives i).avail = true

/-- A removable storage is remembered exactly if the table has one, and is one of the
table's. -/
def Tracks (storage : Storage) (drives : DriveTable) : Prop :=
  ∀ kind, kind ≠ .internal →
    (∀ i, storage.table kind = some i → drives.Available kind i) ∧
      (storage.table kind = none → ∀ i, ¬ drives.Available kind i)

/-- The storages at the last call, the table that it saw, and what the calls returned. -/
structure StorageRun where
  storage : Storage
  drives : DriveTable
  actions : List StorageAction

def StorageRun.check (run : StorageRun) (drives : DriveTable) : StorageRun :=
  let checked := storageCheck false run.storage drives
  ⟨checked.1, drives, run.actions ++ [checked.2]⟩

def reports (kind : StorageType) (actions : List StorageAction) : List Bool :=
  actions.filterMap fun action =>
    if action = .inserted kind then some true
    else if action = .removed kind then some false
    else none

/-- Insertions and removals take turns, beginning with an insertion. -/
def Alternate (reports : List Bool) : Prop :=
  reports = (List.range reports.length).map fun i => i % 2 == 0

/-- The storages behind some calls that all see the same table. -/
def settle (drives : DriveTable) (storage : Storage) (count : Nat) : Storage :=
  (fun storage => (storageCheck false storage drives).1)^[count] storage

/-- When the table stops changing, the calls come to an end, with the storages that the
table has. -/
def Converges (storage : Storage) (drives : DriveTable) : Prop :=
  ∃ count, (storageCheck false (settle drives storage count) drives).2 = .unknown ∧
    Tracks (settle drives storage count) drives

/-- The drives that are remembered are still of their kinds. -/
def KindKept (storage : Storage) (drives : DriveTable) : Prop :=
  ∀ kind, kind ≠ .internal → ∀ i, storage.table kind = some i → kindOf (drives i).disk = some kind

/-- Drives are remembered by places of the table, and there is no USB device mode. -/
structure Storage.Sane (storage : Storage) : Prop where
  mode : storage.inUsbDeviceMode = false
  inside : ∀ kind, kind ≠ .internal → ∀ i, storage.table kind = some i → i < itpMaxDrive

structure StorageInv (run : StorageRun) : Prop where
  sane : run.storage.Sane
  alternate : ∀ kind, kind ≠ .internal → Alternate (reports kind run.actions)
  phase :
    ∀ kind, kind ≠ .internal →
      (run.storage.table kind).isSome = ((reports kind run.actions).length % 2 == 1)

section Calls

variable {storage : Storage} {drives : DriveTable} {kind : StorageType} {run : StorageRun}

theorem kindOf_ne {disk : Nat} (is : kindOf disk = some kind) : kind ≠ .internal := by
  rintro rfl
  unfold kindOf at is
  split_ifs at is <;> cases is

/-- A call that reports the drive at `i`: what is remembered of its kind is `now`. -/
structure Changed (storage : Storage) (drives : DriveTable) (result : Storage × StorageAction)
    (kind : StorageType) (i : Nat) (now : Option Nat) : Prop where
  inside : i < itpMaxDrive
  is : kindOf (drives i).disk = some kind
  turned :
    now = some i ∧ (drives i).avail = true ∧ storage.table kind = none ∨
      now = none ∧ (drives i).avail = false ∧ storage.table kind = some i
  table : result.1.table = Function.update storage.table kind now
  mode : result.1.inUsbDeviceMode = storage.inUsbDeviceMode
  reported : ∀ other, reports other [result.2] = if other = kind then [now.isSome] else []

theorem storageCheck_cases (drives : DriveTable) (mode : storage.inUsbDeviceMode = false) :
    (storageCheck false storage drives = (storage, .unknown) ∧
        ∀ i < itpMaxDrive, checkDrive storage drives i = none) ∨
      ∃ kind i now, Changed storage drives (storageCheck false storage drives) kind i now := by
  have call : storageCheck false storage drives =
      ((List.range itpMaxDrive).findSome? (checkDrive storage drives)).getD
        (storage, .unknown) := by
    simp [storageCheck, mode]
  cases found : (List.range itpMaxDrive).findSome? (checkDrive storage drives) with
  | none =>
    rw [found] at call
    exact .inl ⟨call, fun i inside =>
      List.findSome?_eq_none_iff.mp found i (List.mem_range.mpr inside)⟩
  | some result =>
    rw [found, Option.getD_some] at call
    obtain ⟨i, member, drive⟩ := List.exists_of_findSome?_eq_some found
    rw [checkDrive] at drive
    rw [call]
    split at drive
    · cases drive
    · rename_i kind is
      have eqComm (other : StorageType) : kind = other ↔ other = kind := eq_comm
      split_ifs at drive with available gone
      · obtain rfl := Option.some.inj drive
        refine .inr ⟨kind, i, some i, List.mem_range.mp member, is, .inl ⟨rfl, available⟩, rfl, rfl,
          fun other => ?_⟩
        by_cases same : other = kind <;> simp [reports, same, eqComm]
      · obtain rfl := Option.some.inj drive
        refine .inr ⟨kind, i, none, List.mem_range.mp member, is, .inr ⟨rfl, gone⟩, rfl, rfl,
          fun other => ?_⟩
        by_cases same : other = kind <;> simp [reports, same, eqComm]

theorem Storage.Sane.check (sane : storage.Sane) (drives : DriveTable) :
    (storageCheck false storage drives).1.Sane := by
  obtain ⟨call, -⟩ | ⟨kind, i, now, change⟩ := storageCheck_cases drives sane.mode
  · rw [call]
    exact sane
  · refine ⟨change.mode.trans sane.mode, fun other notInternal => ?_⟩
    rw [change.table]
    by_cases same : other = kind
    · subst same
      rw [Function.update_self]
      rintro place rfl
      rcases change.turned with ⟨here, -⟩ | ⟨here, -⟩
      · exact Option.some.inj here ▸ change.inside
      · cases here
    · rw [Function.update_of_ne same]
      exact sane.inside other notInternal

theorem StorageInv.check (inv : StorageInv run) (drives : DriveTable) :
    StorageInv (run.check drives) := by
  have more (kind : StorageType) :
      reports kind (run.check drives).actions =
        reports kind run.actions ++ reports kind [(storageCheck false run.storage drives).2] :=
    List.filterMap_append
  obtain ⟨call, -⟩ | ⟨kind, i, now, change⟩ := storageCheck_cases drives inv.sane.mode
  · have same : (run.check drives).storage = run.storage := congrArg Prod.fst call
    have none_ (kind : StorageType) :
        reports kind (run.check drives).actions = reports kind run.actions := by
      rw [more, call]
      exact List.append_nil _
    refine ⟨inv.sane.check drives, ?_, ?_⟩
    all_goals simp only [same, none_]
    · exact inv.alternate
    · exact inv.phase
  · have table : (run.check drives).storage.table = _ := change.table
    have odd := inv.phase kind (kindOf_ne change.is)
    have flips : now.isSome = ((reports kind run.actions).length % 2 == 0) := by
      rcases change.turned with ⟨rfl, -, held⟩ | ⟨rfl, -, held⟩ <;> rw [held] at odd
      all_goals
        rcases Nat.mod_two_eq_zero_or_one (reports kind run.actions).length with even | even
        all_goals simp [even] at odd ⊢
    refine ⟨inv.sane.check drives, fun other notInternal => ?_, fun other notInternal => ?_⟩
    all_goals by_cases same : other = kind
    · subst same
      rw [more, change.reported, if_pos rfl, flips, Alternate, List.length_append,
        List.length_singleton, List.range_succ, List.map_append,
        ← inv.alternate other notInternal]
      rfl
    · rw [more, change.reported, if_neg same, List.append_nil]
      exact inv.alternate other notInternal
    · subst same
      rw [more, change.reported, if_pos rfl, table, Function.update_self, flips,
        List.length_append, List.length_singleton]
      rcases Nat.mod_two_eq_zero_or_one (reports other run.actions).length with even | even
      all_goals simp [Nat.add_mod, even]
    · rw [more, change.reported, if_neg same, List.append_nil, table, Function.update_of_ne same]
      exact inv.phase other notInternal

/-- A call keeps the drives of their kinds, and does not set another one right. -/
theorem kindKept_check_iff (drives : DriveTable) (mode : storage.inUsbDeviceMode = false) :
    KindKept (storageCheck false storage drives).1 drives ↔ KindKept storage drives := by
  obtain ⟨call, -⟩ | ⟨kind, i, now, change⟩ := storageCheck_cases drives mode
  · rw [call]
  · simp only [KindKept, change.table]
    refine forall_congr' fun other => forall_congr' fun notInternal => ?_
    by_cases same : other = kind
    · subst same
      have is (place : Nat) (here : some i = some place) :
          kindOf (drives place).disk = some other :=
        Option.some.inj here ▸ change.is
      rw [Function.update_self]
      rcases change.turned with ⟨rfl, -, held⟩ | ⟨rfl, -, held⟩ <;> rw [held]
      · exact ⟨fun _ _ none_ => (by cases none_), fun _ => is⟩
      · exact ⟨fun _ => is, fun _ _ none_ => (by cases none_)⟩
    · rw [Function.update_of_ne same]

theorem Storage.Sane.settle (sane : storage.Sane) (drives : DriveTable) (count : Nat) :
    (settle drives storage count).Sane ∧
      (KindKept (settle drives storage count) drives ↔ KindKept storage drives) := by
  induction count with
  | zero => exact ⟨sane, Iff.rfl⟩
  | succ count ih =>
    rw [Ctrlboard.settle, Function.iterate_succ_apply']
    exact ⟨ih.1.check drives, (kindKept_check_iff drives ih.1.mode).trans ih.2⟩

/-- The reports that are left to come about a kind, at most. -/
def reportsLeft (storage : Storage) (drives : DriveTable) (kind : StorageType) : Nat :=
  match storage.table kind with
  | none => 1
  | some i => if (drives i).avail then 0 else 2

theorem exists_unknown (drives : DriveTable) (sane : storage.Sane) :
    ∃ count, (storageCheck false (settle drives storage count) drives).2 = .unknown := by
  generalize bound : reportsLeft storage drives .sd + reportsLeft storage drives .usb = left
  induction left using Nat.strongRecOn generalizing storage with
  | _ left ih =>
    obtain ⟨call, -⟩ | ⟨kind, i, now, change⟩ := storageCheck_cases drives sane.mode
    · exact ⟨0, congrArg Prod.snd call⟩
    · have others (other : StorageType) (apart : other ≠ kind) :
          reportsLeft (storageCheck false storage drives).1 drives other =
            reportsLeft storage drives other := by
        rw [reportsLeft, change.table, Function.update_of_ne apart, reportsLeft]
      have fewer : reportsLeft (storageCheck false storage drives).1 drives kind <
          reportsLeft storage drives kind := by
        rw [reportsLeft, change.table, Function.update_self, reportsLeft]
        rcases change.turned with ⟨rfl, avail, held⟩ | ⟨rfl, avail, held⟩ <;> simp [held, avail]
      have less : reportsLeft (storageCheck false storage drives).1 drives .sd +
          reportsLeft (storageCheck false storage drives).1 drives .usb < left := by
        cases kind with
        | usb =>
          have same := others .sd (by decide)
          omega
        | sd =>
          have same := others .usb (by decide)
          omega
        | internal => exact absurd rfl (kindOf_ne change.is)
      obtain ⟨count, unknown⟩ := ih _ less (sane.check drives) rfl
      exact ⟨count + 1, unknown⟩

theorem tracks_of_unknown (sane : storage.Sane) (kept : KindKept storage drives)
    (unknown : (storageCheck false storage drives).2 = .unknown) : Tracks storage drives := by
  obtain ⟨-, quiet⟩ | ⟨kind, i, now, change⟩ := storageCheck_cases drives sane.mode
  · intro kind notInternal
    constructor
    · intro i held
      have is := kept kind notInternal i held
      have inside := sane.inside kind notInternal i held
      have turn := quiet i inside
      refine ⟨inside, is, ?_⟩
      by_contra gone
      rw [Bool.not_eq_true] at gone
      simp [checkDrive, is, gone, held] at turn
    · rintro free i ⟨inside, is, avail⟩
      have turn := quiet i inside
      simp [checkDrive, is, avail, free] at turn
  · have reported := change.reported kind
    rw [unknown, if_pos rfl] at reported
    cases reported

theorem converges_iff (sane : storage.Sane) :
    Converges storage drives ↔ KindKept storage drives := by
  constructor
  · rintro ⟨count, -, tracks⟩
    refine ((sane.settle drives count).2).mp fun kind notInternal i held => ?_
    exact ((tracks kind notInternal).1 i held).2.1
  · intro kept
    obtain ⟨count, unknown⟩ := exists_unknown drives sane
    obtain ⟨settled, keptIff⟩ := sane.settle drives count
    exact ⟨count, unknown, tracks_of_unknown settled (keptIff.mpr kept) unknown⟩

end Calls

/-- What is claimed at a table that stays: the storages converge, and the reports about
each kind have taken turns. -/
def StorageRun.Right (run : StorageRun) : Prop :=
  Converges run.storage run.drives ∧ ∀ kind, kind ≠ .internal → Alternate (reports kind run.actions)

/-- The control board after `StorageInit`. -/
def StorageRun.start (bootStorageType : Nat) (publicDrive : UInt8) (drives : DriveTable) :
    StorageRun :=
  ⟨storageInit bootStorageType publicDrive drives, drives, []⟩

theorem storageInv_start (bootStorageType : Nat) (publicDrive : UInt8) (drives : DriveTable) :
    StorageInv (StorageRun.start bootStorageType publicDrive drives) := by
  have free : ∀ kind, kind ≠ .internal →
      (storageInit bootStorageType publicDrive drives).table kind = none ∧
        (storageInit bootStorageType publicDrive drives).inUsbDeviceMode = false := by
    intro kind notInternal
    rw [storageInit]
    split
    · exact ⟨by simp [Function.update_of_ne notInternal], rfl⟩
    · exact ⟨rfl, rfl⟩
  refine ⟨⟨(free .sd (by decide)).2, fun kind notInternal i held => ?_⟩, fun _ _ => rfl,
    fun kind notInternal => ?_⟩
  · rw [StorageRun.start, (free kind notInternal).1] at held
    cases held
  · rw [StorageRun.start, (free kind notInternal).1]
    rfl

/-- The storages are right wherever the table stays exactly if no drive that is remembered
at a call has become one of another kind. -/
theorem storageCheck_right_iff
    (bootStorageType : Nat) (publicDrive : UInt8) (drives : DriveTable)
    (tables : List DriveTable) :
    AllowedAlong (fun run => KindKept run.storage) StorageRun.check
        (.start bootStorageType publicDrive drives) tables ↔
      ∀ done rest, tables = done ++ rest →
        (done.foldl StorageRun.check (.start bootStorageType publicDrive drives)).Right := by
  have initial := storageInv_start bootStorageType publicDrive drives
  refine AllowedAlong.iff_safe (fun run table inv kept => ?_) (fun run table inv right => ?_)
    initial ⟨(converges_iff initial.sane).mpr fun kind notInternal i held => ?_, initial.alternate⟩
    tables
  · have after := inv.check table
    have keptAfter := (kindKept_check_iff table inv.sane.mode).mpr kept
    exact ⟨after, (converges_iff after.sane).mpr keptAfter, after.alternate⟩
  · have keptAfter := (converges_iff (inv.check table).sane).mp right.1
    exact (kindKept_check_iff table inv.sane.mode).mp keptAfter
  · have phase := initial.phase kind notInternal
    rw [held] at phase
    cases phase

def oneDrive (disk : Nat) : DriveTable := fun i => ⟨disk, i == 0, []⟩

/-- The place of an SD card is taken by a USB disk. -/
theorem storageCheck_reusedEntry :
    ¬ ∀ (bootStorageType : Nat) (publicDrive : UInt8) (drives : DriveTable)
        (tables : List DriveTable),
        (tables.foldl StorageRun.check (.start bootStorageType publicDrive drives)).Right := by
  intro right
  have converges := (right 6 0 (oneDrive 0) [oneDrive 0, oneDrive 7]).1
  have inv := ((storageInv_start 6 0 (oneDrive 0)).check (oneDrive 0)).check (oneDrive 7)
  have kept := (converges_iff inv.sane).mp converges
  exact absurd (kept .sd (by decide) 0 (by decide)) (by decide)

end IteSdk.Ctrlboard
