import IteSdk.ItpFat.FatMount
import IteSdk.Lib.Threads
import IteSdk.Lib.Transition

/-!
# The table of drives over all calls

An entry of the table is available when a volume with its number is registered, and a
call of `FatMount` only takes entries that are not.  That needs a free entry for each
partition that is recorded, and no error that `force` passes over.
-/

namespace IteSdk.ItpFat

open Lib

/-! ## The property and the conditions -/

/-- The volumes are those of the available entries, one for each, and the entries have
the letters of their places. -/
structure FatDrives.Safe (drives : FatDrives) : Prop where
  letter :
    ∀ (j : Nat) (entry : ITPDriveStatus), drives.table[j]? = some entry → entry.avail = true →
      j < itpMaxDrive ∧ entry.name[0]? = some (BitVec.ofNat 8 (0x41 + j))
  listed :
    ∀ volume ∈ drives.volumes, ∃ entry, drives.table[volume.drvnumber]? = some entry ∧
      entry.avail = true ∧ entry.device = itpDeviceFat ∧ entry.disk = volume.disk
  registered :
    ∀ (j : Nat) (entry : ITPDriveStatus), drives.table[j]? = some entry → entry.avail = true →
      entry.device = itpDeviceFat → ∃ volume ∈ drives.volumes, volume.drvnumber = j
  own : drives.volumes.Pairwise fun one other => one.drvnumber ≠ other.drvnumber

def CallSafe (before after : FatDrives) : FatCall → Prop
  | .mount _ _ _ =>
    ∀ (j : Nat) (entry : ITPDriveStatus), before.table[j]? = some entry → entry.avail = true →
      after.table[j]? = some entry
  | .unmount disk _ =>
    ∀ (j : Nat) (entry : ITPDriveStatus), before.table[j]? = some entry →
      after.table[j]? = some (if entry.disk = disk then { entry with avail := false } else entry)

def FatDrives.free (drives : FatDrives) : Nat := drives.table.countP fun entry => !entry.avail

/-- There is a free entry for each partition that is recorded, `force` meets no error,
and a volume that is deleted again is. -/
def PartitionsAllowed (disk : Int) (force : Bool) (partition : Nat → PartitionAnswers) :
    List Nat → Nat → Prop
  | [], _ => True
  | i :: rest, free =>
    if (partition i).secnum = 0 then PartitionsAllowed disk force partition rest free
    else if (partition i).fails then
      force = false ∧ ((partition i).registers = true → (partition i).delVolume = 0)
    else if (partition i).ret disk = errNotFormatted ∧ force = false then
      (partition i).delVolume = 0 ∧ PartitionsAllowed disk force partition rest free
    else 0 < free ∧ PartitionsAllowed disk force partition rest (free - 1)

def UnmountAllowed (answers : UnmountAnswers) : Prop := ∀ i < itpMaxDrive, answers.delVolume i = 0

/-- A disk that is mounted once more has not been mounted before. -/
def MountAllowed (norPartition3 : Bool) (drives : FatDrives) (disk : Int)
    (force : Bool) : List MountAnswers → Prop
  | [] => True
  | answers :: later =>
    (answers.getPartition = 0 →
      PartitionsAllowed disk force answers.partition (List.range itpMaxPartition) drives.free) ∧
    (answers.remounts norPartition3 disk = true →
      (∀ entry ∈ drives.table, entry.avail = true → entry.disk ≠ disk) ∧
      UnmountAllowed answers.unmount ∧
      MountAllowed norPartition3 drives disk force later)

def CallAllowed (norPartition3 : Bool) (drives : FatDrives) : FatCall → Prop
  | .mount disk force answers => MountAllowed norPartition3 drives disk force answers
  | .unmount _ answers => UnmountAllowed answers

instance PartitionsAllowed.decidable (disk : Int) (force : Bool)
    (partition : Nat → PartitionAnswers) :
    ∀ (rest : List Nat) (free : Nat), Decidable (PartitionsAllowed disk force partition rest free)
  | [], _ => .isTrue trivial
  | _ :: rest, _ =>
    have := PartitionsAllowed.decidable disk force partition rest
    inferInstanceAs (Decidable (ite _ _ _))

instance UnmountAllowed.decidable (answers : UnmountAnswers) : Decidable (UnmountAllowed answers) :=
  inferInstanceAs (Decidable (∀ i < itpMaxDrive, answers.delVolume i = 0))

instance MountAllowed.decidable (norPartition3 : Bool) (drives : FatDrives) (disk : Int)
    (force : Bool) :
    ∀ answers : List MountAnswers, Decidable (MountAllowed norPartition3 drives disk force answers)
  | [] => .isTrue trivial
  | _ :: later =>
    have := MountAllowed.decidable norPartition3 drives disk force later
    inferInstanceAs (Decidable (_ ∧ _))

instance CallAllowed.decidable (norPartition3 : Bool) (drives : FatDrives) :
    ∀ call : FatCall, Decidable (CallAllowed norPartition3 drives call)
  | .mount disk force answers =>
    MountAllowed.decidable norPartition3 drives disk force answers
  | .unmount _ answers => UnmountAllowed.decidable answers

structure FatDrives.Inv (drives : FatDrives) : Prop where
  size : drives.table.length = itpMaxDrive
  named :
    ∀ (j : Nat) (entry : ITPDriveStatus), drives.table[j]? = some entry → entry.name.length = 4
  mounted :
    ∀ (j : Nat) (entry : ITPDriveStatus), drives.table[j]? = some entry → entry.avail = true →
      entry.device = itpDeviceFat ∧ entry.name[0]? = some (BitVec.ofNat 8 (0x41 + j))
  listed :
    ∀ volume ∈ drives.volumes, ∃ entry, drives.table[volume.drvnumber]? = some entry ∧
      entry.avail = true ∧ entry.disk = volume.disk
  registered :
    ∀ (j : Nat) (entry : ITPDriveStatus), drives.table[j]? = some entry → entry.avail = true →
      ∃ volume ∈ drives.volumes, volume.drvnumber = j
  own : drives.volumes.Pairwise fun one other => one.drvnumber ≠ other.drvnumber

variable {drives before after : FatDrives} {disk : Int} {force : Bool}

theorem FatDrives.Inv.safe (inv : drives.Inv) : drives.Safe where
  letter := by
    intro j entry found avail
    have inside : j < drives.table.length := (List.getElem?_eq_some_iff.mp found).1
    exact ⟨inv.size ▸ inside, (inv.mounted j entry found avail).2⟩
  listed := by
    intro volume listed
    obtain ⟨entry, found, avail, disk⟩ := inv.listed volume listed
    exact ⟨entry, found, avail, (inv.mounted _ entry found avail).1, disk⟩
  registered := fun j entry found avail _ => inv.registered j entry found avail
  own := inv.own

theorem FatDrives.Inv.init : FatDrives.init.Inv := by
  have fresh :
      ∀ (j : Nat) (entry : ITPDriveStatus), FatDrives.init.table[j]? = some entry →
        entry.name.length = 4 ∧ entry.avail = false := by
    intro j entry found
    rw [List.eq_of_mem_replicate (List.mem_of_getElem? found)]
    exact ⟨rfl, rfl⟩
  refine ⟨List.length_replicate, fun j entry found => (fresh j entry found).1, ?_, ?_, ?_,
    List.Pairwise.nil⟩
  · intro j entry found avail
    rw [(fresh j entry found).2] at avail
    cases avail
  · exact fun volume listed => absurd listed List.not_mem_nil
  · intro j entry found avail
    rw [(fresh j entry found).2] at avail
    cases avail

variable {drivers : Int → Bool}

theorem FatDrives.Inv.withDrivers (inv : drives.Inv) :
    FatDrives.Inv { drives with drivers := drivers } :=
  { inv with }

theorem FatDrives.Inv.unregistered (inv : drives.Inv) {j : Nat}
    (free : ∀ entry, drives.table[j]? = some entry → entry.avail = false) :
    ∀ volume ∈ drives.volumes, volume.drvnumber ≠ j := by
  intro volume listed same
  obtain ⟨entry, found, avail, -⟩ := inv.listed volume listed
  rw [free entry (same ▸ found)] at avail
  cases avail

/-- The search goes past available entries only, and ends at one that is not or at the
end of the table. -/
theorem findDrive_spec (table : List ITPDriveStatus) (rest : List ITPDriveStatus)
    (j : Nat) (driveStatus : Option Nat) (here : rest = table.drop j)
    (below : ∀ i < j, ∀ entry, table[i]? = some entry → entry.avail = true) :
    ∃ found pointer, findDrive rest j driveStatus = (found, pointer) ∧
      (∀ i < found, ∀ entry, table[i]? = some entry → entry.avail = true) ∧
      ((∃ entry, table[found]? = some entry ∧ entry.avail = false ∧ pointer = some found) ∨
        table[found]? = none) := by
  induction rest generalizing j driveStatus with
  | nil =>
    have outside : table.length ≤ j := List.drop_eq_nil_iff.mp here.symm
    exact ⟨j, driveStatus, rfl, below, .inr (List.getElem?_eq_none outside)⟩
  | cons entry rest ih =>
    have there : table[j]? = some entry := by
      have first : (table.drop j)[0]? = some entry := by rw [← here]; rfl
      rwa [List.getElem?_drop, Nat.add_zero] at first
    rw [findDrive]
    split
    · next avail =>
        refine ih (j + 1) (some j) ?_ ?_
        · rw [← List.drop_drop, ← here]
          rfl
        · intro i before other found
          rcases Nat.lt_succ_iff_lt_or_eq.mp before with earlier | rfl
          · exact below i earlier other found
          · rw [there, Option.some.injEq] at found
            rw [← found]
            exact avail
    · next avail =>
        exact ⟨j, some j, rfl, below, .inl ⟨entry, there, Bool.eq_false_iff.mpr avail, rfl⟩⟩

variable {table : List ITPDriveStatus}

theorem findDrive_free {j : Nat} {driveStatus : Option Nat}
    (free : 0 < table.countP fun entry => !entry.avail)
    (below : ∀ i < j, ∀ entry, table[i]? = some entry → entry.avail = true) :
    ∃ found entry, findDrive (table.drop j) j driveStatus = (found, some found) ∧
      (∀ i < found, ∀ entry, table[i]? = some entry → entry.avail = true) ∧
      table[found]? = some entry ∧ entry.avail = false := by
  obtain ⟨found, pointer, is, passed, ends | ends⟩ := findDrive_spec table _ j driveStatus rfl below
  · obtain ⟨entry, there, avail, rfl⟩ := ends
    exact ⟨found, entry, is, passed, there, avail⟩
  · obtain ⟨entry, listed, avail⟩ := List.countP_pos_iff.mp free
    obtain ⟨i, inside, rfl⟩ := List.mem_iff_getElem.mp listed
    have outside : table.length ≤ found := List.getElem?_eq_none_iff.mp ends
    rw [passed i (Nat.lt_of_lt_of_le inside outside) _ (List.getElem?_eq_getElem inside)]
      at avail
    cases avail

/-! ## One partition -/

theorem getElem?_set_cases {j : Nat} (mounted : ITPDriveStatus) (inside : j < table.length)
    (k : Nat) (other : ITPDriveStatus) (there : (table.set j mounted)[k]? = some other) :
    (k = j ∧ other = mounted) ∨ (k ≠ j ∧ table[k]? = some other) := by
  by_cases same : k = j
  · subst same
    rw [List.getElem?_set_self inside, Option.some.injEq] at there
    exact .inl ⟨rfl, there.symm⟩
  · rw [List.getElem?_set_ne (Ne.symm same)] at there
    exact .inr ⟨same, there⟩

theorem FatDrives.delVolume_new {volume : FatVolume}
    (fresh : ∀ other ∈ drives.volumes, other.drvnumber ≠ volume.drvnumber) :
    FatDrives.delVolume { drives with volumes := drives.volumes ++ [volume] } 0
      volume.drvnumber = drives := by
  have same :
      (drives.volumes ++ [volume]).filter
          (fun other => decide (other.drvnumber ≠ volume.drvnumber)) =
        drives.volumes := by
    rw [List.filter_append,
      List.filter_eq_self.mpr fun other listed => decide_eq_true (fresh other listed)]
    simp
  rw [FatDrives.delVolume, if_pos rfl]
  simp only [same]

/-- What the call of `FatMount` for a disk has done with the table. -/
structure Mounts (disk : Int) (before after : FatDrives) : Prop where
  inv : after.Inv
  kept :
    ∀ (j : Nat) (entry : ITPDriveStatus), before.table[j]? = some entry → entry.avail = true →
      after.table[j]? = some entry
  fresh :
    ∀ (j : Nat) (entry next : ITPDriveStatus), before.table[j]? = some entry →
      entry.avail = false → after.table[j]? = some next → next.avail = true → next.disk = disk

theorem Mounts.refl (inv : drives.Inv) : Mounts disk drives drives where
  inv := inv
  kept := fun _ _ found _ => found
  fresh := by
    intro j entry next found free there avail
    rw [found, Option.some.injEq] at there
    rw [← there, free] at avail
    cases avail

theorem Mounts.withDrivers (mounts : Mounts disk before after) :
    Mounts disk before { after with drivers := drivers } where
  inv := mounts.inv.withDrivers
  kept := mounts.kept
  fresh := mounts.fresh

theorem Mounts.size (mounts : Mounts disk before after) (inv : before.Inv) :
    after.table.length = before.table.length := by
  rw [mounts.inv.size, inv.size]

theorem Mounts.trans {between : FatDrives} (inv : before.Inv)
    (first : Mounts disk before between) (second : Mounts disk between after) :
    Mounts disk before after where
  inv := second.inv
  kept := fun j entry found avail => second.kept j entry (first.kept j entry found avail) avail
  fresh := by
    intro j entry next found free there avail
    have inside : j < between.table.length := by
      rw [first.size inv]
      exact (List.getElem?_eq_some_iff.mp found).1
    have middle := List.getElem?_eq_getElem inside
    cases is : between.table[j].avail with
    | true =>
      have same := second.kept j _ middle is
      rw [there, Option.some.injEq] at same
      rw [same]
      exact first.fresh j entry _ found free middle is
    | false => exact second.fresh j _ next middle is there avail

/-- A partition is recorded in the entry with its number, with its volume. -/
def FatDrives.record (drives : FatDrives) (disk : Int) (i j : Nat) : FatDrives :=
  FatDrives.mountDrive { drives with volumes := drives.volumes ++ [⟨j, disk, i⟩] } (some j) disk j

theorem FatDrives.record_elsewhere {i j k : Nat} (apart : j ≠ k) :
    (drives.record disk i j).table[k]? = drives.table[k]? := by
  simp only [FatDrives.record, FatDrives.mountDrive, Option.bind_some]
  cases found : drives.table[j]? with
  | none => rfl
  | some entry => exact List.getElem?_set_ne apart

variable {entry : ITPDriveStatus}

theorem Mounts.record {i j : Nat} (inv : drives.Inv) (found : drives.table[j]? = some entry)
    (avail : entry.avail = false) :
    Mounts disk drives (drives.record disk i j) ∧
      (drives.record disk i j).free + 1 = drives.free := by
  have named := inv.named j entry found
  have inside : j < drives.table.length := (List.getElem?_eq_some_iff.mp found).1
  have unregistered : ∀ volume ∈ drives.volumes, volume.drvnumber ≠ j :=
    inv.unregistered fun other there => by
      rw [found, Option.some.injEq] at there
      rw [← there]
      exact avail
  simp only [FatDrives.record, FatDrives.mountDrive, Option.bind_some, found, Option.map_some]
  generalize is :
    ITPDriveStatus.mk disk itpDeviceFat true
      (((entry.name.set 0 (BitVec.ofNat 8 (0x41 + j))).set 1 0x3A).set 2 0x2F) = mounted
  have mountedName : mounted.name.length = 4 := by
    rw [← is]
    simp [named]
  have mountedLetter : mounted.name[0]? = some (BitVec.ofNat 8 (0x41 + j)) := by
    rw [← is]
    have some0 : 0 < entry.name.length := by omega
    simp [some0]
  have mountedAvail : mounted.avail = true := by rw [← is]
  have mountedDevice : mounted.device = itpDeviceFat := by rw [← is]
  have mountedDisk : mounted.disk = disk := by rw [← is]
  have here : (drives.table.set j mounted)[j]? = some mounted := List.getElem?_set_self inside
  have elsewhere := getElem?_set_cases mounted inside
  refine ⟨⟨⟨?_, ?_, ?_, ?_, ?_, ?_⟩, ?_, ?_⟩, ?_⟩
  · rw [List.length_set]
    exact inv.size
  · intro k other there
    rcases elsewhere k other there with ⟨rfl, rfl⟩ | ⟨-, there⟩
    · exact mountedName
    · exact inv.named k other there
  · intro k other there otherAvail
    rcases elsewhere k other there with ⟨rfl, rfl⟩ | ⟨-, there⟩
    · exact ⟨mountedDevice, mountedLetter⟩
    · exact inv.mounted k other there otherAvail
  · intro volume listed
    rcases List.mem_append.mp listed with listed | listed
    · obtain ⟨other, there, otherAvail, same⟩ := inv.listed volume listed
      refine ⟨other, ?_, otherAvail, same⟩
      simp only
      rw [List.getElem?_set_ne (unregistered volume listed).symm]
      exact there
    · rw [List.mem_singleton.mp listed]
      exact ⟨mounted, here, mountedAvail, mountedDisk⟩
  · intro k other there otherAvail
    rcases elsewhere k other there with ⟨rfl, -⟩ | ⟨-, there⟩
    · exact ⟨⟨k, disk, i⟩, List.mem_append_right _ (List.mem_singleton_self _), rfl⟩
    · obtain ⟨volume, listed, same⟩ := inv.registered k other there otherAvail
      exact ⟨volume, List.mem_append_left _ listed, same⟩
  · refine List.pairwise_append.mpr ⟨inv.own, List.pairwise_singleton _ _, ?_⟩
    intro one oneListed other otherListed
    rw [List.mem_singleton.mp otherListed]
    exact unregistered one oneListed
  · intro k other there otherAvail
    have apart : j ≠ k := by
      rintro rfl
      rw [found, Option.some.injEq] at there
      rw [there, otherAvail] at avail
      cases avail
    simp only
    rw [List.getElem?_set_ne apart]
    exact there
  · intro k other next found free there nextAvail
    rcases elsewhere k next there with ⟨rfl, rfl⟩ | ⟨-, there⟩
    · exact mountedDisk
    · rw [found, Option.some.injEq] at there
      rw [← there, free] at nextAvail
      cases nextAvail
  · have counts :
        (drives.table.set j mounted).countP (fun entry => !entry.avail) +
            (if !entry.avail then 1 else 0) =
          drives.table.countP (fun entry => !entry.avail) + (if !mounted.avail then 1 else 0) :=
      countP_set_add mounted found
    simpa [FatDrives.free, avail, mountedAvail] using counts

/-- What is known when the loop has come to the partitions that are left. -/
structure Ready (disk : Int) (start : FatDrives) (mounting : Mounting) : Prop where
  mounts : Mounts disk start mounting.drives
  below : ∀ i < mounting.j, ∀ entry, mounting.drives.table[i]? = some entry → entry.avail = true

theorem FatDrives.delVolume_init {answers : PartitionAnswers} {volume : FatVolume}
    (fresh : ∀ other ∈ drives.volumes, other.drvnumber ≠ volume.drvnumber)
    (deletes : answers.fails = false ∨ answers.registers = true → answers.delVolume = 0) :
    (drives.initVolumePartition answers volume).delVolume answers.delVolume
      volume.drvnumber = drives := by
  rw [FatDrives.initVolumePartition]
  split
  · rw [FatDrives.delVolume]
    split
    · have same := fun other listed => decide_eq_true (fresh other listed)
      rw [List.filter_eq_self.mpr same]
    · rfl
  · next registered =>
      rw [deletes, FatDrives.delVolume_new fresh]
      simpa [imp_iff_not_or, Bool.not_eq_true] using registered

theorem Ready.mountPartitions {partition : Nat → PartitionAnswers} {rest : List Nat}
    {mounting : Mounting} (startInv : before.Inv) (ready : Ready disk before mounting)
    (allowed : PartitionsAllowed disk force partition rest mounting.drives.free) :
    match mountPartitions disk force partition rest mounting with
    | .error returned => Mounts disk before returned.2
    | .ok mounting => Mounts disk before mounting.drives := by
  induction rest generalizing mounting with
  | nil => exact ready.mounts
  | cons i rest ih =>
    rw [PartitionsAllowed] at allowed
    rw [ItpFat.mountPartitions, mountPartition]
    by_cases absent : (partition i).secnum = 0
    · rw [if_pos absent] at allowed ⊢
      exact ih ready allowed
    rw [if_neg absent] at allowed ⊢
    have inv := ready.mounts.inv
    obtain ⟨j, pointer, search, passed, ends⟩ :=
      findDrive_spec mounting.drives.table _ mounting.j mounting.driveStatus rfl ready.below
    have unregistered : ∀ volume ∈ mounting.drives.volumes, volume.drvnumber ≠ j := by
      refine inv.unregistered fun entry there => ?_
      rcases ends with ⟨found, here, free, -⟩ | full
      · rw [here, Option.some.injEq] at there
        rw [← there]
        exact free
      · rw [full] at there
        cases there
    simp only [search]
    by_cases fails : (partition i).fails = true
    · -- An error that is no error of the format ends the call.
      rw [if_pos fails] at allowed
      have deleted :
          (mounting.drives.initVolumePartition (partition i) ⟨j, disk, i⟩).delVolume
            (partition i).delVolume j = mounting.drives :=
        FatDrives.delVolume_init unregistered fun deletes =>
          deletes.elim (fun wrong => by rw [fails] at wrong; cases wrong) allowed.2
      simp only [fails, allowed.1, and_self, if_true, deleted]
      exact ready.mounts
    rw [if_neg fails] at allowed
    by_cases unformatted : (partition i).ret disk = errNotFormatted ∧ force = false
    · rw [if_pos unformatted] at allowed
      have deleted :
          (mounting.drives.initVolumePartition (partition i) ⟨j, disk, i⟩).delVolume
            (partition i).delVolume j = mounting.drives :=
        FatDrives.delVolume_init unregistered fun _ => allowed.1
      simp only [fails, Bool.false_eq_true, false_and, if_false, if_pos unformatted, deleted]
      exact ih ⟨ready.mounts, passed⟩ allowed.2
    · rw [if_neg unformatted] at allowed
      -- The search has found a free entry, for there is one.
      obtain ⟨j, entry, is, -, there, avail⟩ := findDrive_free allowed.1 ready.below
      rw [search, Prod.mk.injEq] at is
      obtain ⟨rfl, rfl⟩ := is
      have registered :
          mounting.drives.initVolumePartition (partition i) ⟨j, disk, i⟩ =
            { mounting.drives with
              volumes := mounting.drives.volumes ++ [⟨j, disk, i⟩] } := by
        simp only [FatDrives.initVolumePartition, fails, Bool.false_eq_true, false_and, if_false]
      obtain ⟨recorded, fewer⟩ := Mounts.record inv there avail
      simp only [fails, Bool.false_eq_true, false_and, if_false, if_neg unformatted, registered]
      refine ih ⟨ready.mounts.trans startInv recorded, ?_⟩ ?_
      · intro k earlier other here
        refine passed k earlier other ?_
        rw [← FatDrives.record_elsewhere (Nat.ne_of_gt earlier)]
        exact here
      · rw [← fewer, Nat.add_sub_cancel] at allowed
        exact allowed.2

/-! ## The calls -/

def ITPDriveStatus.unmounted (entry : ITPDriveStatus) (disk : Int) : ITPDriveStatus :=
  if entry.disk = disk then { entry with avail := false } else entry

theorem ITPDriveStatus.unmounted_of_free (free : entry.avail = false) :
    entry.unmounted disk = entry := by
  rw [ITPDriveStatus.unmounted]
  split
  · rw [← free]
  · rfl

variable {answers : UnmountAnswers} {norPartition3 : Bool}

theorem FatDrives.Inv.unmountDrive (inv : drives.Inv) (disk ret1 : Int)
    {i : Nat} (deletes : answers.delVolume i = 0) :
    (unmountDrive answers disk (ret1, drives) i).2.Inv ∧
      ∀ j : Nat, (unmountDrive answers disk (ret1, drives) i).2.table[j]? =
        if j = i then (drives.table[j]?).map (ITPDriveStatus.unmounted · disk)
        else drives.table[j]? := by
  cases found : drives.table[i]? with
  | none =>
    have stays :
        ItpFat.unmountDrive answers disk (ret1, drives) i = (ret1, drives) := by
      simp only [ItpFat.unmountDrive, found]
    rw [stays]
    refine ⟨inv, fun j => ?_⟩
    split
    · next same => rw [same, found, Option.map_none]
    · rfl
  | some entry =>
    have mounted := inv.mounted i entry found
    have inside : i < drives.table.length := (List.getElem?_eq_some_iff.mp found).1
    by_cases matching : entry.avail = true ∧ entry.disk = disk
    · have next :
          (ItpFat.unmountDrive answers disk (ret1, drives) i).2 =
            { drives with
              table := drives.table.set i { entry with avail := false }
              volumes := drives.volumes.filter fun volume => decide (volume.drvnumber ≠ i)
              written := drives.written ++ [{ entry with avail := false }] } := by
        simp [ItpFat.unmountDrive, found, matching, (mounted matching.1).1,
          FatDrives.delVolume, deletes]
      have elsewhere := getElem?_set_cases { entry with avail := false } inside
      rw [next]
      refine ⟨⟨?_, ?_, ?_, ?_, ?_, ?_⟩, fun j => ?_⟩
      · rw [List.length_set]
        exact inv.size
      · intro k other there
        rcases elsewhere k other there with ⟨rfl, rfl⟩ | ⟨-, there⟩
        · exact inv.named k entry found
        · exact inv.named k other there
      · intro k other there avail
        rcases elsewhere k other there with ⟨rfl, rfl⟩ | ⟨-, there⟩
        · cases avail
        · exact inv.mounted k other there avail
      · intro volume listed
        obtain ⟨listed, apart⟩ := List.mem_filter.mp listed
        obtain ⟨other, there, rest⟩ := inv.listed volume listed
        refine ⟨other, ?_, rest⟩
        simp only
        rw [List.getElem?_set_ne (of_decide_eq_true apart).symm]
        exact there
      · intro k other there avail
        rcases elsewhere k other there with ⟨rfl, rfl⟩ | ⟨apart, there⟩
        · cases avail
        · obtain ⟨volume, listed, same⟩ := inv.registered k other there avail
          refine ⟨volume, List.mem_filter.mpr ⟨listed, decide_eq_true ?_⟩, same⟩
          rw [same]
          exact apart
      · exact inv.own.filter _
      · simp only
        split
        · next same =>
            subst same
            rw [List.getElem?_set_self inside, found, Option.map_some,
              ITPDriveStatus.unmounted, if_pos matching.2]
        · next apart => exact List.getElem?_set_ne (Ne.symm apart)
    · have stays :
          ItpFat.unmountDrive answers disk (ret1, drives) i = (ret1, drives) := by
        simp only [ItpFat.unmountDrive, found]
        rw [if_neg fun both => matching ⟨both.1, both.2.1⟩]
      rw [stays]
      refine ⟨inv, fun j => ?_⟩
      split
      · next same =>
          rw [same, found, Option.map_some]
          by_cases avail : entry.avail = true
          · rw [ITPDriveStatus.unmounted, if_neg fun same => matching ⟨avail, same⟩]
          · rw [ITPDriveStatus.unmounted_of_free (Bool.eq_false_iff.mpr avail)]
      · rfl

theorem FatDrives.Inv.unmountDrives (inv : drives.Inv) (disk ret1 : Int)
    {count : Nat} (deletes : ∀ i < count, answers.delVolume i = 0) :
    ((List.range count).foldl (ItpFat.unmountDrive answers disk) (ret1, drives)).2.Inv ∧
      ∀ j : Nat,
        ((List.range count).foldl (ItpFat.unmountDrive answers disk) (ret1, drives)).2.table[j]? =
          if j < count then (drives.table[j]?).map (ITPDriveStatus.unmounted · disk)
          else drives.table[j]? := by
  induction count with
  | zero => exact ⟨inv, fun j => (if_neg (Nat.not_lt_zero j)).symm⟩
  | succ count ih =>
    obtain ⟨between, table⟩ := ih fun i before => deletes i (Nat.lt_succ_of_lt before)
    rw [List.range_succ, List.foldl_append, List.foldl_cons, List.foldl_nil]
    generalize (List.range count).foldl (ItpFat.unmountDrive answers disk)
      (ret1, drives) = middle at between table ⊢
    obtain ⟨next, nextTable⟩ :=
      between.unmountDrive disk middle.1 (deletes count (Nat.lt_succ_self count))
    refine ⟨next, fun j => ?_⟩
    rw [nextTable j, table j]
    grind

theorem FatDrives.Inv.fatUnmount (inv : drives.Inv) (disk : Int)
    (deletes : UnmountAllowed answers) :
    (ItpFat.fatUnmount answers disk drives).2.Inv ∧
      ∀ j : Nat, (ItpFat.fatUnmount answers disk drives).2.table[j]? =
        (drives.table[j]?).map (ITPDriveStatus.unmounted · disk) := by
  obtain ⟨next, table⟩ := inv.unmountDrives disk (-1) deletes
  rw [ItpFat.fatUnmount]
  generalize (List.range itpMaxDrive).foldl (ItpFat.unmountDrive answers disk)
    (-1, drives) = unmounted at next table
  refine ⟨next.withDrivers, fun j => (table j).trans ?_⟩
  split
  · rfl
  · next full =>
      have missing : drives.table[j]? = none := List.getElem?_eq_none (by rw [inv.size]; omega)
      rw [missing, Option.map_none]

/-- The disk has been unmounted after it has been mounted: the same entries are
available as before. -/
theorem Mounts.unmount (inv : before.Inv) (mounts : Mounts disk before after)
    (others : ∀ entry ∈ before.table, entry.avail = true → entry.disk ≠ disk)
    (deletes : UnmountAllowed answers) :
    Mounts disk before (fatUnmount answers disk after).2 ∧
      (fatUnmount answers disk after).2.table.map ITPDriveStatus.avail =
        before.table.map ITPDriveStatus.avail ∧
      ∀ entry ∈ (fatUnmount answers disk after).2.table, entry.avail = true →
        entry.disk ≠ disk := by
  obtain ⟨next, table⟩ := mounts.inv.fatUnmount disk deletes
  have kept :
      ∀ (j : Nat) (entry : ITPDriveStatus), before.table[j]? = some entry →
        entry.avail = true → (fatUnmount answers disk after).2.table[j]? = some entry := by
    intro j entry found avail
    rw [table j, mounts.kept j entry found avail, Option.map_some, ITPDriveStatus.unmounted,
      if_neg (others entry (List.mem_of_getElem? found) avail)]
  have free :
      ∀ (j : Nat) (entry other : ITPDriveStatus), before.table[j]? = some entry →
        entry.avail = false →
          (fatUnmount answers disk after).2.table[j]? = some other → other.avail = false := by
    intro j entry other found avail there
    rw [table j] at there
    obtain ⟨between, middle, rfl⟩ := Option.map_eq_some_iff.mp there
    rw [ITPDriveStatus.unmounted]
    split
    · rfl
    · next apart =>
        by_contra wrong
        exact apart (mounts.fresh j entry between found avail middle (by simpa using wrong))
  have size : (fatUnmount answers disk after).2.table.length = before.table.length := by
    rw [next.size, inv.size]
  refine ⟨⟨next, kept, ?_⟩, List.ext_getElem? fun j => ?_, ?_⟩
  · intro j entry other found avail there otherAvail
    rw [free j entry other found avail there] at otherAvail
    cases otherAvail
  · rw [List.getElem?_map, List.getElem?_map]
    cases found : before.table[j]? with
    | none =>
      have missing : (fatUnmount answers disk after).2.table[j]? = none := by
        rw [List.getElem?_eq_none_iff, size]
        exact List.getElem?_eq_none_iff.mp found
      rw [missing]
    | some entry =>
      have inside : j < (fatUnmount answers disk after).2.table.length := by
        rw [size]
        exact (List.getElem?_eq_some_iff.mp found).1
      have there := List.getElem?_eq_getElem inside
      cases avail : entry.avail with
      | true =>
        rw [kept j entry found avail]
      | false =>
        rw [there, Option.map_some, Option.map_some, free j entry _ found avail there, avail]
  · intro entry listed avail same
    obtain ⟨j, there⟩ := List.getElem?_of_mem listed
    rw [table j] at there
    obtain ⟨between, -, rfl⟩ := Option.map_eq_some_iff.mp there
    rw [ITPDriveStatus.unmounted] at avail same
    split at avail
    · cases avail
    · next apart =>
        rw [if_neg apart] at same
        exact apart same

theorem FatDrives.free_eq (same :
    after.table.map ITPDriveStatus.avail = before.table.map ITPDriveStatus.avail) :
    after.free = before.free := by
  have count :
      ∀ drives : FatDrives, drives.free = (drives.table.map ITPDriveStatus.avail).countP (! ·) := by
    intro drives
    rw [List.countP_map]
    rfl
  rw [count, count, same]

variable {answers : List MountAnswers}

theorem MountAllowed.again (free : after.free = before.free)
    (others : ∀ entry ∈ after.table, entry.avail = true → entry.disk ≠ disk)
    (allowed : MountAllowed norPartition3 before disk force answers) :
    MountAllowed norPartition3 after disk force answers := by
  induction answers with
  | nil => trivial
  | cons answers later ih =>
    refine ⟨fun reads => free ▸ allowed.1 reads, fun remounts => ?_⟩
    obtain ⟨-, deletes, next⟩ := allowed.2 remounts
    exact ⟨others, deletes, ih next⟩

theorem Mounts.fatMount (inv : drives.Inv)
    (allowed : MountAllowed norPartition3 drives disk force answers) :
    Mounts disk drives (ItpFat.fatMount norPartition3 disk force answers drives).2 := by
  induction answers generalizing drives with
  | nil => exact Mounts.refl inv
  | cons answers later ih =>
    rw [ItpFat.fatMount]
    split
    · exact Mounts.refl inv
    have ready :
        Ready disk drives
          ⟨{ drives with drivers := fun other => drives.drivers other || other = disk }, 0, none⟩ :=
      ⟨(Mounts.refl inv).withDrivers, fun i before => absurd before (Nat.not_lt_zero i)⟩
    simp only
    split
    · exact ready.mounts
    · next reads =>
        have loop := ready.mountPartitions inv (allowed.1 (by simpa using reads))
        split
        · next returned ends =>
            rw [ends] at loop
            exact loop
        · next mounting ends =>
            rw [ends] at loop
            split
            · next remounts =>
                obtain ⟨others, deletes, next⟩ := allowed.2 remounts
                obtain ⟨unmounted, same, apart⟩ := loop.unmount inv others deletes
                exact unmounted.trans inv
                  (ih unmounted.inv (next.again (FatDrives.free_eq same) apart))
            · exact loop

theorem FatDrives.Inv.call {call : FatCall} (inv : drives.Inv)
    (allowed : CallAllowed norPartition3 drives call) :
    (fatCall norPartition3 drives call).Inv ∧
      CallSafe drives (fatCall norPartition3 drives call) call := by
  cases call with
  | mount disk force answers =>
    have mounts := Mounts.fatMount inv allowed
    exact ⟨mounts.inv, mounts.kept⟩
  | unmount disk answers =>
    obtain ⟨next, table⟩ := inv.fatUnmount disk allowed
    refine ⟨next, fun j entry found => ?_⟩
    rw [fatCall, table j, found]
    rfl

/-- In every run of calls, with any partitions and any answers of the file system that
meet the conditions, each call leaves the volumes and the table consistent; a mount only
takes entries that were not available, and an unmount gives up those of its disk. -/
theorem driveTable_safe (norPartition3 : Bool) (calls : List FatCall) (call : FatCall)
    (allowed :
      AllowedAlong (CallAllowed norPartition3) (fatCall norPartition3) .init (calls ++ [call])) :
    let before := calls.foldl (fatCall norPartition3) .init
    let after := fatCall norPartition3 before call
    after.Safe ∧ CallSafe before after call := by
  obtain ⟨done, last⟩ := AllowedAlong.of_append allowed
  have inv : (calls.foldl (fatCall norPartition3) .init).Inv := by
    refine Run.invariant FatDrives.Inv.init ?_ (Run.guarded_foldl done)
    intro state event next stateInv step
    rw [step.2]
    exact (stateInv.call step.1).1
  obtain ⟨next, safe⟩ := inv.call last.1
  exact ⟨next.safe, safe⟩

/-- Answers for a disk with `count` partitions that all end with `initVolume`. -/
def mountAnswers (count : Nat) (initVolume : Int) : MountAnswers :=
  { createDriver := 0
    getPartition := 0
    partition := fun i => ⟨if i < count then 100 else 0, initVolume, false, 0, 0, 0⟩
    unmount := ⟨fun _ => 0, 0⟩ }

/-- Two disks are mounted, one of them with an unformatted partition that is formatted,
and the first is unmounted. -/
theorem driveTable_safe_once :
    let calls := [.mount 0 false [mountAnswers 2 0], .mount itpDiskNand false [mountAnswers 1 2]]
    let before := calls.foldl (fatCall false) .init
    let after := fatCall false before (.unmount 0 ⟨fun _ => 0, 0⟩)
    (after.Safe ∧ CallSafe before after (.unmount 0 ⟨fun _ => 0, 0⟩)) ∧
      before.volumes = [⟨0, 0, 0⟩, ⟨1, 0, 1⟩, ⟨2, itpDiskNand, 0⟩] ∧
      after.volumes = [⟨2, itpDiskNand, 0⟩] :=
  ⟨driveTable_safe false
    [.mount 0 false [mountAnswers 2 0], .mount itpDiskNand false [mountAnswers 1 2]]
    (.unmount 0 ⟨fun _ => 0, 0⟩) (by decide +kernel), by decide +kernel⟩

/-- With `force`, a full table: the last entry is taken from its partition and gets the
letter after `Z`.  With `force`, an error of the volume: the entry has none.  And a
volume whose deletion fails is left without its entry. -/
theorem driveTable_unsafe :
    (let before :=
        [FatCall.mount 0 false [mountAnswers 10 0], .mount 1 false [mountAnswers 10 0],
          .mount 7 false [mountAnswers 6 0]].foldl (fatCall false) .init
      let after := fatCall false before (.mount 8 true [mountAnswers 1 1])
      ¬ CallSafe before after (.mount 8 true [mountAnswers 1 1]) ∧ ¬ after.Safe) ∧
    ¬ (fatCall false .init (.mount 0 true [mountAnswers 1 19])).Safe ∧
    ¬ (fatCall false (fatCall false .init (.mount 0 false [mountAnswers 1 0]))
        (.unmount 0 ⟨fun _ => 19, 0⟩)).Safe := by
  refine ⟨⟨fun safe => ?_, fun safe => ?_⟩, fun safe => ?_, fun safe => ?_⟩
  · have kept := safe 25 ⟨7, itpDeviceFat, true, [0x5A, 0x3A, 0x2F, 0]⟩
    revert kept
    decide +kernel
  · have letter := safe.letter 25 ⟨8, itpDeviceFat, true, [0x5B, 0x3A, 0x2F, 0]⟩
    revert letter
    decide +kernel
  · obtain ⟨volume, listed, -⟩ :=
      safe.registered 0 ⟨0, itpDeviceFat, true, [0x41, 0x3A, 0x2F, 0]⟩ (by decide +kernel) rfl rfl
    have none :
        (fatCall false .init (.mount 0 true [mountAnswers 1 19])).volumes = [] := by
      decide +kernel
    rw [none] at listed
    cases listed
  · obtain ⟨entry, found, avail, -⟩ := safe.listed ⟨0, 0, 0⟩ (by decide +kernel)
    have free :
        (fatCall false (fatCall false .init (.mount 0 false [mountAnswers 1 0]))
          (.unmount 0 ⟨fun _ => 19, 0⟩)).table[0]? =
          some ⟨0, itpDeviceFat, false, [0x41, 0x3A, 0x2F, 0]⟩ := by
      decide +kernel
    rw [free, Option.some.injEq] at found
    rw [← found] at avail
    cases avail

end IteSdk.ItpFat
