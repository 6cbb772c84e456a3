import IteSdk.ItpFat.FatMount
import Mathlib.Data.BitVec

/-!
# Creating the partitions of a disk

`FatCreatePartition` turns byte sizes into sector counts and partition types, and makes the
last partition smaller as long as the file system library finds the disk too small.
-/

namespace IteSdk.ItpFat

structure FPartition where
  secnum : Nat
  systemIndicator : Nat
  deriving DecidableEq

/-- What `getphy` tells of the disk. -/
structure FPhy where
  numberOfSectors : Nat
  bytesPerSector : Nat

/-- The fields of `ITPPartition` that are read: `size` has `count` elements. -/
structure ItpPartition where
  size : List Nat
  start : List Nat
  exbrStart : Nat

/-- The calls of `f_createpartition`, what is returned, and `exbr_start`. -/
structure Created where
  calls : List (List FPartition)
  ret : Int
  exbrStart : Nat

def fDefPartAlign : Nat := 16

def fDefSectorSize : Nat := 512

def FPhy.effective (phy : FPhy) : FPhy :=
  { phy with
    bytesPerSector := if phy.bytesPerSector = 0 then fDefSectorSize else phy.bytesPerSector }

/-- The `__LINE__` that is returned for a size of zero before the last one. -/
def zeroSizeLine : Int := 1177

/-- The type by a size in bytes: `F_SYSIND_DOSFAT16UPTO32MB`, `F_SYSIND_DOSFAT16OVER32MB`
or `F_SYSIND_DOSFAT32`. -/
def systemIndicator (size : Nat) : Nat :=
  if size < 32 * 1024 * 1024 then 0x04 else if size < 128 * 1024 * 1024 then 0x06 else 0x0B

/-- The product of a sector count and the size of a sector has 32 bits. -/
def partitionOf (bytesPerSector secnum : Nat) : FPartition :=
  ⟨secnum, systemIndicator (secnum * bytesPerSector % 2 ^ 32)⟩

/-- The loop over the sizes, with the sectors of the sizes before: the partitions, and the
sectors of all explicit ones. -/
def partitionsFrom (phy : FPhy) : Nat → List Nat → Except Int (List FPartition × Nat)
  | secnum, [] => .ok ([], secnum)
  | secnum, size :: rest =>
    if 0 < size then
      let own := size / phy.bytesPerSector % 2 ^ 32
      (partitionsFrom phy ((secnum + own) % 2 ^ 32) rest).map fun (partitions, sum) =>
        (partitionOf phy.bytesPerSector own :: partitions, sum)
    else if rest ≠ [] then .error zeroSizeLine
    else
      .ok ([partitionOf phy.bytesPerSector ((phy.numberOfSectors + 2 ^ 32 - secnum) % 2 ^ 32)],
        secnum)

/-- The retries, from the attempt with this number on; `answers` are those of
`f_createpartition`. -/
def createLoop (answers : Nat → Int) (par : ItpPartition) (phy : FPhy) (secnum : Nat)
    (front : List FPartition) (attempt exbrStart : Nat) (last : FPartition) : Created :=
  if answers attempt = errMediaTooSmall ∧ fDefPartAlign < last.secnum then
    let smaller := { last with secnum := last.secnum - fDefPartAlign }
    let behind := phy.numberOfSectors + 3 * 2 ^ 32 - secnum - smaller.secnum - fDefPartAlign
    let exbrStart :=
      if 3 < par.size.length then
        (par.start.getD (par.size.length - 1) 0 + behind * phy.bytesPerSector % 2 ^ 32) % 2 ^ 64
      else exbrStart
    let created := createLoop answers par phy secnum front (attempt + 1) exbrStart smaller
    { created with calls := (front ++ [last]) :: created.calls }
  else ⟨[front ++ [last]], answers attempt, exbrStart⟩
termination_by last.secnum
decreasing_by
  have positive : 0 < fDefPartAlign := by decide
  omega

/-- `FatCreatePartition` behind the driver's creation; `getphy` is its answer, and `none`
is an access before the first partition. -/
def fatCreatePartition (getphy : Except Int FPhy) (answers : Nat → Int) (par : ItpPartition) :
    Option Created :=
  match getphy with
  | .error ret => some ⟨[], ret, par.exbrStart⟩
  | .ok phy =>
    let phy := phy.effective
    match partitionsFrom phy 0 par.size with
    | .error ret => some ⟨[], ret, par.exbrStart⟩
    | .ok (partitions, secnum) =>
      partitions.getLast?.map fun last =>
        createLoop answers par phy secnum partitions.dropLast 0 par.exbrStart last

/-! ## The partitions that are asked for -/

/-- Explicit sizes, then an explicit one or zero, and their sectors fit on the disk. -/
structure Fitting (phy : FPhy) (explicit : List Nat) (last : Nat) : Prop where
  sectors : phy.numberOfSectors < 2 ^ 32
  positive : ∀ size ∈ explicit, 0 < size
  fit :
    (explicit.map (· / phy.bytesPerSector)).sum + last / phy.bytesPerSector ≤ phy.numberOfSectors

/-- The sectors of the last partition: its own, or the rest of the disk. -/
def lastSectors (phy : FPhy) (explicit : List Nat) (last : Nat) : Nat :=
  if 0 < last then last / phy.bytesPerSector
  else phy.numberOfSectors - (explicit.map (· / phy.bytesPerSector)).sum

def typedPartition (phy : FPhy) (secnum : Nat) : FPartition :=
  ⟨secnum, systemIndicator (secnum * phy.bytesPerSector)⟩

/-- What is to be passed at an attempt: the last partition is smaller each time. -/
def intended (phy : FPhy) (explicit : List Nat) (last attempt : Nat) : List FPartition :=
  explicit.map (fun size => typedPartition phy (size / phy.bytesPerSector)) ++
    [typedPartition phy (lastSectors phy explicit last - fDefPartAlign * attempt)]

/-- The library finds the disk too small before this attempt, and the last partition is
large enough to be made smaller. -/
def Tried (answers : Nat → Int) (secnum attempt : Nat) : Prop :=
  ∀ before < attempt,
    answers before = errMediaTooSmall ∧ fDefPartAlign < secnum - fDefPartAlign * before

def SameType (size whole : Nat) : Prop := systemIndicator (whole % 2 ^ 32) = systemIndicator size

/-- Each attempt passes the partitions that are asked for, in their sizes and types. -/
def PassesIntended (phy : FPhy) (explicit : List Nat) (last : Nat) (created : Created) : Prop :=
  created.calls = (List.range created.calls.length).map (intended phy explicit last)
deriving Decidable

section Loops

variable {phy : FPhy} {explicit : List Nat} {last : Nat} {answers : Nat → Int}

theorem partitionsFrom_fitting (secnum : Nat) (fitting : Fitting phy explicit last)
    (room :
      secnum + (explicit.map (· / phy.bytesPerSector)).sum + last / phy.bytesPerSector ≤
        phy.numberOfSectors) :
    ∃ sum,
      partitionsFrom phy secnum (explicit ++ [last]) =
        .ok (explicit.map (fun size => partitionOf phy.bytesPerSector (size / phy.bytesPerSector)) ++
          [partitionOf phy.bytesPerSector
            (if 0 < last then last / phy.bytesPerSector
            else phy.numberOfSectors - (secnum + (explicit.map (· / phy.bytesPerSector)).sum))],
          sum) := by
  have sectors := fitting.sectors
  have lastOwn := Nat.zero_le (last / phy.bytesPerSector)
  induction explicit generalizing secnum with
  | nil =>
    rw [List.map_nil, List.sum_nil, Nat.add_zero] at room
    simp only [List.nil_append, List.map_nil, List.sum_nil, Nat.add_zero, partitionsFrom]
    split
    · rw [Nat.mod_eq_of_lt (by omega)]
      exact ⟨_, rfl⟩
    · rw [if_neg (not_not_intro rfl)]
      have rest : (phy.numberOfSectors + 2 ^ 32 - secnum) % 2 ^ 32 = phy.numberOfSectors - secnum := by
        omega
      rw [rest]
      exact ⟨_, rfl⟩
  | cons size explicit ih =>
    rw [List.map_cons, List.sum_cons] at room
    obtain ⟨positive, others⟩ := List.forall_mem_cons.mp fitting.positive
    have fit := fitting.fit
    rw [List.map_cons, List.sum_cons] at fit
    have own := Nat.zero_le (size / phy.bytesPerSector)
    obtain ⟨sum, rest⟩ :=
      ih (secnum + size / phy.bytesPerSector) ⟨sectors, others, by omega⟩ (by omega)
    refine ⟨sum, ?_⟩
    rw [List.cons_append, partitionsFrom, if_pos positive]
    dsimp only
    rw [Nat.mod_eq_of_lt (by omega : size / phy.bytesPerSector < 2 ^ 32),
      Nat.mod_eq_of_lt (by omega : secnum + size / phy.bytesPerSector < 2 ^ 32), rest]
    simp only [List.map_cons, List.sum_cons, List.cons_append, Nat.add_assoc]
    rfl

/-- The attempts, as they are made one after the other. -/
theorem createLoop_calls (par : ItpPartition) (secnum : Nat) (front : List FPartition)
    (attempt exbrStart : Nat) (own : FPartition) (k : Nat) :
    (k < (createLoop answers par phy secnum front attempt exbrStart own).calls.length ↔
        Tried (fun before => answers (attempt + before)) own.secnum k) ∧
      ∀ call ∈ (createLoop answers par phy secnum front attempt exbrStart own).calls[k]?,
        call = front ++ [⟨own.secnum - fDefPartAlign * k, own.systemIndicator⟩] := by
  induction k generalizing attempt exbrStart own with
  | zero =>
    rw [createLoop]
    split
    all_goals simp [Tried]
  | succ k ih =>
    rw [createLoop]
    split
    · rename_i retry
      obtain ⟨length, call⟩ := ih (attempt + 1)
        (if 3 < par.size.length then
          (par.start.getD (par.size.length - 1) 0 +
            (phy.numberOfSectors + 3 * 2 ^ 32 - secnum - (own.secnum - fDefPartAlign) -
              fDefPartAlign) * phy.bytesPerSector % 2 ^ 32) % 2 ^ 64
        else exbrStart) ⟨own.secnum - fDefPartAlign, own.systemIndicator⟩
      have less (before : Nat) : own.secnum - fDefPartAlign - fDefPartAlign * before =
          own.secnum - fDefPartAlign * (before + 1) := by
        rw [Nat.mul_succ]
        omega
      simp only [List.length_cons, Nat.add_lt_add_iff_right, List.getElem?_cons_succ]
      rw [← less]
      refine ⟨length.trans ?_, call⟩
      simp only [Tried, less]
      constructor
      · intro tried before inside
        cases before with
        | zero => exact retry
        | succ before =>
          have here := tried before (by omega)
          rwa [Nat.add_right_comm, Nat.add_assoc] at here
      · intro tried before inside
        have here := tried (before + 1) (by omega)
        rwa [Nat.add_comm before, ← Nat.add_assoc, Nat.add_comm 1] at here
    · rename_i done
      refine ⟨⟨fun inside => ?_, fun tried => ?_⟩, fun call isCall => ?_⟩
      · simp at inside
      · exact absurd (tried 0 (by omega)) done
      · simp at isCall

/-- An attempt passes what is intended exactly if the types are the same. -/
theorem call_eq_intended_iff (attempt : Nat) :
    explicit.map (fun size => partitionOf phy.bytesPerSector (size / phy.bytesPerSector)) ++
        [⟨lastSectors phy explicit last - fDefPartAlign * attempt,
          (partitionOf phy.bytesPerSector (lastSectors phy explicit last)).systemIndicator⟩] =
        intended phy explicit last attempt ↔
      (∀ size ∈ explicit, SameType (size / phy.bytesPerSector * phy.bytesPerSector)
          (size / phy.bytesPerSector * phy.bytesPerSector)) ∧
        SameType ((lastSectors phy explicit last - fDefPartAlign * attempt) * phy.bytesPerSector)
          (lastSectors phy explicit last * phy.bytesPerSector) := by
  rw [intended]
  constructor
  · intro same
    obtain ⟨front, own⟩ := List.append_inj same (by simp)
    rw [List.map_inj_left] at front
    exact ⟨fun size member => (FPartition.mk.inj (front size member)).2,
      (FPartition.mk.inj (List.singleton_inj.mp own)).2⟩
  · rintro ⟨front, own⟩
    refine congr (congrArg _ (List.map_inj_left.mpr fun size member => ?_)) ?_
    · exact congrArg (FPartition.mk _) (front size member)
    · exact congrArg (fun indicator => [FPartition.mk _ indicator]) own

end Loops

/-- Every attempt passes the right partitions exactly if no size changes its type when it
is cut to 32 bits, and no retry that is made takes the last one to another type. -/
theorem fatCreatePartition_passes_iff
    {raw phy : FPhy} {explicit : List Nat} {last : Nat} (effective : raw.effective = phy)
    (fitting : Fitting phy explicit last)
    (answers : Nat → Int) (start : List Nat) (exbrStart : Nat) :
    (∃ created,
        fatCreatePartition (.ok raw) answers ⟨explicit ++ [last], start, exbrStart⟩ = some created ∧
          PassesIntended phy explicit last created) ↔
      (∀ size ∈ explicit,
          SameType (size / phy.bytesPerSector * phy.bytesPerSector)
            (size / phy.bytesPerSector * phy.bytesPerSector)) ∧
        ∀ attempt, Tried answers (lastSectors phy explicit last) attempt →
          SameType
            ((lastSectors phy explicit last - fDefPartAlign * attempt) * phy.bytesPerSector)
            (lastSectors phy explicit last * phy.bytesPerSector) := by
  obtain ⟨sum, partitions⟩ :=
    partitionsFrom_fitting 0 fitting (by rw [Nat.zero_add]; exact fitting.fit)
  rw [Nat.zero_add, ← lastSectors] at partitions
  simp only [fatCreatePartition, effective, partitions, List.getLast?_concat, List.dropLast_concat,
    Option.map_some, Option.some.injEq, exists_eq_left', PassesIntended]
  generalize isCreated : createLoop _ _ _ _ _ _ _ _ = created
  have attempts := @createLoop_calls phy answers
    ⟨explicit ++ [last], start, exbrStart⟩ sum
    (explicit.map fun size => partitionOf phy.bytesPerSector (size / phy.bytesPerSector)) 0 exbrStart
    (partitionOf phy.bytesPerSector (lastSectors phy explicit last))
  simp only [isCreated, Nat.zero_add] at attempts
  constructor
  · intro passes
    have right (attempt : Nat) (tried : Tried answers (lastSectors phy explicit last) attempt) := by
      have inside := (attempts attempt).1.mpr tried
      have isCall := (attempts attempt).2 _ (List.getElem?_eq_getElem inside)
      have same := congrArg (·[attempt]?) passes
      simp only [List.getElem?_eq_getElem inside, List.getElem?_map, List.getElem?_range inside,
        Option.map_some, Option.some.injEq] at same
      exact (call_eq_intended_iff attempt).mp (isCall.symm.trans same)
    exact ⟨(right 0 fun _ wrong => absurd wrong (Nat.not_lt_zero _)).1,
      fun attempt tried => (right attempt tried).2⟩
  · rintro ⟨explicitSame, lastSame⟩
    apply List.ext_getElem?
    intro attempt
    rcases Nat.lt_or_ge attempt created.calls.length with inside | outside
    · have isCall := (attempts attempt).2 _ (List.getElem?_eq_getElem inside)
      rw [List.getElem?_eq_getElem inside, List.getElem?_map, List.getElem?_range inside, isCall]
      exact congrArg some ((call_eq_intended_iff attempt).mpr
        ⟨explicitSame, lastSame attempt ((attempts attempt).1.mp inside)⟩)
    · rw [List.getElem?_eq_none outside, List.getElem?_eq_none (by simpa using outside)]

/-- A disk of 8 GB with one partition of the whole disk, which the library takes. -/
theorem fatCreatePartition_passes_iff_wholeDisk :
    (∃ created,
        fatCreatePartition (.ok ⟨2 ^ 24, 512⟩) (fun _ => 0) ⟨[] ++ [0], [], 0⟩ = some created ∧
          PassesIntended ⟨2 ^ 24, 512⟩ [] 0 created) ↔
      (∀ size ∈ ([] : List Nat), SameType (size / 512 * 512) (size / 512 * 512)) ∧
        ∀ attempt, Tried (fun _ => 0) (lastSectors ⟨2 ^ 24, 512⟩ [] 0) attempt →
          SameType ((lastSectors ⟨2 ^ 24, 512⟩ [] 0 - fDefPartAlign * attempt) * 512)
            (lastSectors ⟨2 ^ 24, 512⟩ [] 0 * 512) :=
  fatCreatePartition_passes_iff rfl ⟨by decide, by decide, by decide⟩ _ _ _

/-- The 8 GB are a multiple of 2 ^ 32 bytes, so the partition gets the type of a small one. -/
theorem fatCreatePartition_wrongType :
    ¬ ∀ (phy : FPhy) (explicit : List Nat) (last : Nat) (answers : Nat → Int) (start : List Nat)
        (exbrStart : Nat), Fitting phy.effective explicit last →
          ∃ created,
            fatCreatePartition (.ok phy) answers ⟨explicit ++ [last], start, exbrStart⟩ =
                some created ∧
              PassesIntended phy.effective explicit last created := by
  intro passes
  obtain ⟨created, isCreated, intends⟩ :=
    passes ⟨2 ^ 24, 512⟩ [] 0 (fun _ => 0) [] 0 ⟨by decide, by decide, by decide⟩
  have run : fatCreatePartition (.ok ⟨2 ^ 24, 512⟩) (fun _ => 0) ⟨[] ++ [0], [], 0⟩ =
      some ⟨[[⟨2 ^ 24, 4⟩]], 0, 0⟩ := by
    simp [fatCreatePartition, FPhy.effective, partitionsFrom, partitionOf, systemIndicator, createLoop,
      errMediaTooSmall]
  obtain rfl := Option.some.inj (run.symm.trans isCreated)
  exact absurd intends (by decide)

end IteSdk.ItpFat
