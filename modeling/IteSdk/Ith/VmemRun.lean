import IteSdk.Ith.VmemAlloc
import IteSdk.Lib.Transition

/-!
# Runs of the video memory allocator

Any sequence of allocations and of calls that free a live address.  Beside the
allocator a run remembers the live blocks, as they were asked for, and the last
allocation.
-/

namespace IteSdk.Ith

section

open Lib

structure LiveBlock where
  addr : Nat
  size : Nat
  deriving DecidableEq

inductive VmemEvent
  | alignedAlloc (alignment size : Nat)
  | free (addr : Nat)
  deriving DecidableEq

structure AllocCall where
  alignment : Nat
  size : Nat
  returned : Nat
  before : ITHVmem

structure VmemHistory where
  vmem : ITHVmem
  live : List LiveBlock
  last : Option AllocCall

/-- A power of two, a positive size that can be rounded to 32 bytes, a live
address. -/
def VmemEvent.enabled (live : List LiveBlock) : VmemEvent → Prop
  | .alignedAlloc alignment size =>
    (∃ bits, bits < 32 ∧ alignment = 2 ^ bits) ∧ 0 < size ∧ size ≤ 2 ^ 32 - 32
  | .free addr => ∃ block ∈ live, block.addr = addr

instance VmemEvent.decidableEnabled (live : List LiveBlock) :
    ∀ event : VmemEvent, Decidable (event.enabled live)
  | .alignedAlloc _ _ => inferInstanceAs (Decidable (_ ∧ _))
  | .free _ => inferInstanceAs (Decidable (∃ block ∈ live, _))

def vmemAct (history : VmemHistory) : VmemEvent → Option VmemHistory
  | .alignedAlloc alignment size =>
    (ithVmemAlignedAlloc history.vmem alignment size).map fun result =>
      { vmem := result.2
        live :=
          if result.1 = 0 then
            history.live
          else
            ⟨result.1, size⟩ :: history.live
        last := some ⟨alignment, size, result.1, history.vmem⟩ }
  | .free addr =>
    (ithVmemFree history.vmem addr).map fun vmem =>
      { vmem := vmem
        live := history.live.eraseP fun block => block.addr = addr
        last := none }

def vmemStep (history : VmemHistory) (event : VmemEvent) : Option VmemHistory :=
  if event.enabled history.live then vmemAct history event else none

def VmemHistory.init (startAddr totalSize : Nat) : VmemHistory :=
  ⟨ithVmemInit startAddr totalSize, [], none⟩

/-- The used control blocks partition the region, and the counters agree with
them. -/
structure VmemPartition (startAddr totalSize : Nat) (vmem : ITHVmem)
    (entries : List McbEntry) : Prop where
  listed : usedMcbs vmem = some (entries.map Prod.fst)
  stored : ∀ entry ∈ entries, vmem.mcbs entry.1 = entry.2
  used : ∀ entry ∈ entries, entry.2.state ≠ .unused
  tiles : BlockTiles startAddr entries (startAddr + totalSize)
  apart : NoAdjacentFree entries
  freeSize : vmem.freeSize = freeTotal entries
  usedMcbCount : vmem.usedMcbCount = entries.length

def LiveBlock.rounded (block : LiveBlock) : Nat × Nat := (block.addr, ithAlignUp block.size 32)

structure VmemSafe (startAddr totalSize : Nat) (history : VmemHistory) :
    Prop where
  partition :
    ∃ entries, VmemPartition startAddr totalSize history.vmem entries ∧
      (history.live.map LiveBlock.rounded).Perm
        ((allocatedEntries entries).map fun entry => (entry.2.addr, entry.2.size))
  disjoint :
    history.live.Pairwise fun left right =>
      left.addr + left.size ≤ right.addr ∨ right.addr + right.size ≤ left.addr
  inside :
    ∀ block ∈ history.live, startAddr ≤ block.addr ∧ block.addr + block.size ≤ startAddr + totalSize
  last :
    ∀ call, history.last = some call →
      call.alignment ∣ call.returned ∧ (call.returned = 0 → history.vmem = call.before) ∧
        (call.returned ≠ 0 → ⟨call.returned, call.size⟩ ∈ history.live)
  answers : ∀ event : VmemEvent, event.enabled history.live → (vmemStep history event).isSome

/-- The invariant of a run, with the blocks of the allocator at hand. -/
structure VmemRunInv (startAddr totalSize : Nat) (history : VmemHistory)
    (entries : List McbEntry) : Prop where
  inv : VmemInv history.vmem entries
  startAddr : history.vmem.startAddr = startAddr
  totalSize : history.vmem.totalSize = totalSize
  roundable : ∀ block ∈ history.live, block.size ≤ 2 ^ 32 - 32
  live :
    (history.live.map LiveBlock.rounded).Perm
      ((allocatedEntries entries).map fun entry => (entry.2.addr, entry.2.size))
  last :
    ∀ call, history.last = some call →
      call.alignment ∣ call.returned ∧ (call.returned = 0 → history.vmem = call.before) ∧
        (call.returned ≠ 0 → ⟨call.returned, call.size⟩ ∈ history.live)

section Step

variable {startAddr totalSize : Nat} {history : VmemHistory}
  {entries : List McbEntry}

section

variable (runInv : VmemRunInv startAddr totalSize history entries)

include runInv

theorem VmemRunInv.alignedAlloc {alignment size : Nat}
    (enabled : VmemEvent.enabled history.live (.alignedAlloc alignment size)) :
    ∃ after entries',
      vmemStep history (.alignedAlloc alignment size) = some after ∧
        VmemRunInv startAddr totalSize after entries' := by
  obtain ⟨⟨bits, few, rfl⟩, positive, roundable⟩ := enabled
  obtain ⟨addr, vmem, returned, result⟩ :=
    ithVmemAlignedAlloc_spec runInv.inv few positive roundable
  rw [vmemStep, if_pos ⟨⟨bits, few, rfl⟩, positive, roundable⟩, vmemAct, returned, Option.map_some]
  dsimp only
  rcases result with ⟨rfl, rfl⟩ | ⟨addrPositive, multiple, entries', index, inv,
    start, total, front, rest, oldAllocated, newAllocated⟩
  · refine ⟨_, entries, rfl, ⟨runInv.inv, runInv.startAddr, runInv.totalSize, ?_, ?_, ?_⟩⟩
    · exact runInv.roundable
    · exact runInv.live
    · intro call last
      cases last
      exact ⟨Nat.dvd_zero _, fun _ => rfl, fun nonzero => absurd rfl nonzero⟩
  · have nonzero : addr ≠ 0 := Nat.pos_iff_ne_zero.mp addrPositive
    rw [if_neg nonzero]
    refine ⟨_, entries', rfl,
      ⟨inv, start.trans runInv.startAddr, total.trans runInv.totalSize, ?_, ?_, ?_⟩⟩
    · intro block member
      rcases List.mem_cons.mp member with rfl | member
      · exact roundable
      · exact runInv.roundable block member
    · have live := runInv.live
      rw [oldAllocated, List.map_append] at live
      rw [newAllocated, List.map_append, List.map_cons, List.map_cons]
      exact (live.cons _).trans List.perm_middle.symm
    · intro call last
      cases last
      exact ⟨multiple, fun zero => absurd zero nonzero, fun _ => List.mem_cons_self⟩

theorem VmemRunInv.free {addr : Nat} (enabled : VmemEvent.enabled history.live (.free addr)) :
    ∃ after entries',
      vmemStep history (.free addr) = some after ∧
        VmemRunInv startAddr totalSize after entries' := by
  obtain ⟨block, member, here⟩ := enabled
  obtain ⟨found, before, after, -, foundHere, split, erased⟩ :=
    List.exists_of_eraseP (p := fun block : LiveBlock => block.addr = addr)
      member (by simpa using here)
  have foundAddr : found.addr = addr := by simpa using foundHere
  have live := runInv.live
  have inside : found.rounded ∈ history.live.map LiveBlock.rounded := by
    rw [split]
    simp
  obtain ⟨⟨index, mcb⟩, allocatedMember, same⟩ := List.mem_map.mp (live.mem_iff.mp inside)
  obtain ⟨entryMember, allocated⟩ := List.mem_filter.mp allocatedMember
  have allocated : mcb.state = .allocated := by simpa using allocated
  obtain ⟨front, rest, rfl⟩ := List.append_of_mem entryMember
  have mcbAddr : mcb.addr = addr := (congrArg Prod.fst same).trans foundAddr
  obtain ⟨vmem, entries', returned, inv, start, total, kept⟩ :=
    ithVmemFree_spec runInv.inv allocated
  rw [mcbAddr] at returned
  rw [vmemStep, if_pos ⟨block, member, here⟩, vmemAct, returned, Option.map_some, erased]
  refine ⟨_, entries', rfl,
    ⟨inv, start.trans runInv.startAddr, total.trans runInv.totalSize, ?_, ?_,
      fun _ last => nomatch last⟩⟩
  · intro other otherMember
    apply runInv.roundable
    rw [split]
    rw [List.mem_append] at otherMember
    rw [List.mem_append, List.mem_cons]
    tauto
  · rw [split, List.map_append, List.map_cons, ← same, allocatedEntries_append,
      allocatedEntries_cons rest allocated, List.map_append, List.map_cons]
      at live
    rw [kept, List.map_append, List.map_append]
    have moved := List.perm_middle.symm.trans (live.trans List.perm_middle)
    exact moved.cons_inv

theorem VmemRunInv.step {event : VmemEvent} (enabled : event.enabled history.live) :
    ∃ after entries',
      vmemStep history event = some after ∧ VmemRunInv startAddr totalSize after entries' := by
  cases event with
  | alignedAlloc alignment size => exact runInv.alignedAlloc enabled
  | free addr => exact runInv.free enabled

/-! ## What the invariant gives -/

theorem VmemRunInv.rounded_disjoint :
    (history.live.map LiveBlock.rounded).Pairwise fun left right =>
      left.1 + left.2 ≤ right.1 ∨ right.1 + right.2 ≤ left.1 := by
  have ordered :=
    runInv.inv.tiles.pairwise.sublist
      (List.filter_sublist : (allocatedEntries entries).Sublist entries)
  have disjoint :
      ((allocatedEntries entries).map fun entry =>
          (entry.2.addr, entry.2.size)).Pairwise fun left right =>
        left.1 + left.2 ≤ right.1 ∨ right.1 + right.2 ≤ left.1 := by
    rw [List.pairwise_map]
    exact ordered.imp Or.inl
  exact (runInv.live.pairwise_iff Or.symm).mpr disjoint

theorem VmemRunInv.rounded_inside {block : LiveBlock} (member : block ∈ history.live) :
    startAddr ≤ block.addr ∧ block.addr + ithAlignUp block.size 32 ≤ startAddr + totalSize := by
  have rounded := runInv.live.mem_iff.mp (List.mem_map_of_mem member)
  obtain ⟨entry, entryMember, same⟩ := List.mem_map.mp rounded
  have bounds := runInv.inv.tiles.bounds (List.mem_of_mem_filter entryMember)
  rw [runInv.startAddr, runInv.totalSize] at bounds
  have addr : entry.2.addr = block.addr := congrArg Prod.fst same
  have size : entry.2.size = ithAlignUp block.size 32 := congrArg Prod.snd same
  rw [← addr, ← size]
  exact ⟨bounds.1, bounds.2.2⟩

theorem VmemRunInv.safe : VmemSafe startAddr totalSize history where
  partition := by
    obtain ⟨notNull, small, inside, view, tiles, apart, free⟩ := runInv.inv
    rw [runInv.startAddr, runInv.totalSize] at tiles
    exact ⟨entries, ⟨view.usedMcbs, view.stored, view.used, tiles, apart, free,
      view.count⟩, runInv.live⟩
  disjoint := by
    have disjoint := runInv.rounded_disjoint
    rw [List.pairwise_map] at disjoint
    apply disjoint.imp_of_mem
    intro left right leftMember rightMember apart
    have leftLe := le_ithAlignUp (runInv.roundable left leftMember)
    have rightLe := le_ithAlignUp (runInv.roundable right rightMember)
    dsimp only [LiveBlock.rounded] at apart
    omega
  inside := by
    intro block member
    have inside := runInv.rounded_inside member
    have le := le_ithAlignUp (runInv.roundable block member)
    omega
  last := runInv.last
  answers := by
    intro event enabled
    obtain ⟨after, entries', step, -⟩ := runInv.step enabled
    rw [step]
    rfl

end

end Step

theorem vmemRunInv_of_run
    {startAddr totalSize : Nat} (notNull : 0 < startAddr) (positive : 0 < totalSize)
    (small : totalSize < 2 ^ 30) (inside : startAddr + totalSize ≤ 2 ^ 32)
    {events : List VmemEvent} {history : VmemHistory}
    (run : Run (Enabled vmemStep) (VmemHistory.init startAddr totalSize) events history) :
    ∃ entries, VmemRunInv startAddr totalSize history entries := by
  apply run.invariant
  · exact ⟨_, ithVmemInit_inv notNull positive small inside, rfl, rfl, nofun,
      List.Perm.refl _, nofun⟩
  · rintro before event after ⟨entries, runInv⟩ step
    have enabled : event.enabled before.live := by
      by_contra disabled
      rw [Enabled, vmemStep, if_neg disabled] at step
      cases step
    obtain ⟨after', entries', step', kept⟩ := runInv.step enabled
    cases step.symm.trans step'
    exact ⟨entries', kept⟩

/-- In every run the used blocks partition the region, the counters agree with
them, and what is returned is aligned and apart from every other live block. -/
theorem vmem_safe
    {startAddr totalSize : Nat} (notNull : 0 < startAddr) (positive : 0 < totalSize)
    (small : totalSize < 2 ^ 30) (inside : startAddr + totalSize ≤ 2 ^ 32)
    {events : List VmemEvent} {history : VmemHistory}
    (run : Run (Enabled vmemStep) (VmemHistory.init startAddr totalSize) events history) :
    VmemSafe startAddr totalSize history := by
  obtain ⟨entries, runInv⟩ := vmemRunInv_of_run notNull positive small inside run
  exact runInv.safe

/-- Two blocks, the second aligned to 4096, then the first one freed. -/
def vmemRunExample : List VmemEvent := [.alignedAlloc 32 100, .alignedAlloc 4096 5, .free 64]

example :
    (vmemRunExample.foldlM vmemStep (VmemHistory.init 64 65536)).map
        (fun history => history.live) =
      some [⟨4096, 5⟩] := by
  decide +kernel

theorem vmem_safe_aligned :
    ∃ history,
      vmemRunExample.foldlM vmemStep (VmemHistory.init 64 65536) = some history ∧
        VmemSafe 64 65536 history := by
  have answered :
      (vmemRunExample.foldlM vmemStep (VmemHistory.init 64 65536)).isSome := by
    decide +kernel
  obtain ⟨history, folded⟩ := Option.isSome_iff_exists.mp answered
  exact ⟨history, folded,
    vmem_safe (by decide) (by decide) (by decide) (by decide) (Run.enabled_foldlM folded)⟩

theorem freeTotal_add_allocated {start stop : Nat} {entries : List McbEntry}
    (tiles : BlockTiles start entries stop) (used : ∀ entry ∈ entries, entry.2.state ≠ .unused) :
    start + freeTotal entries + ((allocatedEntries entries).map fun entry => entry.2.size).sum =
      stop := by
  induction entries generalizing start with
  | nil => exact tiles
  | cons entry rest ih =>
    have inRest := ih tiles.2.2 fun other member => used other (.tail entry member)
    dsimp only at inRest
    rw [freeTotal_cons]
    cases state : entry.2.state with
    | unused => exact absurd state (used entry List.mem_cons_self)
    | free =>
      rw [allocatedEntries_cons_free rest state, if_pos rfl]
      omega
    | allocated =>
      rw [allocatedEntries_cons rest state, List.map_cons, List.sum_cons, if_neg (by decide)]
      omega

/-- In every run the free bytes and the live blocks, rounded, make up the region, and when
everything is freed one free block is left. -/
theorem vmem_conserves
    {startAddr totalSize : Nat} (notNull : 0 < startAddr) (positive : 0 < totalSize)
    (small : totalSize < 2 ^ 30) (inside : startAddr + totalSize ≤ 2 ^ 32)
    {events : List VmemEvent} {history : VmemHistory}
    (run : Run (Enabled vmemStep) (VmemHistory.init startAddr totalSize) events history) :
    history.vmem.freeSize + (history.live.map fun block => ithAlignUp block.size 32).sum =
        totalSize ∧
      (history.live = [] → ∃ index, usedMcbs history.vmem = some [index] ∧
        history.vmem.mcbs index = ⟨startAddr, totalSize, .free⟩) := by
  obtain ⟨entries, ⟨-, -, -, view, tiles, apart, free⟩, rfl, rfl, -, live, -⟩ :=
    vmemRunInv_of_run notNull positive small inside run
  have total := freeTotal_add_allocated tiles view.used
  have sizes := (live.map Prod.snd).sum_nat
  rw [List.map_map, List.map_map] at sizes
  refine ⟨?_, fun none => ?_⟩
  · dsimp only [Function.comp_def, LiveBlock.rounded] at sizes
    omega
  · have idle : allocatedEntries entries = [] := by simpa [none] using live
    have isFree (entry : McbEntry) (member : entry ∈ entries) : entry.2.state = .free := by
      have notAllocated := List.filter_eq_nil_iff.mp idle entry member
      have used := view.used entry member
      cases state : entry.2.state <;> simp_all
    obtain _ | ⟨⟨index, mcb⟩, _ | ⟨second, rest⟩⟩ := entries
    · have empty : history.vmem.startAddr = _ := tiles
      omega
    · obtain ⟨start, -, stop⟩ := tiles
      refine ⟨index, view.usedMcbs, (view.stored _ List.mem_cons_self).trans ?_⟩
      have size : mcb.size = history.vmem.totalSize := by
        dsimp only [Tiles] at stop
        omega
      rw [← start, ← size, ← isFree (index, mcb) List.mem_cons_self]
    · have different := (List.isChain_cons_cons.mp apart).1
      exact absurd (isFree second (by simp)) (different (isFree (index, mcb) (by simp)))

theorem vmem_conserves_aligned :
    ∃ history,
      vmemRunExample.foldlM vmemStep (VmemHistory.init 64 65536) = some history ∧
        history.vmem.freeSize + (history.live.map fun block => ithAlignUp block.size 32).sum =
          65536 := by
  have answered :
      (vmemRunExample.foldlM vmemStep (VmemHistory.init 64 65536)).isSome := by
    decide +kernel
  obtain ⟨history, folded⟩ := Option.isSome_iff_exists.mp answered
  exact ⟨history, folded,
    (vmem_conserves (by decide) (by decide) (by decide) (by decide) (Run.enabled_foldlM folded)).1⟩

end

/-!
# Freeing an address that is not allocated

The loop of `ithVmemFree` leaves `mcb` at the last control block when it finds
nothing, so the test for a bad address never fires, and the assertion on the
state of the block is compiled out of a release build.  Runs here may free any
address: only `freeSize` gets out of step with the blocks.
-/

section

open Lib

def ITHVmem.withFreeSize (vmem : ITHVmem) (freeSize : Nat) : ITHVmem :=
  { vmem with freeSize := freeSize }

/-- The address is the start of a block that is allocated now. -/
def AllocatedAt (vmem : ITHVmem) (addr : Nat) : Prop :=
  ∃ indices ∈ usedMcbs vmem,
    ∃ index ∈ indices, (vmem.mcbs index).addr = addr ∧ (vmem.mcbs index).state = .allocated
deriving Decidable

def vmemCall (vmem : ITHVmem) : VmemEvent → Option ITHVmem
  | .alignedAlloc alignment size =>
    if (VmemEvent.alignedAlloc alignment size).enabled [] then
      (ithVmemAlignedAlloc vmem alignment size).map Prod.snd
    else
      none
  | .free addr => ithVmemFree vmem addr

/-- The block that the search stops at, and what becomes of it. -/
structure WrongBlockFreed (vmem : ITHVmem) (addr : Nat) (after : ITHVmem)
    (index : Nat) : Prop where
  hit :
    ((vmem.mcbs index).addr = addr ∧ (vmem.mcbs index).state = .free) ∨
      (usedMcbs vmem).bind List.getLast? = some index
  freed : (after.mcbs index).state = .free
  counted : after.freeSize = add32 vmem.freeSize (vmem.mcbs index).size
  changed : after.freeSize ≠ vmem.freeSize

/-- The blocks partition the region, and `freeSize` is any word. -/
structure VmemLoose (vmem : ITHVmem) (entries : List McbEntry) : Prop where
  inv : VmemInv (vmem.withFreeSize (freeTotal entries)) entries
  positive : 0 < vmem.totalSize
  word : vmem.freeSize < 2 ^ 32

section WithFreeSize

variable (vmem : ITHVmem) (freeSize block : Nat)

theorem mergeNext_withFreeSize :
    mergeNext (vmem.withFreeSize freeSize) block =
      (mergeNext vmem block).withFreeSize freeSize := by
  have sameLinks : (vmem.withFreeSize freeSize).links = vmem.links := rfl
  unfold mergeNext
  rw [sameLinks]
  split
  · rw [apply_ite fun after : ITHVmem => after.withFreeSize freeSize]
    rfl
  · rfl

theorem mergePrev_withFreeSize :
    mergePrev (vmem.withFreeSize freeSize) block =
      (mergePrev vmem block).withFreeSize freeSize := by
  have sameLinks : (vmem.withFreeSize freeSize).links = vmem.links := rfl
  unfold mergePrev
  rw [sameLinks]
  split
  · rw [apply_ite fun after : ITHVmem => after.withFreeSize freeSize]
    rfl
  · rfl

theorem mergeBlock_withFreeSize :
    mergeBlock (vmem.withFreeSize freeSize) block =
      (mergeBlock vmem block).withFreeSize freeSize := by
  unfold mergeBlock
  dsimp only
  rw [mergeNext_withFreeSize, mergePrev_withFreeSize]
  rfl

theorem splitAround_withFreeSize (prevBlock nextBlock addr size : Nat) :
    splitAround (vmem.withFreeSize freeSize) block prevBlock nextBlock addr size =
      (splitAround vmem block prevBlock nextBlock addr size).withFreeSize freeSize := by
  unfold splitAround
  rw [← mergeBlock_withFreeSize]
  dsimp only [ITHVmem.withFreeSize, ITHVmem.setMcb]
  split <;> rfl

theorem splitBlock_withFreeSize (alignment size : Nat) :
    splitBlock (vmem.withFreeSize freeSize) block alignment size =
      ((splitBlock vmem block alignment size).1,
        (splitBlock vmem block alignment size).2.withFreeSize freeSize) := by
  have unused : ∀ fromIndex,
      getNextUnusedMCB (vmem.withFreeSize freeSize) fromIndex = getNextUnusedMCB vmem fromIndex :=
    fun fromIndex => rfl
  have sameMcbs : (vmem.withFreeSize freeSize).mcbs = vmem.mcbs := rfl
  unfold splitBlock
  dsimp only
  rw [sameMcbs, unused]
  split
  · rfl
  · split
    · cases getNextUnusedMCB vmem 0 with
      | none | some nextBlock => rfl
    · cases getNextUnusedMCB vmem 0 with
      | none => rfl
      | some prevBlock =>
        dsimp only
        rw [unused]
        cases getNextUnusedMCB vmem (prevBlock + 1) with
        | none => rfl
        | some nextBlock =>
          dsimp only
          rw [splitAround_withFreeSize]

theorem ithVmemAlignedAlloc_withFreeSize {vmem : ITHVmem}
    {alignment size addr : Nat} {counted : ITHVmem} (word : vmem.freeSize < 2 ^ 32)
    (answer :
      ithVmemAlignedAlloc (vmem.withFreeSize freeSize) alignment size = some (addr, counted)) :
    ∃ after,
      ithVmemAlignedAlloc vmem alignment size = some (addr, after) ∧ after.freeSize < 2 ^ 32 ∧
        after.withFreeSize counted.freeSize = counted := by
  unfold ithVmemAlignedAlloc at answer ⊢
  dsimp only at answer ⊢
  have sameTotal : (vmem.withFreeSize freeSize).totalSize = vmem.totalSize := rfl
  have sameUsed : usedMcbs (vmem.withFreeSize freeSize) = usedMcbs vmem := rfl
  rw [sameTotal] at answer
  split at answer
  · rename_i more
    rw [if_pos more]
    cases answer
    exact ⟨vmem, rfl, word, rfl⟩
  · rename_i notMore
    rw [if_neg notMore]
    rw [sameUsed] at answer
    cases used : usedMcbs vmem with
    | none =>
      rw [used] at answer
      cases answer
    | some indices =>
      rw [used, Option.map_some, Option.some_inj] at answer
      rw [Option.map_some]
      have sameSearch :
          indices.foldl (bestFitStep (vmem.withFreeSize freeSize) alignment (ithAlignUp size 32))
              none =
            indices.foldl (bestFitStep vmem alignment (ithAlignUp size 32)) none :=
        rfl
      rw [sameSearch] at answer
      cases search : indices.foldl (bestFitStep vmem alignment (ithAlignUp size 32)) none with
      | none =>
        rw [search] at answer
        cases answer
        exact ⟨vmem, rfl, word, rfl⟩
      | some bestBlock =>
        rw [search] at answer
        dsimp only at answer ⊢
        rw [splitBlock_withFreeSize] at answer
        have region := splitBlock_sameRegion vmem bestBlock alignment (ithAlignUp size 32)
        split at answer
        · rename_i failed
          rw [if_pos failed]
          cases answer
          exact ⟨_, rfl, region.freeSize ▸ word, rfl⟩
        · rename_i succeeded
          rw [if_neg succeeded]
          cases answer
          exact ⟨_, rfl, Nat.mod_lt _ (Nat.two_pow_pos 32), rfl⟩

end WithFreeSize

/-! ## What every call keeps -/

section Step

variable {vmem : ITHVmem} {entries : List McbEntry}

section

variable (loose : VmemLoose vmem entries)

include loose

theorem VmemLoose.used : usedMcbs vmem = some (entries.map Prod.fst) :=
  loose.inv.view.usedMcbs

theorem VmemLoose.stored {entry : McbEntry} (member : entry ∈ entries) :
    vmem.mcbs entry.1 = entry.2 :=
  loose.inv.view.stored entry member

theorem VmemLoose.alignedAlloc {alignment size : Nat} {after : ITHVmem}
    (call : vmemCall vmem (.alignedAlloc alignment size) = some after) :
    ∃ entries', VmemLoose after entries' := by
  rw [vmemCall, Option.ite_none_right_eq_some, Option.map_eq_some_iff] at call
  obtain ⟨⟨⟨bits, few, rfl⟩, positive, roundable⟩, ⟨addr, last⟩, answer, rfl⟩ := call
  obtain ⟨returned, counted, spec, result⟩ :=
    ithVmemAlignedAlloc_spec loose.inv few positive roundable
  obtain ⟨other, same, word, agree⟩ := ithVmemAlignedAlloc_withFreeSize _ loose.word spec
  cases same.symm.trans answer
  rcases result with ⟨-, unchanged⟩ | ⟨-, -, entries', index, inv, -, total, -⟩
  · have free : counted.freeSize = freeTotal entries := by
      rw [unchanged]
      rfl
    rw [free, unchanged] at agree
    have sameTotal := congrArg ITHVmem.totalSize agree
    refine ⟨entries, ?_, sameTotal ▸ loose.positive, word⟩
    rw [agree]
    exact loose.inv
  · have sameTotal := (congrArg ITHVmem.totalSize agree).trans total
    refine ⟨entries', ?_, sameTotal ▸ loose.positive, word⟩
    rw [← inv.free, agree]
    exact inv

theorem VmemLoose.found (addr : Nat) :
    ∃ entry ∈ entries,
      ((entries.map Prod.fst).find? fun index =>
            (vmem.mcbs index).addr = addr).or
          (entries.map Prod.fst).getLast? =
        some entry.1 ∧
      (entry.2.addr = addr ∨ (entries.map Prod.fst).getLast? = some entry.1) := by
  cases search : (entries.map Prod.fst).find? fun index => (vmem.mcbs index).addr = addr with
  | some index =>
    obtain ⟨entry, member, rfl⟩ := List.mem_map.mp (List.mem_of_find?_eq_some search)
    have here := List.find?_some search
    rw [decide_eq_true_eq, loose.stored member] at here
    exact ⟨entry, member, rfl, Or.inl here⟩
  | none =>
    have some : entries ≠ [] := by
      rintro rfl
      have tiles := loose.inv.tiles
      have positive := loose.positive
      change vmem.startAddr = vmem.startAddr + vmem.totalSize at tiles
      omega
    refine ⟨entries.getLast some, List.getLast_mem some, ?_, Or.inr ?_⟩
    · rw [Option.none_or, List.getLast?_map, List.getLast?_eq_some_getLast some]
      rfl
    · rw [List.getLast?_map, List.getLast?_eq_some_getLast some]
      rfl

theorem VmemLoose.free (addr : Nat) :
    ∃ entry ∈ entries, (entry.2.addr = addr ∨ (entries.map Prod.fst).getLast? = some entry.1) ∧
      ∃ after entries', ithVmemFree vmem addr = some after ∧ VmemLoose after entries' ∧
        (after.mcbs entry.1).state = .free ∧
        after.freeSize = add32 vmem.freeSize entry.2.size ∧
        after.freeSize ≠ vmem.freeSize := by
  obtain ⟨⟨index, mcb⟩, member, search, hit⟩ := loose.found addr
  have stored := loose.stored member
  have bounds := loose.inv.tiles.bounds member
  have small : vmem.totalSize < 2 ^ 30 := loose.inv.small
  have word := loose.word
  obtain ⟨freeSize, startAddr, totalSize⟩ := mergeBlock_freeSize vmem index
  refine ⟨(index, mcb), member, hit,
    (mergeBlock vmem index).withFreeSize (add32 (mergeBlock vmem index).freeSize mcb.size), ?_⟩
  obtain ⟨front, rest, rfl⟩ := List.append_of_mem member
  have around : Around vmem.startAddr (vmem.startAddr + vmem.totalSize) front (index, mcb) rest :=
    ⟨by omega, loose.inv.tiles, loose.inv.apart.left_of_append,
      loose.inv.apart.right_of_append.tail⟩
  obtain ⟨entries', view, tiles, apart, total, kept⟩ := mergeBlock_view loose.inv.view around
  rw [mergeBlock_withFreeSize] at view
  refine ⟨entries', ?_, ⟨?_, totalSize ▸ loose.positive, ?_⟩, ?_, ?_, ?_⟩
  · rw [ithVmemFree, loose.used, Option.map_some, search]
    simp only [stored]
    rfl
  · exact
      { notNull := startAddr ▸ loose.inv.notNull
        small := totalSize ▸ small
        inside := by
          show (mergeBlock vmem index).startAddr + (mergeBlock vmem index).totalSize ≤ 2 ^ 32
          rw [startAddr, totalSize]
          exact loose.inv.inside
        view := ⟨view.represents, view.stored, view.inRange, view.used, view.unused, view.count⟩
        tiles := by
          show BlockTiles (mergeBlock vmem index).startAddr entries'
            ((mergeBlock vmem index).startAddr + (mergeBlock vmem index).totalSize)
          rw [startAddr, totalSize]
          exact tiles
        apart := apart
        free := rfl }
  · exact Nat.mod_lt _ (Nat.two_pow_pos 32)
  · exact congrArg ITHVmemMcb.state (setMcb_self ..)
  · show add32 (mergeBlock vmem index).freeSize mcb.size = _
    rw [freeSize]
  · show add32 (mergeBlock vmem index).freeSize mcb.size ≠ _
    rw [freeSize]
    unfold add32
    change vmem.startAddr ≤ mcb.addr ∧ 0 < mcb.size ∧
      mcb.addr + mcb.size ≤ vmem.startAddr + vmem.totalSize at bounds
    omega

theorem VmemLoose.step {event : VmemEvent} {after : ITHVmem}
    (call : vmemCall vmem event = some after) :
    ∃ entries', VmemLoose after entries' := by
  cases event with
  | alignedAlloc alignment size => exact loose.alignedAlloc call
  | free addr =>
    obtain ⟨-, -, -, other, entries', freed, kept, -⟩ := loose.free addr
    cases freed.symm.trans call
    exact ⟨entries', kept⟩

end

end Step

/-- After any calls, freeing an address that no allocated block starts at frees
another block or counts a free one again: the state is never left alone. -/
theorem ithVmemFree_bad
    {startAddr totalSize : Nat} (notNull : 0 < startAddr) (positive : 0 < totalSize)
    (small : totalSize < 2 ^ 30) (inside : startAddr + totalSize ≤ 2 ^ 32)
    {events : List VmemEvent} {vmem : ITHVmem}
    (run : Run (Enabled vmemCall) (ithVmemInit startAddr totalSize) events vmem)
    {addr : Nat} (bad : ¬AllocatedAt vmem addr) :
    ∃ after index, ithVmemFree vmem addr = some after ∧ WrongBlockFreed vmem addr after index := by
  have loose : ∃ entries, VmemLoose vmem entries := by
    apply run.invariant
    · refine ⟨[(0, ⟨startAddr, totalSize, .free⟩)],
        ithVmemInit_inv notNull positive small inside, positive, ?_⟩
      show totalSize < 2 ^ 32
      omega
    · rintro before event after ⟨entries, loose⟩ step
      exact loose.step step
  obtain ⟨entries, loose⟩ := loose
  obtain ⟨entry, member, hit, after, -, freed, -, state, counted, changed⟩ := loose.free addr
  refine ⟨after, entry.1, freed, ?_, state, ?_, changed⟩
  · rcases hit with here | last
    · left
      rw [loose.stored member]
      refine ⟨here, ?_⟩
      have used := loose.inv.view.used entry member
      have notAllocated : entry.2.state ≠ .allocated := by
        intro allocated
        apply bad
        refine ⟨_, loose.used, entry.1, List.mem_map_of_mem member, ?_⟩
        rw [loose.stored member]
        exact ⟨here, allocated⟩
      cases state : entry.2.state with
      | unused => exact absurd state used
      | free => rfl
      | allocated => exact absurd state notAllocated
    · right
      rw [loose.used]
      exact last
  · rw [loose.stored member]
    exact counted

def vmemFullExample : List VmemEvent := [.alignedAlloc 32 100, .alignedAlloc 32 100]

theorem ithVmemFree_bad_full :
    ∃ vmem,
      vmemFullExample.foldlM vmemCall (ithVmemInit 64 256) = some vmem ∧
        ∃ after index,
          ithVmemFree vmem 100 = some after ∧ WrongBlockFreed vmem 100 after index := by
  have reached :
      ∃ vmem,
        vmemFullExample.foldlM vmemCall (ithVmemInit 64 256) = some vmem ∧ ¬AllocatedAt vmem 100 :=
    Run.exists_foldlM (fun vmem => ¬AllocatedAt vmem 100) (by decide +kernel)
  obtain ⟨vmem, folded, bad⟩ := reached
  exact ⟨vmem, folded,
    ithVmemFree_bad (by decide) (by decide) (by decide) (by decide) (Run.enabled_foldlM folded) bad⟩

/-- An address in the middle of the first block takes the second one away from
its owner. -/
theorem ithVmemFree_bad_lost :
    ∃ vmem,
      vmemFullExample.foldlM vmemCall (ithVmemInit 64 256) = some vmem ∧
        ¬AllocatedAt vmem 100 ∧ AllocatedAt vmem 192 ∧ vmem.freeSize = 0 ∧
        ∃ after ∈ ithVmemFree vmem 100, ¬AllocatedAt after 192 ∧ after.freeSize = 128 :=
  Run.exists_foldlM
    (fun vmem =>
      ¬AllocatedAt vmem 100 ∧ AllocatedAt vmem 192 ∧ vmem.freeSize = 0 ∧
        ∃ after ∈ ithVmemFree vmem 100, ¬AllocatedAt after 192 ∧ after.freeSize = 128)
    (by decide +kernel)

end

end IteSdk.Ith
