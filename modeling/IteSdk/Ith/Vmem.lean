import IteSdk.Ith.Align
import IteSdk.Ith.Utility
import IteSdk.Lib.Tiling
import Mathlib.Data.List.Chain
import Mathlib.Data.List.Perm.Subperm

/-!
# The video memory allocator

`ith_vmem.c` with `ITH_VMEM_BESTFIT`.  A memory control block is known by its
index in `mcbs`; its two list pointers are kept in `links`, beside those of
`usedMcbList`.
-/

namespace IteSdk.Ith

section

open Lib

def ithVmemMcbCount : Nat := 2048

inductive McbState
  | unused
  | free
  | allocated
  deriving DecidableEq

structure ITHVmemMcb where
  addr : Nat
  size : Nat
  state : McbState
  deriving DecidableEq

structure ITHVmem where
  startAddr : Nat
  totalSize : Nat
  mcbs : Nat → ITHVmemMcb
  usedMcbCount : Nat
  links : Links Nat
  freeSize : Nat

/-- What the bit field `size : 30` keeps. -/
def mcbSize (size : Nat) : Nat := size % 2 ^ 30

def ITHVmem.setMcb (vmem : ITHVmem) (index : Nat) (mcb : ITHVmemMcb) : ITHVmem :=
  { vmem with mcbs := Function.update vmem.mcbs index mcb }

/-- The two halves of `MergeBlock`: the sibling goes back to the pool. -/
def mergeSibling (vmem : ITHVmem) (block sibling addr : Nat) : ITHVmem :=
  let merged :=
    { vmem.mcbs block with
      addr := addr
      size := mcbSize ((vmem.mcbs block).size + (vmem.mcbs sibling).size) }
  let vmem := vmem.setMcb block merged
  let vmem := vmem.setMcb sibling { vmem.mcbs sibling with state := .unused }
  { vmem with
    links := ithListRemove vmem.links sibling
    usedMcbCount := vmem.usedMcbCount - 1 }

def mergeNext (vmem : ITHVmem) (block : Nat) : ITHVmem :=
  match vmem.links.next (.node block) with
  | .node sibling =>
    if (vmem.mcbs sibling).state = .free then
      mergeSibling vmem block sibling (vmem.mcbs block).addr
    else
      vmem
  | _ => vmem

def mergePrev (vmem : ITHVmem) (block : Nat) : ITHVmem :=
  match vmem.links.prev (.node block) with
  | .node sibling =>
    if (vmem.mcbs sibling).state = .free then
      mergeSibling vmem block sibling (vmem.mcbs sibling).addr
    else
      vmem
  | _ => vmem

def mergeBlock (vmem : ITHVmem) (block : Nat) : ITHVmem :=
  let vmem := mergePrev (mergeNext vmem block) block
  vmem.setMcb block { vmem.mcbs block with state := .free }

def getNextUnusedMCB (vmem : ITHVmem) (fromIndex : Nat) : Option Nat :=
  (List.range' fromIndex (ithVmemMcbCount - fromIndex)).find? fun index =>
    (vmem.mcbs index).state = .unused

/-- The last branch of `SplitBlock`, with both control blocks at hand. -/
def splitAround (vmem : ITHVmem) (block prevBlock nextBlock alignedAddr size : Nat) : ITHVmem :=
  let old := vmem.mcbs block
  let prevSize := mcbSize (sub32 alignedAddr old.addr)
  let nextSize := mcbSize (sub32 (sub32 old.size size) prevSize)
  let vmem := vmem.setMcb prevBlock ⟨old.addr, prevSize, .free⟩
  let vmem := vmem.setMcb nextBlock ⟨add32 alignedAddr size, nextSize, .free⟩
  let vmem := vmem.setMcb block ⟨alignedAddr, mcbSize size, .allocated⟩
  let vmem :=
    { vmem with
      links := ithListInsertBefore vmem.links block prevBlock
      usedMcbCount := vmem.usedMcbCount + 1 }
  let vmem :=
    if 0 < nextSize then
      { vmem with
        links := ithListInsertAfter vmem.links block nextBlock
        usedMcbCount := vmem.usedMcbCount + 1 }
    else
      vmem.setMcb nextBlock { vmem.mcbs nextBlock with state := .unused }
  mergeBlock vmem prevBlock

def splitBlock (vmem : ITHVmem) (block alignment size : Nat) : Nat × ITHVmem :=
  let old := vmem.mcbs block
  if old.size = size then
    (0, vmem.setMcb block ⟨old.addr, mcbSize size, .allocated⟩)
  else
    let alignedAddr := ithAlignUp old.addr alignment
    if alignedAddr = old.addr then
      match getNextUnusedMCB vmem 0 with
      | none => (101, vmem)
      | some nextBlock =>
        let vmem :=
          vmem.setMcb nextBlock ⟨add32 old.addr size, mcbSize (sub32 old.size size), .free⟩
        let vmem := vmem.setMcb block ⟨old.addr, mcbSize size, .allocated⟩
        (0,
          { vmem with
            links := ithListInsertAfter vmem.links block nextBlock
            usedMcbCount := vmem.usedMcbCount + 1 })
    else
      match getNextUnusedMCB vmem 0 with
      | none => (124, vmem)
      | some prevBlock =>
        match getNextUnusedMCB vmem (prevBlock + 1) with
        | none => (124, vmem)
        | some nextBlock =>
          (0, splitAround vmem block prevBlock nextBlock alignedAddr size)

/-- A static `ITHVmem`, all zero but for the region it is given. -/
def ithVmemInit (startAddr totalSize : Nat) : ITHVmem where
  startAddr := startAddr
  totalSize := totalSize
  mcbs := Function.update (fun _ => ⟨0, 0, .unused⟩) 0 ⟨startAddr, mcbSize totalSize, .free⟩
  usedMcbCount := 1
  links := ithListPushFront .cleared 0
  freeSize := totalSize

/-- The control blocks that a loop over `usedMcbList` comes to; `none` if the
list goes round. -/
def usedMcbs (vmem : ITHVmem) : Option (List Nat) :=
  vmem.links.visited (ithVmemMcbCount + 1) (vmem.links.next .list)

def bestFitStep (vmem : ITHVmem) (alignment size : Nat) (bestBlock : Option Nat)
    (index : Nat) : Option Nat :=
  let block := vmem.mcbs index
  if block.state = .allocated then
    bestBlock
  else if add32 size (sub32 (ithAlignUp block.addr alignment) block.addr) ≤ block.size then
    match bestBlock with
    | none => some index
    | some best =>
      if block.size < (vmem.mcbs best).size then some index else bestBlock
  else
    bestBlock

/-- The address returned and the new state; `none` if the loop does not end. -/
def ithVmemAlignedAlloc (vmem : ITHVmem) (alignment size : Nat) : Option (Nat × ITHVmem) :=
  let size := ithAlignUp size 32
  if vmem.totalSize < size then
    some (0, vmem)
  else
    (usedMcbs vmem).map fun indices =>
      match indices.foldl (bestFitStep vmem alignment size) none with
      | none => (0, vmem)
      | some bestBlock =>
        let split := splitBlock vmem bestBlock alignment size
        if split.1 ≠ 0 then
          (0, split.2)
        else
          ((split.2.mcbs bestBlock).addr,
            { split.2 with freeSize := sub32 split.2.freeSize size })

/-- A search that fails leaves `mcb` at the last control block of the list. -/
def ithVmemFree (vmem : ITHVmem) (addr : Nat) : Option ITHVmem :=
  (usedMcbs vmem).map fun indices =>
    match (indices.find? fun index => (vmem.mcbs index).addr = addr).or indices.getLast? with
    | none => vmem
    | some mcb =>
      let size := (vmem.mcbs mcb).size
      let vmem := mergeBlock vmem mcb
      { vmem with freeSize := add32 vmem.freeSize size }

end

/-!
# The blocks of the video memory allocator

An allocator state is seen as the list of its control blocks, each with its
index.  The functions of the source are followed on that list: what they do to
the pointers and to the pool is settled here once.
-/

section

open Lib Lib.Links

abbrev McbEntry := Nat × ITHVmemMcb

/-- `usedMcbList` runs through `entries`; every other control block is unused,
unless it has been taken from the pool and is not linked yet. -/
structure VmemView (vmem : ITHVmem) (reserved : List Nat)
    (entries : List McbEntry) : Prop where
  represents : vmem.links.Represents (entries.map Prod.fst)
  stored : ∀ entry ∈ entries, vmem.mcbs entry.1 = entry.2
  inRange : ∀ entry ∈ entries, entry.1 < ithVmemMcbCount
  used : ∀ entry ∈ entries, entry.2.state ≠ .unused
  unused :
    ∀ index, index < ithVmemMcbCount → index ∉ entries.map Prod.fst →
      index ∉ reserved → (vmem.mcbs index).state = .unused
  count : vmem.usedMcbCount = entries.length

section

variable (vmem : ITHVmem) (index : Nat) (mcb : ITHVmemMcb)

include vmem index mcb

@[simp] theorem setMcb_links : (vmem.setMcb index mcb).links = vmem.links := rfl

@[simp] theorem setMcb_usedMcbCount :
    (vmem.setMcb index mcb).usedMcbCount = vmem.usedMcbCount := rfl

theorem setMcb_self : (vmem.setMcb index mcb).mcbs index = mcb :=
  Function.update_self ..

end

theorem setMcb_of_ne {vmem : ITHVmem} {index other : Nat} {mcb : ITHVmemMcb}
    (different : other ≠ index) :
    (vmem.setMcb index mcb).mcbs other = vmem.mcbs other :=
  Function.update_of_ne different ..

namespace VmemView

variable {vmem : ITHVmem} {reserved : List Nat}
  {entries front rest : List McbEntry}
  {index : Nat} {mcb : ITHVmemMcb}

theorem length_lt (view : VmemView vmem reserved entries) :
    entries.length < ithVmemMcbCount + 1 := by
  have below : entries.map Prod.fst ⊆ List.range ithVmemMcbCount := by
    intro index member
    obtain ⟨entry, inside, rfl⟩ := List.mem_map.mp member
    exact List.mem_range.mpr (view.inRange entry inside)
  have fewer := (List.subperm_of_subset view.represents.nodup below).length_le
  rw [List.length_map, List.length_range] at fewer
  omega

theorem usedMcbs (view : VmemView vmem reserved entries) :
    usedMcbs vmem = some (entries.map Prod.fst) := by
  apply view.represents.visited
  rw [List.length_map]
  exact view.length_lt

theorem lookup (view : VmemView vmem reserved (front ++ (index, mcb) :: rest)) :
    vmem.mcbs index = mcb :=
  view.stored (index, mcb) (by simp)

theorem notMem_of_unused (view : VmemView vmem reserved entries)
    (unused : (vmem.mcbs index).state = .unused) :
    index ∉ entries.map Prod.fst := by
  intro member
  obtain ⟨entry, inside, rfl⟩ := List.mem_map.mp member
  rw [view.stored entry inside] at unused
  exact view.used entry inside unused

theorem fst_ne (view : VmemView vmem reserved (front ++ (index, mcb) :: rest))
    {entry : McbEntry} (member : entry ∈ front ++ rest) : entry.1 ≠ index := by
  have nodup := view.represents.nodup
  rw [List.map_append, List.map_cons] at nodup
  have fresh := (List.nodup_middle.mp nodup).notMem
  rw [← List.map_append] at fresh
  intro same
  exact fresh (List.mem_map.mpr ⟨entry, member, same⟩)

theorem set (view : VmemView vmem reserved (front ++ (index, mcb) :: rest))
    (new : ITHVmemMcb) (used : new.state ≠ .unused) :
    VmemView (vmem.setMcb index new) reserved (front ++ (index, new) :: rest) := by
  have sameIndices :
      (front ++ (index, new) :: rest).map Prod.fst =
        (front ++ (index, mcb) :: rest).map Prod.fst := by
    simp
  have cases : ∀ entry ∈ front ++ (index, new) :: rest,
      entry = (index, new) ∨ entry ∈ front ++ rest := by
    intro entry member
    rw [List.mem_append, List.mem_cons] at member
    rw [List.mem_append]
    tauto
  have old : ∀ entry ∈ front ++ rest, entry ∈ front ++ (index, mcb) :: rest := by
    intro entry member
    rw [List.mem_append] at member
    rw [List.mem_append, List.mem_cons]
    tauto
  refine
    { represents := sameIndices ▸ view.represents
      stored := ?_
      inRange := ?_
      used := ?_
      unused := ?_
      count := by simpa using view.count }
  · intro entry member
    rcases cases entry member with rfl | member
    · exact setMcb_self ..
    · rw [setMcb_of_ne (view.fst_ne member)]
      exact view.stored entry (old entry member)
  · intro entry member
    rcases cases entry member with rfl | member
    · exact view.inRange (index, mcb) (by simp)
    · exact view.inRange entry (old entry member)
  · intro entry member
    rcases cases entry member with rfl | member
    · exact used
    · exact view.used entry (old entry member)
  · intro other below absent free
    rw [sameIndices] at absent
    have different : other ≠ index := by
      rintro rfl
      exact absent (by simp)
    rw [setMcb_of_ne different]
    exact view.unused other below absent free

theorem reserve (view : VmemView vmem reserved entries)
    (outside : index ∉ entries.map Prod.fst) (new : ITHVmemMcb) (reserved' : List Nat)
    (kept : ∀ other ∈ reserved, other = index ∨ other ∈ reserved')
    (here : new.state = .unused ∨ index ∈ reserved') :
    VmemView (vmem.setMcb index new) reserved' entries where
  represents := view.represents
  stored := by
    intro entry member
    have different : entry.1 ≠ index := by
      rintro rfl
      exact outside (List.mem_map_of_mem member)
    rw [setMcb_of_ne different]
    exact view.stored entry member
  inRange := view.inRange
  used := view.used
  unused := by
    intro other below absent free
    by_cases same : other = index
    · subst same
      rw [setMcb_self]
      exact here.resolve_right free
    · rw [setMcb_of_ne same]
      apply view.unused other below absent
      intro member
      exact (kept other member).elim same free
  count := view.count

theorem link (view : VmemView vmem reserved (front ++ rest)) (below : index < ithVmemMcbCount)
    (stored : vmem.mcbs index = mcb) (used : mcb.state ≠ .unused) {reserved' : List Nat}
    (kept : ∀ other ∈ reserved, other = index ∨ other ∈ reserved') {links : Links Nat}
    (represents : links.Represents (front.map Prod.fst ++ index :: rest.map Prod.fst)) :
    VmemView { vmem with links := links, usedMcbCount := vmem.usedMcbCount + 1 }
      reserved' (front ++ (index, mcb) :: rest) := by
  have cases : ∀ entry ∈ front ++ (index, mcb) :: rest,
      entry = (index, mcb) ∨ entry ∈ front ++ rest := by
    intro entry member
    rw [List.mem_append, List.mem_cons] at member
    rw [List.mem_append]
    tauto
  refine
    { represents := ?_
      stored := ?_
      inRange := ?_
      used := ?_
      unused := ?_
      count := ?_ }
  · rw [List.map_append, List.map_cons]
    exact represents
  · intro entry member
    rcases cases entry member with rfl | member
    · exact stored
    · exact view.stored entry member
  · intro entry member
    rcases cases entry member with rfl | member
    · exact below
    · exact view.inRange entry member
  · intro entry member
    rcases cases entry member with rfl | member
    · exact used
    · exact view.used entry member
  · intro other inside absent free
    rw [List.map_append, List.map_cons, List.mem_append, List.mem_cons, not_or, not_or] at absent
    apply view.unused other inside
    · rw [List.map_append, List.mem_append, not_or]
      exact ⟨absent.1, absent.2.2⟩
    · intro member
      exact (kept other member).elim absent.2.1 free
  · simp only [view.count, List.length_append, List.length_cons]
    rfl

section

variable {node : Nat} {new : ITHVmemMcb}
  (view : VmemView vmem reserved (front ++ (index, mcb) :: rest)) (below : node < ithVmemMcbCount)
  (stored : vmem.mcbs node = new) (used : new.state ≠ .unused)
  (outside : node ∉ (front ++ (index, mcb) :: rest).map Prod.fst) (reserved' : List Nat)
  (kept : ∀ other ∈ reserved, other = node ∨ other ∈ reserved')

include view below stored used outside reserved' kept

theorem insertBefore :
    VmemView
      { vmem with
        links := ithListInsertBefore vmem.links index node
        usedMcbCount := vmem.usedMcbCount + 1 }
      reserved' (front ++ (node, new) :: (index, mcb) :: rest) := by
  apply view.link below stored used kept
  have represents := view.represents
  rw [List.map_append, List.map_cons] at represents outside
  exact ithListInsertBefore_represents represents outside

theorem insertAfter :
    VmemView
      { vmem with
        links := ithListInsertAfter vmem.links index node
        usedMcbCount := vmem.usedMcbCount + 1 }
      reserved' (front ++ (index, mcb) :: (node, new) :: rest) := by
  have represents := view.represents
  rw [List.map_append, List.map_cons] at represents outside
  have inserted := ithListInsertAfter_represents represents outside
  rw [List.append_cons] at view ⊢
  apply view.link below stored used kept
  rw [List.map_append, List.append_assoc]
  exact inserted

end

theorem unlink (view : VmemView vmem reserved (front ++ (index, mcb) :: rest))
    (new : ITHVmemMcb) (unused : new.state = .unused) :
    VmemView
      { vmem.setMcb index new with
        links := ithListRemove vmem.links index
        usedMcbCount := vmem.usedMcbCount - 1 }
      reserved (front ++ rest) := by
  have old : ∀ entry ∈ front ++ rest, entry ∈ front ++ (index, mcb) :: rest := by
    intro entry member
    rw [List.mem_append] at member
    rw [List.mem_append, List.mem_cons]
    tauto
  have represents := view.represents
  rw [List.map_append, List.map_cons] at represents
  refine
    { represents := ?_
      stored := ?_
      inRange := fun entry member => view.inRange entry (old entry member)
      used := fun entry member => view.used entry (old entry member)
      unused := ?_
      count := ?_ }
  · rw [List.map_append]
    exact ithListRemove_represents represents
  · intro entry member
    show (vmem.setMcb index new).mcbs entry.1 = entry.2
    rw [setMcb_of_ne (view.fst_ne member)]
    exact view.stored entry (old entry member)
  · intro other below absent free
    show ((vmem.setMcb index new).mcbs other).state = .unused
    by_cases same : other = index
    · subst same
      rw [setMcb_self]
      exact unused
    · rw [setMcb_of_ne same]
      apply view.unused other below _ free
      rw [List.map_append, List.mem_append, not_or] at absent
      rw [List.map_append, List.map_cons, List.mem_append, List.mem_cons, not_or, not_or]
      exact ⟨absent.1, same, absent.2⟩
  · have count := view.count
    simp only [List.length_append, List.length_cons] at count ⊢
    omega

end VmemView

end

/-!
# Merging blocks

`MergeBlock` joins a block with its free neighbours.  It keeps the tiling and
the allocated blocks, and no two free blocks are left next to each other.
-/

section

open Lib Lib.Links

/-- The blocks cover the addresses from `start` to `stop`, in order. -/
abbrev BlockTiles (start : Nat) (entries : List McbEntry) (stop : Nat) : Prop :=
  Tiles (fun entry : McbEntry => entry.2.addr) (fun entry => entry.2.size) start entries stop

def NoAdjacentFree (entries : List McbEntry) : Prop :=
  entries.IsChain fun left right => left.2.state = .free → right.2.state ≠ .free

def freeTotal : List McbEntry → Nat
  | [] => 0
  | entry :: rest =>
    (if entry.2.state = .free then entry.2.size else 0) + freeTotal rest

def allocatedEntries (entries : List McbEntry) : List McbEntry :=
  entries.filter fun entry => entry.2.state = .allocated

@[simp] theorem freeTotal_nil : freeTotal [] = 0 := rfl

@[simp] theorem freeTotal_cons (entry : McbEntry) (rest : List McbEntry) :
    freeTotal (entry :: rest) =
      (if entry.2.state = .free then entry.2.size else 0) + freeTotal rest :=
  rfl

@[simp] theorem freeTotal_append (front rest : List McbEntry) :
    freeTotal (front ++ rest) = freeTotal front + freeTotal rest := by
  induction front with
  | nil => simp
  | cons entry front ih =>
    rw [List.cons_append, freeTotal_cons, freeTotal_cons, ih, Nat.add_assoc]

theorem freeTotal_le {start stop : Nat} {entries : List McbEntry}
    (tiles : BlockTiles start entries stop) :
    start + freeTotal entries ≤ stop := by
  induction entries generalizing start with
  | nil => exact Nat.le_of_eq tiles
  | cons entry rest ih =>
    have restLe := ih tiles.2.2
    dsimp only at restLe
    rw [freeTotal_cons]
    split <;> omega

@[simp] theorem allocatedEntries_nil : allocatedEntries [] = [] := rfl

@[simp] theorem allocatedEntries_append (front rest : List McbEntry) :
    allocatedEntries (front ++ rest) = allocatedEntries front ++ allocatedEntries rest := by
  simp [allocatedEntries]

theorem allocatedEntries_cons_free {entry : McbEntry} (rest : List McbEntry)
    (free : entry.2.state = .free) :
    allocatedEntries (entry :: rest) = allocatedEntries rest := by
  simp [allocatedEntries, free]

theorem allocatedEntries_cons {entry : McbEntry} (rest : List McbEntry)
    (allocated : entry.2.state = .allocated) :
    allocatedEntries (entry :: rest) = entry :: allocatedEntries rest := by
  simp [allocatedEntries, allocated]

theorem mcbSize_of_lt {size : Nat} (small : size < 2 ^ 30) : mcbSize size = size :=
  Nat.mod_eq_of_lt small

structure Around (start stop : Nat) (front : List McbEntry) (block : McbEntry)
    (rest : List McbEntry) : Prop where
  small : stop < start + 2 ^ 30
  tiles : BlockTiles start (front ++ block :: rest) stop
  front : NoAdjacentFree front
  rest : NoAdjacentFree rest

variable {index sibling : Nat} {vmem : ITHVmem}

theorem mergeNext_eq (next : vmem.links.next (.node index) = .node sibling) :
    mergeNext vmem index =
      if (vmem.mcbs sibling).state = .free then
        mergeSibling vmem index sibling (vmem.mcbs index).addr
      else
        vmem := by
  rw [mergeNext, next]

theorem mergePrev_eq (prev : vmem.links.prev (.node index) = .node sibling) :
    mergePrev vmem index =
      if (vmem.mcbs sibling).state = .free then
        mergeSibling vmem index sibling (vmem.mcbs sibling).addr
      else
        vmem := by
  rw [mergePrev, prev]

variable {front rest : List McbEntry} {mcb other : ITHVmemMcb}

theorem mergeSibling_next {reserved : List Nat}
    (view : VmemView vmem reserved (front ++ (index, mcb) :: (sibling, other) :: rest)) (addr : Nat)
    (small : mcb.size + other.size < 2 ^ 30) :
    VmemView (mergeSibling vmem index sibling addr) reserved
      (front ++ (index, ⟨addr, mcb.size + other.size, mcb.state⟩) :: rest) := by
  have block := view.lookup
  have siblingBlock : vmem.mcbs sibling = other := view.stored (sibling, other) (by simp)
  have used : mcb.state ≠ .unused := view.used (index, mcb) (by simp)
  have merged := view.set ⟨addr, mcb.size + other.size, mcb.state⟩ used
  rw [List.append_cons] at merged
  have removed :=
    merged.unlink
      { (vmem.setMcb index
          ⟨addr, mcb.size + other.size, mcb.state⟩).mcbs sibling with
        state := .unused }
      rfl
  rw [← List.append_cons] at removed
  rw [mergeSibling, block, siblingBlock, mcbSize_of_lt small]
  exact removed

theorem mergeSibling_prev {reserved : List Nat}
    (view : VmemView vmem reserved (front ++ (sibling, other) :: (index, mcb) :: rest)) (addr : Nat)
    (small : mcb.size + other.size < 2 ^ 30) :
    VmemView (mergeSibling vmem index sibling addr) reserved
      (front ++ (index, ⟨addr, mcb.size + other.size, mcb.state⟩) :: rest) := by
  have block : vmem.mcbs index = mcb := view.stored (index, mcb) (by simp)
  have siblingBlock := view.lookup
  have used : mcb.state ≠ .unused := view.used (index, mcb) (by simp)
  rw [List.append_cons] at view
  have merged := view.set ⟨addr, mcb.size + other.size, mcb.state⟩ used
  rw [← List.append_cons] at merged
  have removed :=
    merged.unlink
      { (vmem.setMcb index
          ⟨addr, mcb.size + other.size, mcb.state⟩).mcbs sibling with
        state := .unused }
      rfl
  rw [mergeSibling, block, siblingBlock, mcbSize_of_lt small]
  exact removed

section Merge

variable {vmem : ITHVmem} {reserved : List Nat} {start stop : Nat}
  {front rest : List McbEntry} {index : Nat} {mcb : ITHVmemMcb}

section

variable (view : VmemView vmem reserved (front ++ (index, mcb) :: rest))
  (around : Around start stop front (index, mcb) rest)

include view around

theorem mergeNext_view :
    ∃ merged rest',
      VmemView (mergeNext vmem index) reserved (front ++ (index, merged) :: rest') ∧
        Around start stop front (index, merged) rest' ∧
        (∀ entry ∈ rest'.head?, entry.2.state ≠ .free) ∧
        merged.size + freeTotal rest' = mcb.size + freeTotal rest ∧
        allocatedEntries rest' = allocatedEntries rest := by
  have represents := view.represents
  rw [List.map_append, List.map_cons] at represents
  have next := represents.next_node
  cases rest with
  | nil =>
    have same : mergeNext vmem index = vmem := by
      rw [mergeNext, next]
      rfl
    rw [same]
    exact ⟨mcb, [], view, around, by simp, rfl, rfl⟩
  | cons sibling rest =>
    obtain ⟨siblingIndex, other⟩ := sibling
    have siblingBlock : vmem.mcbs siblingIndex = other :=
      view.stored (siblingIndex, other) (by simp)
    rw [mergeNext_eq next, siblingBlock]
    split
    · rename_i free
      obtain ⟨middle, frontTiles, here, positive, next, nextPositive,
        restTiles⟩ := tiles_append.mp around.tiles
      dsimp only at here positive next nextPositive restTiles
      have frontLe := frontTiles.le
      have restLe := restTiles.le
      have room := around.small
      have small : mcb.size + other.size < 2 ^ 30 := by omega
      rw [view.lookup]
      refine ⟨⟨mcb.addr, mcb.size + other.size, mcb.state⟩, rest,
        mergeSibling_next view mcb.addr small,
        ⟨around.small, ?_, around.front, around.rest.tail⟩, ?_, ?_, ?_⟩
      · refine tiles_append.mpr ⟨middle, frontTiles, here, by dsimp only; omega, ?_⟩
        rw [← Nat.add_assoc]
        exact restTiles
      · intro entry head
        cases rest with
        | nil => cases head
        | cons entry' rest =>
          cases head
          exact around.rest.rel_head? (List.head?_cons ..) free
      · rw [freeTotal_cons, if_pos free, Nat.add_assoc]
      · exact (allocatedEntries_cons_free rest free).symm
    · rename_i notFree
      refine ⟨mcb, _, view, around, ?_, rfl, rfl⟩
      intro entry head
      cases head
      exact notFree

theorem mergePrev_view :
    ∃ merged front',
      VmemView (mergePrev vmem index) reserved (front' ++ (index, merged) :: rest) ∧
        Around start stop front' (index, merged) rest ∧
        (∀ entry ∈ front'.getLast?, entry.2.state ≠ .free) ∧
        merged.size + freeTotal front' = mcb.size + freeTotal front ∧
        allocatedEntries front' = allocatedEntries front := by
  have represents := view.represents
  rw [List.map_append, List.map_cons] at represents
  have prev := represents.prev_node
  rcases List.eq_nil_or_concat front with rfl | ⟨front, sibling, rfl⟩
  · have same : mergePrev vmem index = vmem := by
      rw [mergePrev, prev]
      rfl
    rw [same]
    exact ⟨mcb, [], view, around, by simp, rfl, rfl⟩
  · obtain ⟨siblingIndex, other⟩ := sibling
    rw [List.concat_eq_append] at view around prev ⊢
    rw [List.map_append, last_append] at prev
    rw [← List.append_cons] at view
    have siblingBlock := view.lookup
    rw [mergePrev_eq prev, siblingBlock]
    split
    · rename_i free
      have tiles := around.tiles
      rw [← List.append_cons] at tiles
      obtain ⟨middle, frontTiles, prevHere, prevPositive, here, positive,
        restTiles⟩ := tiles_append.mp tiles
      dsimp only at prevHere prevPositive here positive restTiles
      have frontLe := frontTiles.le
      have restLe := restTiles.le
      have room := around.small
      have small : mcb.size + other.size < 2 ^ 30 := by omega
      refine ⟨⟨other.addr, mcb.size + other.size, mcb.state⟩, front,
        mergeSibling_prev view other.addr small,
        ⟨around.small, ?_, around.front.left_of_append, around.rest⟩, ?_, ?_,
        ?_⟩
      · refine tiles_append.mpr ⟨middle, frontTiles, prevHere, by dsimp only; omega, ?_⟩
        rw [Nat.add_comm mcb.size, ← Nat.add_assoc]
        exact restTiles
      · intro entry last lastFree
        exact (List.isChain_append.mp around.front).2.2 entry last _
          (List.head?_cons ..) lastFree free
      · rw [freeTotal_append, freeTotal_cons, if_pos free, freeTotal_nil]
        dsimp only
        omega
      · rw [allocatedEntries_append, allocatedEntries_cons_free [] free,
          allocatedEntries_nil, List.append_nil]
    · rename_i notFree
      rw [List.append_cons] at view
      refine ⟨mcb, _, view, around, ?_, rfl, rfl⟩
      intro entry last
      rw [List.getLast?_concat] at last
      cases last
      exact notFree

theorem mergeBlock_view :
    ∃ entries,
      VmemView (mergeBlock vmem index) reserved entries ∧
        BlockTiles start entries stop ∧ NoAdjacentFree entries ∧
        freeTotal entries = freeTotal front + mcb.size + freeTotal rest ∧
        allocatedEntries entries = allocatedEntries front ++ allocatedEntries rest := by
  obtain ⟨first, rest', view, around, headNotFree, restTotal, restAllocated⟩ :=
    mergeNext_view view around
  obtain ⟨second, front', view, around, lastNotFree, frontTotal,
    frontAllocated⟩ := mergePrev_view view around
  have block := view.lookup
  refine ⟨front' ++ (index, { second with state := .free }) :: rest', ?_, ?_, ?_, ?_, ?_⟩
  · rw [mergeBlock, block]
    exact view.set _ nofun
  · have tiles :
        BlockTiles start (front' ++ ([(index, second)] ++ rest')) stop :=
      around.tiles
    have replaced :
        BlockTiles start (front' ++ ([(index, { second with state := .free })] ++ rest')) stop :=
      tiles.replace fun _ _ same => same
    exact replaced
  · refine List.isChain_append.mpr ⟨around.front, ?_, ?_⟩
    · rw [List.isChain_cons]
      exact ⟨fun entry head _ => headNotFree entry head, around.rest⟩
    · intro entry last other _ free
      exact absurd free (lastNotFree entry last)
  · rw [freeTotal_append, freeTotal_cons, if_pos rfl]
    dsimp only
    omega
  · rw [allocatedEntries_append, allocatedEntries_cons_free rest' rfl,
      frontAllocated, restAllocated]

end

end Merge

theorem mergeNext_freeSize (vmem : ITHVmem) (index : Nat) :
    (mergeNext vmem index).freeSize = vmem.freeSize ∧
      (mergeNext vmem index).startAddr = vmem.startAddr ∧
        (mergeNext vmem index).totalSize = vmem.totalSize := by
  unfold mergeNext
  split
  · split <;> exact ⟨rfl, rfl, rfl⟩
  · exact ⟨rfl, rfl, rfl⟩

theorem mergePrev_freeSize (vmem : ITHVmem) (index : Nat) :
    (mergePrev vmem index).freeSize = vmem.freeSize ∧
      (mergePrev vmem index).startAddr = vmem.startAddr ∧
        (mergePrev vmem index).totalSize = vmem.totalSize := by
  unfold mergePrev
  split
  · split <;> exact ⟨rfl, rfl, rfl⟩
  · exact ⟨rfl, rfl, rfl⟩

theorem mergeBlock_freeSize (vmem : ITHVmem) (index : Nat) :
    (mergeBlock vmem index).freeSize = vmem.freeSize ∧
      (mergeBlock vmem index).startAddr = vmem.startAddr ∧
        (mergeBlock vmem index).totalSize = vmem.totalSize := by
  have first := mergeNext_freeSize vmem index
  have second := mergePrev_freeSize (mergeNext vmem index) index
  exact ⟨second.1.trans first.1, second.2.1.trans first.2.1, second.2.2.trans first.2.2⟩

end

end IteSdk.Ith
