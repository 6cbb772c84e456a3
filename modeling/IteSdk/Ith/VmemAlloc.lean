import IteSdk.Ith.Vmem

/-!
# Allocating and freeing video memory

What `ithVmemAlignedAlloc` and `ithVmemFree` do to the blocks: an allocation cuts
its block out of a free one, or leaves everything as it was.
-/

namespace IteSdk.Ith

open Lib Lib.Links

/-- A free block passes the test of the search only if the rounded address and
the size fit into it. -/
theorem fits_of_test {bits addr blockSize size : Nat} (few : bits < 32)
    (inside : addr + blockSize ≤ 2 ^ 32) (positive : 0 < size)
    (small : size < 2 ^ 30) (blockPositive : 0 < blockSize)
    (test : add32 size (sub32 (ithAlignUp addr (2 ^ bits)) addr) ≤ blockSize) :
    addr ≤ ithAlignUp addr (2 ^ bits) ∧
      ithAlignUp addr (2 ^ bits) + size ≤ addr + blockSize ∧
        2 ^ bits ∣ ithAlignUp addr (2 ^ bits) := by
  have half : 2 ^ bits ≤ 2 ^ 31 := Nat.pow_le_pow_right (by decide) (by omega)
  have one : 0 < 2 ^ bits := Nat.two_pow_pos bits
  rcases Nat.lt_or_ge (addr + (2 ^ bits - 1)) (2 ^ 32) with fits | overflow
  · obtain ⟨le, less, multiple⟩ := ithAlignUp_spec few fits
    refine ⟨le, ?_, multiple⟩
    rw [sub32_of_le (by omega) le, add32_of_lt (by omega)] at test
    omega
  · rw [ithAlignUp_overflow few (by omega) overflow] at test
    unfold sub32 add32 at test
    omega

def FreePiece (entries : List McbEntry) : Prop :=
  entries = [] ∨ ∃ entry : McbEntry, entries = [entry] ∧ entry.2.state = .free

variable {entries : List McbEntry}

theorem FreePiece.allocated (piece : FreePiece entries) : allocatedEntries entries = [] := by
  rcases piece with rfl | ⟨entry, rfl, free⟩
  · rfl
  · exact allocatedEntries_cons_free [] free

theorem FreePiece.apart (piece : FreePiece entries) : NoAdjacentFree entries := by
  rcases piece with rfl | ⟨entry, rfl, free⟩
  · exact List.isChain_nil
  · exact List.isChain_singleton entry

/-- What the blocks are after `pieces` took the place of a free block. -/
structure Carved (start stop : Nat) (before entries : List McbEntry)
    (index : Nat) (addr size : Nat) : Prop where
  tiles : BlockTiles start entries stop
  apart : NoAdjacentFree entries
  free : freeTotal before = freeTotal entries + size
  allocated :
    ∃ front rest,
      allocatedEntries before = front ++ rest ∧
        allocatedEntries entries = front ++ (index, ⟨addr, size, .allocated⟩) :: rest

section Carve

variable {start stop index addr size : Nat} {mcb : ITHVmemMcb}
  {front prevs nexts rest : List McbEntry}

/-- A free block is replaced by the block allocated from it and the free pieces
on the two sides. -/
theorem carve (tiles : BlockTiles start (front ++ (index, mcb) :: rest) stop)
    (apart : NoAdjacentFree (front ++ (index, mcb) :: rest)) (free : mcb.state = .free)
    (prevPiece : FreePiece prevs) (nextPiece : FreePiece nexts)
    (pieces :
      BlockTiles mcb.addr (prevs ++ (index, ⟨addr, size, .allocated⟩) :: nexts)
        (mcb.addr + mcb.size))
    (total : mcb.size = freeTotal prevs + size + freeTotal nexts) :
    Carved start stop (front ++ (index, mcb) :: rest)
      (front ++ (prevs ++ (index, ⟨addr, size, .allocated⟩) :: nexts) ++ rest)
      index addr size where
  tiles := by
    have before : BlockTiles start (front ++ ([(index, mcb)] ++ rest)) stop := tiles
    rw [List.append_assoc]
    apply before.replace
    rintro lower upper ⟨rfl, -, rfl⟩
    exact pieces
  apart := by
    obtain ⟨frontApart, blockApart, joint⟩ := List.isChain_append.mp apart
    obtain ⟨restHead, restApart⟩ := List.isChain_cons.mp blockApart
    have frontLast : ∀ entry ∈ front.getLast?, entry.2.state ≠ .free := by
      intro entry last lastFree
      exact joint entry last _ (List.head?_cons ..) lastFree free
    have nextChain :
        NoAdjacentFree ((index, ⟨addr, size, .allocated⟩) :: nexts ++ rest) := by
      refine List.isChain_append.mpr ⟨?_, restApart, ?_⟩
      · exact List.isChain_cons.mpr ⟨fun _ _ allocated => absurd allocated nofun, nextPiece.apart⟩
      · intro _ _ entry head _
        exact restHead entry head free
    rw [List.append_assoc, List.append_assoc]
    refine List.isChain_append.mpr ⟨frontApart, ?_, ?_⟩
    · refine List.isChain_append.mpr ⟨prevPiece.apart, nextChain, ?_⟩
      intro entry _ other head _
      cases head
      exact nofun
    · intro entry last other _ lastFree
      exact absurd lastFree (frontLast entry last)
  free := by
    simp only [freeTotal_append, freeTotal_cons, free, if_true, reduceCtorEq, if_false]
    omega
  allocated := by
    refine ⟨allocatedEntries front, allocatedEntries rest, ?_, ?_⟩
    · rw [allocatedEntries_append, allocatedEntries_cons_free rest free]
    · simp only [allocatedEntries_append]
      rw [allocatedEntries_cons nexts rfl, prevPiece.allocated,
        nextPiece.allocated, List.nil_append, List.append_assoc]
      rfl

end Carve

theorem getNextUnusedMCB_spec {vmem : ITHVmem} {fromIndex index : Nat}
    (found : getNextUnusedMCB vmem fromIndex = some index) :
    fromIndex ≤ index ∧ index < ithVmemMcbCount ∧ (vmem.mcbs index).state = .unused := by
  have unused := List.find?_some found
  have member := List.mem_of_find?_eq_some found
  rw [List.mem_range'_1] at member
  exact ⟨member.1, by omega, by simpa using unused⟩

variable {mcb : ITHVmemMcb}

theorem mergeBlock_carved {vmem : ITHVmem} {start stop : Nat} {before front rest : List McbEntry}
    {index block addr size : Nat} (small : stop < start + 2 ^ 30)
    (view : VmemView vmem [] (front ++ (block, mcb) :: rest))
    (carved : Carved start stop before (front ++ (block, mcb) :: rest) index addr size)
    (free : mcb.state = .free) :
    ∃ entries,
      VmemView (mergeBlock vmem block) [] entries ∧
        Carved start stop before entries index addr size := by
  have around : Around start stop front (block, mcb) rest :=
    ⟨small, carved.tiles, carved.apart.left_of_append, carved.apart.right_of_append.tail⟩
  obtain ⟨entries, merged, tiles, apart, total, allocated⟩ := mergeBlock_view view around
  obtain ⟨first, second, old, new⟩ := carved.allocated
  refine ⟨entries, merged, tiles, apart, ?_, first, second, old, ?_⟩
  · rw [carved.free, total, freeTotal_append, freeTotal_cons, if_pos free,
      ← Nat.add_assoc (freeTotal front)]
  · rw [← new, allocated, allocatedEntries_append, allocatedEntries_cons_free rest free]

section Split

variable {vmem : ITHVmem} {start stop index alignment size : Nat}
  {front rest : List McbEntry} {mcb : ITHVmemMcb}

section

variable (view : VmemView vmem [] (front ++ (index, mcb) :: rest))
  (tiles : BlockTiles start (front ++ (index, mcb) :: rest) stop)
  (apart : NoAdjacentFree (front ++ (index, mcb) :: rest)) (free : mcb.state = .free)
  (small : stop < start + 2 ^ 30) (inside : stop ≤ 2 ^ 32) (positive : 0 < size)

include view tiles apart free small inside positive

theorem splitAround_spec {addr : Nat} (behind : mcb.addr < addr)
    (fits : addr + size ≤ mcb.addr + mcb.size) {prevBlock nextBlock : Nat}
    (prevBelow : prevBlock < ithVmemMcbCount) (nextBelow : nextBlock < ithVmemMcbCount)
    (different : prevBlock ≠ nextBlock) (prevUnused : (vmem.mcbs prevBlock).state = .unused)
    (nextUnused : (vmem.mcbs nextBlock).state = .unused) :
    ∃ entries,
      VmemView (splitAround vmem index prevBlock nextBlock addr size) [] entries ∧
        Carved start stop (front ++ (index, mcb) :: rest) entries index addr size := by
  have member : (index, mcb) ∈ front ++ (index, mcb) :: rest := by simp
  have bounds := tiles.bounds member
  dsimp only at bounds
  have prevOutside := view.notMem_of_unused prevUnused
  have nextOutside := view.notMem_of_unused nextUnused
  have indexInside :
      index ∈ (front ++ (index, mcb) :: rest).map Prod.fst := by
    simp
  have prevNe : prevBlock ≠ index := by
    rintro rfl
    exact prevOutside indexInside
  have nextNe : nextBlock ≠ index := by
    rintro rfl
    exact nextOutside indexInside
  have prevSize : mcbSize (sub32 addr mcb.addr) = addr - mcb.addr := by
    rw [sub32_of_le (by omega) (by omega), mcbSize_of_lt (by omega)]
  have remaining : sub32 mcb.size size = mcb.size - size := sub32_of_le (by omega) (by omega)
  have nextSize :
      mcbSize (sub32 (sub32 mcb.size size) (addr - mcb.addr)) =
        mcb.size - size - (addr - mcb.addr) := by
    rw [remaining, sub32_of_le (by omega) (by omega), mcbSize_of_lt (by omega)]
  have ownSize : mcbSize size = size := mcbSize_of_lt (by omega)
  have prevTaken :=
    view.reserve prevOutside ⟨mcb.addr, addr - mcb.addr, .free⟩ [prevBlock] (by simp) (by simp)
  have bothTaken :=
    prevTaken.reserve nextOutside ⟨add32 addr size, mcb.size - size - (addr - mcb.addr), .free⟩
      [prevBlock, nextBlock] (by simp) (by simp)
  have cut := bothTaken.set ⟨addr, size, .allocated⟩ nofun
  have prevStored :
      (((vmem.setMcb prevBlock ⟨mcb.addr, addr - mcb.addr, .free⟩).setMcb nextBlock
        ⟨add32 addr size, mcb.size - size - (addr - mcb.addr), .free⟩).setMcb
          index ⟨addr, size, .allocated⟩).mcbs prevBlock =
        ⟨mcb.addr, addr - mcb.addr, .free⟩ := by
    rw [setMcb_of_ne prevNe, setMcb_of_ne different, setMcb_self]
  have linked :=
    cut.insertBefore prevBelow prevStored nofun (by simpa using prevOutside) [nextBlock] (by simp)
  have pieces :
      ∀ nexts, FreePiece nexts → BlockTiles (addr + size) nexts (mcb.addr + mcb.size) →
        freeTotal nexts = mcb.size - size - (addr - mcb.addr) →
          Carved start stop (front ++ (index, mcb) :: rest)
            (front ++
                ([(prevBlock, ⟨mcb.addr, addr - mcb.addr, .free⟩)] ++
                  (index, ⟨addr, size, .allocated⟩) :: nexts) ++
              rest)
            index addr size := by
    intro nexts piece nextTiles total
    apply carve tiles apart free (Or.inr ⟨_, rfl, rfl⟩) piece
    · refine ⟨rfl, Nat.sub_pos_of_lt behind, ?_, positive, ?_⟩
      · exact (Nat.add_sub_cancel' (Nat.le_of_lt behind)).symm
      · dsimp only
        rw [Nat.add_sub_cancel' (Nat.le_of_lt behind)]
        exact nextTiles
    · rw [total]
      simp only [freeTotal_cons, if_true, freeTotal_nil]
      omega
  unfold splitAround
  simp only [view.lookup, prevSize, nextSize, ownSize]
  split
  · rename_i room
    have nextAddr : add32 addr size = addr + size := add32_of_lt (by omega)
    have nextStored :
        (((vmem.setMcb prevBlock ⟨mcb.addr, addr - mcb.addr, .free⟩).setMcb nextBlock
          ⟨add32 addr size, mcb.size - size - (addr - mcb.addr),
            .free⟩).setMcb index ⟨addr, size, .allocated⟩).mcbs nextBlock =
          ⟨add32 addr size, mcb.size - size - (addr - mcb.addr), .free⟩ := by
      rw [setMcb_of_ne nextNe, setMcb_self]
    rw [List.append_cons] at linked
    have both :=
      linked.insertAfter nextBelow nextStored nofun
        (by simpa [different.symm, nextNe] using nextOutside) [] (by simp)
    rw [← List.append_cons] at both
    have carved := pieces [(nextBlock, ⟨addr + size, mcb.size - size - (addr - mcb.addr), .free⟩)]
      (Or.inr ⟨_, rfl, rfl⟩)
      ⟨rfl, room, by show _ + _ + _ = _; dsimp only; omega⟩ (by simp)
    rw [← nextAddr, List.append_assoc] at carved
    exact mergeBlock_carved small both carved rfl
  · rename_i full
    have carved := pieces [] (Or.inl rfl) (by show addr + size = _; omega) (by simp; omega)
    rw [List.append_assoc] at carved
    refine mergeBlock_carved small (linked.reserve ?_ _ [] (by simp) (Or.inl ?_)) carved rfl
    · simpa [different.symm, nextNe] using nextOutside
    · rfl

/-- `SplitBlock` of a free block that is large enough fails without touching
anything, or cuts the block out of it. -/
theorem splitBlock_spec (behind : mcb.addr ≤ ithAlignUp mcb.addr alignment)
    (fits : ithAlignUp mcb.addr alignment + size ≤ mcb.addr + mcb.size) :
    ((splitBlock vmem index alignment size).1 ≠ 0 ∧
        (splitBlock vmem index alignment size).2 = vmem) ∨
      ((splitBlock vmem index alignment size).1 = 0 ∧
        ∃ entries,
          VmemView (splitBlock vmem index alignment size).2 [] entries ∧
            Carved start stop (front ++ (index, mcb) :: rest) entries index
              (ithAlignUp mcb.addr alignment) size) := by
  have member : (index, mcb) ∈ front ++ (index, mcb) :: rest := by simp
  have bounds := tiles.bounds member
  dsimp only at bounds
  have ownSize : mcbSize size = size := mcbSize_of_lt (by omega)
  unfold splitBlock
  simp only [view.lookup, ownSize]
  split
  · rename_i whole
    right
    have here : ithAlignUp mcb.addr alignment = mcb.addr := by omega
    have carved : Carved start stop (front ++ (index, mcb) :: rest)
        (front ++ ([] ++ (index, ⟨mcb.addr, size, .allocated⟩) :: []) ++ rest)
        index mcb.addr size := by
      apply carve tiles apart free (Or.inl rfl) (Or.inl rfl)
      · exact ⟨rfl, positive, by rw [whole]; rfl⟩
      · simp [whole]
    rw [List.append_assoc] at carved
    rw [here]
    exact ⟨rfl, _, view.set ⟨mcb.addr, size, .allocated⟩ nofun, carved⟩
  · rename_i larger
    split
    · rename_i here
      cases found : getNextUnusedMCB vmem 0 with
      | none => exact Or.inl ⟨(by decide : 101 ≠ 0), rfl⟩
      | some nextBlock =>
        right
        obtain ⟨-, below, unused⟩ := getNextUnusedMCB_spec found
        have outside := view.notMem_of_unused unused
        have different : nextBlock ≠ index := by
          rintro rfl
          exact outside (by simp)
        have nextAddr : add32 mcb.addr size = mcb.addr + size := add32_of_lt (by omega)
        have nextSize : mcbSize (sub32 mcb.size size) = mcb.size - size := by
          rw [sub32_of_le (by omega) (by omega), mcbSize_of_lt (by omega)]
        have carved : Carved start stop (front ++ (index, mcb) :: rest)
            (front ++
                ([] ++ (index, ⟨mcb.addr, size, .allocated⟩) ::
                  [(nextBlock, ⟨mcb.addr + size, mcb.size - size, .free⟩)]) ++
              rest)
            index mcb.addr size := by
          apply carve tiles apart free (Or.inl rfl) (Or.inr ⟨_, rfl, rfl⟩)
          · exact ⟨rfl, positive, rfl, by dsimp only; omega,
              by show _ + _ + _ = _; dsimp only; omega⟩
          · simp only [freeTotal_nil, freeTotal_cons, if_true]
            omega
        rw [List.append_assoc] at carved
        have taken :=
          view.reserve outside ⟨mcb.addr + size, mcb.size - size, .free⟩
            [nextBlock] (by simp) (by simp)
        have cut := taken.set ⟨mcb.addr, size, .allocated⟩ nofun
        have stored :
            ((vmem.setMcb nextBlock
              ⟨mcb.addr + size, mcb.size - size, .free⟩).setMcb index
                ⟨mcb.addr, size, .allocated⟩).mcbs nextBlock =
              ⟨mcb.addr + size, mcb.size - size, .free⟩ := by
          rw [setMcb_of_ne different, setMcb_self]
        have linked :=
          cut.insertAfter below stored nofun (by simpa using outside) []
            (by simp)
        rw [here]
        simp only [nextAddr, nextSize]
        exact ⟨trivial, _, linked, carved⟩
    · rename_i elsewhere
      cases first : getNextUnusedMCB vmem 0 with
      | none => exact Or.inl ⟨(by decide : 124 ≠ 0), rfl⟩
      | some prevBlock =>
        dsimp only
        cases second : getNextUnusedMCB vmem (prevBlock + 1) with
        | none => exact Or.inl ⟨(by decide : 124 ≠ 0), rfl⟩
        | some nextBlock =>
          right
          obtain ⟨-, prevBelow, prevUnused⟩ := getNextUnusedMCB_spec first
          obtain ⟨later, nextBelow, nextUnused⟩ := getNextUnusedMCB_spec second
          exact ⟨rfl, splitAround_spec view tiles apart free small inside
            positive (by omega) fits prevBelow nextBelow (by omega)
            prevUnused nextUnused⟩

end

end Split

/-! ## The allocator -/

structure SameRegion (vmem vmem' : ITHVmem) : Prop where
  startAddr : vmem'.startAddr = vmem.startAddr
  totalSize : vmem'.totalSize = vmem.totalSize
  freeSize : vmem'.freeSize = vmem.freeSize

theorem SameRegion.merge {vmem vmem' : ITHVmem} (same : SameRegion vmem vmem') (block : Nat) :
    SameRegion vmem (mergeBlock vmem' block) := by
  obtain ⟨freeSize, startAddr, totalSize⟩ := mergeBlock_freeSize vmem' block
  exact ⟨startAddr.trans same.startAddr, totalSize.trans same.totalSize,
    freeSize.trans same.freeSize⟩

theorem splitAround_sameRegion (vmem : ITHVmem) (block prevBlock nextBlock addr size : Nat) :
    SameRegion vmem (splitAround vmem block prevBlock nextBlock addr size) := by
  unfold splitAround
  dsimp only
  split
  · apply SameRegion.merge
    exact ⟨rfl, rfl, rfl⟩
  · apply SameRegion.merge
    exact ⟨rfl, rfl, rfl⟩

theorem splitBlock_sameRegion (vmem : ITHVmem) (block alignment size : Nat) :
    SameRegion vmem (splitBlock vmem block alignment size).2 := by
  unfold splitBlock
  dsimp only
  split
  · exact ⟨rfl, rfl, rfl⟩
  · split
    · cases getNextUnusedMCB vmem 0 with
      | none | some nextBlock => exact ⟨rfl, rfl, rfl⟩
    · cases getNextUnusedMCB vmem 0 with
      | none => exact ⟨rfl, rfl, rfl⟩
      | some prevBlock =>
        dsimp only
        cases getNextUnusedMCB vmem (prevBlock + 1) with
        | none => exact ⟨rfl, rfl, rfl⟩
        | some nextBlock => exact splitAround_sameRegion ..

structure VmemInv (vmem : ITHVmem) (entries : List McbEntry) : Prop where
  notNull : 0 < vmem.startAddr
  small : vmem.totalSize < 2 ^ 30
  inside : vmem.startAddr + vmem.totalSize ≤ 2 ^ 32
  view : VmemView vmem [] entries
  tiles : BlockTiles vmem.startAddr entries (vmem.startAddr + vmem.totalSize)
  apart : NoAdjacentFree entries
  free : vmem.freeSize = freeTotal entries

def Suits (vmem : ITHVmem) (alignment size index : Nat) : Prop :=
  (vmem.mcbs index).state ≠ .allocated ∧
    add32 size (sub32 (ithAlignUp (vmem.mcbs index).addr alignment) (vmem.mcbs index).addr) ≤
      (vmem.mcbs index).size

variable {vmem : ITHVmem}

variable {bestBlock : Option Nat}

theorem bestFitStep_cases {alignment size index found : Nat}
    (step : bestFitStep vmem alignment size bestBlock index = some found) :
    (found = index ∧ Suits vmem alignment size index) ∨ bestBlock = some found := by
  unfold bestFitStep at step
  dsimp only at step
  split at step
  · exact Or.inr step
  · rename_i notAllocated
    split at step
    · rename_i fits
      cases bestBlock with
      | none =>
        left
        cases step
        exact ⟨rfl, notAllocated, fits⟩
      | some best =>
        dsimp only at step
        split at step
        · left
          cases step
          exact ⟨rfl, notAllocated, fits⟩
        · exact Or.inr step
    · exact Or.inr step

theorem bestFit_spec {alignment size found : Nat} {indices : List Nat}
    (result : indices.foldl (bestFitStep vmem alignment size) bestBlock = some found) :
    (found ∈ indices ∧ Suits vmem alignment size found) ∨ bestBlock = some found := by
  induction indices generalizing bestBlock with
  | nil => exact Or.inr result
  | cons index rest ih =>
    rcases ih result with ⟨member, suits⟩ | step
    · exact Or.inl ⟨List.mem_cons_of_mem index member, suits⟩
    · rcases bestFitStep_cases step with ⟨rfl, suits⟩ | before
      · exact Or.inl ⟨List.mem_cons_self, suits⟩
      · exact Or.inr before

/-- An allocation leaves everything as it was, or cuts a new block out of a free
one. -/
theorem ithVmemAlignedAlloc_spec (inv : VmemInv vmem entries) {bits size : Nat} (few : bits < 32)
    (positive : 0 < size) (roundable : size ≤ 2 ^ 32 - 32) :
    ∃ addr vmem',
      ithVmemAlignedAlloc vmem (2 ^ bits) size = some (addr, vmem') ∧
        ((addr = 0 ∧ vmem' = vmem) ∨
          (0 < addr ∧ 2 ^ bits ∣ addr ∧
            ∃ entries' index,
              VmemInv vmem' entries' ∧ vmem'.startAddr = vmem.startAddr ∧
                vmem'.totalSize = vmem.totalSize ∧
                ∃ front rest,
                  allocatedEntries entries = front ++ rest ∧
                    allocatedEntries entries' =
                      front ++ (index, ⟨addr, ithAlignUp size 32, .allocated⟩) :: rest)) := by
  have view := inv.view
  have bound := inv.inside
  have sizeLe := le_ithAlignUp roundable
  unfold ithVmemAlignedAlloc
  dsimp only
  generalize ithAlignUp size 32 = rounded at sizeLe
  split
  · exact ⟨0, vmem, rfl, Or.inl ⟨rfl, rfl⟩⟩
  · rename_i notMore
    have small := inv.small
    rw [view.usedMcbs, Option.map_some]
    cases search : (entries.map Prod.fst).foldl (bestFitStep vmem (2 ^ bits) rounded) none with
    | none => exact ⟨0, vmem, rfl, Or.inl ⟨rfl, rfl⟩⟩
    | some index =>
      obtain ⟨member, notAllocated, test⟩ := (bestFit_spec search).resolve_right nofun
      obtain ⟨⟨found, mcb⟩, entryMember, rfl⟩ := List.mem_map.mp member
      have stored := view.stored _ entryMember
      have used := view.used _ entryMember
      have bounds := inv.tiles.bounds entryMember
      dsimp only at stored used bounds notAllocated test ⊢
      rw [stored] at notAllocated test
      have free : mcb.state = .free := by
        cases state : mcb.state with
        | unused => exact absurd state used
        | free => rfl
        | allocated => exact absurd state notAllocated
      obtain ⟨behind, fits, multiple⟩ :=
        fits_of_test few (by omega) (by omega) (by omega) bounds.2.1 test
      obtain ⟨front, rest, rfl⟩ := List.append_of_mem entryMember
      have region := splitBlock_sameRegion vmem found (2 ^ bits) rounded
      rcases splitBlock_spec view inv.tiles inv.apart free (by omega) bound
          (by omega) behind fits with
        ⟨failed, same⟩ | ⟨succeeded, entries', newView, carved⟩
      · rw [if_pos failed, same]
        exact ⟨0, vmem, rfl, Or.inl ⟨rfl, rfl⟩⟩
      · rw [if_neg (fun failed => failed succeeded)]
        obtain ⟨before, after, oldAllocated, newAllocated⟩ := carved.allocated
        have inside : (found,
            (⟨ithAlignUp mcb.addr (2 ^ bits), rounded, .allocated⟩ : ITHVmemMcb)) ∈ entries' := by
          apply List.mem_of_mem_filter
          rw [← allocatedEntries, newAllocated]
          simp
        rw [newView.stored _ inside]
        have notNull := inv.notNull
        have addrPositive : 0 < ithAlignUp mcb.addr (2 ^ bits) := by omega
        refine ⟨_, _, rfl, Or.inr ⟨addrPositive, multiple, entries', found, ?_,
          region.startAddr, region.totalSize, before, after, oldAllocated,
          newAllocated⟩⟩
        have total := carved.free
        have before := inv.free
        have covered := freeTotal_le inv.tiles
        exact
          { notNull := region.startAddr ▸ notNull
            small := region.totalSize ▸ small
            inside := region.startAddr ▸ region.totalSize ▸ bound
            view :=
              ⟨newView.represents, newView.stored, newView.inRange,
                newView.used, newView.unused, newView.count⟩
            tiles := by
              show BlockTiles (splitBlock _ _ _ _).2.startAddr entries'
                ((splitBlock _ _ _ _).2.startAddr + (splitBlock _ _ _ _).2.totalSize)
              rw [region.startAddr, region.totalSize]
              exact carved.tiles
            apart := carved.apart
            free := by
              show sub32 (splitBlock _ _ _ _).2.freeSize rounded = _
              rw [region.freeSize, sub32_of_le (by omega) (by omega)]
              omega }

variable {front rest : List McbEntry}

theorem VmemInv.find {index : Nat} (inv : VmemInv vmem (front ++ (index, mcb) :: rest)) :
    ((front ++ (index, mcb) :: rest).map Prod.fst).find?
        (fun other => (vmem.mcbs other).addr = mcb.addr) =
      some index := by
  obtain ⟨middle, frontTiles, here, -⟩ := tiles_append.mp inv.tiles
  rw [List.map_append, List.map_cons, List.find?_append, List.find?_cons_of_pos]
  · have none :
        (front.map Prod.fst).find? (fun other => (vmem.mcbs other).addr = mcb.addr) = none := by
      rw [List.find?_eq_none]
      intro other member
      obtain ⟨entry, inside, rfl⟩ := List.mem_map.mp member
      have bounds := frontTiles.bounds inside
      rw [inv.view.stored entry (List.mem_append_left _ inside)]
      dsimp only at here bounds
      simp only [decide_eq_true_eq]
      omega
    rw [none, Option.none_or]
  · simp only [inv.view.lookup, decide_true]

theorem ithVmemFree_spec {index : Nat} (inv : VmemInv vmem (front ++ (index, mcb) :: rest))
    (allocated : mcb.state = .allocated) :
    ∃ vmem' entries',
      ithVmemFree vmem mcb.addr = some vmem' ∧ VmemInv vmem' entries' ∧
        vmem'.startAddr = vmem.startAddr ∧
        vmem'.totalSize = vmem.totalSize ∧
        allocatedEntries entries' = allocatedEntries front ++ allocatedEntries rest := by
  have small := inv.small
  have around : Around vmem.startAddr (vmem.startAddr + vmem.totalSize) front (index, mcb) rest :=
    ⟨by omega, inv.tiles, inv.apart.left_of_append, inv.apart.right_of_append.tail⟩
  obtain ⟨entries', view, tiles, apart, total, kept⟩ := mergeBlock_view inv.view around
  obtain ⟨freeSize, startAddr, totalSize⟩ := mergeBlock_freeSize vmem index
  have fits := freeTotal_le tiles
  have before := inv.free
  rw [freeTotal_append, freeTotal_cons, allocated, if_neg nofun] at before
  refine ⟨{ mergeBlock vmem index with
      freeSize := add32 (mergeBlock vmem index).freeSize mcb.size },
    entries', ?_, ?_, startAddr, totalSize, kept⟩
  · rw [ithVmemFree, inv.view.usedMcbs, Option.map_some, inv.find, Option.some_or]
    simp only [inv.view.lookup]
  · exact
      { notNull := startAddr ▸ inv.notNull
        small := totalSize ▸ inv.small
        inside := startAddr ▸ totalSize ▸ inv.inside
        view := ⟨view.represents, view.stored, view.inRange, view.used, view.unused, view.count⟩
        tiles := by
          show BlockTiles (mergeBlock vmem index).startAddr entries'
            ((mergeBlock vmem index).startAddr + (mergeBlock vmem index).totalSize)
          rw [startAddr, totalSize]
          exact tiles
        apart := apart
        free := by
          show add32 (mergeBlock vmem index).freeSize mcb.size = _
          rw [freeSize, add32_of_lt (by omega)]
          omega }

theorem ithVmemInit_inv {startAddr totalSize : Nat}
    (notNull : 0 < startAddr) (positive : 0 < totalSize)
    (small : totalSize < 2 ^ 30) (inside : startAddr + totalSize ≤ 2 ^ 32) :
    VmemInv (ithVmemInit startAddr totalSize) [(0, ⟨startAddr, totalSize, .free⟩)] where
  notNull := notNull
  small := small
  inside := inside
  view :=
    { represents := ithListPushFront_cleared 0
      stored := by
        intro entry member
        cases List.mem_singleton.mp member
        show (⟨startAddr, mcbSize totalSize, .free⟩ : ITHVmemMcb) = _
        rw [mcbSize_of_lt small]
      inRange := by
        intro entry member
        cases List.mem_singleton.mp member
        exact (by decide : 0 < ithVmemMcbCount)
      used := by
        intro entry member
        cases List.mem_singleton.mp member
        exact nofun
      unused := by
        intro index _ absent _
        have different : index ≠ 0 := by
          rintro rfl
          exact absent List.mem_cons_self
        have cleared :
            (ithVmemInit startAddr totalSize).mcbs index = ⟨0, 0, .unused⟩ := by
          simp [ithVmemInit, different]
        rw [cleared]
      count := rfl }
  tiles := ⟨rfl, positive, rfl⟩
  apart := List.isChain_singleton _
  free := rfl

end IteSdk.Ith
