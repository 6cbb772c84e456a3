import IteSdk.Xd.BinaryHeap
import IteSdk.Xd.Card
import Mathlib.Data.Finset.Card
import Mathlib.Data.List.Nodup

/-!
# The translation table of a zone

`GenerateTranslationTable` of `xd_mlayer.c`, which reads the spare areas of all blocks
of a zone.  The numbers of the zones of a card are far below the 2^22 at which its
block numbers would overflow.
-/

namespace IteSdk.Xd

section

open Function

structure XdLayer where
  card : XdCard
  cisBlock : Nat
  translationTable : Nat → Nat
  eraseBlockHeap : Option XdBinaryHeap
  lastUseZone : Nat

def inZone (block : Nat) : Nat := block &&& 0x3FF

/-- The blocks from `startBlock` to `endBlock`. -/
def zoneBlocks (cisBlock zone : Nat) : List Nat :=
  let startBlock := if zone = 0 then cisBlock + 1 else zone * XD_PHYSIC_BLOCK_PER_ZONE
  let endBlock := zone * XD_PHYSIC_BLOCK_PER_ZONE + XD_PHYSIC_BLOCK_PER_ZONE - 1
  List.range' startBlock (endBlock + 1 - startBlock)

structure XdScan where
  card : XdCard
  translationTable : Nat → Nat
  eraseBlockHeap : XdBinaryHeap
  phyBlock : Nat
  bFindTargetBlock : Bool

namespace XdScan

/-- `XD_HeapInsertElement` of a block; a failure is only printed. -/
def store (scan : XdScan) (block : Nat) : XdScan :=
  { scan with
    eraseBlockHeap := (scan.eraseBlockHeap.insertElement (inZone block)).2 }

def eraseBlock (scan : XdScan) (block : Nat) : XdScan :=
  let erased := scan.card.erase block
  let after := { scan with card := erased.2 }
  if erased.1 then after.store block else after

def enter (scan : XdScan) (logicalBlock i logicalAddr : Nat) : XdScan :=
  let entered :=
    { scan with
      translationTable := update scan.translationTable logicalAddr (inZone i) }
  if logicalAddr = logicalBlock ∧ scan.bFindTargetBlock = false then
    { entered with
      phyBlock := inZone i
      bFindTargetBlock := true }
  else entered

/-- The table already has a value.  The second block is found by that value as it is. -/
def resolve (scan : XdScan) (i logicalAddr : Nat) : XdScan :=
  let second := scan.translationTable logicalAddr
  match scan.card.lastAddr i with
  | none => scan
  | some logicalAddrLast =>
    if logicalAddrLast = logicalAddr then
      match scan.card.pageAddr second 0 with
      | none => scan
      | some logicalAddr1 =>
        match scan.card.lastAddr second with
        | none => scan
        | some logicalAddr2 =>
          if logicalAddr1 = logicalAddr2 then scan.eraseBlock i
          else
            { scan.eraseBlock second with
              translationTable := update scan.translationTable logicalAddr (inZone i) }
    else scan.eraseBlock i

def block (scan : XdScan) (logicalBlock i : Nat) : XdScan :=
  match scan.card.readSpare i 0 with
  | .ok spareBuffer =>
    if isNormalBlock (spareBuffer XD_BLOCK_STATUS_FLAG_OFFSET) then
      match getLogicalAddress spareBuffer with
      | none => scan
      | some logicalAddr =>
        if scan.translationTable logicalAddr = XD_INVALID_BLOCK_NUMBER then
          scan.enter logicalBlock i logicalAddr
        else scan.resolve i logicalAddr
    else scan
  | .erased => scan.store i
  | .error => scan

/-- The loop.  It ends early when a block cannot be read and the card is no longer
inserted. -/
def blocks (inserted : Nat → Bool) (logicalBlock : Nat) : XdScan → List Nat → Bool × XdScan
  | scan, [] => (true, scan)
  | scan, i :: rest =>
    match scan.card.readSpare i 0 with
    | .error =>
      if inserted i then blocks inserted logicalBlock scan rest else (false, scan)
    | _ => blocks inserted logicalBlock (scan.block logicalBlock i) rest

end XdScan

/-- `GenerateTranslationTable`, which returns `*pPhyBlock` as well.  `heap` is what
`malloc` gives for the heap, if it gives anything. -/
def generateTranslationTable (inserted : Nat → Bool) (heap : Option (Nat → Int))
    (layer : XdLayer) (zone logicalBlock : Nat) : Bool × Nat × XdLayer :=
  match heap with
  | none => (false, XD_INVALID_BLOCK_NUMBER, { layer with eraseBlockHeap := none })
  | some garbage =>
    let scan :=
      { card := layer.card
        translationTable := fun _ => XD_INVALID_BLOCK_NUMBER
        eraseBlockHeap := .create XD_PHYSIC_BLOCK_PER_ZONE garbage
        phyBlock := XD_INVALID_BLOCK_NUMBER
        bFindTargetBlock := false : XdScan }
    let result := scan.blocks inserted logicalBlock (zoneBlocks layer.cisBlock zone)
    (result.1, result.2.phyBlock,
      { layer with
        card := result.2.card
        translationTable := result.2.translationTable
        eraseBlockHeap := some result.2.eraseBlockHeap
        lastUseZone := if result.1 then layer.lastUseZone else XD_INVALID_BLOCK_NUMBER })

end

/-!
# The scan of a zone

Which block the table maps a logical block to, which blocks the scan erases and which
ones it puts into the heap, when every logical block with a complete copy is resolved.
-/

section

open Lib Function

variable {card : XdCard} {cisBlock zone logicalBlock : Nat}

theorem inZone_eq_mod (block : Nat) : inZone block = block % 1024 :=
  Nat.and_two_pow_sub_one_eq_mod block 10

theorem inZone_ne_invalid (block : Nat) : inZone block ≠ XD_INVALID_BLOCK_NUMBER := by
  rw [inZone_eq_mod, XD_INVALID_BLOCK_NUMBER]
  omega

variable {block : Nat}

theorem mem_zoneBlocks :
    block ∈ zoneBlocks cisBlock zone ↔
      (if zone = 0 then cisBlock + 1 else zone * 1024) ≤ block ∧ block < zone * 1024 + 1024 := by
  rw [zoneBlocks, XD_PHYSIC_BLOCK_PER_ZONE, List.mem_range'_1]
  split <;> omega

theorem zoneBlocks_sorted (cisBlock zone : Nat) : (zoneBlocks cisBlock zone).Pairwise (· < ·) :=
  List.pairwise_lt_range'

theorem length_zoneBlocks_le (cisBlock zone : Nat) : (zoneBlocks cisBlock zone).length ≤ 1024 := by
  rw [zoneBlocks, XD_PHYSIC_BLOCK_PER_ZONE, List.length_range']
  split <;> omega

theorem zoneBlocks_between (inside : block ∈ zoneBlocks cisBlock zone) :
    zone * 1024 ≤ block ∧ block < zone * 1024 + 1024 := by
  obtain ⟨lower, upper⟩ := mem_zoneBlocks.mp inside
  split at lower
  · next first =>
    rw [first]
    omega
  · exact ⟨lower, upper⟩

theorem inZone_injOn {first second : Nat} (here : first ∈ zoneBlocks cisBlock zone)
    (there : second ∈ zoneBlocks cisBlock zone) (same : inZone first = inZone second) :
    first = second := by
  have hereBetween := zoneBlocks_between here
  have thereBetween := zoneBlocks_between there
  rw [inZone_eq_mod, inZone_eq_mod] at same
  omega

theorem inZone_of_zero (inside : block ∈ zoneBlocks cisBlock 0) : inZone block = block := by
  have between := zoneBlocks_between inside
  rw [inZone_eq_mod]
  omega

theorem le_of_mem_zoneBlocks (inside : block ∈ zoneBlocks cisBlock zone)
    (later : zone ≠ 0) : 1024 ≤ block := by
  have between := zoneBlocks_between inside
  have positive := Nat.pos_of_ne_zero later
  omega

/-- The heap has room for a zone and holds the numbers of these blocks. -/
def HeapOf (heap : XdBinaryHeap) (stored : Nat → Prop) : Prop :=
  heap.capacity = XD_PHYSIC_BLOCK_PER_ZONE ∧
    ∃ blocks : Finset Nat,
      (∀ block, block ∈ blocks ↔ stored block) ∧
        heap.elements = blocks.val.map fun block => (inZone block : Int)

namespace HeapOf

variable {heap after : XdBinaryHeap} {stored : Nat → Prop}

theorem create (garbage : Nat → Int) (none_ : ∀ block, ¬ stored block) :
    HeapOf (.create XD_PHYSIC_BLOCK_PER_ZONE garbage) stored :=
  ⟨rfl, ∅, fun block => by simp [none_ block], rfl⟩

theorem congr (holds : HeapOf heap stored) {others : Nat → Prop}
    (same : ∀ block, stored block ↔ others block) : HeapOf heap others := by
  obtain ⟨capacity, blocks, members, elements⟩ := holds
  exact ⟨capacity, blocks, fun block => (members block).trans (same block), elements⟩

theorem mem (holds : HeapOf heap stored) {element : Int} :
    element ∈ heap.elements ↔ ∃ block, stored block ∧ (inZone block : Int) = element := by
  obtain ⟨-, blocks, members, elements⟩ := holds
  rw [elements, Multiset.mem_map]
  exact exists_congr fun block => and_congr_left' (members block)

theorem insert (holds : HeapOf heap stored)
    (inside : ∀ block, stored block → block ∈ zoneBlocks cisBlock zone) {block : Nat}
    (here : block ∈ zoneBlocks cisBlock zone) (new : ¬ stored block) :
    (heap.insertElement (inZone block)).1 = true ∧
      HeapOf (heap.insertElement (inZone block)).2 fun b => b = block ∨ stored b := by
  obtain ⟨capacity, blocks, members, elements⟩ := holds
  have fresh : block ∉ blocks := fun there => new ((members block).mp there)
  have within : Insert.insert block blocks ⊆ (zoneBlocks cisBlock zone).toFinset := by
    intro b there
    rw [List.mem_toFinset]
    rcases Finset.mem_insert.mp there with rfl | there
    · exact here
    · exact inside b ((members b).mp there)
  have counted : blocks.card + 1 ≤ 1024 := by
    rw [← Finset.card_insert_of_notMem fresh]
    exact (Finset.card_le_card within).trans
      ((List.toFinset_card_le _).trans (length_zoneBlocks_le cisBlock zone))
  have size : heap.size = blocks.card := by
    rw [← heap.card_elements, elements, Multiset.card_map, Finset.card_val]
  have room : heap.size < heap.capacity := by
    rw [size, capacity, XD_PHYSIC_BLOCK_PER_ZONE]
    omega
  obtain ⟨done, added⟩ := XdBinaryHeap.insertElement_room room (Int.natCast_nonneg _)
  refine ⟨done, by rw [XdBinaryHeap.capacity_insertElement, capacity],
    Insert.insert block blocks, fun b => ?_, ?_⟩
  · rw [Finset.mem_insert, members]
  · rw [added, elements, Finset.insert_val_of_notMem fresh, Multiset.map_cons]

end HeapOf

end

end IteSdk.Xd
