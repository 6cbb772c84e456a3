import IteSdk.Lib.FlatMemory
import IteSdk.Xd.TranslationTable

/-!
# Reads of xD sectors

`xddrv_readmultiplesector` of `xd_mlayer.c`, which reads all sectors but the last by
`xddrv_readsector528`.  The driver and the buffer are given, and the numbers of the
sectors do not overflow.
-/

namespace IteSdk.Xd

open Lib

/-- What the table of the zone of a sector is generated with. -/
structure XdAnswers where
  inserted : Nat → Bool
  heap : Option (Nat → Int)

section Model

variable (answers : Nat → XdAnswers)

/-- `phyBlock` of a sector, if the table of its zone can be generated. -/
def sectorBlock (layer : XdLayer) (sector : Nat) : Option Nat × XdLayer :=
  let logicBlock := sector / XD_PAGEPERBLOCK
  let pureLogicBlock := logicBlock % XD_LOGIC_BLOCK_PER_ZONE
  let zoneNumber := logicBlock / XD_LOGIC_BLOCK_PER_ZONE
  if zoneNumber ≠ layer.lastUseZone then
    match generateTranslationTable (answers sector).inserted (answers sector).heap layer
      zoneNumber pureLogicBlock with
    | (false, _, layer) => (none, layer)
    | (true, phyBlock, layer) => (some phyBlock, { layer with lastUseZone := zoneNumber })
  else (some (layer.translationTable pureLogicBlock), layer)

/-- The bytes that a read puts into the buffer: none with `XD_ERROR`, which
`XD_ReadPage` returns before it copies any. -/
def readsector (filled : Nat) (layer : XdLayer) (sector : Nat) :
    Option (List (BitVec 8)) × XdLayer :=
  match sectorBlock answers layer sector with
  | (none, layer) => (none, layer)
  | (some phyBlock, layer) =>
    if phyBlock ≠ XD_INVALID_BLOCK_NUMBER then
      let zoneNumber := sector / XD_PAGEPERBLOCK / XD_LOGIC_BLOCK_PER_ZONE
      let page := layer.card.page (phyBlock + zoneNumber * 0x400) (sector % XD_PAGEPERBLOCK)
      (page.map fun page => List.ofFn page.data, layer)
    else (some (List.replicate filled 0xFF#8), layer)

def xddrvReadsector := readsector answers 512

def xddrvReadsector528 := readsector answers 528

structure XdRead where
  layer : XdLayer
  data : Nat → BitVec 8
  pData : Nat

/-- The loop from sector `i` on, which an error ends. -/
@[grind =]
def readLoop : Nat → Nat → XdRead → XdRead
  | 0, _, read => read
  | count + 1, i, read =>
    match xddrvReadsector528 answers read.layer i with
    | (none, layer) => { read with layer := layer }
    | (some bytes, layer) =>
      readLoop count (i + 1) ⟨layer, patch read.data read.pData bytes, read.pData + 512⟩

def readLast (endSector : Nat) (read : XdRead) : Bool × XdRead :=
  match xddrvReadsector answers read.layer endSector with
  | (none, layer) => (false, { read with layer := layer })
  | (some bytes, layer) =>
    (true, { read with layer := layer, data := patch read.data read.pData bytes })

def xddrvReadmultiplesector (layer : XdLayer) (data : Nat → BitVec 8) (sector cnt : Nat) :
    Bool × XdRead :=
  let endSector := sector + cnt - 1
  readLast answers endSector (readLoop answers (endSector - sector) sector ⟨layer, data, 0⟩)

/-- What `xddrv_readsector` reads of the sectors, one after the other. -/
@[grind =]
def readSectors : Nat → Nat → XdLayer → List (Option (List (BitVec 8)))
  | 0, _, _ => []
  | count + 1, i, layer =>
    let read := xddrvReadsector answers layer i
    read.1 :: readSectors count (i + 1) read.2

/-- The sectors up to some place can be read and none behind it.  If that is not the
last one, the last one cannot be read right behind it either. -/
@[grind =]
def MultiReadable (endSector : Nat) : Nat → Nat → XdLayer → Prop
  | 0, _, _ => True
  | count + 1, i, layer =>
    match xddrvReadsector answers layer i with
    | (some _, after) => MultiReadable endSector count (i + 1) after
    | (none, after) =>
      (xddrvReadsector answers after endSector).1 = none ∧
        ∀ result ∈ readSectors answers (count + 1) (i + 1) after, result = none

end Model

/-- Success is that of all reads, and what has been read is in its place. -/
structure PlacedFrom (start : Nat) (results : List (Option (List (BitVec 8))))
    (done : Bool × XdRead) : Prop where
  succeeded : done.1 = true → none ∉ results
  placed : ∀ k bytes, results[k]? = some (some bytes) →
    window done.2.data (start + k * 512) 512 = bytes

structure MultiRight (results : List (Option (List (BitVec 8)))) (data : Nat → BitVec 8)
    (done : Bool × XdRead) : Prop extends PlacedFrom 0 results done where
  outside : ∀ address, results.length * 512 ≤ address → done.2.data address = data address

variable {answers : Nat → XdAnswers} {layer : XdLayer} {results : List (Option (List (BitVec 8)))}
  {count i endSector start address : Nat} {data other : Nat → BitVec 8} {read : XdRead}

theorem length_readSectors (count i : Nat) (layer : XdLayer) :
    (readSectors answers count i layer).length = count := by
  induction count generalizing i layer with
  | zero => rfl
  | succ count ih => rw [readSectors, List.length_cons, ih]

theorem readsector_cases (answers : Nat → XdAnswers) (layer : XdLayer) (sector : Nat) :
    (∃ after, ∀ filled, readsector answers filled layer sector = (none, after)) ∨
      ∃ after bytes spill, bytes.length = 512 ∧ spill.length ≤ 16 ∧
        xddrvReadsector answers layer sector = (some bytes, after) ∧
        xddrvReadsector528 answers layer sector = (some (bytes ++ spill), after) := by
  unfold xddrvReadsector xddrvReadsector528 readsector
  rcases sectorBlock answers layer sector with ⟨_ | phyBlock, after⟩
  · exact .inl ⟨after, fun _ => rfl⟩
  · dsimp only
    split
    · rcases after.card.page _ _ with _ | page
      · exact .inl ⟨after, fun _ => rfl⟩
      · exact .inr ⟨after, List.ofFn page.data, [], List.length_ofFn, Nat.zero_le _, rfl, by simp⟩
    · refine .inr ⟨after, List.replicate 512 0xFF#8, List.replicate 16 0xFF#8, ?_, ?_, rfl, ?_⟩
      · rw [List.length_replicate]
      · rw [List.length_replicate]
      · rw [List.replicate_append_replicate]

theorem readLast_frame (read : XdRead)
    (outside : address < read.pData ∨ read.pData + 512 ≤ address) :
    (readLast answers endSector read).2.data address = read.data address := by
  rw [readLast]
  rcases readsector_cases answers read.layer endSector with
    ⟨after, fails⟩ | ⟨after, bytes, -, length, -, reads, -⟩
  · rw [xddrvReadsector, fails]
  · rw [reads]
    exact patch_outside _ (by omega)

theorem readLoop_frame (read : XdRead)
    (outside : address < read.pData ∨ read.pData + (count + 1) * 512 ≤ address) :
    (readLast answers endSector (readLoop answers count i read)).2.data address =
      read.data address := by
  induction count generalizing i read with
  | zero => exact readLast_frame read (by omega)
  | succ count ih =>
    rw [readLoop]
    rcases readsector_cases answers read.layer i with
      ⟨after, fails⟩ | ⟨after, bytes, spill, length, short, -, reads⟩
    · rw [xddrvReadsector528, fails]
      have kept : address < read.pData ∨ read.pData + 512 ≤ address := by omega
      exact readLast_frame { read with layer := after } kept
    · rw [reads]
      refine (ih _ (by dsimp only; omega)).trans (patch_outside _ ?_)
      rw [List.length_append]
      omega

theorem window_patch {bytes : List (BitVec 8)} (data : Nat → BitVec 8) (start : Nat)
    (spill : List (BitVec 8)) (length : bytes.length = 512) :
    window (patch data start (bytes ++ spill)) start 512 = bytes := by
  apply List.ext_getElem?
  intro k
  rcases Nat.lt_or_ge k 512 with inside | behind
  · have within : k < (bytes ++ spill).length := by
      rw [List.length_append]
      omega
    rw [getElem?_window _ inside, patch_add data start within,
      List.getElem_append_left (length ▸ inside), List.getElem?_eq_getElem]
  · rw [List.getElem?_eq_none (by rw [length_window]; exact behind),
      List.getElem?_eq_none (length ▸ behind)]

theorem placedFrom_cons {bytes : List (BitVec 8)} {done : Bool × XdRead} :
    PlacedFrom start (some bytes :: results) done ↔
      window done.2.data start 512 = bytes ∧ PlacedFrom (start + 512) results done := by
  constructor
  · rintro ⟨succeeded, placed⟩
    refine ⟨placed 0 bytes rfl, fun ok => ?_, fun k later there => ?_⟩
    · exact fun wrong => succeeded ok (List.mem_cons_of_mem _ wrong)
    · have here := placed (k + 1) later there
      rw [Nat.succ_mul, Nat.add_comm _ 512, ← Nat.add_assoc] at here
      exact here
  · rintro ⟨first, succeeded, placed⟩
    refine ⟨fun ok => ?_, fun k later there => ?_⟩
    · simpa using succeeded ok
    · cases k with
      | zero =>
        cases there
        exact first
      | succ k =>
        rw [Nat.succ_mul, Nat.add_comm _ 512, ← Nat.add_assoc]
        exact placed k later there

theorem placedFrom_readLast (i : Nat) (read : XdRead) :
    PlacedFrom read.pData (readSectors answers 1 i read.layer) (readLast answers i read) := by
  rw [readLast, readSectors, readSectors]
  rcases readsector_cases answers read.layer i with
    ⟨after, fails⟩ | ⟨after, bytes, -, length, -, reads, -⟩
  · rw [xddrvReadsector, fails]
    refine ⟨?_, fun k bytes there => ?_⟩
    · intro wrong
      cases wrong
    · cases k with
      | zero | succ k => cases there
  · rw [reads]
    refine placedFrom_cons.mpr ⟨?_, fun _ => List.not_mem_nil, fun k bytes there => ?_⟩
    · have whole := window_patch read.data read.pData [] length
      rw [List.append_nil] at whole
      exact whole
    · cases there

theorem window_readLoop {bytes spill : List (BitVec 8)} (length : bytes.length = 512)
    (read : XdRead) (after : XdLayer) :
    window
        (readLast answers endSector
          (readLoop answers count i
            ⟨after, patch read.data read.pData (bytes ++ spill), read.pData + 512⟩)).2.data
        read.pData 512 =
      bytes := by
  refine (window_congr fun k inside => ?_).trans (window_patch read.data read.pData spill length)
  exact readLoop_frame _ (.inl (by dsimp only; omega))

theorem MultiReadable.placed (read : XdRead)
    (readable : MultiReadable answers endSector count i read.layer) (ends : i + count = endSector) :
    PlacedFrom read.pData (readSectors answers (count + 1) i read.layer)
      (readLast answers endSector (readLoop answers count i read)) := by
  induction count generalizing i read with
  | zero =>
    obtain rfl : i = endSector := ends
    exact placedFrom_readLast i read
  | succ count ih =>
    rw [MultiReadable] at readable
    rw [readLoop, readSectors]
    rcases readsector_cases answers read.layer i with
      ⟨after, fails⟩ | ⟨after, bytes, spill, length, -, reads, fast⟩
    · rw [xddrvReadsector, fails] at readable ⊢
      obtain ⟨last, others⟩ := readable
      rw [xddrvReadsector528, fails]
      dsimp only
      rw [readLast]
      split
      · refine ⟨?_, fun k bytes there => ?_⟩
        · intro wrong
          cases wrong
        · rcases List.mem_cons.mp (List.mem_of_getElem? there) with wrong | later
          · cases wrong
          · cases others _ later
      · next reads =>
        exact absurd ((congrArg Prod.fst reads).symm.trans last) (by simp)
    · rw [reads] at readable ⊢
      rw [fast]
      have next : i + 1 + count = endSector := by omega
      exact placedFrom_cons.mpr
        ⟨window_readLoop length read after,
          ih ⟨after, patch read.data read.pData (bytes ++ spill), read.pData + 512⟩ readable next⟩

/-- Two buffers that have nothing in common tell what has been read. -/
theorem multiReadable_of_placed
    (apart : ∀ address, start + 16 ≤ address → data address ≠ other address)
    (ends : i + count = endSector)
    (placed :
      PlacedFrom start (readSectors answers (count + 1) i layer)
        (readLast answers endSector (readLoop answers count i ⟨layer, data, start⟩)))
    (otherPlaced :
      PlacedFrom start (readSectors answers (count + 1) i layer)
        (readLast answers endSector (readLoop answers count i ⟨layer, other, start⟩))) :
    MultiReadable answers endSector count i layer := by
  induction count generalizing i layer start data other with
  | zero => exact trivial
  | succ count ih =>
    rw [MultiReadable]
    rw [readLoop, readSectors] at placed otherPlaced
    rcases readsector_cases answers layer i with
      ⟨after, fails⟩ | ⟨after, bytes, spill, length, short, reads, fast⟩
    · rw [xddrvReadsector, fails] at placed otherPlaced ⊢
      rw [xddrvReadsector528, fails] at placed otherPlaced
      refine ⟨?_, fun result member => ?_⟩
      · by_contra there
        refine placed.succeeded ?_ List.mem_cons_self
        rw [readLast]
        split
        · next none_ =>
          rw [← xddrvReadsector, none_] at there
          exact absurd rfl there
        · rfl
      · by_contra there
        obtain ⟨bytes, rfl⟩ := Option.ne_none_iff_exists'.mp there
        obtain ⟨k, here⟩ := List.mem_iff_getElem?.mp member
        have same :=
          (placed.placed (k + 1) bytes here).trans (otherPlaced.placed (k + 1) bytes here).symm
        have first := congrArg (·[0]?) same
        simp only [getElem?_window _ (by decide : 0 < 512), Option.some.injEq] at first
        rw [readLast_frame _ (.inr (by dsimp only; omega)),
          readLast_frame _ (.inr (by dsimp only; omega))] at first
        exact apart _ (by omega) first
    · rw [reads] at placed otherPlaced ⊢
      rw [fast] at placed otherPlaced
      refine ih (fun address behind => ?_) (by omega) (placedFrom_cons.mp placed).2
        (placedFrom_cons.mp otherPlaced).2
      have outside : ¬ (start ≤ address ∧ address < start + (bytes ++ spill).length) := by
        rw [List.length_append]
        omega
      rw [patch_outside data outside, patch_outside other outside]
      exact apart address (by omega)

/-- No block is mapped, and nothing has to be read from the card. -/
def emptyLayer : XdLayer where
  card := ⟨fun _ _ => none, fun _ => none, []⟩
  cisBlock := 0
  translationTable _ := XD_INVALID_BLOCK_NUMBER
  eraseBlockHeap := none
  lastUseZone := 0

end IteSdk.Xd
