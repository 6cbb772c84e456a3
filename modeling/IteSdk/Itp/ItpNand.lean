import IteSdk.Lib.Memory
import Mathlib.Data.List.Range

/-!
# The NAND block device

`itp_nand.c` over a page driver that is a parameter.  A position is the number of
a block.  Memory is always available.
-/

namespace IteSdk.Itp

section

open Lib

universe u

/-- What `itp_nand.c` calls of the drivers below it.  The test of a block is true
for a good one. -/
structure NfDriver (σ : Type u) where
  isBadBlockForBoot : σ → Nat → Bool × σ
  erase : σ → Nat → Bool × σ
  write : σ → Nat → Nat → List UInt8 → List UInt8 → Bool × σ
  readPart : σ → Nat → Nat → Option (List UInt8) × σ
  readSector : σ → Nat → Nat → Option (List UInt8) × σ
  writeSector : σ → Nat → Nat → List UInt8 → Bool × σ

/-- What the driver keeps in `itpNfInfo` and in the variables of the file;
`reservedSize` is `CFG_NAND_RESERVED_SIZE`. -/
structure Nand where
  curBlk : Nat
  blEndBlk : Nat
  bootImgStartBlk : Nat
  bootImgEndBlk : Nat
  numOfBlk : Nat
  pageInBlk : Nat
  pageSize : Nat
  sprSize : Nat
  ftlMode : Bool
  fsSecSize : Nat
  reservedSize : Nat

/-- `dir` of a seek. -/
inductive NandDir
  | seekSet
  | seekCur
  | seekEnd
  deriving DecidableEq

def goodBlkCodeMark : List UInt8 := [0x46, 0x49, 0x4E, 0x45]

namespace Nand

variable (nand : Nand)

def blkSize : Nat := nand.pageInBlk * nand.pageSize

def areaBoundary : Nat :=
  if nand.curBlk < nand.blEndBlk then nand.blEndBlk
  else if nand.curBlk < nand.bootImgStartBlk then nand.bootImgStartBlk
  else nand.bootImgEndBlk

/-- The bytes of the caller in a block; all but the first start with the
mark. -/
def payload (blk : Nat) : Nat :=
  if blk = 0 then nand.blkSize
  else (nand.blkSize + 2 ^ 32 - 4) % 2 ^ 32

def dataBuf (blk : Nat) (src : List UInt8) : List UInt8 :=
  if blk = 0 then src.take (nand.payload blk)
  else goodBlkCodeMark ++ src.take (nand.payload blk)

end Nand

section Device

variable {σ : Type u} (driver : NfDriver σ) (nand : Nand)

/-- The end of the loop of `NandWrite`: how many blocks it has written, the block
at which it ended and the device. -/
structure NandLoop (σ : Type u) where
  doneLen : Nat
  blk : Nat
  state : σ

def nandMarkBad (state : σ) (blk : Nat) : σ :=
  (driver.write state blk 0 (List.replicate 4096 0) (List.replicate 512 0)).2

/-- The loop over the pages of a block in `NandWrite`. -/
def nandProgram (blk : Nat) (dataBuf : List UInt8) : Nat → Nat → σ → Bool × σ
  | 0, _, state => (true, state)
  | pages + 1, pg, state =>
    let written :=
      driver.write state blk pg (slice (pg * nand.pageSize) nand.pageSize dataBuf)
        (List.replicate nand.sprSize 0xFF)
    if written.1 = true then
      nandProgram blk dataBuf pages (pg + 1) written.2
    else
      (false, nandMarkBad driver written.2 blk)

/-- The loop of `NandWrite` over the blocks up to the boundary. -/
def nandWriteLoop (len : Nat) : Nat → σ → Nat → Nat → List UInt8 → NandLoop σ
  | 0, state, blk, doneLen, _ => ⟨doneLen, blk, state⟩
  | blocks + 1, state, blk, doneLen, src =>
    let tested := driver.isBadBlockForBoot state blk
    if tested.1 = false then
      nandWriteLoop len blocks tested.2 (blk + 1) doneLen src
    else
      let erased := driver.erase tested.2 blk
      if erased.1 = false then
        nandWriteLoop len blocks (nandMarkBad driver erased.2 blk) (blk + 1) doneLen src
      else
        let programmed :=
          nandProgram driver nand blk (nand.dataBuf blk src) nand.pageInBlk 0 erased.2
        if programmed.1 = false then
          nandWriteLoop len blocks programmed.2 (blk + 1) doneLen src
        else if len ≤ doneLen + 1 then
          ⟨doneLen + 1, blk, programmed.2⟩
        else
          nandWriteLoop len blocks programmed.2 (blk + 1) (doneLen + 1)
            (src.drop (nand.payload blk))

/-- `NandWrite`: what it returns, and the device afterwards. -/
def nandWrite (state : σ) (src : List UInt8) (len : Nat) : Nat × Nand × σ :=
  if len = 0 ∨ nand.numOfBlk = 0 ∨ nand.blkSize = 0 then
    (0, nand, state)
  else if nand.ftlMode = true then
    let sectors := nand.blkSize / nand.fsSecSize
    let written := driver.writeSector state (nand.curBlk * sectors) (len * sectors) src
    if written.1 = true then
      (len, { nand with curBlk := nand.curBlk + len }, written.2)
    else
      (0, nand, written.2)
  else if (nand.curBlk + len) % 2 ^ 32 > nand.areaBoundary ∨ nand.sprSize = 0 then
    (0, nand, state)
  else
    let loop :=
      nandWriteLoop driver nand len (nand.areaBoundary - nand.curBlk) state nand.curBlk 0 src
    (loop.doneLen, { nand with curBlk := loop.blk + 1 }, loop.state)

/-- The loop over the pages of a block in `NandRead`. -/
def nandReadPages (blk : Nat) : Nat → Nat → σ → Option (List UInt8) × σ
  | 0, _, state => (some [], state)
  | pages + 1, pg, state =>
    let page := driver.readPart state blk pg
    match page.1 with
    | none => (none, page.2)
    | some data =>
      let later := nandReadPages blk pages (pg + 1) page.2
      (later.1.map fun rest => data ++ rest, later.2)

def nandUnpack (blk : Nat) (databuf : List UInt8) : List UInt8 :=
  if blk = 0 then databuf.take (nand.payload blk)
  else (databuf.drop 4).take (nand.payload blk)

/-- The loop of `NandRead`; `none` where a page cannot be read. -/
def nandReadLoop (len : Nat) : Nat → σ → Nat → Nat → Option (List UInt8 × Nat × Nat) × σ
  | 0, state, blk, doneLen => (some ([], doneLen, blk), state)
  | blocks + 1, state, blk, doneLen =>
    let tested := driver.isBadBlockForBoot state blk
    if tested.1 = false then
      nandReadLoop len blocks tested.2 (blk + 1) doneLen
    else
      let pages := nandReadPages driver blk nand.pageInBlk 0 tested.2
      match pages.1 with
      | none => (none, pages.2)
      | some databuf =>
        let data := nandUnpack nand blk databuf
        if len ≤ doneLen + 1 then
          (some (data, doneLen + 1, blk), pages.2)
        else
          let later := nandReadLoop len blocks pages.2 (blk + 1) (doneLen + 1)
          (later.1.map fun rest => (data ++ rest.1, rest.2), later.2)

/-- `NandRead`: what it returns, what it has read where it succeeds, and the
device afterwards. -/
def nandRead (state : σ) (len : Nat) : Int × List UInt8 × Nand × σ :=
  if nand.ftlMode = true then
    let sectors := nand.blkSize / nand.fsSecSize
    let sector := driver.readSector state (nand.curBlk * sectors) (len * sectors)
    match sector.1 with
    | some data =>
      (len, data, { nand with curBlk := nand.curBlk + len }, sector.2)
    | none => (0, [], nand, sector.2)
  else if nand.blkSize = 0 ∨
      (nand.curBlk + len) % 2 ^ 32 > nand.areaBoundary ∨ len = 0 ∨ nand.numOfBlk = 0 then
    (0, [], nand, state)
  else
    let loop := nandReadLoop driver nand len (nand.areaBoundary - nand.curBlk) state nand.curBlk 0
    match loop.1 with
    | none => (-1, [], nand, loop.2)
    | some (data, doneLen, blk) =>
      (doneLen, data, { nand with curBlk := blk + 1 }, loop.2)

/-- `NandLseek` with its result. -/
def nandLseek (ptr : Int) (dir : NandDir) : Nat × Nand :=
  let defBlk := nand.reservedSize / nand.blkSize
  let moved :=
    match dir with
    | .seekSet =>
      if nand.ftlMode = true then
        if defBlk > ptr then nand.curBlk else (ptr - defBlk).toNat
      else
        (ptr % 2 ^ 32).toNat
    | .seekCur => ((nand.curBlk + ptr) % 2 ^ 32).toNat
    | .seekEnd => nand.curBlk
  (if nand.ftlMode = true then moved + defBlk else moved, { nand with curBlk := moved })

end Device

end

/-!
# Writing and reading back on the NAND block device

Both loops pass over the same bad blocks, and what one packs into a block the
other unpacks, so that the data comes back.
-/

section

open Lib

universe u

variable {σ : Type u}

/-- A page driver over a fixed pattern of good blocks: `pages` is what was last
programmed into the pages. -/
structure NfDriver.Lawful (driver : NfDriver σ) (pageSize : Nat)
    (good : Nat → Bool) (pages : σ → Nat → Nat → List UInt8) : Prop where
  tests : ∀ state blk, (driver.isBadBlockForBoot state blk).1 = good blk
  testKeeps : ∀ state blk, pages (driver.isBadBlockForBoot state blk).2 = pages state
  erases : ∀ state blk, good blk = true → (driver.erase state blk).1 = true
  eraseKeeps : ∀ state blk other, good blk = true → other ≠ blk →
    pages (driver.erase state blk).2 other = pages state other
  writes : ∀ state blk pg data spare, good blk = true →
    (driver.write state blk pg data spare).1 = true
  programs : ∀ state blk pg data spare, good blk = true →
    data.length = pageSize → pages (driver.write state blk pg data spare).2 blk pg = data
  writeKeeps : ∀ state blk pg data spare other page, good blk = true →
    (other ≠ blk ∨ page ≠ pg) →
      pages (driver.write state blk pg data spare).2 other page = pages state other page
  reads : ∀ state blk pg, good blk = true →
    (driver.readPart state blk pg).1 = some (pages state blk pg)
  readKeeps : ∀ state blk pg, pages (driver.readPart state blk pg).2 = pages state

def NfDriver.logged (driver : NfDriver σ) : NfDriver (σ × List Nat) where
  isBadBlockForBoot state blk :=
    let tested := driver.isBadBlockForBoot state.1 blk
    (tested.1, tested.2, blk :: state.2)
  erase state blk :=
    let erased := driver.erase state.1 blk
    (erased.1, erased.2, blk :: state.2)
  write state blk pg data spare :=
    let written := driver.write state.1 blk pg data spare
    (written.1, written.2, blk :: state.2)
  readPart state blk pg :=
    let page := driver.readPart state.1 blk pg
    (page.1, page.2, blk :: state.2)
  readSector state sector count :=
    let data := driver.readSector state.1 sector count
    (data.1, data.2, state.2)
  writeSector state sector count src :=
    let written := driver.writeSector state.1 sector count src
    (written.1, written.2, state.2)

theorem NfDriver.Lawful.logged {driver : NfDriver σ} {pageSize : Nat}
    {good : Nat → Bool} {pages : σ → Nat → Nat → List UInt8}
    (lawful : driver.Lawful pageSize good pages) :
    driver.logged.Lawful pageSize good fun state => pages state.1 where
  tests state := lawful.tests state.1
  testKeeps state := lawful.testKeeps state.1
  erases state := lawful.erases state.1
  eraseKeeps state := lawful.eraseKeeps state.1
  writes state := lawful.writes state.1
  programs state := lawful.programs state.1
  writeKeeps state := lawful.writeKeeps state.1
  reads state := lawful.reads state.1
  readKeeps state := lawful.readKeeps state.1

def goodBlocks (good : Nat → Bool) (blk blocks : Nat) : List Nat :=
  (List.range' blk blocks).filter good

/-- The bytes that the first `len` good blocks hold. -/
def Nand.capacity (nand : Nand) (good : Nat → Bool) (blk blocks len : Nat) : Nat :=
  (((goodBlocks good blk blocks).take len).map nand.payload).sum

section RoundTrip

variable {driver : NfDriver σ} {good : Nat → Bool}
  {pages : σ → Nat → Nat → List UInt8} {nand : Nand}

variable {blk : Nat} {src : List UInt8}

theorem nandProgram_spec (lawful : driver.Lawful nand.pageSize good pages)
    (isGood : good blk = true) {dataBuf : List UInt8} (count : Nat) :
    ∀ (pg : Nat) (state : σ), (pg + count) * nand.pageSize ≤ dataBuf.length →
      let programmed := nandProgram driver nand blk dataBuf count pg state
      programmed.1 = true ∧
        (∀ page, pg ≤ page → page < pg + count →
          pages programmed.2 blk page = slice (page * nand.pageSize) nand.pageSize dataBuf) ∧
        ∀ other page, (other ≠ blk ∨ page < pg) →
          pages programmed.2 other page = pages state other page := by
  induction count with
  | zero =>
    intro pg state _
    refine ⟨rfl, ?_, fun other page _ => rfl⟩
    intro page above below
    omega
  | succ count ih =>
    intro pg state enough
    have here :
        pg * nand.pageSize + nand.pageSize ≤ dataBuf.length := by
      have smaller : (pg + 1) * nand.pageSize ≤ dataBuf.length :=
        (Nat.mul_le_mul_right _ (by omega)).trans enough
      rwa [Nat.succ_mul] at smaller
    have written :=
      lawful.writes state blk pg (slice (pg * nand.pageSize) nand.pageSize dataBuf)
        (List.replicate nand.sprSize 0xFF) isGood
    obtain ⟨passes, programs, keeps⟩ :=
      ih (pg + 1)
        (driver.write state blk pg (slice (pg * nand.pageSize) nand.pageSize dataBuf)
          (List.replicate nand.sprSize 0xFF)).2
        (by rwa [Nat.add_right_comm, Nat.add_assoc])
    rw [nandProgram, if_pos written]
    refine ⟨passes, ?_, ?_⟩
    · intro page above below
      rcases Nat.eq_or_lt_of_le above with first | later
      · subst first
        rw [keeps blk pg (Or.inr (by omega))]
        exact lawful.programs _ _ _ _ _ isGood (length_slice here)
      · exact programs page later (by omega)
    · intro other page elsewhere
      rw [keeps other page (by omega)]
      exact lawful.writeKeeps _ _ _ _ _ _ _ isGood (by omega)

theorem nandReadPages_spec (lawful : driver.Lawful nand.pageSize good pages)
    (isGood : good blk = true) (count : Nat) :
    ∀ (pg : Nat) (state : σ),
      (nandReadPages driver blk count pg state).1 =
          some ((List.range' pg count).flatMap (pages state blk)) ∧
        pages (nandReadPages driver blk count pg state).2 = pages state := by
  induction count with
  | zero => exact fun pg state => ⟨rfl, rfl⟩
  | succ count ih =>
    intro pg state
    obtain ⟨later, keeps⟩ := ih (pg + 1) (driver.readPart state blk pg).2
    rw [lawful.readKeeps] at later keeps
    rw [nandReadPages]
    dsimp only
    rw [lawful.reads state blk pg isGood]
    dsimp only
    rw [later, List.range'_succ, List.flatMap_cons]
    exact ⟨rfl, keeps⟩

theorem flatMap_slice (size : Nat) (memory : List UInt8) (count : Nat) :
    ∀ start : Nat,
      (List.range' start count).flatMap (fun index => slice (index * size) size memory) =
        slice (start * size) (count * size) memory := by
  induction count with
  | zero =>
    intro start
    rw [Nat.zero_mul, slice_zero]
    rfl
  | succ count ih =>
    intro start
    rw [List.range'_succ, List.flatMap_cons, ih,
      Nat.succ_mul count, Nat.add_comm _ size, slice_add, Nat.succ_mul]

/-- The blocks hold the mark, and their size is a 32-bit number. -/
structure Nand.Sized (nand : Nand) : Prop where
  holdsMark : 4 ≤ nand.blkSize
  fits : nand.blkSize < 2 ^ 32

theorem Nand.Sized.payload_eq (sized : nand.Sized) (blk : Nat) :
    nand.payload blk = if blk = 0 then nand.blkSize else nand.blkSize - 4 := by
  have above := sized.holdsMark
  have below := sized.fits
  rw [Nand.payload]
  split <;> omega

theorem Nand.Sized.length_dataBuf (sized : nand.Sized) (enough : nand.payload blk ≤ src.length) :
    (nand.dataBuf blk src).length = nand.blkSize := by
  have above := sized.holdsMark
  rw [sized.payload_eq] at enough
  rw [Nand.dataBuf, sized.payload_eq]
  split at enough
  · rename_i first
    rw [if_pos first, if_pos first, List.length_take_of_le enough]
  · rename_i later
    rw [if_neg later, if_neg later, List.length_append,
      List.length_take_of_le enough, goodBlkCodeMark]
    simp only [List.length_cons, List.length_nil]
    omega

theorem nandUnpack_dataBuf (blk : Nat) (src : List UInt8) :
    nandUnpack nand blk (nand.dataBuf blk src) = src.take (nand.payload blk) := by
  rw [nandUnpack, Nand.dataBuf]
  split
  · rw [List.take_take, Nat.min_self]
  · have unmarked :
        (goodBlkCodeMark ++ src.take (nand.payload blk)).drop 4 = src.take (nand.payload blk) :=
      rfl
    rw [unmarked, List.take_take, Nat.min_self]

theorem goodBlocks_succ (good : Nat → Bool) (blk blocks : Nat) :
    goodBlocks good blk (blocks + 1) =
      if good blk = true then blk :: goodBlocks good (blk + 1) blocks
      else goodBlocks good (blk + 1) blocks := by
  rw [goodBlocks, List.range'_succ, List.filter_cons, goodBlocks]

section

variable (lawful : driver.Lawful nand.pageSize good pages)

include lawful

theorem nandReadPages_programmed (isGood : good blk = true) {dataBuf : List UInt8}
    (length : dataBuf.length = nand.blkSize) {state : σ}
    (programmed :
      ∀ page < nand.pageInBlk,
        pages state blk page = slice (page * nand.pageSize) nand.pageSize dataBuf) :
    (nandReadPages driver blk nand.pageInBlk 0 state).1 = some dataBuf := by
  rw [(nandReadPages_spec lawful isGood _ 0 state).1]
  have sliced :
      (List.range' 0 nand.pageInBlk).flatMap (pages state blk) =
        (List.range' 0 nand.pageInBlk).flatMap fun index =>
          slice (index * nand.pageSize) nand.pageSize dataBuf := by
    apply List.flatMap_congr
    intro page member
    exact programmed page (by simpa using member)
  have whole : slice 0 nand.blkSize dataBuf = dataBuf := by rw [← length, slice_all]
  rw [sliced, flatMap_slice, Nat.zero_mul, ← Nand.blkSize, whole]

theorem nandWriteLoop_good (sized : nand.Sized) {len blocks blk doneLen : Nat} {state : σ}
    (isGood : good blk = true) (enough : nand.payload blk ≤ src.length) :
    ∃ after : σ, (∀ other, other ≠ blk → pages after other = pages state other) ∧
      (∀ page < nand.pageInBlk,
        pages after blk page = slice (page * nand.pageSize) nand.pageSize (nand.dataBuf blk src)) ∧
      nandWriteLoop driver nand len (blocks + 1) state blk doneLen src =
        if len ≤ doneLen + 1 then ⟨doneLen + 1, blk, after⟩
        else
          nandWriteLoop driver nand len blocks after (blk + 1) (doneLen + 1)
            (src.drop (nand.payload blk)) := by
  have tested := (lawful.tests state blk).trans isGood
  have erased := lawful.erases (driver.isBadBlockForBoot state blk).2 blk isGood
  obtain ⟨passes, programs, elsewhere⟩ :=
    nandProgram_spec lawful isGood nand.pageInBlk 0
      (driver.erase (driver.isBadBlockForBoot state blk).2 blk).2
      (by rw [Nat.zero_add, ← Nand.blkSize, sized.length_dataBuf enough])
  refine ⟨(nandProgram driver nand blk (nand.dataBuf blk src) nand.pageInBlk 0
    (driver.erase (driver.isBadBlockForBoot state blk).2 blk).2).2, ?_, ?_, ?_⟩
  · intro other different
    funext page
    rw [elsewhere other page (Or.inl different),
      lawful.eraseKeeps _ _ _ isGood different, lawful.testKeeps]
  · intro page inside
    exact programs page (Nat.zero_le page) (by omega)
  · rw [nandWriteLoop, if_neg (by simp [tested]), if_neg (by simp [erased]),
      if_neg (by simp [passes])]

theorem nandReadLoop_good (sized : nand.Sized) {len blocks blk doneLen : Nat} {state : σ}
    (isGood : good blk = true) (enough : nand.payload blk ≤ src.length)
    (programmed :
      ∀ page < nand.pageInBlk,
        pages state blk page = slice (page * nand.pageSize) nand.pageSize (nand.dataBuf blk src)) :
    ∃ after : σ, pages after = pages state ∧
      (nandReadLoop driver nand len (blocks + 1) state blk doneLen).1 =
        if len ≤ doneLen + 1 then
          some (src.take (nand.payload blk), doneLen + 1, blk)
        else
          (nandReadLoop driver nand len blocks after (blk + 1)
            (doneLen + 1)).1.map fun rest => (src.take (nand.payload blk) ++ rest.1, rest.2) := by
  have found :
      (nandReadPages driver blk nand.pageInBlk 0 (driver.isBadBlockForBoot state blk).2).1 =
        some (nand.dataBuf blk src) := by
    apply nandReadPages_programmed lawful isGood (sized.length_dataBuf enough)
    intro page inside
    rw [lawful.testKeeps]
    exact programmed page inside
  refine ⟨(nandReadPages driver blk nand.pageInBlk 0
    (driver.isBadBlockForBoot state blk).2).2, ?_, ?_⟩
  · rw [(nandReadPages_spec lawful isGood _ 0 _).2, lawful.testKeeps]
  · rw [nandReadLoop, if_neg (by simp [lawful.tests, isGood])]
    dsimp only
    rw [found]
    dsimp only
    rw [nandUnpack_dataBuf]
    split <;> rfl

theorem nandReadLoop_nandWriteLoop (sized : nand.Sized) {len : Nat} (blocks : Nat) :
    ∀ (blk doneLen : Nat) (src : List UInt8) (state : σ), doneLen < len →
      len ≤ doneLen + (goodBlocks good blk blocks).length →
      nand.capacity good blk blocks (len - doneLen) ≤ src.length →
      let written := nandWriteLoop driver nand len blocks state blk doneLen src
      written.doneLen = len ∧ (∀ other < blk, pages written.state other = pages state other) ∧
        ∀ later : σ, (∀ other, blk ≤ other → pages later other = pages written.state other) →
          ∃ last,
            (nandReadLoop driver nand len blocks later blk doneLen).1 =
              some (src.take (nand.capacity good blk blocks (len - doneLen)), len, last) := by
  induction blocks with
  | zero =>
    intro blk doneLen src state unfinished fits
    rw [goodBlocks, List.range'_zero, List.filter_nil, List.length_nil] at fits
    omega
  | succ blocks ih =>
    intro blk doneLen src state unfinished fits enough
    rw [Nand.capacity, goodBlocks_succ] at enough ⊢
    rw [goodBlocks_succ] at fits
    by_cases isGood : good blk = true
    · rw [if_pos isGood] at enough fits ⊢
      obtain ⟨more, moreEq⟩ : ∃ more, len - doneLen = more + 1 := ⟨len - doneLen - 1, by omega⟩
      rw [moreEq, List.take_succ_cons, List.map_cons, List.sum_cons]
        at enough ⊢
      rw [List.length_cons] at fits
      have packed : nand.payload blk ≤ src.length := by omega
      obtain ⟨after, elsewhere, programmed, turn⟩ := nandWriteLoop_good lawful sized isGood packed
      rw [turn]
      by_cases last : len ≤ doneLen + 1
      · obtain rfl : more = 0 := by omega
        have finished : doneLen + 1 = len := by omega
        rw [if_pos last]
        refine ⟨finished, ?_, ?_⟩
        · intro other below
          exact elsewhere other (by omega)
        · intro later agree
          obtain ⟨_, _, readTurn⟩ :=
            nandReadLoop_good lawful sized isGood packed fun page inside => by
              rw [agree blk (Nat.le_refl blk)]
              exact programmed page inside
          rw [readTurn, if_pos last, List.take_zero, List.map_nil,
            List.sum_nil, Nat.add_zero, finished]
          exact ⟨blk, rfl⟩
      · have rest : len - (doneLen + 1) = more := by omega
        obtain ⟨all, keeps, reads⟩ :=
          ih (blk + 1) (doneLen + 1) (src.drop (nand.payload blk)) after (by omega) (by omega)
            (by
              rw [rest, List.length_drop, Nand.capacity]
              omega)
        rw [if_neg last]
        refine ⟨all, ?_, ?_⟩
        · intro other below
          rw [keeps other (by omega)]
          exact elsewhere other (by omega)
        · intro later agree
          obtain ⟨afterRead, same, readTurn⟩ :=
            nandReadLoop_good lawful sized isGood packed fun page inside => by
              rw [agree blk (Nat.le_refl blk), keeps blk (by omega)]
              exact programmed page inside
          obtain ⟨last, readRest⟩ :=
            reads afterRead fun other above => by
              rw [same]
              exact agree other (by omega)
          rw [readTurn, if_neg ‹_›, readRest, rest, Option.map_some, ← List.take_add]
          exact ⟨last, rfl⟩
    · rw [if_neg isGood] at enough fits ⊢
      have isBad : good blk = false := by simpa using isGood
      obtain ⟨all, keeps, reads⟩ :=
        ih (blk + 1) doneLen src (driver.isBadBlockForBoot state blk).2 unfinished fits enough
      rw [nandWriteLoop, if_pos ((lawful.tests state blk).trans isBad)]
      refine ⟨all, ?_, ?_⟩
      · intro other before
        rw [keeps other (by omega), lawful.testKeeps]
      · intro later agree
        rw [nandReadLoop, if_pos ((lawful.tests later blk).trans isBad)]
        apply reads
        intro other above
        rw [lawful.testKeeps]
        exact agree other (by omega)

end

end RoundTrip

section Touched

variable {driver : NfDriver σ} {nand : Nand} {low high : Nat}

def Between (low high : Nat) (touched : List Nat) : Prop :=
  ∀ blk ∈ touched, low ≤ blk ∧ blk < high

theorem Between.cons {blk : Nat} {touched : List Nat} (above : low ≤ blk)
    (below : blk < high) (between : Between low high touched) :
    Between low high (blk :: touched) := by
  intro other member
  rcases List.mem_cons.mp member with rfl | before
  · exact ⟨above, below⟩
  · exact between other before

theorem nandProgram_between {blk : Nat} {dataBuf : List UInt8}
    (above : low ≤ blk) (below : blk < high) (count : Nat) :
    ∀ (pg : Nat) (state : σ × List Nat), Between low high state.2 →
      Between low high (nandProgram driver.logged nand blk dataBuf count pg state).2.2 := by
  induction count with
  | zero => exact fun _ _ between => between
  | succ count ih =>
    intro pg state between
    rw [nandProgram]
    split
    · exact ih _ _ (between.cons above below)
    · exact (between.cons above below).cons above below

theorem nandWriteLoop_between {len : Nat} (blocks : Nat) :
    ∀ (state : σ × List Nat) (blk doneLen : Nat) (src : List UInt8),
      Between low high state.2 → low ≤ blk → blk + blocks ≤ high →
      Between low high
        (nandWriteLoop driver.logged nand len blocks state blk doneLen src).state.2 := by
  induction blocks with
  | zero => exact fun _ _ _ _ between _ _ => between
  | succ blocks ih =>
    intro state blk doneLen src between above below
    have here : blk < high := by omega
    have tested := between.cons above here
    have programmed (dataBuf : List UInt8) (state : σ × List Nat)
        (between : Between low high state.2) :
        Between low high (nandProgram driver.logged nand blk dataBuf nand.pageInBlk 0 state).2.2 :=
      nandProgram_between above here nand.pageInBlk 0 state between
    rw [nandWriteLoop]
    dsimp only
    split
    · exact ih _ _ _ _ tested (by omega) (by omega)
    · split
      · exact ih _ _ _ _ ((tested.cons above here).cons above here) (by omega) (by omega)
      · split
        · exact ih _ _ _ _ (programmed _ _ (tested.cons above here)) (by omega) (by omega)
        · split
          · exact programmed _ _ (tested.cons above here)
          · exact ih _ _ _ _ (programmed _ _ (tested.cons above here)) (by omega) (by omega)

theorem nandReadPages_between {blk : Nat} (above : low ≤ blk) (below : blk < high) (count : Nat) :
    ∀ (pg : Nat) (state : σ × List Nat), Between low high state.2 →
      Between low high (nandReadPages driver.logged blk count pg state).2.2 := by
  induction count with
  | zero => exact fun _ _ between => between
  | succ count ih =>
    intro pg state between
    rw [nandReadPages]
    dsimp only
    split
    · exact between.cons above below
    · exact ih _ _ (between.cons above below)

theorem nandReadLoop_between {len : Nat} (blocks : Nat) :
    ∀ (state : σ × List Nat) (blk doneLen : Nat),
      Between low high state.2 → low ≤ blk → blk + blocks ≤ high →
      Between low high (nandReadLoop driver.logged nand len blocks state blk doneLen).2.2 := by
  induction blocks with
  | zero => exact fun _ _ _ between _ _ => between
  | succ blocks ih =>
    intro state blk doneLen between above below
    have here : blk < high := by omega
    have tested := between.cons above here
    have pages :
        Between low high
          (nandReadPages driver.logged blk nand.pageInBlk 0
            (driver.logged.isBadBlockForBoot state blk).2).2.2 :=
      nandReadPages_between above here nand.pageInBlk 0 _ tested
    rw [nandReadLoop]
    dsimp only
    split
    · exact ih _ _ _ tested (by omega) (by omega)
    · split
      · exact pages
      · split
        · exact pages
        · exact ih _ _ _ pages (by omega) (by omega)

end Touched

def Nand.atBlk (nand : Nand) (blk : Nat) : Nand := { nand with curBlk := blk }

def Nand.blocksLeft (nand : Nand) (blk : Nat) : Nat := (nand.atBlk blk).areaBoundary - blk

theorem nandLseek_set {nand : Nand} (rawMode : nand.ftlMode = false)
    {position : Nat} (small : position < 2 ^ 32) :
    (nandLseek nand position .seekSet).2 = nand.atBlk position := by
  have same : ((position : Int) % 2 ^ 32).toNat = position := by omega
  rw [nandLseek, Nand.atBlk]
  dsimp only
  rw [rawMode, if_neg (by simp), same]

theorem nandWrite_nand {driver : NfDriver σ} (nand : Nand) (state : σ)
    (src : List UInt8) (len : Nat) :
    ∃ blk, (nandWrite driver nand state src len).2.1 = nand.atBlk blk := by
  rw [nandWrite]
  split
  · exact ⟨nand.curBlk, rfl⟩
  · split
    · dsimp only
      split
      · exact ⟨_, rfl⟩
      · exact ⟨nand.curBlk, rfl⟩
    · split
      · exact ⟨nand.curBlk, rfl⟩
      · exact ⟨_, rfl⟩

theorem length_goodBlocks_le (good : Nat → Bool) (blk blocks : Nat) :
    (goodBlocks good blk blocks).length ≤ blocks := by
  have fewer := List.length_filter_le good (List.range' blk blocks)
  rw [List.length_range'] at fewer
  exact fewer

theorem nandRead_nandWrite_here {driver : NfDriver σ} {good : Nat → Bool}
    {pages : σ → Nat → Nat → List UInt8} {nand : Nand}
    (lawful : driver.Lawful nand.pageSize good pages) (sized : nand.Sized)
    (initialised : nand.numOfBlk ≠ 0 ∧ nand.sprSize ≠ 0)
    (rawMode : nand.ftlMode = false) {len : Nat} (inRange : nand.areaBoundary < 2 ^ 32)
    (fits : len ≤ (goodBlocks good nand.curBlk (nand.areaBoundary - nand.curBlk)).length)
    {src : List UInt8}
    (length : src.length = nand.capacity good nand.curBlk (nand.areaBoundary - nand.curBlk) len)
    (state : σ) :
    let written := nandWrite driver.logged nand (state, []) src len
    let read := nandRead driver.logged nand written.2.2 len
    written.1 = len ∧ read.1 = len ∧ read.2.1 = src ∧
      Between nand.curBlk nand.areaBoundary read.2.2.2.2 := by
  have holdsMark := sized.holdsMark
  have raw : ¬ nand.ftlMode = true := by simp [rawMode]
  rcases Nat.eq_zero_or_pos len with none | positive
  · subst none
    obtain rfl : src = [] := by
      rw [Nand.capacity, List.take_zero, List.map_nil, List.sum_nil] at length
      exact List.length_eq_zero_iff.mp length
    rw [nandWrite, if_pos (Or.inl rfl)]
    dsimp only
    rw [nandRead, if_neg raw, if_pos (Or.inr (Or.inr (Or.inl rfl)))]
    refine ⟨rfl, rfl, rfl, ?_⟩
    intro blk impossible
    cases impossible
  · have left := fits.trans (length_goodBlocks_le _ _ _)
    have inArea : ¬ (nand.curBlk + len) % 2 ^ 32 > nand.areaBoundary := by omega
    have usable :
        ¬ (len = 0 ∨ nand.numOfBlk = 0 ∨ nand.blkSize = 0) := by
      omega
    have readable :
        ¬ (nand.blkSize = 0 ∨
          (nand.curBlk + len) % 2 ^ 32 > nand.areaBoundary ∨ len = 0 ∨ nand.numOfBlk = 0) := by
      omega
    obtain ⟨all, _, reads⟩ :=
      nandReadLoop_nandWriteLoop lawful.logged sized
        (nand.areaBoundary - nand.curBlk) nand.curBlk 0 src (state, []) positive
        (by omega) (by rw [length]; exact Nat.le_refl _)
    obtain ⟨last, readBack⟩ := reads _ fun _ _ => rfl
    have whole : nand.curBlk + (nand.areaBoundary - nand.curBlk) ≤ nand.areaBoundary := by omega
    have nothing : Between nand.curBlk nand.areaBoundary [] := by
      intro blk impossible
      cases impossible
    have writeBetween :
        Between nand.curBlk nand.areaBoundary
          (nandWriteLoop driver.logged nand len
            (nand.areaBoundary - nand.curBlk) (state, []) nand.curBlk 0
            src).state.2 :=
      nandWriteLoop_between _ (state, []) _ 0 src nothing (Nat.le_refl _) whole
    rw [nandWrite, if_neg usable, if_neg raw, if_neg (not_or.mpr ⟨inArea, initialised.2⟩)]
    dsimp only
    rw [nandRead, if_neg raw, if_neg readable]
    dsimp only
    rw [readBack]
    refine ⟨all, rfl, ?_, nandReadLoop_between _ _ _ 0 writeBetween (Nat.le_refl _) whole⟩
    dsimp only
    rw [Nat.sub_zero, ← length, List.take_length]

def pageMemory (good : Nat → Bool) : NfDriver (Nat → Nat → List UInt8) where
  isBadBlockForBoot memory blk := (good blk, memory)
  erase memory blk := (good blk, fun other => if other = blk then fun _ => [] else memory other)
  write memory blk pg data _ :=
    (good blk, fun other page =>
      if good blk = true ∧ other = blk ∧ page = pg then data
      else memory other page)
  readPart memory blk pg := (some (memory blk pg), memory)
  readSector memory _ _ := (none, memory)
  writeSector memory _ _ _ := (false, memory)

theorem pageMemory_lawful (good : Nat → Bool) (pageSize : Nat) :
    (pageMemory good).Lawful pageSize good id where
  tests _ _ := rfl
  testKeeps _ _ := rfl
  erases _ _ isGood := isGood
  eraseKeeps _ _ _ _ different := if_neg different
  writes _ _ _ _ _ isGood := isGood
  programs _ _ _ _ _ isGood _ := if_pos ⟨isGood, rfl, rfl⟩
  writeKeeps _ _ _ _ _ _ _ _ elsewhere :=
    if_neg fun same => elsewhere.elim (fun other => other same.2.1) fun page => page same.2.2
  reads _ _ _ _ := rfl
  readKeeps _ _ _ := rfl

end

end IteSdk.Itp
