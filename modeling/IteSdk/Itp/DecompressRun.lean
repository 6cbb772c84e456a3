import IteSdk.Itp.Decompress
import Mathlib.Algebra.BigOperators.Group.List.Basic

/-!
# Decompressing along the chain of blocks

`DecompressWrite` counts the output with `DcpsGetSize`, and `DoDcps` goes along the same
blocks to produce it.  A block whose output is no multiple of four bytes goes through a
buffer of its own, from which the whole destination is copied and not the block.
-/

namespace IteSdk.Itp

/-! ## The driver -/

structure DcpsRange where
  start : Nat
  length : Nat
  deriving DecidableEq

def DcpsRange.Within (size : Nat) (range : DcpsRange) : Prop := range.start + range.length ≤ size

/-- The decompressor: how many bytes it reports for a block, and whether it sets its
error bit. -/
structure DcpsHardware where
  doneLen : DcpsHeader → BitVec 32
  failed : DcpsHeader → Bool

/-- `g_DcpsInfo` when `DoDcps` is called.  `patch` is the configuration with
`ENABLE_PATCH_DST_BASE_ALIGNMENT_ISSUE`. -/
structure DcpsInfo where
  patch : Bool
  mode : DcpsMode
  srcbuf : Nat → UInt8
  srcLen : BitVec 32
  dstLen : BitVec 32

/-- What `DoDcps` has done: the headers it has read, the other ranges of the source,
those of the destination and of `alignDstBuff`, and what it returned. -/
structure DcpsRun where
  headers : List DcpsHeader
  reads : List DcpsRange
  writes : List DcpsRange
  aligned : List DcpsRange
  result : Option Bool

structure BlockAccess where
  writes : List DcpsRange
  aligned : List DcpsRange

namespace DcpsHeader

def Compressed (header : DcpsHeader) : Prop := header.inLen < header.outLen
deriving Decidable

/-- The hardware cannot write the last bytes of the block where they belong. -/
def Unaligned (header : DcpsHeader) : Prop := header.Compressed ∧ header.outLen % 4 ≠ 0
deriving Decidable

def data (header : DcpsHeader) : DcpsRange := ⟨(header.pos + 4 + 4).toNat, header.inLen.toNat⟩

end DcpsHeader

def DcpsInfo.access (info : DcpsInfo) (header : DcpsHeader) (j : BitVec 32) : BlockAccess :=
  if header.Compressed then
    if info.patch = true ∧ header.outLen % 4 ≠ 0 then
      let shift := (4 - info.dstLen % 4).toNat
      ⟨[⟨j.toNat, info.dstLen.toNat⟩], [⟨shift, header.outLen.toNat⟩, ⟨shift, info.dstLen.toNat⟩]⟩
    else ⟨[⟨j.toNat, header.outLen.toNat⟩], []⟩
  else ⟨[⟨j.toNat, header.inLen.toNat⟩], []⟩

/-- The loop of `DoDcps` over the blocks. -/
def doBlocks (hardware : DcpsHardware) (info : DcpsInfo) : Nat → BitVec 32 → BitVec 32 → DcpsRun
  | 0, _, _ => ⟨[], [], [], [], none⟩
  | fuel + 1, i, j =>
    if info.srcLen + 8 ≤ i ∨ info.dstLen ≤ j then
      -- A warning prints the first bytes of the source.
      if info.srcLen + 8 < i ∨ info.dstLen < j then ⟨[], [⟨0, 8⟩], [], [], some true⟩
      else ⟨[], [], [], [], some true⟩
    else
      let header := headerAt (DcpsMode.ucl.wordAt info.srcbuf) i
      if header.outLen = 0 then ⟨[header], [], [], [], some true⟩
      else
        let access := info.access header j
        if header.Compressed ∧ hardware.failed header = true then
          ⟨[header], [header.data], access.writes, access.aligned, some false⟩
        else
          let doneLen := if header.Compressed then hardware.doneLen header else header.inLen
          let rest := doBlocks hardware info fuel (i + 4 + 4 + header.inLen) (j + doneLen)
          ⟨header :: rest.headers, header.data :: rest.reads,
            access.writes ++ rest.writes, access.aligned ++ rest.aligned, rest.result⟩

def doDcps (hardware : DcpsHardware) (info : DcpsInfo) (fuel : Nat) : DcpsRun :=
  match info.mode with
  | .brflz =>
    ⟨[], [⟨0, (info.srcLen + 14).toNat⟩], [⟨0, info.dstLen.toNat⟩], [], some true⟩
  | .compress =>
    ⟨[], [⟨0, info.srcLen.toNat⟩], [⟨0, info.dstLen.toNat⟩], [], some true⟩
  | .ucl => doBlocks hardware info fuel 0 0

def blocksOf (headers : List DcpsHeader) : List DcpsHeader :=
  headers.filter fun header => header.outLen ≠ 0

def totalSize (blocks : List DcpsHeader) : Nat :=
  (blocks.map fun block => block.outputSize.toNat).sum

/-- The run visits these blocks, reads inside the source, and writes inside the
destination. -/
structure RunFits (info : DcpsInfo) (blocks : List DcpsHeader) (run : DcpsRun) : Prop where
  result : run.result = some true
  visited : blocksOf run.headers = blocks
  headers : ∀ header ∈ run.headers, header.Inside 0 info.srcLen
  reads : ∀ range ∈ run.reads, range.Within info.srcLen.toNat
  writes : ∀ range ∈ run.writes, range.Within info.dstLen.toNat
  aligned : ∀ range ∈ run.aligned, range.Within (info.dstLen + 64).toNat

/-- `DcpsGetSize` returns the size of the blocks it has counted, and `DoDcps` on a
destination of this size visits these blocks. -/
structure DcpsAgrees (hardware : DcpsHardware) (patch : Bool) (mode : DcpsMode)
    (src srcbuf : Nat → UInt8) (srcLen : BitVec 32) (fuel : Nat) (size : BitVec 32) :
    Prop where
  returns : (dcpsGetSize mode src srcLen fuel).size = some size
  total : size.toNat = totalSize (blocksOf (dcpsGetSize mode src srcLen fuel).headers)
  run :
    RunFits ⟨patch, mode, srcbuf, srcLen, size⟩
      (blocksOf (dcpsGetSize mode src srcLen fuel).headers)
      (doDcps hardware ⟨patch, mode, srcbuf, srcLen, size⟩ fuel)

/-- The source is decompressed block by block; the blocks lie inside it, and what they
become can be counted.  Where a buffer stands in for an unaligned destination, only the
first block needs it. -/
structure SourceFits (patch : Bool) (mode : DcpsMode) (src : Nat → UInt8)
    (srcLen : BitVec 32) : Prop where
  mode : mode = .ucl
  inside :
    ∀ block ∈ blocksOf (dcpsHeaders .ucl src srcLen),
      block.pos.toNat + 8 + block.inLen.toNat ≤ srcLen.toNat
  total : totalSize (blocksOf (dcpsHeaders .ucl src srcLen)) < 2 ^ 32
  first : patch = true → ∀ block ∈ (blocksOf (dcpsHeaders .ucl src srcLen)).tail, ¬ block.Unaligned
  buffer :
    patch = true → (∃ block ∈ blocksOf (dcpsHeaders .ucl src srcLen), block.Unaligned) →
      totalSize (blocksOf (dcpsHeaders .ucl src srcLen)) + 64 < 2 ^ 32

section Blocks

variable {header : DcpsHeader} {headers blocks : List DcpsHeader}

theorem blocksOf_cons (block : header.outLen ≠ 0) :
    blocksOf (header :: headers) = header :: blocksOf headers :=
  List.filter_cons_of_pos (by simpa using block)

theorem blocksOf_end (last : header.outLen = 0) : blocksOf [header] = [] :=
  List.filter_cons_of_neg (by simpa using last)

theorem mem_blocksOf : header ∈ blocksOf headers ↔ header ∈ headers ∧ header.outLen ≠ 0 := by
  rw [blocksOf, List.mem_filter, decide_eq_true_iff]

@[simp] theorem totalSize_cons :
    totalSize (header :: blocks) = header.outputSize.toNat + totalSize blocks := by
  rw [totalSize, List.map_cons, List.sum_cons]
  rfl

theorem outputSize_compressed (compressed : header.Compressed) :
    header.outputSize = header.outLen :=
  if_pos compressed

theorem outputSize_stored (stored : ¬ header.Compressed) : header.outputSize = header.inLen :=
  if_neg stored

theorem outputSize_pos (block : header.outLen ≠ 0) : 0 < header.outputSize.toNat := by
  have notZero : header.outLen.toNat ≠ 0 := by
    intro zero
    exact block (BitVec.eq_of_toNat_eq zero)
  by_cases compressed : header.Compressed
  · rw [outputSize_compressed compressed]
    omega
  · rw [outputSize_stored compressed]
    rw [DcpsHeader.Compressed, BitVec.lt_def] at compressed
    omega

end Blocks

section Chain

variable {wordAt : BitVec 32 → BitVec 32} {srcLen : BitVec 32} {fuel pos : Nat}
  {size : BitVec 32}

/-- The rest of a chain whose blocks lie inside the source. -/
structure BlockChain (wordAt : BitVec 32 → BitVec 32) (srcLen : BitVec 32)
    (fuel pos : Nat) : Prop where
  small : pos < 2 ^ 32
  enough : srcLen.toNat ≤ pos + fuel
  inside :
    ∀ block ∈ blocksOf (headersFrom wordAt srcLen.toNat fuel pos),
      block.pos.toNat + 8 + block.inLen.toNat ≤ srcLen.toNat

theorem BlockChain.next (chain : BlockChain wordAt srcLen (fuel + 1) pos)
    (before : pos < srcLen.toNat) (block : (headerAt wordAt (BitVec.ofNat 32 pos)).outLen ≠ 0) :
    (headerAt wordAt (BitVec.ofNat 32 pos)).next =
        pos + 8 + (headerAt wordAt (BitVec.ofNat 32 pos)).inLen.toNat ∧
      (headerAt wordAt (BitVec.ofNat 32 pos)).next ≤ srcLen.toNat ∧
      BlockChain wordAt srcLen fuel (headerAt wordAt (BitVec.ofNat 32 pos)).next := by
  have srcLt := srcLen.isLt
  have here : (headerAt wordAt (BitVec.ofNat 32 pos)).pos.toNat = pos := pos_headerAt chain.small
  have inside := chain.inside
  rw [headersFrom_block before block, blocksOf_cons block] at inside
  have ends := inside _ List.mem_cons_self
  have behind :
      (headerAt wordAt (BitVec.ofNat 32 pos)).next =
        pos + 8 + (headerAt wordAt (BitVec.ofNat 32 pos)).inLen.toNat := by
    rw [DcpsHeader.next, here, Nat.mod_eq_of_lt (by omega)]
  have enough := chain.enough
  refine ⟨behind, by omega, DcpsHeader.next_lt _, by omega, fun later member => ?_⟩
  exact inside later (List.mem_cons_of_mem _ member)

theorem BlockChain.scan (chain : BlockChain wordAt srcLen fuel pos)
    (fits : size.toNat + totalSize (blocksOf (headersFrom wordAt srcLen.toNat fuel pos)) < 2 ^ 32) :
    headersFrom wordAt srcLen.toNat (fuel + 1) pos = headersFrom wordAt srcLen.toNat fuel pos ∧
      ∃ total : BitVec 32,
        (scanFrom wordAt DcpsHeader.outputSize srcLen (fuel + 1) (BitVec.ofNat 32 pos)
          size).size = some total ∧
        total.toNat =
          size.toNat + totalSize (blocksOf (headersFrom wordAt srcLen.toNat fuel pos)) := by
  induction fuel generalizing pos size with
  | zero =>
    have enough := chain.enough
    rw [headersFrom_past (by omega), headersFrom_past (by omega),
      scanFrom_past chain.small (by omega)]
    exact ⟨rfl, size, rfl, rfl⟩
  | succ fuel ih =>
    by_cases before : pos < srcLen.toNat
    · by_cases last : (headerAt wordAt (BitVec.ofNat 32 pos)).outLen = 0
      · rw [headersFrom_end before last, headersFrom_end before last,
          scanFrom_end chain.small before last, blocksOf_end last]
        exact ⟨rfl, size, rfl, rfl⟩
      · obtain ⟨-, -, rest⟩ := chain.next before last
        rw [headersFrom_block before last, blocksOf_cons last, totalSize_cons] at fits
        have counted :
            (size + (headerAt wordAt (BitVec.ofNat 32 pos)).outputSize).toNat =
              size.toNat + (headerAt wordAt (BitVec.ofNat 32 pos)).outputSize.toNat := by
          rw [BitVec.toNat_add, Nat.mod_eq_of_lt (by omega)]
        obtain ⟨same, total, returns, sum⟩ := ih rest (by rw [counted]; omega)
        rw [headersFrom_block before last, headersFrom_block before last, same,
          blocksOf_cons last, totalSize_cons]
        refine ⟨rfl, total, ?_, ?_⟩
        · rw [scanFrom_block chain.small before last]
          exact returns
        · rw [sum, counted]
          omega
    · rw [headersFrom_past before, headersFrom_past before, scanFrom_past chain.small before]
      exact ⟨rfl, size, rfl, rfl⟩

end Chain

/-! ## The run over a source that fits -/

section Forward

variable {hardware : DcpsHardware} {info : DcpsInfo} {src : Nat → UInt8}
  {fuel pos : Nat} {j : BitVec 32} {header : DcpsHeader} {blocks : List DcpsHeader}

theorem bigEndianAt_congr {src' : Nat → UInt8} {i : BitVec 32}
    (same : ∀ k < 4, byteAt src (i + BitVec.ofNat 32 k) = byteAt src' (i + BitVec.ofNat 32 k)) :
    bigEndianAt src i = bigEndianAt src' i := by
  have first : byteAt src i = byteAt src' i := by
    have zero := same 0 (by omega)
    rwa [BitVec.add_zero] at zero
  have second : byteAt src (i + 1) = byteAt src' (i + 1) := same 1 (by omega)
  have third : byteAt src (i + 2) = byteAt src' (i + 2) := same 2 (by omega)
  have fourth : byteAt src (i + 3) = byteAt src' (i + 3) := same 3 (by omega)
  rw [bigEndianAt, bigEndianAt, first, second, third, fourth]

theorem headerAt_copied (copied : ∀ n < info.srcLen.toNat + 8, info.srcbuf n = src n)
    (ends : pos + 8 ≤ info.srcLen.toNat) :
    headerAt (DcpsMode.ucl.wordAt info.srcbuf) (BitVec.ofNat 32 pos) =
      headerAt (DcpsMode.ucl.wordAt src) (BitVec.ofNat 32 pos) := by
  have srcLt := info.srcLen.isLt
  have byte (i : BitVec 32) (inside : i.toNat < info.srcLen.toNat) :
      byteAt info.srcbuf i = byteAt src i := by
    rw [byteAt, byteAt, copied i.toNat (by omega)]
  have word (at' : Nat) (small : at' + 4 ≤ 8) :
      bigEndianAt info.srcbuf (BitVec.ofNat 32 (pos + at')) =
        bigEndianAt src (BitVec.ofNat 32 (pos + at')) := by
    apply bigEndianAt_congr
    intro k less
    apply byte
    rw [BitVec.toNat_add, BitVec.toNat_ofNat, BitVec.toNat_ofNat]
    omega
  have outLen := word 0 (by omega)
  have inLen := word 4 (by omega)
  rw [BitVec.ofNat_add] at inLen
  rw [headerAt, headerAt]
  exact congrArg₂ (DcpsHeader.mk _) outLen inLen

theorem access_whole (header : DcpsHeader) (smooth : info.patch = true → ¬ header.Unaligned)
    (j : BitVec 32) :
    info.access header j = ⟨[⟨j.toNat, header.outputSize.toNat⟩], []⟩ := by
  by_cases compressed : header.Compressed
  · rw [DcpsInfo.access, outputSize_compressed compressed, if_pos compressed, if_neg]
    rintro ⟨patch, odd⟩
    exact smooth patch ⟨compressed, odd⟩
  · rw [DcpsInfo.access, outputSize_stored compressed, if_neg compressed]

theorem access_unaligned (patch : info.patch = true) (unaligned : header.Unaligned)
    (j : BitVec 32) :
    info.access header j =
      ⟨[⟨j.toNat, info.dstLen.toNat⟩],
        [⟨(4 - info.dstLen % 4).toNat, header.outLen.toNat⟩,
          ⟨(4 - info.dstLen % 4).toNat, info.dstLen.toNat⟩]⟩ := by
  rw [DcpsInfo.access, if_pos unaligned.1, if_pos ⟨patch, unaligned.2⟩]

section

variable (small : pos < 2 ^ 32)
  (going : ¬ (info.srcLen + 8 ≤ BitVec.ofNat 32 pos ∨ info.dstLen ≤ j))
  (isHeader : headerAt (DcpsMode.ucl.wordAt info.srcbuf) (BitVec.ofNat 32 pos) = headerAt (DcpsMode.ucl.wordAt src) (BitVec.ofNat 32 pos))
  (here : header = headerAt (DcpsMode.ucl.wordAt src) (BitVec.ofNat 32 pos))
  (block : header.outLen ≠ 0) (reports : hardware.doneLen header = header.outLen)
  (succeeds : hardware.failed header = false)

include small going isHeader here block reports succeeds

theorem doBlocks_block :
    doBlocks hardware info (fuel + 1) (BitVec.ofNat 32 pos) j =
      let rest := doBlocks hardware info fuel (BitVec.ofNat 32 header.next) (j + header.outputSize)
      ⟨header :: rest.headers, header.data :: rest.reads,
        (info.access header j).writes ++ rest.writes,
        (info.access header j).aligned ++ rest.aligned, rest.result⟩ := by
  subst here
  have noError :
      ¬ ((headerAt (DcpsMode.ucl.wordAt src) (BitVec.ofNat 32 pos)).Compressed ∧
        hardware.failed (headerAt (DcpsMode.ucl.wordAt src) (BitVec.ofNat 32 pos)) = true) := by
    rintro ⟨-, failed⟩
    cases succeeds.symm.trans failed
  rw [doBlocks, if_neg going, isHeader, ← cursor_next small]
  dsimp only
  rw [if_neg block, if_neg noError, reports]
  rfl

theorem RunFits.cons (ends : pos + 8 + header.inLen.toNat ≤ info.srcLen.toNat)
    (writes : ∀ range ∈ (info.access header j).writes, range.Within info.dstLen.toNat)
    (aligned : ∀ range ∈ (info.access header j).aligned, range.Within (info.dstLen + 64).toNat)
    (rest :
      RunFits info blocks
        (doBlocks hardware info fuel (BitVec.ofNat 32 header.next) (j + header.outputSize))) :
    RunFits info (header :: blocks)
      (doBlocks hardware info (fuel + 1) (BitVec.ofNat 32 pos) j) := by
  have srcLt := info.srcLen.isLt
  have position : header.pos.toNat = pos := by
    rw [here]
    exact pos_headerAt small
  rw [doBlocks_block small going isHeader here block reports succeeds]
  refine ⟨rest.result, ?_, ?_, ?_, ?_, ?_⟩
  · exact (blocksOf_cons block).trans (congrArg _ rest.visited)
  · refine List.forall_mem_cons.mpr ⟨?_, rest.headers⟩
    apply (inside_iff (by omega)).mpr
    omega
  · refine List.forall_mem_cons.mpr ⟨?_, rest.reads⟩
    have four : BitVec.toNat (4 : BitVec 32) = 4 := rfl
    have start : (header.pos + 4 + 4).toNat = pos + 8 := by
      rw [BitVec.toNat_add, BitVec.toNat_add, position, four]
      omega
    rw [DcpsRange.Within, DcpsHeader.data, start]
    exact ends
  · exact List.forall_mem_append.mpr ⟨writes, rest.writes⟩
  · exact List.forall_mem_append.mpr ⟨aligned, rest.aligned⟩

end

/-- Only the block at the beginning of the destination goes through a buffer. -/
def Smooth (info : DcpsInfo) (j : BitVec 32) (blocks : List DcpsHeader) : Prop :=
  info.patch = true →
    (∀ block ∈ blocks.tail, ¬ block.Unaligned) ∧
      ∀ block ∈ blocks.head?, block.Unaligned → j = 0 ∧ info.dstLen.toNat + 64 < 2 ^ 32

theorem Smooth.tail (smooth : Smooth info j (header :: blocks)) (j' : BitVec 32) :
    Smooth info j' blocks := by
  intro patch
  obtain ⟨later, -⟩ := smooth patch
  refine ⟨fun block member => later block (List.mem_of_mem_tail member), ?_⟩
  intro block isHead unaligned
  exact absurd unaligned (later block (List.mem_of_mem_head? isHead))

theorem access_within (smooth : Smooth info j (header :: blocks))
    (fits : j.toNat + header.outputSize.toNat ≤ info.dstLen.toNat) :
    (∀ range ∈ (info.access header j).writes, range.Within info.dstLen.toNat) ∧
      ∀ range ∈ (info.access header j).aligned, range.Within (info.dstLen + 64).toNat := by
  by_cases whole : info.patch = true → ¬ header.Unaligned
  · rw [access_whole header whole]
    refine ⟨fun range member => ?_, fun range member => ?_⟩
    · obtain rfl := List.mem_singleton.mp member
      exact fits
    · cases member
  · obtain ⟨patch, unaligned⟩ := Classical.not_imp.mp whole
    rw [not_not] at unaligned
    obtain ⟨rfl, room⟩ := (smooth patch).2 header rfl unaligned
    have outLen := outputSize_compressed unaligned.1
    have size : (info.dstLen + 64).toNat = info.dstLen.toNat + 64 := by
      rw [BitVec.toNat_add]
      exact Nat.mod_eq_of_lt room
    have shift : (4 - info.dstLen % 4).toNat ≤ 4 := by
      have rest : (info.dstLen % 4).toNat = info.dstLen.toNat % 4 := BitVec.toNat_umod
      have four : BitVec.toNat (4 : BitVec 32) = 4 := rfl
      rw [BitVec.toNat_sub, rest, four]
      omega
    have zero : BitVec.toNat (0 : BitVec 32) = 0 := rfl
    rw [access_unaligned patch unaligned, size]
    rw [outLen] at fits
    refine ⟨fun range member => ?_, fun range member => ?_⟩
    · obtain rfl := List.mem_singleton.mp member
      rw [DcpsRange.Within, zero, Nat.zero_add]
    · rcases List.mem_cons.mp member with rfl | member
      · change (4 - info.dstLen % 4).toNat + header.outLen.toNat ≤ _
        omega
      · obtain rfl := List.mem_singleton.mp member
        change (4 - info.dstLen % 4).toNat + info.dstLen.toNat ≤ _
        omega

theorem toNat_limit (declared : info.srcLen.toNat + 8 < 2 ^ 32) :
    (info.srcLen + 8).toNat = info.srcLen.toNat + 8 := by
  rw [BitVec.toNat_add]
  exact Nat.mod_eq_of_lt declared

/-- Behind the last block the destination is full, and the loop ends without a
warning. -/
theorem doBlocks_done (declared : info.srcLen.toNat + 8 < 2 ^ 32)
    (inside : pos ≤ info.srcLen.toNat) (full : j.toNat = info.dstLen.toNat) :
    RunFits info [] (doBlocks hardware info (fuel + 1) (BitVec.ofNat 32 pos) j) := by
  have noWarning : ¬ (info.srcLen + 8 < BitVec.ofNat 32 pos ∨ info.dstLen < j) := by
    rw [BitVec.lt_def, BitVec.lt_def, toNat_limit declared, BitVec.toNat_ofNat]
    omega
  have stops : info.srcLen + 8 ≤ BitVec.ofNat 32 pos ∨ info.dstLen ≤ j :=
    Or.inr (BitVec.le_def.mpr (Nat.le_of_eq full.symm))
  rw [doBlocks, if_pos stops, if_neg noWarning]
  constructor
  · rfl
  · rfl
  all_goals
    intro range member
    cases member

theorem BlockChain.run (chain : BlockChain (DcpsMode.ucl.wordAt src) info.srcLen fuel pos)
    (declared : info.srcLen.toNat + 8 < 2 ^ 32)
    (copied : ∀ n < info.srcLen.toNat + 8, info.srcbuf n = src n)
    (reports : ∀ header, hardware.doneLen header = header.outLen)
    (succeeds : ∀ header, hardware.failed header = false) (inside : pos ≤ info.srcLen.toNat)
    (fits :
      j.toNat +
          totalSize (blocksOf (headersFrom (DcpsMode.ucl.wordAt src) info.srcLen.toNat fuel pos)) =
        info.dstLen.toNat)
    (smooth :
      Smooth info j (blocksOf (headersFrom (DcpsMode.ucl.wordAt src) info.srcLen.toNat fuel pos))) :
    RunFits info (blocksOf (headersFrom (DcpsMode.ucl.wordAt src) info.srcLen.toNat fuel pos))
      (doBlocks hardware info (fuel + 1) (BitVec.ofNat 32 pos) j) := by
  induction fuel generalizing pos j with
  | zero =>
    have enough := chain.enough
    rw [headersFrom_past (by omega)] at fits ⊢
    exact doBlocks_done declared inside fits
  | succ fuel ih =>
    by_cases before : pos < info.srcLen.toNat
    · by_cases last :
          (headerAt (DcpsMode.ucl.wordAt src) (BitVec.ofNat 32 pos)).outLen = 0
      · rw [headersFrom_end before last, blocksOf_end last] at fits ⊢
        exact doBlocks_done declared inside fits
      · obtain ⟨behind, ends, rest⟩ := chain.next before last
        rw [headersFrom_block before last, blocksOf_cons last] at fits smooth ⊢
        rw [totalSize_cons] at fits
        have sizePos := outputSize_pos last
        have dstLt := info.dstLen.isLt
        obtain ⟨writes, aligned⟩ := access_within smooth (by omega)
        have written :
            (j + (headerAt (DcpsMode.ucl.wordAt src) (BitVec.ofNat 32 pos)).outputSize).toNat =
              j.toNat +
                (headerAt (DcpsMode.ucl.wordAt src) (BitVec.ofNat 32 pos)).outputSize.toNat := by
          rw [BitVec.toNat_add, Nat.mod_eq_of_lt (by omega)]
        refine
          RunFits.cons chain.small ?_ (headerAt_copied copied (by omega)) rfl last
            (reports _) (succeeds _) (by omega) writes aligned ?_
        · rw [BitVec.le_def, BitVec.le_def, toNat_limit declared, BitVec.toNat_ofNat,
            Nat.mod_eq_of_lt chain.small]
          omega
        · refine ih rest ends ?_ (smooth.tail _)
          rw [written]
          omega
    · rw [headersFrom_past before] at fits ⊢
      exact doBlocks_done declared inside fits

end Forward

section Backward

variable {hardware : DcpsHardware} {info : DcpsInfo} {fuel : Nat} {i j : BitVec 32}

theorem doBlocks_cases (hardware : DcpsHardware) (info : DcpsInfo) (fuel : Nat) (i j : BitVec 32) :
    blocksOf (doBlocks hardware info (fuel + 1) i j).headers = [] ∨
      ∃ header rest, header.outLen ≠ 0 ∧
        (doBlocks hardware info (fuel + 1) i j).headers = header :: rest.headers ∧
        (doBlocks hardware info (fuel + 1) i j).reads = header.data :: rest.reads ∧
        (doBlocks hardware info (fuel + 1) i j).writes =
          (info.access header j).writes ++ rest.writes ∧
        (doBlocks hardware info (fuel + 1) i j).aligned =
          (info.access header j).aligned ++ rest.aligned ∧
        (rest.headers = [] ∨
          rest =
            doBlocks hardware info fuel (i + 4 + 4 + header.inLen)
              (j + if header.Compressed then hardware.doneLen header
                else header.inLen)) := by
  rw [doBlocks]
  split
  · left
    split
    · rfl
    · rfl
  · dsimp only
    split
    · rename_i last
      exact Or.inl (blocksOf_end last)
    · rename_i block
      right
      split
      · exact
          ⟨_, ⟨[], [], [], [], some false⟩, block, rfl, rfl, (List.append_nil _).symm,
            (List.append_nil _).symm, Or.inl rfl⟩
      · exact ⟨_, _, block, rfl, rfl, rfl, rfl, Or.inr rfl⟩

theorem data_mem_reads (fuel : Nat) (i j : BitVec 32) :
    ∀ block ∈ blocksOf (doBlocks hardware info fuel i j).headers,
      block.data ∈ (doBlocks hardware info fuel i j).reads := by
  induction fuel generalizing i j with
  | zero =>
    intro block member
    cases member
  | succ fuel ih =>
    intro block member
    rcases doBlocks_cases hardware info fuel i j with
      none | ⟨header, rest, isBlock, headers, reads, -, -, goesOn⟩
    · rw [none] at member
      cases member
    · rw [headers, blocksOf_cons isBlock] at member
      rw [reads]
      rcases List.mem_cons.mp member with rfl | later
      · exact List.mem_cons_self
      · apply List.mem_cons_of_mem
        rcases goesOn with empty | rfl
        · rw [empty] at later
          cases later
        · exact ih _ _ block later

theorem access_mem (reports : ∀ header, hardware.doneLen header = header.outLen)
    (fuel : Nat) {i j : BitVec 32} {before after : List DcpsHeader} {block : DcpsHeader}
    (split : blocksOf (doBlocks hardware info fuel i j).headers = before ++ block :: after) :
    (∀ range ∈ (info.access block (j + BitVec.ofNat 32 (totalSize before))).writes,
      range ∈ (doBlocks hardware info fuel i j).writes) ∧
      ∀ range ∈ (info.access block (j + BitVec.ofNat 32 (totalSize before))).aligned,
        range ∈ (doBlocks hardware info fuel i j).aligned := by
  induction fuel generalizing i j before with
  | zero => simp [doBlocks, blocksOf] at split
  | succ fuel ih =>
    rcases doBlocks_cases hardware info fuel i j with
      none | ⟨header, rest, isBlock, headers, -, writes, aligned, goesOn⟩
    · rw [none] at split
      simp at split
    · rw [headers, blocksOf_cons isBlock] at split
      rw [writes, aligned]
      cases before with
      | nil =>
        obtain ⟨rfl, -⟩ := List.cons_eq_cons.mp split
        have start : j + BitVec.ofNat 32 (totalSize []) = j := BitVec.add_zero j
        rw [start]
        exact
          ⟨fun range member => List.mem_append_left _ member,
            fun range member => List.mem_append_left _ member⟩
      | cons first before =>
        obtain ⟨rfl, rest'⟩ := List.cons_eq_cons.mp split
        rcases goesOn with empty | rfl
        · rw [empty] at rest'
          simp [blocksOf] at rest'
        · have doneLen :
              (if header.Compressed then hardware.doneLen header
                else header.inLen) =
                header.outputSize := by
            rw [reports]
            rfl
          rw [doneLen] at rest' ⊢
          obtain ⟨writesLater, alignedLater⟩ := ih rest'
          have start :
              j + BitVec.ofNat 32 (totalSize (header :: before)) =
                j + header.outputSize + BitVec.ofNat 32 (totalSize before) := by
            rw [totalSize_cons, BitVec.ofNat_add, BitVec.ofNat_toNat,
              BitVec.setWidth_eq, BitVec.add_assoc]
          rw [start]
          exact
            ⟨fun range member => List.mem_append_right _ (writesLater range member),
              fun range member => List.mem_append_right _ (alignedLater range member)⟩

variable {blocks : List DcpsHeader}

theorem RunFits.block_inside (fits : RunFits info blocks (doBlocks hardware info fuel i j)) :
    ∀ block ∈ blocks, block.pos.toNat + 8 + block.inLen.toNat ≤ info.srcLen.toNat := by
  intro block member
  rw [← fits.visited] at member
  have isInside := fits.headers block (mem_blocksOf.mp member).1
  have data := fits.reads _ (data_mem_reads fuel i j block member)
  have first := isInside 0 (by omega)
  rw [BitVec.add_zero, Nat.zero_add] at first
  have ends := (inside_iff first).mp isInside
  have srcLt := info.srcLen.isLt
  have four : BitVec.toNat (4 : BitVec 32) = 4 := rfl
  have start : (block.pos + 4 + 4).toNat = block.pos.toNat + 8 := by
    rw [BitVec.toNat_add, BitVec.toNat_add, four]
    omega
  rw [DcpsRange.Within, DcpsHeader.data, start] at data
  exact data

theorem length_pos_of_tail {block : DcpsHeader} (member : block ∈ blocks.tail) :
    ∃ before after, blocks = before ++ block :: after ∧ before ≠ [] := by
  cases blocks with
  | nil => cases member
  | cons first blocks =>
    obtain ⟨before, after, rfl⟩ := List.append_of_mem member
    exact ⟨first :: before, after, rfl, List.cons_ne_nil _ _⟩

theorem totalSize_append (before after : List DcpsHeader) :
    totalSize (before ++ after) = totalSize before + totalSize after := by
  rw [totalSize, List.map_append, List.sum_append]
  rfl

/-- Where the destination is not aligned, the whole of it is copied for a block, which
only fits for the first one. -/
theorem RunFits.smooth (reports : ∀ header, hardware.doneLen header = header.outLen)
    (fits : RunFits info blocks (doBlocks hardware info fuel i 0))
    (total : info.dstLen.toNat = totalSize blocks)
    (isBlock : ∀ block ∈ blocks, block.outLen ≠ 0) (patch : info.patch = true) :
    (∀ block ∈ blocks.tail, ¬ block.Unaligned) ∧
      ((∃ block ∈ blocks, block.Unaligned) → totalSize blocks + 64 < 2 ^ 32) := by
  have dstLt := info.dstLen.isLt
  constructor
  · intro block member unaligned
    obtain ⟨before, after, split, notEmpty⟩ := length_pos_of_tail member
    have visited := fits.visited.trans split
    have written := (access_mem reports fuel visited).1
    rw [access_unaligned patch unaligned] at written
    have within := fits.writes _ (written _ List.mem_cons_self)
    have parts : totalSize blocks = totalSize before + totalSize (block :: after) := by
      rw [split, totalSize_append]
    have positive : 0 < totalSize before := by
      cases before with
      | nil => exact absurd rfl notEmpty
      | cons first before =>
        have size := outputSize_pos (isBlock first (split ▸ List.mem_cons_self))
        rw [totalSize_cons]
        omega
    have start :
        ((0 : BitVec 32) + BitVec.ofNat 32 (totalSize before)).toNat = totalSize before := by
      change (0#32 + BitVec.ofNat 32 (totalSize before)).toNat = totalSize before
      rw [BitVec.zero_add, BitVec.toNat_ofNat, Nat.mod_eq_of_lt (by omega)]
    rw [DcpsRange.Within, start] at within
    dsimp only at within
    omega
  · rintro ⟨block, member, unaligned⟩
    obtain ⟨before, after, split⟩ := List.append_of_mem member
    have visited := fits.visited.trans split
    have buffered := (access_mem reports fuel visited).2
    rw [access_unaligned patch unaligned] at buffered
    have within := fits.aligned _ (buffered _ (List.mem_cons_of_mem _ List.mem_cons_self))
    have sixtyFour : BitVec.toNat (64 : BitVec 32) = 64 := rfl
    rw [DcpsRange.Within, BitVec.toNat_add, sixtyFour] at within
    dsimp only at within
    omega

theorem headersFrom_complete {wordAt : BitVec 32 → BitVec 32} {srcLen size total : BitVec 32}
    {counts : DcpsHeader → BitVec 32} {fuel more pos : Nat} (small : pos < 2 ^ 32)
    (returns : (scanFrom wordAt counts srcLen fuel (BitVec.ofNat 32 pos) size).size = some total)
    (inside :
      ∀ block ∈ blocksOf (headersFrom wordAt srcLen.toNat fuel pos),
        block.pos.toNat + 8 + block.inLen.toNat ≤ srcLen.toNat)
    (enough : srcLen.toNat ≤ pos + more) :
    headersFrom wordAt srcLen.toNat more pos = headersFrom wordAt srcLen.toNat fuel pos := by
  induction fuel generalizing pos size more with
  | zero => cases returns
  | succ fuel ih =>
    by_cases before : pos < srcLen.toNat
    · cases more with
      | zero => omega
      | succ more =>
        by_cases last : (headerAt wordAt (BitVec.ofNat 32 pos)).outLen = 0
        · rw [headersFrom_end before last, headersFrom_end before last]
        · rw [headersFrom_block before last, blocksOf_cons last] at inside
          rw [scanFrom_block small before last] at returns
          have ends := inside _ List.mem_cons_self
          have srcLt := srcLen.isLt
          have behind :
              (headerAt wordAt (BitVec.ofNat 32 pos)).next =
                pos + 8 + (headerAt wordAt (BitVec.ofNat 32 pos)).inLen.toNat := by
            rw [pos_headerAt small] at ends
            rw [DcpsHeader.next, pos_headerAt small, Nat.mod_eq_of_lt (by omega)]
          rw [headersFrom_block before last, headersFrom_block before last]
          congr 1
          apply ih (DcpsHeader.next_lt _) returns
          · exact fun block member => inside block (List.mem_cons_of_mem _ member)
          · omega
    · rw [headersFrom_past before, headersFrom_past before]

end Backward

section Source

variable {hardware : DcpsHardware} {patch : Bool} {mode : DcpsMode}
  {src srcbuf : Nat → UInt8} {srcLen : BitVec 32}

theorem SourceFits.agrees (fits : SourceFits patch mode src srcLen)
    (declared : srcLen.toNat + 8 < 2 ^ 32) (copied : ∀ n < srcLen.toNat + 8, srcbuf n = src n)
    (reports : ∀ header, hardware.doneLen header = header.outLen)
    (succeeds : ∀ header, hardware.failed header = false) :
    ∃ fuel size, DcpsAgrees hardware patch mode src srcbuf srcLen fuel size := by
  obtain ⟨rfl, inside, total, first, buffer⟩ := fits
  have chain : BlockChain (DcpsMode.ucl.wordAt src) srcLen srcLen.toNat 0 :=
    ⟨Nat.two_pow_pos 32, Nat.le_add_left _ _, inside⟩
  have zero : BitVec.toNat (0 : BitVec 32) = 0 := rfl
  have countable :
      (0 : BitVec 32).toNat +
          totalSize (blocksOf (headersFrom (DcpsMode.ucl.wordAt src) srcLen.toNat srcLen.toNat 0)) <
        2 ^ 32 := by
    rw [zero, Nat.zero_add]
    exact total
  obtain ⟨same, size, returns, sum⟩ := chain.scan countable
  rw [zero, Nat.zero_add] at sum
  have headers :
      (dcpsGetSize .ucl src srcLen (srcLen.toNat + 1)).headers = dcpsHeaders .ucl src srcLen :=
    (headers_scanFrom (Nat.two_pow_pos 32)).trans same
  refine ⟨srcLen.toNat + 1, size, returns, ?_, ?_⟩
  · rw [headers]
    exact sum
  · rw [headers]
    refine
      @BlockChain.run hardware ⟨patch, .ucl, srcbuf, srcLen, size⟩ src srcLen.toNat 0 0
        chain declared copied reports succeeds (Nat.zero_le _) ?_ ?_
    · rw [zero, Nat.zero_add]
      exact sum.symm
    · intro isPatched
      refine ⟨first isPatched, fun block isHead unaligned => ⟨rfl, ?_⟩⟩
      rw [sum]
      exact buffer isPatched ⟨block, List.mem_of_mem_head? isHead, unaligned⟩

theorem DcpsAgrees.sourceFits {fuel : Nat} {size : BitVec 32}
    (agrees : DcpsAgrees hardware patch mode src srcbuf srcLen fuel size)
    (notEmpty : srcLen ≠ 0) (declared : srcLen.toNat < 2 ^ 31)
    (reports : ∀ header, hardware.doneLen header = header.outLen) :
    SourceFits patch mode src srcLen := by
  obtain ⟨returns, total, run⟩ := agrees
  cases mode with
  | brflz =>
    -- The hardware is told to read behind the source.
    have within := run.reads _ List.mem_cons_self
    have fourteen : BitVec.toNat (14 : BitVec 32) = 14 := rfl
    rw [DcpsRange.Within, BitVec.toNat_add, fourteen] at within
    dsimp only at within
    omega
  | compress =>
    -- No blocks are counted.
    obtain rfl := Option.some.inj returns
    have isZero : srcLen.toNat = 0 := by
      have none : (srcLen + srcLen >>> 3).toNat = 0 := total
      rw [BitVec.toNat_add, BitVec.toNat_ushiftRight] at none
      omega
    exact absurd (BitVec.eq_of_toNat_eq isZero) notEmpty
  | ucl =>
    have headers :
        (dcpsGetSize .ucl src srcLen fuel).headers =
          headersFrom (DcpsMode.ucl.wordAt src) srcLen.toNat fuel 0 :=
      headers_scanFrom (Nat.two_pow_pos 32)
    have inside := run.block_inside
    rw [headers] at inside
    have complete : dcpsHeaders .ucl src srcLen = _ :=
      headersFrom_complete (Nat.two_pow_pos 32) returns inside (Nat.le_add_left _ _)
    rw [headers, ← complete] at total run
    rw [← complete] at inside
    have smooth := run.smooth reports total fun block member => (mem_blocksOf.mp member).2
    refine ⟨rfl, inside, ?_, fun isPatched => ?_, fun isPatched => ?_⟩
    · rw [← total]
      exact size.isLt
    · exact (smooth isPatched).1
    · exact (smooth isPatched).2

/-- `DoDcps` produces the blocks that `DcpsGetSize` has counted, inside their buffers,
exactly on the sources that fit. -/
theorem doDcps_agrees_iff (patch : Bool) (mode : DcpsMode) (src srcbuf : Nat → UInt8)
    (srcLen : BitVec 32) (hardware : DcpsHardware)
    (notEmpty : srcLen ≠ 0) (declared : srcLen.toNat < 2 ^ 31)
    (copied : ∀ n < srcLen.toNat + 8, srcbuf n = src n)
    (reports : ∀ header, hardware.doneLen header = header.outLen)
    (succeeds : ∀ header, hardware.failed header = false) :
    (∃ fuel size, DcpsAgrees hardware patch mode src srcbuf srcLen fuel size) ↔
      SourceFits patch mode src srcLen := by
  constructor
  · rintro ⟨fuel, size, agrees⟩
    exact agrees.sourceFits notEmpty declared reports
  · intro fits
    exact fits.agrees (by omega) copied reports succeeds

end Source

def obedient : DcpsHardware := ⟨DcpsHeader.outLen, fun _ => false⟩

/-- One compressed block of five bytes that become six. -/
theorem doDcps_agrees_iff_one :
    ∃ fuel size,
      DcpsAgrees obedient true .ucl (fun n => [0, 0, 0, 6, 0, 0, 0, 5, 1, 2, 3, 4, 5].getD n 0)
        (fun n => [0, 0, 0, 6, 0, 0, 0, 5, 1, 2, 3, 4, 5].getD n 0) 13 fuel size :=
  (doDcps_agrees_iff true .ucl _ _ 13 obedient (by decide) (by decide)
    (fun _ _ => rfl) (fun _ => rfl) fun _ => rfl).mpr
    ⟨rfl, by decide, by decide, by decide, by decide⟩

/-- The second block becomes five bytes behind eight, and all thirteen are copied
there. -/
theorem doDcps_overrun :
    ¬ ∃ fuel size,
      DcpsAgrees obedient true .ucl
        (fun n => [0, 0, 0, 8, 0, 0, 0, 1, 7, 0, 0, 0, 5, 0, 0, 0, 1, 7].getD n 0)
        (fun n => [0, 0, 0, 8, 0, 0, 0, 1, 7, 0, 0, 0, 5, 0, 0, 0, 1, 7].getD n 0)
        18 fuel size := by
  rintro ⟨fuel, size, agrees⟩
  have fits := agrees.sourceFits (by decide) (by decide) fun _ => rfl
  have second := fits.first rfl
  revert second
  decide

end IteSdk.Itp
