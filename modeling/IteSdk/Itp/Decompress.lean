import Mathlib.Data.BitVec
import Mathlib.Data.List.Basic
import Mathlib.Tactic.Common

/-!
# The size of compressed data

Compressed data is a chain of blocks, each with a header of two lengths: that of its
output and that of what follows.  `DcpsGetSize` goes along the chain with a cursor of 32
bits until it has passed the declared length or found a block without output.
-/

namespace IteSdk.Itp

/-- `DcpsMode`; the ioctl that sets it lets no other value through. -/
inductive DcpsMode
  | ucl
  | brflz
  | compress
  deriving DecidableEq

/-! ## Headers -/

structure DcpsHeader where
  pos : BitVec 32
  outLen : BitVec 32
  inLen : BitVec 32
  deriving DecidableEq

namespace DcpsHeader

/-- A block that would not have become shorter is stored as it is. -/
def outputSize (header : DcpsHeader) : BitVec 32 :=
  if header.inLen < header.outLen then header.outLen else header.inLen

def Inside (base : Nat) (srcLen : BitVec 32) (header : DcpsHeader) : Prop :=
  ∀ k < 8, base + (header.pos + BitVec.ofNat 32 k).toNat < srcLen.toNat

def next (header : DcpsHeader) : Nat := (header.pos.toNat + 8 + header.inLen.toNat) % 2 ^ 32

/-- The header ends inside the source, and the length of the block does not lead back to
it or to what is before it. -/
def Fits (base srcLen : Nat) (header : DcpsHeader) : Prop :=
  base + header.pos.toNat + 8 ≤ srcLen ∧
    (header.outLen = 0 ∨ header.pos.toNat + 8 + header.inLen.toNat < 2 ^ 32 ∨
      2 ^ 32 < header.inLen.toNat + 8)
deriving Decidable

theorem next_lt (header : DcpsHeader) : header.next < 2 ^ 32 := Nat.mod_lt _ (Nat.two_pow_pos 32)

theorem lt_next_iff {header : DcpsHeader} (room : header.pos.toNat + 8 < 2 ^ 32) :
    header.pos.toNat < header.next ↔
      header.pos.toNat + 8 + header.inLen.toNat < 2 ^ 32 ∨ 2 ^ 32 < header.inLen.toNat + 8 := by
  have inLen := header.inLen.isLt
  rw [next]
  omega

end DcpsHeader

/-- A byte as an `int`. -/
def byteAt (src : Nat → UInt8) (i : BitVec 32) : BitVec 32 := (src i.toNat).toBitVec.setWidth 32

def bigEndianAt (src : Nat → UInt8) (i : BitVec 32) : BitVec 32 :=
  byteAt src (i + 3) ||| byteAt src (i + 2) <<< 8 ||| byteAt src (i + 1) <<< 16 |||
    byteAt src i <<< 24

def littleEndianAt (src : Nat → UInt8) (i : BitVec 32) : BitVec 32 :=
  byteAt src i ||| byteAt src (i + 1) <<< 8 ||| byteAt src (i + 2) <<< 16 |||
    byteAt src (i + 3) <<< 24

def DcpsMode.base : DcpsMode → Nat
  | .brflz => 6
  | _ => 0

def DcpsMode.wordAt (src : Nat → UInt8) : DcpsMode → BitVec 32 → BitVec 32
  | .brflz => littleEndianAt fun n => src (6 + n)
  | _ => bigEndianAt src

def headerAt (wordAt : BitVec 32 → BitVec 32) (i : BitVec 32) : DcpsHeader :=
  ⟨i, wordAt i, wordAt (i + 4)⟩

structure DcpsScan where
  headers : List DcpsHeader
  size : Option (BitVec 32)

/-- The loop of `DcpsGetSize`. -/
@[grind =]
def scanFrom (wordAt : BitVec 32 → BitVec 32) (counts : DcpsHeader → BitVec 32)
    (srcLen : BitVec 32) : Nat → BitVec 32 → BitVec 32 → DcpsScan
  | 0, _, _ => ⟨[], none⟩
  | fuel + 1, i, dcpsSize =>
    if i < srcLen then
      let header := headerAt wordAt i
      if header.outLen = 0 then ⟨[header], some dcpsSize⟩
      else
        let rest :=
          scanFrom wordAt counts srcLen fuel (i + 4 + 4 + header.inLen) (dcpsSize + counts header)
        ⟨header :: rest.headers, rest.size⟩
    else ⟨[], some dcpsSize⟩

def dcpsGetSize (mode : DcpsMode) (src : Nat → UInt8) (srcLen : BitVec 32)
    (fuel : Nat) : DcpsScan :=
  match mode with
  | .compress => ⟨[], some (srcLen + srcLen >>> 3)⟩
  | .brflz =>
    scanFrom (DcpsMode.brflz.wordAt src) DcpsHeader.outLen srcLen fuel 0 0
  | .ucl => scanFrom (DcpsMode.ucl.wordAt src) DcpsHeader.outputSize srcLen fuel 0 0

/-- The scan returns; it reads headers inside the declared length only, and never one
that is before another it has read. -/
structure ScanSafe (mode : DcpsMode) (src : Nat → UInt8) (srcLen : BitVec 32) :
    Prop where
  returns : ∃ fuel size, (dcpsGetSize mode src srcLen fuel).size = some size
  inside :
    ∀ fuel, ∀ header ∈ (dcpsGetSize mode src srcLen fuel).headers, header.Inside mode.base srcLen
  forward :
    ∀ fuel, (dcpsGetSize mode src srcLen fuel).headers.Pairwise
      fun header later => header.pos ≤ later.pos

/-! ## The chain of headers -/

/-- The chain from `pos` on. -/
@[grind =]
def headersFrom (wordAt : BitVec 32 → BitVec 32) (srcLen : Nat) : Nat → Nat → List DcpsHeader
  | 0, _ => []
  | fuel + 1, pos =>
    if pos < srcLen then
      let header := headerAt wordAt (BitVec.ofNat 32 pos)
      if header.outLen = 0 then [header]
      else header :: headersFrom wordAt srcLen fuel header.next
    else []

/-- The headers of a source, as long as each is behind the one before. -/
def dcpsHeaders (mode : DcpsMode) (src : Nat → UInt8) (srcLen : BitVec 32) : List DcpsHeader :=
  match mode with
  | .compress => []
  | .brflz => headersFrom (DcpsMode.brflz.wordAt src) srcLen.toNat srcLen.toNat 0
  | .ucl => headersFrom (DcpsMode.ucl.wordAt src) srcLen.toNat srcLen.toNat 0

section Chain

variable {wordAt : BitVec 32 → BitVec 32} {counts : DcpsHeader → BitVec 32}
  {srcLen : BitVec 32} {base pos fuel : Nat} {size : BitVec 32}

theorem pos_headerAt (small : pos < 2 ^ 32) :
    (headerAt wordAt (BitVec.ofNat 32 pos)).pos.toNat = pos := by
  change (BitVec.ofNat 32 pos).toNat = pos
  rw [BitVec.toNat_ofNat, Nat.mod_eq_of_lt small]

theorem cursor_next (small : pos < 2 ^ 32) :
    BitVec.ofNat 32 pos + 4 + 4 + (headerAt wordAt (BitVec.ofNat 32 pos)).inLen =
      BitVec.ofNat 32 (headerAt wordAt (BitVec.ofNat 32 pos)).next := by
  apply BitVec.eq_of_toNat_eq
  rw [DcpsHeader.next, pos_headerAt small]
  have four : BitVec.toNat (4 : BitVec 32) = 4 := rfl
  simp only [BitVec.toNat_add, BitVec.toNat_ofNat, four]
  omega

theorem cursor_lt_iff (small : pos < 2 ^ 32) :
    BitVec.ofNat 32 pos < srcLen ↔ pos < srcLen.toNat := by
  rw [BitVec.lt_def, BitVec.toNat_ofNat, Nat.mod_eq_of_lt small]

/-! ### One round -/

theorem headersFrom_past (past : ¬ pos < srcLen.toNat) (fuel : Nat) :
    headersFrom wordAt srcLen.toNat fuel pos = [] := by
  cases fuel with
  | zero => rfl
  | succ fuel => exact if_neg past

theorem headersFrom_end (before : pos < srcLen.toNat)
    (last : (headerAt wordAt (BitVec.ofNat 32 pos)).outLen = 0) (fuel : Nat) :
    headersFrom wordAt srcLen.toNat (fuel + 1) pos = [headerAt wordAt (BitVec.ofNat 32 pos)] := by
  rw [headersFrom, if_pos before]
  exact if_pos last

theorem headersFrom_block (before : pos < srcLen.toNat)
    (block : (headerAt wordAt (BitVec.ofNat 32 pos)).outLen ≠ 0) (fuel : Nat) :
    headersFrom wordAt srcLen.toNat (fuel + 1) pos =
      headerAt wordAt (BitVec.ofNat 32 pos) ::
        headersFrom wordAt srcLen.toNat fuel (headerAt wordAt (BitVec.ofNat 32 pos)).next := by
  rw [headersFrom, if_pos before]
  exact if_neg block

section

variable (small : pos < 2 ^ 32)

include small

theorem scanFrom_past (past : ¬ pos < srcLen.toNat) :
    scanFrom wordAt counts srcLen (fuel + 1) (BitVec.ofNat 32 pos) size = ⟨[], some size⟩ := by
  rw [scanFrom, if_neg (mt (cursor_lt_iff small).mp past)]

theorem scanFrom_end (before : pos < srcLen.toNat)
    (last : (headerAt wordAt (BitVec.ofNat 32 pos)).outLen = 0) :
    scanFrom wordAt counts srcLen (fuel + 1) (BitVec.ofNat 32 pos) size =
      ⟨[headerAt wordAt (BitVec.ofNat 32 pos)], some size⟩ := by
  rw [scanFrom, if_pos ((cursor_lt_iff small).mpr before)]
  exact if_pos last

theorem scanFrom_block (before : pos < srcLen.toNat)
    (block : (headerAt wordAt (BitVec.ofNat 32 pos)).outLen ≠ 0) :
    (scanFrom wordAt counts srcLen (fuel + 1) (BitVec.ofNat 32 pos) size).size =
      (scanFrom wordAt counts srcLen fuel
        (BitVec.ofNat 32 (headerAt wordAt (BitVec.ofNat 32 pos)).next)
        (size + counts (headerAt wordAt (BitVec.ofNat 32 pos)))).size := by
  rw [scanFrom, if_pos ((cursor_lt_iff small).mpr before), ← cursor_next small]
  dsimp only
  rw [if_neg block]

theorem headers_scanFrom :
    (scanFrom wordAt counts srcLen fuel (BitVec.ofNat 32 pos) size).headers =
      headersFrom wordAt srcLen.toNat fuel pos := by
  induction fuel generalizing pos size with
  | zero => rfl
  | succ fuel ih =>
    by_cases before : pos < srcLen.toNat
    · by_cases last : (headerAt wordAt (BitVec.ofNat 32 pos)).outLen = 0
      · rw [scanFrom_end small before last, headersFrom_end before last]
      · rw [headersFrom_block before last, ← ih (DcpsHeader.next_lt _),
          scanFrom, if_pos ((cursor_lt_iff small).mpr before), ← cursor_next small]
        dsimp only
        rw [if_neg last]
    · rw [scanFrom_past small before, headersFrom_past before]

theorem scanFrom_stuck (before : pos < srcLen.toNat)
    (block : (headerAt wordAt (BitVec.ofNat 32 pos)).outLen ≠ 0)
    (back : (headerAt wordAt (BitVec.ofNat 32 pos)).next = pos) (fuel : Nat) :
    (scanFrom wordAt counts srcLen fuel (BitVec.ofNat 32 pos) size).size = none := by
  induction fuel generalizing size with
  | zero => rfl
  | succ fuel ih =>
    rw [scanFrom_block small before block, back]
    exact ih

end

/-! ### A safe scan has a chain that fits -/

structure SafeFrom (wordAt : BitVec 32 → BitVec 32) (counts : DcpsHeader → BitVec 32)
    (srcLen : BitVec 32) (base pos : Nat) (size : BitVec 32) : Prop where
  returns :
    ∃ fuel total, (scanFrom wordAt counts srcLen fuel (BitVec.ofNat 32 pos) size).size = some total
  inside : ∀ fuel, ∀ header ∈ headersFrom wordAt srcLen.toNat fuel pos, header.Inside base srcLen
  forward :
    ∀ fuel, (headersFrom wordAt srcLen.toNat fuel pos).Pairwise
      fun header later => header.pos ≤ later.pos

theorem inside_iff {header : DcpsHeader} (before : header.pos.toNat < srcLen.toNat) :
    header.Inside base srcLen ↔ base + header.pos.toNat + 8 ≤ srcLen.toNat := by
  have srcLt := srcLen.isLt
  have byte (k : Nat) (small : k < 8) :
      (header.pos + BitVec.ofNat 32 k).toNat = (header.pos.toNat + k) % 2 ^ 32 := by
    rw [BitVec.toNat_add, BitVec.toNat_ofNat]
    omega
  constructor
  · intro inside
    by_contra outside
    -- The byte just behind the source, or the first one, is read.
    have first := inside 0 (by omega)
    rw [byte 0 (by omega)] at first
    have behind := inside (srcLen.toNat - base - header.pos.toNat) (by omega)
    rw [byte _ (by omega)] at behind
    omega
  · intro ends k small
    rw [byte k small]
    omega

theorem SafeFrom.block (small : pos < 2 ^ 32) (before : pos < srcLen.toNat)
    (block : (headerAt wordAt (BitVec.ofNat 32 pos)).outLen ≠ 0)
    (safe : SafeFrom wordAt counts srcLen base pos size) :
    pos < (headerAt wordAt (BitVec.ofNat 32 pos)).next ∧
      SafeFrom wordAt counts srcLen base (headerAt wordAt (BitVec.ofNat 32 pos)).next
        (size + counts (headerAt wordAt (BitVec.ofNat 32 pos))) := by
  obtain ⟨⟨fuel, total, returns⟩, inside, forward⟩ := safe
  refine ⟨?_, ⟨?_, fun fuel header member => ?_, fun fuel => ?_⟩⟩
  · by_contra behind
    rcases Nat.lt_or_eq_of_le (Nat.not_lt.mp behind) with back | same
    · -- The header that the cursor goes back to is read next.
      have ordered := forward 2
      rw [headersFrom_block before block, List.pairwise_cons] at ordered
      have nextBefore := back.trans before
      have nextPos :
          (headerAt wordAt
            (BitVec.ofNat 32 (headerAt wordAt (BitVec.ofNat 32 pos)).next)).pos.toNat =
            (headerAt wordAt (BitVec.ofNat 32 pos)).next :=
        pos_headerAt (DcpsHeader.next_lt _)
      have member :
          headerAt wordAt (BitVec.ofNat 32 (headerAt wordAt (BitVec.ofNat 32 pos)).next) ∈
            headersFrom wordAt srcLen.toNat 1 (headerAt wordAt (BitVec.ofNat 32 pos)).next := by
        by_cases last :
            (headerAt wordAt
              (BitVec.ofNat 32 (headerAt wordAt (BitVec.ofNat 32 pos)).next)).outLen = 0
        · rw [headersFrom_end nextBefore last]
          exact List.mem_singleton_self _
        · rw [headersFrom_block nextBefore last]
          exact List.mem_cons_self
      have later := ordered.1 _ member
      rw [BitVec.le_def, nextPos, pos_headerAt small] at later
      omega
    · rw [scanFrom_stuck small before block same] at returns
      cases returns
  · cases fuel with
    | zero => cases returns
    | succ fuel =>
      rw [scanFrom_block small before block] at returns
      exact ⟨fuel, total, returns⟩
  · apply inside (fuel + 1)
    rw [headersFrom_block before block]
    exact List.mem_cons_of_mem _ member
  · have ordered := forward (fuel + 1)
    rw [headersFrom_block before block, List.pairwise_cons] at ordered
    exact ordered.2

theorem SafeFrom.fits (small : pos < 2 ^ 32) (safe : SafeFrom wordAt counts srcLen base pos size) :
    ∀ header ∈ headersFrom wordAt srcLen.toNat fuel pos, header.Fits base srcLen.toNat := by
  induction fuel generalizing pos size with
  | zero =>
    intro header member
    cases member
  | succ fuel ih =>
    by_cases before : pos < srcLen.toNat
    · have here : (headerAt wordAt (BitVec.ofNat 32 pos)).pos.toNat = pos := pos_headerAt small
      have isInside :
          headerAt wordAt (BitVec.ofNat 32 pos) ∈ headersFrom wordAt srcLen.toNat (fuel + 1) pos →
          base + (headerAt wordAt (BitVec.ofNat 32 pos)).pos.toNat + 8 ≤ srcLen.toNat := by
        intro member
        exact (inside_iff (by rw [here]; exact before)).mp (safe.inside _ _ member)
      by_cases last : (headerAt wordAt (BitVec.ofNat 32 pos)).outLen = 0
      · rw [headersFrom_end before last] at isInside ⊢
        intro header member
        obtain rfl := List.mem_singleton.mp member
        exact ⟨isInside member, Or.inl last⟩
      · obtain ⟨ahead, later⟩ := safe.block small before last
        rw [headersFrom_block before last] at isInside ⊢
        have ends := isInside List.mem_cons_self
        have srcLt := srcLen.isLt
        intro header member
        rcases List.mem_cons.mp member with rfl | member
        · refine ⟨ends, Or.inr ((DcpsHeader.lt_next_iff (by omega)).mp ?_)⟩
          rw [here]
          exact ahead
        · exact ih (DcpsHeader.next_lt _) later header member
    · rw [headersFrom_past before]
      intro header member
      cases member

/-! ### A chain that fits has a safe scan -/

/-- The rest of a chain whose headers fit, with fuel for every place it can go to. -/
structure ChainFits (wordAt : BitVec 32 → BitVec 32) (srcLen : BitVec 32)
    (base fuel pos : Nat) : Prop where
  small : pos < 2 ^ 32
  enough : srcLen.toNat ≤ pos + fuel
  fits : ∀ header ∈ headersFrom wordAt srcLen.toNat fuel pos, header.Fits base srcLen.toNat

theorem ChainFits.header (chain : ChainFits wordAt srcLen base fuel pos)
    (before : pos < srcLen.toNat) :
    (headerAt wordAt (BitVec.ofNat 32 pos)).Fits base srcLen.toNat := by
  have enough := chain.enough
  cases fuel with
  | zero => omega
  | succ fuel =>
    apply chain.fits
    by_cases last : (headerAt wordAt (BitVec.ofNat 32 pos)).outLen = 0
    · rw [headersFrom_end before last]
      exact List.mem_singleton_self _
    · rw [headersFrom_block before last]
      exact List.mem_cons_self

theorem ChainFits.next (chain : ChainFits wordAt srcLen base (fuel + 1) pos)
    (before : pos < srcLen.toNat) (block : (headerAt wordAt (BitVec.ofNat 32 pos)).outLen ≠ 0) :
    pos < (headerAt wordAt (BitVec.ofNat 32 pos)).next ∧
      ChainFits wordAt srcLen base fuel (headerAt wordAt (BitVec.ofNat 32 pos)).next := by
  obtain ⟨ends, ahead⟩ := chain.header before
  have here : (headerAt wordAt (BitVec.ofNat 32 pos)).pos.toNat = pos := pos_headerAt chain.small
  have srcLt := srcLen.isLt
  have forward := (DcpsHeader.lt_next_iff (by omega)).mpr (ahead.resolve_left block)
  rw [here] at forward
  refine ⟨forward, DcpsHeader.next_lt _, ?_, fun header member => ?_⟩
  · have enough := chain.enough
    omega
  · apply chain.fits
    rw [headersFrom_block before block]
    exact List.mem_cons_of_mem _ member

theorem ChainFits.returns (chain : ChainFits wordAt srcLen base fuel pos) :
    ∃ total,
      (scanFrom wordAt counts srcLen (fuel + 1) (BitVec.ofNat 32 pos) size).size = some total := by
  induction fuel generalizing pos size with
  | zero =>
    have enough := chain.enough
    rw [scanFrom_past chain.small (by omega)]
    exact ⟨size, rfl⟩
  | succ fuel ih =>
    by_cases before : pos < srcLen.toNat
    · by_cases last : (headerAt wordAt (BitVec.ofNat 32 pos)).outLen = 0
      · rw [scanFrom_end chain.small before last]
        exact ⟨size, rfl⟩
      · rw [scanFrom_block chain.small before last]
        exact ih (chain.next before last).2
    · rw [scanFrom_past chain.small before]
      exact ⟨size, rfl⟩

theorem ChainFits.headers (chain : ChainFits wordAt srcLen base fuel pos) (more : Nat) :
    (∀ header ∈ headersFrom wordAt srcLen.toNat more pos,
      pos ≤ header.pos.toNat ∧ header.Inside base srcLen) ∧
      (headersFrom wordAt srcLen.toNat more pos).Pairwise
        fun header later => header.pos ≤ later.pos := by
  induction more generalizing fuel pos with
  | zero =>
    refine ⟨fun header member => ?_, List.Pairwise.nil⟩
    cases member
  | succ more ih =>
    by_cases before : pos < srcLen.toNat
    · have here : (headerAt wordAt (BitVec.ofNat 32 pos)).pos.toNat = pos :=
        pos_headerAt chain.small
      have inside :
          (headerAt wordAt (BitVec.ofNat 32 pos)).Inside base srcLen :=
        (inside_iff (by rw [here]; exact before)).mpr (chain.header before).1
      by_cases last : (headerAt wordAt (BitVec.ofNat 32 pos)).outLen = 0
      · rw [headersFrom_end before last]
        refine ⟨fun header member => ?_, List.pairwise_singleton _ _⟩
        obtain rfl := List.mem_singleton.mp member
        exact ⟨Nat.le_of_eq here.symm, inside⟩
      · rw [headersFrom_block before last]
        cases fuel with
        | zero =>
          have enough := chain.enough
          omega
        | succ fuel =>
          obtain ⟨ahead, rest⟩ := chain.next before last
          obtain ⟨later, ordered⟩ := ih rest
          refine ⟨fun header member => ?_, List.pairwise_cons.mpr ⟨?_, ordered⟩⟩
          · rcases List.mem_cons.mp member with rfl | member
            · exact ⟨Nat.le_of_eq here.symm, inside⟩
            · obtain ⟨behind, isInside⟩ := later header member
              exact ⟨by omega, isInside⟩
          · intro header member
            rw [BitVec.le_def, here]
            have behind := (later header member).1
            omega
    · rw [headersFrom_past before]
      refine ⟨fun header member => ?_, List.Pairwise.nil⟩
      cases member

end Chain

section Source

variable {wordAt : BitVec 32 → BitVec 32} {counts : DcpsHeader → BitVec 32}
  {srcLen : BitVec 32} {base : Nat}

theorem safeFrom_iff :
    SafeFrom wordAt counts srcLen base 0 0 ↔
      ∀ header ∈ headersFrom wordAt srcLen.toNat srcLen.toNat 0, header.Fits base srcLen.toNat := by
  constructor
  · intro safe
    exact safe.fits (Nat.two_pow_pos 32)
  · intro fits
    have chain : ChainFits wordAt srcLen base srcLen.toNat 0 :=
      ⟨Nat.two_pow_pos 32, Nat.le_add_left _ _, fits⟩
    refine ⟨⟨_, chain.returns⟩, fun fuel header member => ?_, fun fuel => ?_⟩
    · exact ((chain.headers fuel).1 header member).2
    · exact (chain.headers fuel).2

variable {mode : DcpsMode} {src : Nat → UInt8}

theorem scanSafe_iff_safeFrom
    (isScan : ∀ fuel, dcpsGetSize mode src srcLen fuel = scanFrom wordAt counts srcLen fuel 0 0) :
    ScanSafe mode src srcLen ↔ SafeFrom wordAt counts srcLen mode.base 0 0 := by
  have headers (fuel : Nat) :
      (dcpsGetSize mode src srcLen fuel).headers = headersFrom wordAt srcLen.toNat fuel 0 := by
    rw [isScan]
    exact headers_scanFrom (Nat.two_pow_pos 32)
  constructor
  · intro safe
    refine ⟨?_, fun fuel => ?_, fun fuel => ?_⟩
    · obtain ⟨fuel, total, returns⟩ := safe.returns
      rw [isScan] at returns
      exact ⟨fuel, total, returns⟩
    · rw [← headers]
      exact safe.inside fuel
    · rw [← headers]
      exact safe.forward fuel
  · intro safe
    refine ⟨?_, fun fuel => ?_, fun fuel => ?_⟩
    · obtain ⟨fuel, total, returns⟩ := safe.returns
      refine ⟨fuel, total, ?_⟩
      rw [isScan]
      exact returns
    · rw [headers]
      exact safe.inside fuel
    · rw [headers]
      exact safe.forward fuel

/-- The scan ends inside the source exactly if every header of the chain ends there and
no length leads the cursor back. -/
theorem dcpsGetSize_safe_iff (mode : DcpsMode) (src : Nat → UInt8) (srcLen : BitVec 32) :
    ScanSafe mode src srcLen ↔
      ∀ header ∈ dcpsHeaders mode src srcLen, header.Fits mode.base srcLen.toNat := by
  cases mode with
  | ucl | brflz => exact (scanSafe_iff_safeFrom fun _ => rfl).trans safeFrom_iff
  | compress =>
    refine iff_of_true ⟨⟨0, _, rfl⟩, fun fuel header member => ?_, fun _ => ?_⟩ ?_
    · cases member
    · exact List.Pairwise.nil
    · intro header member
      cases member

end Source

/-- Eight bytes from the length of the only block lead back to its header. -/
theorem dcpsGetSize_endless :
    (∀ fuel,
      (dcpsGetSize .ucl (fun n => [0, 0, 0, 1, 255, 255, 255, 248].getD n 0) 8 fuel).size = none) ∧
      ¬ ScanSafe .ucl (fun n => [0, 0, 0, 1, 255, 255, 255, 248].getD n 0) 8 := by
  have endless (fuel : Nat) :
      (dcpsGetSize .ucl (fun n => [0, 0, 0, 1, 255, 255, 255, 248].getD n 0) 8
        fuel).size = none := by
    apply scanFrom_stuck (Nat.two_pow_pos 32)
    · decide
    · decide
    · decide
  refine ⟨endless, fun safe => ?_⟩
  obtain ⟨fuel, size, returns⟩ := safe.returns
  rw [endless] at returns
  cases returns

end IteSdk.Itp
