import IteSdk.Lib.BitMasks

/-!
# The error correcting code of a page

`xd_ecc.c` makes 22 bits for the 256 bytes of half a page: six column parities and, for
each bit of an address, the parity of the bytes where it is set and of those where it is
not.
-/

namespace IteSdk.Xd

open Function Lib

/-- Half a page; an index is a byte, as the addresses in the code are. -/
abbrev EccBuffer := BitVec 8 → BitVec 8

/-- `ECC_BIT0` to `ECC_BIT7`. -/
abbrev ECC_BIT (n : Nat) : BitVec 8 := BitVec.twoPow 8 n

def ECC_MASK_CPS : BitVec 8 := 0x3F#8
def ECC_CORRECTABLE : BitVec 32 := 0x00555554#32
def ECC_BIT23 : BitVec 32 := BitVec.twoPow 32 23

/-- The bits of a value with the counters that they increment: `cp0` to `cp5`, and
`dall` as counter 6. -/
def eccRows : List (Nat × List Nat) :=
  [(0, [6, 0, 2, 4]), (1, [6, 1, 2, 4]), (2, [6, 0, 3, 4]), (3, [6, 1, 3, 4]),
    (4, [6, 0, 2, 5]), (5, [6, 1, 2, 5]), (6, [6, 0, 3, 5]), (7, [6, 1, 3, 5])]

def eccRow (value : BitVec 8) (counters : Nat → BitVec 8) (row : Nat × List Nat) : Nat → BitVec 8 :=
  if value &&& ECC_BIT row.1 ≠ 0#8 then
    fun counter => if counter ∈ row.2 then counters counter + 1#8 else counters counter
  else counters

/-- The loop over `j` counts every bit seven times. -/
def eccCounters (value : BitVec 8) : Nat → BitVec 8 :=
  (List.range 7).foldl (fun counters _ => eccRows.foldl (eccRow value) counters) fun _ => 0#8

/-- `g_pEccTable`, as `InitialEccTable` fills it. -/
def eccTable (value : BitVec 8) : BitVec 8 :=
  [6, 5, 4, 3, 2, 1, 0].foldl
    (fun entry counter =>
      if eccCounters value counter &&& ECC_BIT 0 ≠ 0#8 then entry ||| ECC_BIT counter
      else entry)
    0#8

@[ext]
structure EccRegisters where
  reg1 : BitVec 8
  reg2 : BitVec 8
  reg3 : BitVec 8

def eccRegister (pBuffer : EccBuffer) (registers : EccRegisters) (i : BitVec 8) : EccRegisters :=
  let a := eccTable (pBuffer i)
  if a &&& ECC_BIT 6 ≠ 0#8 then
    ⟨registers.reg1 ^^^ (a &&& ECC_MASK_CPS), registers.reg2 ^^^ ~~~i, registers.reg3 ^^^ i⟩
  else { registers with reg1 := registers.reg1 ^^^ (a &&& ECC_MASK_CPS) }

/-- The loop over the bytes, which the source writes out eight at a time. -/
def eccRegisters (pBuffer : EccBuffer) : EccRegisters :=
  ((List.range 256).map (BitVec.ofNat 8)).foldl (eccRegister pBuffer) ⟨0#8, 0#8, 0#8⟩

/-- The masks of `TransResult` and the byte that it makes. -/
structure EccTrans where
  a : BitVec 8
  b : BitVec 8
  ecc : BitVec 8

def EccTrans.step (reg2 reg3 : BitVec 8) (trans : EccTrans) : EccTrans :=
  let first := if reg3 &&& trans.a ≠ 0#8 then trans.ecc ||| trans.b else trans.ecc
  let b := trans.b >>> 1
  let second := if reg2 &&& trans.a ≠ 0#8 then first ||| b else first
  ⟨trans.a >>> 1, b >>> 1, second⟩

/-- A loop of `count` turns. -/
def EccTrans.loop (reg2 reg3 : BitVec 8) : Nat → EccTrans → EccTrans
  | 0, bytes => bytes
  | count + 1, bytes => EccTrans.loop reg2 reg3 count (bytes.step reg2 reg3)

def transResult (reg2 reg3 : BitVec 8) : BitVec 8 × BitVec 8 :=
  let first := EccTrans.loop reg2 reg3 4 ⟨ECC_BIT 7, ECC_BIT 7, 0#8⟩
  let second := EccTrans.loop reg2 reg3 4 ⟨first.a, ECC_BIT 7, 0#8⟩
  (first.ecc, second.ecc)

structure EccBytes where
  ecc1 : BitVec 8
  ecc2 : BitVec 8
  ecc3 : BitVec 8

def xdEccCalculate (pBuffer : EccBuffer) : EccBytes :=
  let registers := eccRegisters pBuffer
  let result := transResult registers.reg2 registers.reg3
  ⟨~~~result.1, ~~~result.2, (~~~registers.reg1) <<< 2 ||| 0x03#8⟩

inductive EccResult
  | noError
  | corrected
  | errorEcc
  | uncorrectable
  deriving DecidableEq

/-- The masks of the loops that read an address and what they have found. -/
structure EccScan where
  l : BitVec 32
  mask : BitVec 8
  found : BitVec 8

def EccScan.step (d : BitVec 32) (scan : EccScan) : EccScan :=
  ⟨scan.l >>> 2, scan.mask >>> 1,
    if d &&& scan.l ≠ 0#32 then scan.found ||| scan.mask else scan.found⟩

def EccScan.loop (d : BitVec 32) : Nat → EccScan → EccScan
  | 0, scan => scan
  | count + 1, scan => EccScan.loop d count (scan.step d)

/-- The loop that counts the ones of `d`. -/
def eccCount (d : BitVec 32) (i : Nat) : Nat :=
  if d ≠ 0#32 then eccCount (d >>> 1) (if d &&& 1#32 ≠ 0#32 then i + 1 else i) else i
termination_by d.toNat
decreasing_by
  have positive : d.toNat ≠ 0 := fun zero => ‹d ≠ 0#32› (BitVec.eq_of_toNat_eq zero)
  rw [BitVec.toNat_ushiftRight, Nat.shiftRight_eq_div_pow]
  omega

/-- The differences of the code bytes, one behind the other. -/
def eccDifference (first second : EccBytes) : BitVec 32 :=
  ((first.ecc1 ^^^ second.ecc1).setWidth 32 <<< 16) +
    ((first.ecc2 ^^^ second.ecc2).setWidth 32 <<< 8) +
    (first.ecc3 ^^^ second.ecc3).setWidth 32

def xdEccCorrectData (pBuffer : EccBuffer) (ecc : EccBytes) : EccBuffer × EccResult :=
  let d := eccDifference ecc (xdEccCalculate pBuffer)
  if d = 0#32 then (pBuffer, .noError)
  else if (d ^^^ d >>> 1) &&& ECC_CORRECTABLE = ECC_CORRECTABLE then
    let address := EccScan.loop d 8 ⟨ECC_BIT23, ECC_BIT 7, 0#8⟩
    let bit := EccScan.loop d 3 ⟨address.l, ECC_BIT 2, 0#8⟩
    let add := address.found
    (update pBuffer add (pBuffer add ^^^ ECC_BIT 0 <<< bit.found), .corrected)
  else if eccCount (d &&& 0x00FFFFFF#32) 0 = 1 then (pBuffer, .errorEcc)
  else (pBuffer, .uncorrectable)

end IteSdk.Xd
