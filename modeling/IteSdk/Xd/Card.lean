import Mathlib.Logic.Function.Basic

/-!
# The pages of an xD card

What `xd.c` does with the card, and how `xd_mlayer.c` reads the logical block that a
page belongs to from its spare area.
-/

namespace IteSdk.Xd

open Function

def XD_PAGE_SIZE : Nat := 512
def XD_PAGEPERBLOCK : Nat := 32
def XD_LOGIC_BLOCK_PER_ZONE : Nat := 1000
def XD_PHYSIC_BLOCK_PER_ZONE : Nat := 1024
def XD_INVALID_BLOCK_NUMBER : Nat := 0xFFFFFFFF

/-- The 16 bytes of the spare area, `XD_SPARE_SIZE`. -/
abbrev Spare := Fin 16 → BitVec 8

def XD_BLOCK_STATUS_FLAG_OFFSET : Fin 16 := 5
def XD_BLOCK_ADDR_1_LO_OFFSET : Fin 16 := 6
def XD_BLOCK_ADDR_1_HI_OFFSET : Fin 16 := 7
def XD_BLOCK_ADDR_2_LO_OFFSET : Fin 16 := 11
def XD_BLOCK_ADDR_2_HI_OFFSET : Fin 16 := 12

/-- The entries of `g_EvenParityTable`, as `InitEvenParityTable` counts them. -/
def getEvenParity (ch : BitVec 8) : Nat := (List.range 8).countP fun i => ch.getLsbD i

def numOfZeroBits (ch : BitVec 8) : Nat := 8 - getEvenParity ch

def isNormalBlock (ch : BitVec 8) : Bool := numOfZeroBits ch < 2

def checkEvenParity (hi lo : BitVec 8) : Bool :=
  let evenParityLo := getEvenParity lo
  let evenParityHi := getEvenParity (hi &&& 0xFE#8)
  ((evenParityLo + evenParityHi) % 2 == 0 && hi &&& 0x01#8 == 0x00#8) ||
    ((evenParityLo + evenParityHi) % 2 == 1 && hi &&& 0x01#8 == 0x01#8)

def addrField (lo hi : BitVec 8) : Nat := (((lo ++ hi) &&& 0x7FE#16) >>> 1).toNat

/-- `GetLogicalAddress`; it has no value where the code returns `MMP_FALSE`. -/
def getLogicalAddress (spare : Spare) : Option Nat :=
  let field1Lo := spare XD_BLOCK_ADDR_1_LO_OFFSET
  let field1Hi := spare XD_BLOCK_ADDR_1_HI_OFFSET
  let field2Lo := spare XD_BLOCK_ADDR_2_LO_OFFSET
  let field2Hi := spare XD_BLOCK_ADDR_2_HI_OFFSET
  let addrField1 := addrField field1Lo field1Hi
  let addrField2 := addrField field2Lo field2Hi
  if field1Lo ++ field1Hi = field2Lo ++ field2Hi then
    if checkEvenParity field1Hi field1Lo then
      if addrField1 < 1000 then some addrField1 else none
    else none
  else if checkEvenParity field2Lo field2Hi then
    if addrField2 < 1000 then
      if checkEvenParity field1Lo field1Hi then
        if addrField1 < 1000 then none else some addrField2
      else some addrField2
    else if checkEvenParity field1Lo field1Hi then
      if addrField1 < 1000 then some addrField1 else none
    else none
  else if checkEvenParity field1Lo field1Hi then
    if addrField1 < 1000 then some addrField1 else none
  else none

/-- The two bytes of the address field that `UpdateSpare` makes. -/
def fieldLo (logicalAddr : Nat) : BitVec 8 :=
  BitVec.ofNat 8 (0x10 ||| (logicalAddr &&& 0x3FF) >>> 7)

def fieldHi (logicalAddr : Nat) : BitVec 8 :=
  let hi := (BitVec.ofNat 8 logicalAddr &&& 0x7F#8) <<< 1
  if (getEvenParity (fieldLo logicalAddr) + getEvenParity hi) % 2 ≠ 0 then hi ||| 0x01#8
  else hi

def updateSpare (spare : Spare) (logicalAddr : Nat) : Spare :=
  update
    (update
      (update (update spare XD_BLOCK_ADDR_1_LO_OFFSET (fieldLo logicalAddr))
        XD_BLOCK_ADDR_1_HI_OFFSET (fieldHi logicalAddr))
      XD_BLOCK_ADDR_2_LO_OFFSET (fieldLo logicalAddr))
    XD_BLOCK_ADDR_2_HI_OFFSET (fieldHi logicalAddr)

variable {logicalAddr : Nat}

/-! ## Pages and blocks -/

abbrev XdSector := Fin XD_PAGE_SIZE → BitVec 8

structure XdPage where
  data : XdSector
  spare : Spare

def XdPage.erased : XdPage := ⟨fun _ => 0xFF#8, fun _ => 0xFF#8⟩

/-- The pages of each block; one that cannot be read is missing.  `worn` tells which
blocks cannot be erased, and what is left of them by an attempt.  `erases` are the
blocks that an erase command has been given for. -/
structure XdCard where
  page : Nat → Nat → Option XdPage
  worn : Nat → Option (Nat → Option XdPage)
  erases : List Nat

/-- `XD_OK` with what has been read, `XD_ERASED` and `XD_ERROR`. -/
inductive XdResult
  | ok (spare : Spare)
  | erased
  | error

namespace XdCard

/-- `XD_ReadSpare`. -/
def readSpare (card : XdCard) (pba ppo : Nat) : XdResult :=
  match card.page pba ppo with
  | none => .error
  | some page => if ∀ i, page.spare i = 0xFF#8 then .erased else .ok page.spare

/-- `XD_Erase`. -/
def erase (card : XdCard) (pba : Nat) : Bool × XdCard :=
  let pages := (card.worn pba).getD fun _ => some .erased
  ((card.worn pba).isNone,
    { card with
      page := update card.page pba pages
      erases := pba :: card.erases })

/-- The logical block that a page names, if it can be read and is not erased. -/
def pageAddr (card : XdCard) (pba ppo : Nat) : Option Nat :=
  match card.readSpare pba ppo with
  | .ok spare => getLogicalAddress spare
  | _ => none

def lastAddr (card : XdCard) (block : Nat) : Option Nat :=
  card.pageAddr block (XD_PAGEPERBLOCK - 1)

/-- The logical block that a block claims by its first page. -/
def claimed (card : XdCard) (block : Nat) : Option Nat :=
  match card.readSpare block 0 with
  | .ok spare =>
    if isNormalBlock (spare XD_BLOCK_STATUS_FLAG_OFFSET) then getLogicalAddress spare
    else none
  | _ => none

variable {card other : XdCard} {block logicalAddr : Nat}

@[simp] theorem erases_erase (card : XdCard) (block : Nat) :
    (card.erase block).2.erases = block :: card.erases := rfl

@[simp] theorem worn_erase (card : XdCard) (block : Nat) :
    (card.erase block).2.worn = card.worn := rfl

variable {b : Nat}

theorem page_erase_of_ne (card : XdCard) (apart : b ≠ block) :
    (card.erase block).2.page b = card.page b :=
  update_of_ne apart _ card.page

theorem readSpare_congr (same : card.page b = other.page b) (page : Nat) :
    card.readSpare b page = other.readSpare b page := by
  rw [readSpare, readSpare, same]

theorem claimed_congr (same : card.page b = other.page b) : card.claimed b = other.claimed b := by
  rw [claimed, claimed, readSpare_congr same]

theorem pageAddr_congr (same : card.page b = other.page b) (page : Nat) :
    card.pageAddr b page = other.pageAddr b page := by
  rw [pageAddr, pageAddr, readSpare_congr same]

theorem pageAddr_of_claimed (claims : card.claimed block = some logicalAddr) :
    card.pageAddr block 0 = some logicalAddr := by
  rw [claimed] at claims
  rw [pageAddr]
  split at claims
  · next spare read =>
    split at claims
    · exact claims
    · cases claims
  · cases claims

theorem not_erased_of_claimed (claims : card.claimed block = some logicalAddr) :
    card.readSpare block 0 ≠ .erased := by
  intro erased
  rw [claimed, erased] at claims
  cases claims

end XdCard

end IteSdk.Xd
