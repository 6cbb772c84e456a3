import IteSdk.TsDemuxer.PsiSectionKit
import IteSdk.TsDemuxer.TspSplit

/-!
# Decoding the packets of a PSI stream

`psi_packet.c`.  The addresses into a packet are offsets from its start.  What the
table decoder behind does is up to an environment, and so is whether there is
memory for a section, and what it holds.
-/

namespace IteSdk.TsDemuxer

open Lib

def stuffByte : UInt8 := 0xFF

def privateSectionHeaderSize : Nat := 3

/-- `PSI_DECODER`.  The last two fields are not in the source: how many sections
memory was asked for, and the sections that were handed over. -/
structure PsiDecoder (π : Type) where
  sectionMaxSize : Nat
  continuityCounter : Nat
  bDiscontinuity : Bool
  ptCurrentSection : Option PsiSection
  needByte : Nat
  bCompleteHeader : Bool
  privateDecoder : π
  allocated : Nat
  delivered : List PsiSection

/-- The answers of the allocator, and the callback, which may change
`bDiscontinuity`. -/
structure PsiEnv (π : Type) where
  alloc : Nat → Option (Nat → UInt8)
  callback : π → Bool → PsiSection → π × Bool

/-- A byte outside the packet is read, one behind the section buffer is written, a
section is used that is not there, or the loop does not end. -/
inductive PsiStop
  | outside
  | buffer
  | noSection
  | fuel
  deriving DecidableEq

abbrev TsPacket := List UInt8

def readByte (packet : TsPacket) (i : Nat) : Except PsiStop UInt8 :=
  match packet[i]? with
  | some byte => .ok byte
  | none => .error .outside

def readBytes (packet : TsPacket) (i count : Nat) : Except PsiStop (List UInt8) :=
  if i + count ≤ packet.length then
    .ok ((packet.drop i).take count)
  else
    .error .outside

/-- The copy from the packet to `pPayloadEndAddress`. -/
def PsiSection.copy (self : PsiSection) (sectionMaxSize : Nat)
    (packet : TsPacket) (i count : Nat) : Except PsiStop PsiSection := do
  let bytes ← readBytes packet i count
  if self.data.length + count ≤ sectionMaxSize then
    pure (self.append bytes)
  else
    .error .buffer

variable {π : Type}

def PsiDecoder.attach (sectionMaxSize : Nat) (privateDecoder : π) : PsiDecoder π where
  sectionMaxSize := sectionMaxSize
  continuityCounter := 0
  bDiscontinuity := true
  ptCurrentSection := none
  needByte := 0
  bCompleteHeader := false
  privateDecoder := privateDecoder
  allocated := 0
  delivered := []

/-- A new section becomes the current one; whether there is memory. -/
def PsiDecoder.startSection (env : PsiEnv π) (ptDecoder : PsiDecoder π) : PsiDecoder π × Bool :=
  match env.alloc ptDecoder.allocated with
  | some garbage =>
    ({ ptDecoder with
        ptCurrentSection := some (.create garbage)
        needByte := privateSectionHeaderSize
        bCompleteHeader := false
        allocated := ptDecoder.allocated + 1 },
      true)
  | none =>
    ({ ptDecoder with
        ptCurrentSection := none
        allocated := ptDecoder.allocated + 1 },
      false)

def PsiDecoder.deliver (env : PsiEnv π) (ptDecoder : PsiDecoder π)
    (section_ : PsiSection) : PsiDecoder π :=
  match section_.decode with
  | none => ptDecoder
  | some decoded =>
    let after := env.callback ptDecoder.privateDecoder ptDecoder.bDiscontinuity decoded
    { ptDecoder with
      privateDecoder := after.1
      bDiscontinuity := after.2
      delivered := ptDecoder.delivered ++ [decoded] }

/-- The local variables of the loop: `pPayloadAddress`, `pBeginSectionAddress` and
`availableByte`. -/
structure PacketCursor (π : Type) where
  ptDecoder : PsiDecoder π
  payload : Nat
  beginSection : Option Nat
  availableByte : Int

/-- Go on at the begin of a new section, where there is one. -/
def PacketCursor.goOn (env : PsiEnv π) (cursor : PacketCursor π) : PacketCursor π :=
  match cursor.beginSection with
  | none => { cursor with availableByte := 0 }
  | some address =>
    match cursor.ptDecoder.startSection env with
    | (ptDecoder, true) =>
      { ptDecoder := ptDecoder
        payload := address
        beginSection := none
        availableByte := (tsPacketSize : Int) - address }
    | (ptDecoder, false) =>
      { cursor with ptDecoder := ptDecoder, availableByte := 0 }

def PacketCursor.endHeader (env : PsiEnv π) (cursor : PacketCursor π)
    (section_ : PsiSection) : PacketCursor π :=
  let ptDecoder :=
    { cursor.ptDecoder with
      ptCurrentSection := some { section_ with sectionLength := section_.lengthField }
      bCompleteHeader := true
      needByte := section_.lengthField }
  -- The difference is one of unsigned numbers.
  if (ptDecoder.sectionMaxSize + 2 ^ 32 - privateSectionHeaderSize) % 2 ^ 32 <
      section_.lengthField then
    PacketCursor.goOn env
      { cursor with
        ptDecoder := { ptDecoder with ptCurrentSection := none } }
  else
    { cursor with ptDecoder := ptDecoder }

def PacketCursor.endSection (env : PsiEnv π) (packet : TsPacket)
    (cursor : PacketCursor π) (section_ : PsiSection) :
    Except PsiStop (PacketCursor π) := do
  let ptDecoder := { cursor.ptDecoder.deliver env section_ with ptCurrentSection := none }
  if cursor.beginSection = none ∧ cursor.availableByte ≠ 0 then
    let next ← readByte packet cursor.payload
    let beginSection := if next ≠ stuffByte then some cursor.payload else none
    pure
      (PacketCursor.goOn env { cursor with ptDecoder := ptDecoder, beginSection := beginSection })
  else
    pure (PacketCursor.goOn env { cursor with ptDecoder := ptDecoder })

def PacketCursor.turn (env : PsiEnv π) (packet : TsPacket)
    (cursor : PacketCursor π) : Except PsiStop (PacketCursor π) :=
  match cursor.ptDecoder.ptCurrentSection with
  | none => .error .noSection
  | some section_ =>
    if (cursor.ptDecoder.needByte : Int) ≤ cursor.availableByte then do
      let needByte := cursor.ptDecoder.needByte
      let section_ ←
        section_.copy cursor.ptDecoder.sectionMaxSize packet cursor.payload needByte
      let moved :=
        { cursor with
          payload := cursor.payload + needByte
          availableByte := cursor.availableByte - needByte }
      if cursor.ptDecoder.bCompleteHeader = false then
        pure (moved.endHeader env section_)
      else
        moved.endSection env packet section_
    else do
      let section_ ←
        section_.copy cursor.ptDecoder.sectionMaxSize packet cursor.payload
          cursor.availableByte.toNat
      pure
        { cursor with
          ptDecoder :=
            { cursor.ptDecoder with
              ptCurrentSection := some section_
              needByte := cursor.ptDecoder.needByte - cursor.availableByte.toNat }
          availableByte := 0 }

/-- The loop `while (availableByte > 0)`. -/
def PacketCursor.loop (env : PsiEnv π) (packet : TsPacket) :
    Nat → PacketCursor π → Except PsiStop (PsiDecoder π)
  | 0, _ => .error .fuel
  | fuel + 1, cursor =>
    if 0 < cursor.availableByte then do
      let next ← cursor.turn env packet
      PacketCursor.loop env packet fuel next
    else
      .ok cursor.ptDecoder

def packetTurns : Nat := 1024

/-- Steps 5 and 6: the payload, and where a section begins in it. -/
def PsiDecoder.decodePayload (env : PsiEnv π) (ptDecoder : PsiDecoder π)
    (packet : TsPacket) (payload : Nat) (beginSection : Option Nat) :
    Except PsiStop (PsiDecoder π) :=
  match ptDecoder.ptCurrentSection, beginSection with
  | some _, _ =>
    PacketCursor.loop env packet packetTurns
      ⟨ptDecoder, payload, beginSection, (tsPacketSize : Int) - payload⟩
  | none, none => .ok ptDecoder
  | none, some address =>
    match ptDecoder.startSection env with
    | (ptDecoder, true) =>
      PacketCursor.loop env packet packetTurns
        ⟨ptDecoder, address, none, (tsPacketSize : Int) - address⟩
    | (ptDecoder, false) => .ok ptDecoder

/-- `payload_unit_start_indicator`. -/
def payloadUnitStart (packet : TsPacket) : Except PsiStop Bool := do
  let flags ← readByte packet 1
  pure (flags.toNat / 64 % 2 = 1)

def payloadAddress (packet : TsPacket) (control : UInt8) : Except PsiStop Nat :=
  if control.toNat / 32 % 2 = 1 then do
    let length ← readByte packet 4
    pure (5 + length.toNat)
  else
    pure 4

def PsiDecoder.follow (ptDecoder : PsiDecoder π) (continuityCounter : Nat) : PsiDecoder π :=
  if continuityCounter = (ptDecoder.continuityCounter + 1) % 16 then
    { ptDecoder with continuityCounter := continuityCounter }
  else
    { ptDecoder with
      bDiscontinuity := true
      ptCurrentSection := none
      continuityCounter := continuityCounter }

def PsiDecoder.decodeUnit (env : PsiEnv π) (ptDecoder : PsiDecoder π)
    (packet : TsPacket) (control : UInt8) :
    Except PsiStop (PsiDecoder π) :=
  if control.toNat / 16 % 2 = 0 then
    pure ptDecoder
  else do
    let payload ← payloadAddress packet control
    let unitStart ← payloadUnitStart packet
    if unitStart = true then do
      let pointerField ← readByte packet payload
      ptDecoder.decodePayload env packet (payload + 1) (some (payload + 1 + pointerField.toNat))
    else
      ptDecoder.decodePayload env packet payload none

/-- `psiPacket_DecodePacket`. -/
def PsiDecoder.decodePacket (env : PsiEnv π) (ptDecoder : PsiDecoder π)
    (packet : TsPacket) : Except PsiStop (PsiDecoder π) := do
  let syncByte ← readByte packet 0
  let control ← readByte packet 3
  let continuityCounter := control.toNat % 16
  if syncByte ≠ validSyncByte then
    pure ptDecoder
  else if continuityCounter = ptDecoder.continuityCounter ∧ ptDecoder.bDiscontinuity = false then
    pure ptDecoder
  else
    (ptDecoder.follow continuityCounter).decodeUnit env packet control

def PsiDecoder.decodePackets (env : PsiEnv π) :
    PsiDecoder π → List TsPacket → Except PsiStop (PsiDecoder π)
  | ptDecoder, [] => .ok ptDecoder
  | ptDecoder, packet :: rest => do
      let after ← ptDecoder.decodePacket env packet
      after.decodePackets env rest

end IteSdk.TsDemuxer
