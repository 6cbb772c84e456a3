import IteSdk.TsDemuxer.TspSplit
import Mathlib.Data.List.Range

/-!
# Gathering PES packets

`pes_packet.c`.  A PES packet comes in the payloads of TS packets and is gathered in a
sample of the queue.  Its first six bytes are gathered beside it, and say where it ends,
unless their length is zero: then it ends where the next one begins.
-/

namespace IteSdk.TsDemuxer

def tsByte (packet : List UInt8) (i : Nat) : Nat := (packet.getD i 0).toNat

def tsError (packet : List UInt8) : Bool := tsByte packet 1 / 128 % 2 = 1

def tsUnitStart (packet : List UInt8) : Bool := tsByte packet 1 / 64 % 2 = 1

def tsPid (packet : List UInt8) : Nat := tsByte packet 1 % 32 * 256 + tsByte packet 2

def tsHasAdaptation (packet : List UInt8) : Bool := tsByte packet 3 / 32 % 2 = 1

def tsHasPayload (packet : List UInt8) : Bool := tsByte packet 3 / 16 % 2 = 1

def tsCounter (packet : List UInt8) : Nat := tsByte packet 3 % 16

def tsPayload (packet : List UInt8) : List UInt8 :=
  packet.drop (if tsHasAdaptation packet then 4 + 1 + tsByte packet 4 else 4)

/-! ## The decoder -/

def pesPriorHeaderSize : Nat := 6

def pesDiscontinuity : Nat := 0x10000000

def pesTransportErrorIndicator : Nat := 0x20000000

def headerlessStreams : List Nat := [0xBC, 0xBE, 0xBF, 0xF0, 0xF1, 0xFF, 0xF2, 0xF8]

/-- `PES_INFO`.  `gathered` is what has been written to `pData`, `sample` what was
there before; the addresses of the payload are offsets from `pData`.  The last three
fields are not in the source: the number of the packet, how many of its bytes have
come, and which of them have been gathered. -/
structure PesInfo where
  elementaryPid : Nat
  packetStartCodePrefix : Nat
  streamId : Nat
  pesPacketLength : Nat
  errorFlag : Nat
  errorCount : Nat
  pesHeaderDataLength : Nat
  sample : Nat → UInt8
  gathered : List UInt8
  payloadStart : Option Nat
  payloadEnd : Option Nat
  serial : Nat
  arrived : Nat
  positions : List Nat

/-- `PES_DECODER`.  `priorHeader` are the `priorHeaderReadByte` bytes of `pPriorHeader`
that have been read.  The last two fields are not in the source: how many packets have
begun, and what has been set ready in the queue. -/
structure PesDecoder where
  queueSampleSize : Nat
  continuityCounter : Nat
  priorHeader : List UInt8
  bDiscontinuity : Bool
  bErrorIndicator : Bool
  bFirstPacket : Bool
  building : Option PesInfo
  created : Nat
  handed : List PesInfo

namespace PesInfo

def create (elementaryPid errorCount serial : Nat) (sample : Nat → UInt8) : PesInfo where
  elementaryPid := elementaryPid
  packetStartCodePrefix := 0
  streamId := 0
  pesPacketLength := 0
  errorFlag := 0
  errorCount := errorCount
  pesHeaderDataLength := 0
  sample := sample
  gathered := []
  payloadStart := none
  payloadEnd := none
  serial := serial
  arrived := 0
  positions := []

/-- `pData[i]`. -/
def dataAt (info : PesInfo) (i : Nat) : UInt8 := info.gathered.getD i (info.sample i)

/-- `_PES_CollectSegment`. -/
def collect (queueSampleSize : Nat) (info : PesInfo) (bytes : List UInt8) : PesInfo :=
  let info := { info with arrived := info.arrived + bytes.length }
  if queueSampleSize - info.gathered.length < bytes.length then info
  else
    { info with
      gathered := info.gathered ++ bytes
      positions := info.positions ++ List.range' (info.arrived - bytes.length) bytes.length
      payloadEnd := some (info.gathered.length + bytes.length) }

/-- `_PES_ParsePesPriorHeader`. -/
def parsePriorHeader (info : PesInfo) (header : List UInt8) : PesInfo :=
  { info with
    packetStartCodePrefix := tsByte header 0 * 2 ^ 16 + tsByte header 1 * 2 ^ 8 + tsByte header 2
    streamId := tsByte header 3
    pesPacketLength := tsByte header 4 * 2 ^ 8 + tsByte header 5 }

end PesInfo

namespace PesDecoder

/-- The decoder as `pesPacket_AttachDecoder` leaves it. -/
def attach (queueSampleSize : Nat) : PesDecoder where
  queueSampleSize := queueSampleSize
  continuityCounter := 0
  priorHeader := []
  bDiscontinuity := false
  bErrorIndicator := false
  bFirstPacket := true
  building := none
  created := 0
  handed := []

/-- What `_PES_ParsePes` sets before it hands the packet over. -/
def ready (decoder : PesDecoder) (info : PesInfo) : PesInfo :=
  let pesHeaderDataLength := (info.dataAt (pesPriorHeaderSize + 2)).toNat
  { info with
    pesHeaderDataLength
    errorFlag :=
      info.errorFlag ||| (if decoder.bDiscontinuity then pesDiscontinuity else 0) |||
        (if decoder.bErrorIndicator then pesTransportErrorIndicator else 0)
    payloadStart := some (pesPriorHeaderSize + 3 + pesHeaderDataLength) }

/-- `_PES_ParsePes`. -/
def parsePes (decoder : PesDecoder) (info : PesInfo) : PesDecoder :=
  if info.packetStartCodePrefix ≠ 1 then { decoder with building := none }
  else if info.streamId ∈ headerlessStreams then { decoder with building := none }
  else
    { decoder with
      building := none
      handed := decoder.handed ++ [decoder.ready info] }

def reinit (decoder : PesDecoder) : PesDecoder :=
  { decoder with
    building := none
    priorHeader := []
    bDiscontinuity := false
    bErrorIndicator := false }

/-- The part of `_PES_GatherPesSegment` behind the six bytes. -/
def gatherBody (decoder : PesDecoder) (info : PesInfo) (payload : List UInt8) : PesDecoder :=
  if info.pesPacketLength ≠ 0 ∧
      info.pesPacketLength + pesPriorHeaderSize ≤ info.gathered.length + payload.length then
    let remainingByte :=
      (info.pesPacketLength + pesPriorHeaderSize + (2 ^ 32 - info.gathered.length)) % 2 ^ 32
    (decoder.parsePes (info.collect decoder.queueSampleSize (payload.take remainingByte))).reinit
  else { decoder with building := some (info.collect decoder.queueSampleSize payload) }

/-- `_PES_GatherPesSegment`. -/
def gather (decoder : PesDecoder) (info : PesInfo) (payload : List UInt8) : PesDecoder :=
  if payload = [] then { decoder with building := some info }
  else if decoder.priorHeader.length < pesPriorHeaderSize then
    let missing := pesPriorHeaderSize - decoder.priorHeader.length
    if missing ≤ payload.length then
      let priorHeader := decoder.priorHeader ++ payload.take missing
      gatherBody { decoder with priorHeader } (info.parsePriorHeader priorHeader) payload
    else
      { decoder with
        priorHeader := decoder.priorHeader ++ payload
        building := some (info.collect decoder.queueSampleSize payload) }
  else decoder.gatherBody info payload

def finish (decoder : PesDecoder) : PesDecoder :=
  match decoder.building with
  | none => decoder
  | some info => (decoder.parsePes info).reinit

/-- A packet, and what the sample holds that the queue has free. -/
structure Input where
  packet : List UInt8
  sample : Nat → UInt8

def begin (decoder : PesDecoder) (input : Input) (errorCount : Nat) : PesDecoder :=
  let decoder := decoder.finish
  { decoder with created := decoder.created + 1 }.gather
    (PesInfo.create (tsPid input.packet) errorCount decoder.created input.sample)
    (tsPayload input.packet)

/-- Steps 3 and 4 of `pesPacket_DecodePacket`. -/
def decodePayload (decoder : PesDecoder) (input : Input) (errorCount : Nat) : PesDecoder :=
  if tsHasPayload input.packet = false then decoder
  else if tsUnitStart input.packet then decoder.begin input errorCount
  else
    match decoder.building with
    | none => decoder
    | some info =>
      decoder.gather { info with errorCount := info.errorCount + errorCount }
        (tsPayload input.packet)

def counterGap (last counter : Nat) : Nat :=
  if counter ≤ last then counter + 15 - last else counter - last

/-- `pesPacket_DecodePacket`. -/
def decodePacket (decoder : PesDecoder) (input : Input) : PesDecoder :=
  let errorHere := !decoder.bErrorIndicator && tsError input.packet
  let errorCount := if errorHere then 1 else 0
  let counter := tsCounter input.packet
  let marked :=
    { decoder with bErrorIndicator := decoder.bErrorIndicator || tsError input.packet }
  if tsByte input.packet 0 ≠ validSyncByte.toNat then marked
  else if decoder.bFirstPacket then
    { marked with bFirstPacket := false, continuityCounter := counter }.decodePayload input
      errorCount
  else if counter = decoder.continuityCounter then marked
  else if counter = (decoder.continuityCounter + 1) % 16 then
    { marked with continuityCounter := counter }.decodePayload input errorCount
  else
    { marked with continuityCounter := counter, bDiscontinuity := true }.decodePayload input
      (errorCount + counterGap decoder.continuityCounter counter)

end PesDecoder

def pesRun (queueSampleSize : Nat) (inputs : List PesDecoder.Input) : PesDecoder :=
  inputs.foldl PesDecoder.decodePacket (PesDecoder.attach queueSampleSize)

end IteSdk.TsDemuxer
