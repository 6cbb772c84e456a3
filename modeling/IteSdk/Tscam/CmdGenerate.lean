import IteSdk.Tscam.StreamAnalyse

/-!
# Generating the packets of a command

`_tscam_cmd_generate` calls the encoder of a command, which is
`cmd_pkt_General_Cmd_Pkt_Encode` for all of them, once for each packet, and writes
the tags, the header and the checksum around the data.
-/

namespace IteSdk.Tscam

open Lib

/-- `TSCAM_RC_CMD_DATA_MAX_SIZE`. -/
def rcpCmdDataSize : Nat := 169

/-- The pointers into the context are counted from its start; a null one is
`none`. -/
structure CmdPktMuxer where
  bSplitDone : Bool
  pCmdPktsBuf : Option (List UInt8)
  pCurCmdCtxt : Option Nat
  pEndCmdCtxt : Nat
  totalPktNum : Nat
  pktNum : Nat
  pktLength : Nat
  deriving DecidableEq

def CmdPktMuxer.zero : CmdPktMuxer := ⟨false, none, none, 0, 0, 0, 0⟩

/-- What the handler of a posted command does to a packet: at most it writes the
header in front of the leading tag, and for transport packets that begins with the
sync byte.  A null handler writes nothing. -/
structure PktHandler (fmt : TscmPktFmt) where
  write : List UInt8 → List UInt8
  length : ∀ packet, (write packet).length = packet.length
  behind : ∀ packet, (write packet).drop fmt.offset = packet.drop fmt.offset
  sync :
    fmt = .ts → ∀ packet, packet.length = fmt.actPktSize → (write packet).head? = some fmt.syncByte

def setRcpHdr (hdr : CmdRcpHdr) : List UInt8 :=
  setWord hdr.rxDevAddrId ++ setWord hdr.txDevAddrId ++
    setWord hdr.totalPktNum ++ setWord hdr.pktNum ++ setWord hdr.seqNum ++ setWord hdr.pktLength

def writeAt (memory : List UInt8) (offset : Nat) (data : List UInt8) :
    Except TscmStop (List UInt8) :=
  if data.length = 0 ∨ offset + data.length ≤ memory.length then
    .ok (overwrite offset data memory)
  else
    .error .buffer

/-- `total_pkt_num` is a `uint16_t`. -/
def totalPktNum (cmdCtxtLength : Nat) : Nat :=
  if cmdCtxtLength - cmdCtxtLength / rcpCmdDataSize % 2 ^ 16 * rcpCmdDataSize = 0
  then
    cmdCtxtLength / rcpCmdDataSize % 2 ^ 16
  else
    (cmdCtxtLength / rcpCmdDataSize % 2 ^ 16 + 1) % 2 ^ 16

def muxerBegin (pCmdInfo : CmdContext) (pMuxer : CmdPktMuxer) : Except TscmStop CmdPktMuxer :=
  if pMuxer.totalPktNum = 0 then do
    let dword ← bytesAt .buffer pCmdInfo 0 4
    .ok
      { pMuxer with
        pCurCmdCtxt := some (pMuxer.pCurCmdCtxt.getD 0)
        pEndCmdCtxt := (getDword dword 0 + 1) % 2 ^ 32
        totalPktNum := totalPktNum ((getDword dword 0 + 1) % 2 ^ 32) }
  else
    .ok { pMuxer with pCurCmdCtxt := some (pMuxer.pCurCmdCtxt.getD 0) }

def muxerBuffer (grant : Nat → Bool) (fmt : TscmPktFmt) (pMuxer : CmdPktMuxer) :
    Option CmdPktMuxer :=
  match pMuxer.pCmdPktsBuf with
  | some _ => some pMuxer
  | none =>
    if grant (pMuxer.totalPktNum * fmt.actPktSize) then
      some
        { pMuxer with
          pCmdPktsBuf := some (List.replicate (pMuxer.totalPktNum * fmt.actPktSize) 0xaa)
          pktNum := 0 }
    else
      none

def muxerCopy (fmt : TscmPktFmt) (pCmdInfo : CmdContext) (pMuxer : CmdPktMuxer) :
    Except TscmStop CmdPktMuxer := do
  let cur := pMuxer.pCurCmdCtxt.getD 0
  let pktLength :=
    if pMuxer.pEndCmdCtxt < cur + rcpCmdDataSize then
      (pMuxer.pEndCmdCtxt - cur) % 2 ^ 16
    else
      rcpCmdDataSize
  let data ← bytesAt .buffer pCmdInfo cur pktLength
  let buf ←
    writeAt (pMuxer.pCmdPktsBuf.getD [])
      (pMuxer.pktNum * fmt.actPktSize + (fmt.offset + 1) + cmdRcpHdrSize) data
  .ok
    { pMuxer with
      bSplitDone := pMuxer.bSplitDone || pMuxer.pEndCmdCtxt < cur + rcpCmdDataSize
      pktLength := pktLength
      pCurCmdCtxt := some (cur + pktLength)
      pCmdPktsBuf := some buf }

/-- `cmd_pkt_General_Cmd_Pkt_Encode`; without memory for the packets it fails. -/
def cmdPktEncode (grant : Nat → Bool) (fmt : TscmPktFmt) (pCmdInfo : CmdContext)
    (pMuxer : CmdPktMuxer) : Except TscmStop (Option CmdPktMuxer) := do
  let pMuxer ← muxerBegin pCmdInfo pMuxer
  match muxerBuffer grant fmt pMuxer with
  | none => .ok none
  | some pMuxer => do
      let pMuxer ← muxerCopy fmt pCmdInfo pMuxer
      .ok (some pMuxer)

def writePacket {fmt : TscmPktFmt} (handler : PktHandler fmt) (hdr : CmdRcpHdr)
    (start : Nat) (buf : List UInt8) : Except TscmStop (List UInt8) := do
  let buf ← writeAt buf (start + (fmt.actPktSize - 1)) [endTag]
  let packet ← bytesAt .buffer buf start fmt.actPktSize
  let buf ← writeAt buf start (handler.write packet)
  let buf ← writeAt buf (start + fmt.offset) [leadingTag]
  let buf ← writeAt buf (start + (fmt.offset + 1)) (setRcpHdr hdr)
  let summed ← bytesAt .buffer buf (start + (fmt.offset + 3)) (cmdRcpHdrSize - 2 + hdr.pktLength)
  writeAt buf (start + (fmt.offset + 3 + (cmdRcpHdrSize - 2 + hdr.pktLength)))
    [tscmGenCheckSum summed]

def generatedHdr (box : CmdBox CmdContext) (pMuxer : CmdPktMuxer) (seqNum : Nat) : CmdRcpHdr where
  rxDevAddrId := box.rxDevAddrId % 2 ^ 16
  txDevAddrId := box.txDevAddrId % 2 ^ 16
  totalPktNum := pMuxer.totalPktNum
  pktNum := (pMuxer.pktNum + 1) % 2 ^ 16
  seqNum := (seqNum + 1) % 2 ^ 16
  pktLength := pMuxer.pktLength

/-- The `while( bSplitDone == false )` loop. -/
def generateLoop (grant : Nat → Bool) {fmt : TscmPktFmt}
    (handler : PktHandler fmt) (box : CmdBox CmdContext) :
    Nat → CmdPktMuxer → Nat → Except TscmStop (CmdPktMuxer × Nat)
  | 0, _, _ => .error .endless
  | fuel + 1, pMuxer, seqNum =>
    if pMuxer.bSplitDone then
      .ok (pMuxer, seqNum)
    else do
      match ← cmdPktEncode grant fmt box.pCmdInfo pMuxer with
      | none => .ok (pMuxer, seqNum)
      | some pMuxer => do
          let buf ←
            writePacket handler (generatedHdr box pMuxer seqNum)
              (fmt.actPktSize * pMuxer.pktNum) (pMuxer.pCmdPktsBuf.getD [])
          generateLoop grant handler box fuel
            { pMuxer with
              pCmdPktsBuf := some buf
              pktNum := (pMuxer.pktNum + 1) % 2 ^ 16 }
            ((seqNum + 1) % 2 ^ 16)

/-- The answers of `malloc` while the packets are generated. -/
structure SendMalloc where
  muxer : Bool
  packets : Nat → Bool

abbrev SendTable := TscmCmdSrvcType → Nat → Option Bool

def TscmPktFmt.stream : TscmPktFmt → TscmStreamPktFmt
  | .ts => .ts
  | .rs232 => .rs232

/-- `_tscam_cmd_generate` for a box that names this format: the packets, and the
counter `seq_num`.  The loop takes a turn for each packet. -/
def tscamCmdGenerate (malloc : SendMalloc) (attr : SendTable) {fmt : TscmPktFmt}
    (handler : PktHandler fmt) (box : CmdBox CmdContext) (seqNum : Nat) :
    Except TscmStop (Option (List UInt8) × Nat) :=
  match findCmdAttr attr (box.cmdCode % 2 ^ 16) with
  | none => .ok (none, seqNum)
  | some encoder =>
    if encoder ∧ malloc.muxer then do
      let result ←
        generateLoop malloc.packets handler box
          (box.pCmdInfo.length / rcpCmdDataSize + 2) .zero seqNum
      .ok (result.1.pCmdPktsBuf, result.2)
    else
      .ok (none, seqNum)

end IteSdk.Tscam
