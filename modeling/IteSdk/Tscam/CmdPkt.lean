import IteSdk.Lib.Memory
import IteSdk.Tscam.CmdQueue

/-!
# Command packets

`_tscam_cmd_analyse` gets a packet from its leading tag on, and hands the data of
one fragment to the decoder of the command, which `CMD_PKT_DECODE_INSTANCE` makes.
An access outside the packet, or outside the buffer that the decoder allocated, is
an error.
-/

namespace IteSdk.Tscam

open Lib

/-- `cache` is an access outside `pIncompletePktCache`; a loop along a queue or
along the stream that does not end is `endless`. -/
inductive TscmStop
  | packet
  | buffer
  | cache
  | endless
  deriving DecidableEq

/-! ## Bytes -/

/-- `count` bytes from `offset` on. -/
def bytesAt (stop : TscmStop) (memory : List UInt8) (offset count : Nat) :
    Except TscmStop (List UInt8) :=
  if offset + count ≤ memory.length then
    .ok (slice offset count memory)
  else
    .error stop

def getWord (bytes : List UInt8) (offset : Nat) : Nat :=
  (bytes.getD offset 0).toNat * 256 + (bytes.getD (offset + 1) 0).toNat

def getDword (bytes : List UInt8) (offset : Nat) : Nat :=
  getWord bytes offset * 65536 + getWord bytes (offset + 2)

def setWord (value : Nat) : List UInt8 := [UInt8.ofNat (value / 256), UInt8.ofNat value]

def tscmGenCheckSum (bytes : List UInt8) : UInt8 :=
  UInt8.ofNat ((bytes.map UInt8.toNat).sum % 2 ^ 32)

def leadingTag : UInt8 := 0x23

def endTag : UInt8 := 0x0d

/-- `sizeof(CMD_RCP_HDR)`. -/
def cmdRcpHdrSize : Nat := 12

structure CmdRcpHdr where
  rxDevAddrId : Nat
  txDevAddrId : Nat
  totalPktNum : Nat
  pktNum : Nat
  seqNum : Nat
  pktLength : Nat
  deriving DecidableEq

def getRcpHdr (bytes : List UInt8) : CmdRcpHdr where
  rxDevAddrId := getWord bytes 0
  txDevAddrId := getWord bytes 2
  totalPktNum := getWord bytes 4
  pktNum := getWord bytes 6
  seqNum := getWord bytes 8
  pktLength := getWord bytes 10

/-- `pCur_cmd_ctxt` is counted from the start of `pCmd_pkt_privData`, and
`pEnd_cmd_ctxt` is always `cmd_info_size` behind it. -/
structure CmdPktParser where
  bCollecteDone : Bool
  cmdInfoSize : Nat
  pCurCmdCtxt : Nat
  pCmdPktPrivData : Option (List UInt8)
  deriving DecidableEq

def CmdPktParser.zero : CmdPktParser := ⟨false, 0, 0, none⟩

/-- The buffer is allocated by the command length in the first fragment. -/
def cmdPktAlloc (grant : Nat → Bool) (infoSize : Nat) (pParser : CmdPktParser)
    (pCmdPktBuf : List UInt8) : Except TscmStop CmdPktParser :=
  match pParser.pCmdPktPrivData with
  | some _ => .ok pParser
  | none => do
      let dword ← bytesAt .packet pCmdPktBuf 0 4
      let cmdInfoSize := (infoSize + getDword dword 0 + 1) % 2 ^ 32
      .ok
        (if grant cmdInfoSize then
          { pParser with
            cmdInfoSize := cmdInfoSize
            pCurCmdCtxt := infoSize
            pCmdPktPrivData := some (List.replicate cmdInfoSize 0) }
        else
          { pParser with cmdInfoSize := cmdInfoSize })

/-- The `memcpy` of a fragment; nothing is copied where `malloc` failed. -/
def cmdPktCopy (pParser : CmdPktParser) (pCmdPktBuf : List UInt8)
    (cmdPktBufSize : Nat) : Except TscmStop CmdPktParser :=
  match pParser.pCmdPktPrivData with
  | none => .ok pParser
  | some data => do
      let fragment ← bytesAt .packet pCmdPktBuf 0 cmdPktBufSize
      if cmdPktBufSize = 0 ∨ pParser.pCurCmdCtxt + cmdPktBufSize ≤ data.length then
        .ok
          { pParser with
            pCurCmdCtxt := pParser.pCurCmdCtxt + cmdPktBufSize
            pCmdPktPrivData := some (overwrite pParser.pCurCmdCtxt fragment data) }
      else
        .error .buffer

/-- The check of a command that is complete; the structure in front of the
context, which `priv_func` fills from it, is left out. -/
def cmdPktFinish (infoSize : Nat) (pParser : CmdPktParser) : Except TscmStop CmdPktParser :=
  match pParser.pCmdPktPrivData with
  | none => .ok pParser
  | some data =>
    if pParser.pCurCmdCtxt < pParser.cmdInfoSize then
      .ok pParser
    else do
      let dword ← bytesAt .buffer data infoSize 4
      let context ← bytesAt .buffer data infoSize (getDword dword 0)
      let checkSum ← bytesAt .buffer data (infoSize + getDword dword 0) 1
      .ok
        (if checkSum = [tscmGenCheckSum context] then
          { pParser with bCollecteDone := true }
        else
          pParser)

/-- `CMD_PKT_DECODE_INSTANCE`, for a structure of `infoSize` bytes. -/
def cmdPktDecode (grant : Nat → Bool) (infoSize : Nat) (pParser : CmdPktParser)
    (pCmdPktBuf : List UInt8) (cmdPktBufSize : Nat) :
    Except TscmStop CmdPktParser := do
  let pParser ← cmdPktAlloc grant infoSize pParser pCmdPktBuf
  let pParser ← cmdPktCopy pParser pCmdPktBuf cmdPktBufSize
  cmdPktFinish infoSize pParser

/-! ## The receiver -/

inductive TscmCmdSrvcType
  | ccHDtvIn
  | ccHDtvOut
  | devMgtIn
  | devMgtOut
  | devIOIn
  | devIOOut
  | imgIn
  | imgOut
  | mediaIn
  | mediaOut
  | ptzIn
  | ptzOut
  | videoAnalIn
  | videoAnalOut
  | metadata
  deriving DecidableEq

def cmdSrvcType (cmdCode : Nat) : Option TscmCmdSrvcType :=
  match cmdCode &&& 0xFF00 with
  | 0x0000 => some .ccHDtvIn
  | 0x8000 => some .ccHDtvOut
  | 0x0100 => some .devMgtIn
  | 0x8100 => some .devMgtOut
  | 0x0200 => some .devIOIn
  | 0x8200 => some .devIOOut
  | 0x0300 => some .imgIn
  | 0x8300 => some .imgOut
  | 0x0400 => some .mediaIn
  | 0x8400 => some .mediaOut
  | 0x0500 => some .ptzIn
  | 0x8500 => some .ptzOut
  | 0x0600 => some .videoAnalIn
  | 0x8600 => some .videoAnalOut
  | 0xF000 => some .metadata
  | _ => none

def maxCmdNumPerService : Nat := 0x96

/-- An entry of `pCmd_srvc_attr`. -/
def findCmdAttr {β : Type} (attr : TscmCmdSrvcType → Nat → Option β) (cmdCode : Nat) : Option β :=
  match cmdSrvcType cmdCode with
  | none => none
  | some cmdSrvcType =>
    if maxCmdNumPerService ≤ cmdCode &&& 0x00FF then
      none
    else
      attr cmdSrvcType (cmdCode &&& 0x00FF)

/-- What the receiver knows of a command: the size of its structure if it has a
decoder, and whether its handler is active. -/
structure RecvAttr where
  cmdPktDecode : Option (Fin (2 ^ 32))
  userHanlder : Option Nat
  pTunnelInfo : Option Nat
  active : Bool
  deriving DecidableEq

/-- `pCmd_srvc_attr`, with the flags of the active handlers. -/
abbrev RecvTable := TscmCmdSrvcType → Nat → Option RecvAttr

def RecvTable.find (attr : RecvTable) (cmdCode : Nat) : Option RecvAttr :=
  findCmdAttr attr cmdCode

inductive CmdEnd
  | handled
  | unhandled
  | received (result : RecvResult)
  deriving DecidableEq

abbrev CmdContext := List UInt8

/-- `parsers` is `pPriv_info[1]` of a command code.  `log` remembers the commands
that were complete. -/
structure TscamDev where
  hTscam : TscmHandle CmdContext
  actRecvCmdCode : Nat
  prevPktNum : Nat
  parsers : Nat → Option CmdPktParser
  log : List (CmdBox CmdContext × CmdEnd)

def TscamDev.create : TscamDev := ⟨.init CmdContext, 0, 0, fun _ => none, []⟩

def TscamDev.setParser (pTscamDev : TscamDev) (cmdCode : Nat)
    (parser : Option CmdPktParser) : TscamDev :=
  { pTscamDev with parsers := Function.update pTscamDev.parsers cmdCode parser }

@[simp] theorem TscamDev.setParser_self (pTscamDev : TscamDev) (cmdCode : Nat)
    (parser : Option CmdPktParser) :
    (pTscamDev.setParser cmdCode parser).parsers cmdCode = parser :=
  Function.update_self ..

theorem TscamDev.setParser_of_ne (pTscamDev : TscamDev) {cmdCode other : Nat}
    (apart : other ≠ cmdCode) (parser : Option CmdPktParser) :
    (pTscamDev.setParser cmdCode parser).parsers other = pTscamDev.parsers other :=
  Function.update_of_ne apart ..

/-- The answers of `malloc` while one packet is analysed. -/
structure PktMalloc where
  parser : Bool
  context : Nat → Bool
  box : BoxMalloc CmdContext

def queueFuel : Nat := tscamMaxQueueSize + 2

/-- The header of a packet with the right tags and checksum.  The checksum leaves
out `rx_dev_addr_id`. -/
def checkedHdr (pkt : List UInt8) : Except TscmStop (Option CmdRcpHdr) := do
  let leading ← bytesAt .packet pkt 0 1
  if leading ≠ [leadingTag] then
    .ok none
  else
    let last ← bytesAt .packet pkt (pkt.length - 1) 1
    if last ≠ [endTag] then
      .ok none
    else
      let bytes ← bytesAt .packet pkt 1 cmdRcpHdrSize
      let summed ← bytesAt .packet pkt 3 ((getRcpHdr bytes).pktLength + (cmdRcpHdrSize - 2))
      let checkSum ← bytesAt .packet pkt (13 + (getRcpHdr bytes).pktLength) 1
      if checkSum = [tscmGenCheckSum summed] then
        .ok (some (getRcpHdr bytes))
      else
        .ok none

/-- A first packet begins a command: it gives the command code. -/
def beginCmd (pTscamDev : TscamDev) (hdr : CmdRcpHdr) (pkt : List UInt8) :
    Except TscmStop TscamDev :=
  if hdr.pktNum = 1 then do
    let cmdCode ← bytesAt .packet pkt 17 2
    .ok { pTscamDev with actRecvCmdCode := getWord cmdCode 0, prevPktNum := 0 }
  else
    .ok pTscamDev

def recvBox (attr : RecvAttr) (hdr : CmdRcpHdr) (cmdCode : Nat)
    (context : CmdContext) : CmdBox CmdContext where
  cmdCode := cmdCode
  priority := .er
  handler := attr.userHanlder
  pCmdInfo := context
  pTunnelInfo := attr.pTunnelInfo
  streamPktFmt := .unknown
  rxDevAddrId := hdr.rxDevAddrId
  txDevAddrId := hdr.txDevAddrId

/-- A complete command goes to its handler if this is active, else into the
receive queue.  The parser stays where there is no memory for the box. -/
def deliverCmd (malloc : PktMalloc) (active : Bool) (pTscamDev : TscamDev)
    (box : CmdBox CmdContext) : Except TscmStop TscamDev :=
  if active then
    match malloc.box.answer pTscamDev.hTscam.boxes with
    | none =>
      .ok
        { pTscamDev with
          log := pTscamDev.log ++ [(box, .received .noMemory)] }
    | some _ =>
      .ok
        { pTscamDev.setParser box.cmdCode none with
          log := pTscamDev.log ++ [(box, if box.handler.isSome then .handled else .unhandled)] }
  else
    match recvCmd queueFuel pTscamDev.hTscam malloc.box box with
    | none => .error .endless
    | some (hTscam, result) =>
      .ok
        { if result = .noMemory then
            pTscamDev
          else
            pTscamDev.setParser box.cmdCode none with
          hTscam := hTscam
          log := pTscamDev.log ++ [(box, .received result)] }

/-- `*ppParser_info`, which is allocated if there is none. -/
def obtainParser (malloc : PktMalloc) (pTscamDev : TscamDev) (cmdCode : Nat) :
    Option CmdPktParser :=
  match pTscamDev.parsers cmdCode with
  | some parser => some parser
  | none => if malloc.parser then some .zero else none

/-- `(uint32_t)(-1)`. -/
def noCmdCode : Nat := 2 ^ 32 - 1

/-- The decoder is called, and a command that is complete is delivered. -/
def decodeFragment (malloc : PktMalloc) (attr : RecvAttr)
    (infoSize : Nat) (pTscamDev : TscamDev) (hdr : CmdRcpHdr) (cmdCode : Nat)
    (pkt : List UInt8) : Except TscmStop TscamDev :=
  match obtainParser malloc pTscamDev cmdCode with
  | none => .ok pTscamDev
  | some parser => do
      let decoded ← cmdPktDecode malloc.context infoSize parser (pkt.drop 13) hdr.pktLength
      if decoded.bCollecteDone then
        deliverCmd malloc attr.active
          { pTscamDev.setParser cmdCode (some decoded) with
            actRecvCmdCode := noCmdCode }
          (recvBox attr hdr cmdCode ((decoded.pCmdPktPrivData.getD []).drop infoSize))
      else
        .ok (pTscamDev.setParser cmdCode (some decoded))

def takeFragment (malloc : PktMalloc) (attr : RecvTable) (pTscamDev : TscamDev)
    (hdr : CmdRcpHdr) (pkt : List UInt8) : Except TscmStop TscamDev :=
  if hdr.pktNum = (pTscamDev.prevPktNum + 1) % 2 ^ 16 then
    match attr.find (pTscamDev.actRecvCmdCode % 2 ^ 16) with
    | none => .ok { pTscamDev with prevPktNum := hdr.pktNum }
    | some found =>
      match found.cmdPktDecode with
      | none => .ok { pTscamDev with prevPktNum := hdr.pktNum }
      | some infoSize =>
        decodeFragment malloc found infoSize { pTscamDev with prevPktNum := hdr.pktNum } hdr
          (pTscamDev.actRecvCmdCode % 2 ^ 16) pkt
  else
    .ok pTscamDev

def tscamCmdAnalyse (malloc : PktMalloc) (attr : RecvTable)
    (pTscamDev : TscamDev) (pkt : List UInt8) : Except TscmStop TscamDev := do
  match ← checkedHdr pkt with
  | none => .ok pTscamDev
  | some hdr => do
      let pTscamDev ← beginCmd pTscamDev hdr pkt
      takeFragment malloc attr pTscamDev hdr pkt

end IteSdk.Tscam
