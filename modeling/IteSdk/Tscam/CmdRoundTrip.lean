import IteSdk.Tscam.CmdGenerateSpec

/-!
# From the sender to the receiver

The packets that are generated for a command are fragments of it for the receiver,
so what is known of a receiver that gets all fragments of a command applies.
-/

namespace IteSdk.Tscam

open Lib

variable {fmt : TscmPktFmt} {handler : PktHandler fmt} {hdr : CmdRcpHdr}
  {data : List UInt8}

structure CmdRcpHdr.Fits (hdr : CmdRcpHdr) : Prop where
  rxDevAddrId : hdr.rxDevAddrId < 2 ^ 16
  txDevAddrId : hdr.txDevAddrId < 2 ^ 16
  totalPktNum : hdr.totalPktNum < 2 ^ 16
  pktNum : hdr.pktNum < 2 ^ 16
  seqNum : hdr.seqNum < 2 ^ 16
  pktLength : hdr.pktLength < 2 ^ 16

theorem bytes_value {value : Nat} (fits : value < 2 ^ 16) :
    value / 256 % 256 * 256 + value % 256 = value := by
  omega

theorem getRcpHdr_setRcpHdr (fits : hdr.Fits) : getRcpHdr (setRcpHdr hdr) = hdr := by
  simp [getRcpHdr, setRcpHdr, setWord, getWord, bytes_value fits.rxDevAddrId,
    bytes_value fits.txDevAddrId, bytes_value fits.totalPktNum,
    bytes_value fits.pktNum, bytes_value fits.seqNum, bytes_value fits.pktLength]

theorem packetHdr_rcpPacket (fits : hdr.Fits) (data : List UInt8) :
    packetHdr (rcpPacket hdr data) = hdr := by
  have window :
      slice 1 cmdRcpHdrSize (rcpPacket hdr data) = setRcpHdr hdr := by
    simp only [rcpPacket, List.append_assoc]
    rw [← List.append_assoc]
    exact slice_middle _ _ _ rfl rfl
  rw [packetHdr, window, getRcpHdr_setRcpHdr fits]

theorem rcpPacket_tagged (short : data.length ≤ rcpCmdDataSize) :
    PacketTagged (rcpPacket hdr data) := by
  refine ⟨rfl, ?_⟩
  have split :
      rcpPacket hdr data =
        [leadingTag] ++ setRcpHdr hdr ++ data ++
            [tscmGenCheckSum (rcpSummed hdr data)] ++
              List.replicate (rcpCmdDataSize - data.length) 0xaa ++ [endTag] ++ [] := by
    simp only [rcpPacket, List.append_assoc, List.append_nil]
  rw [rcpPacket_length short, split]
  refine slice_middle _ _ _ ?_ rfl
  unfold rcpCmdDataSize at short
  simp only [List.length_append, List.length_cons, List.length_nil,
    setRcpHdr_length, List.length_replicate, rcpCmdDataSize]
  omega

theorem rcpPacket_data : ((rcpPacket hdr data).drop 13).take data.length = data := by
  have split :
      rcpPacket hdr data =
        [leadingTag] ++ setRcpHdr hdr ++ data ++
          ([tscmGenCheckSum (rcpSummed hdr data)] ++
            (List.replicate (rcpCmdDataSize - data.length) 0xaa ++ [endTag])) := by
    simp only [rcpPacket, List.append_assoc]
  rw [split]
  exact slice_middle _ _ _ rfl rfl

theorem rcpPacket_summed (fits : hdr.Fits) (length : hdr.pktLength = data.length) :
    PacketSummed (rcpPacket hdr data) := by
  have check :
      slice (13 + data.length) 1 (rcpPacket hdr data) = [tscmGenCheckSum (rcpSummed hdr data)] := by
    refine slice_middle _ _ _ ?_ rfl
    simp only [List.length_append, List.length_singleton, setRcpHdr_length]
  have summed :
      slice 3 (data.length + (cmdRcpHdrSize - 2)) (rcpPacket hdr data) = rcpSummed hdr data := by
    have split :
        rcpPacket hdr data =
          ([leadingTag] ++ (setRcpHdr hdr).take 2) ++ rcpSummed hdr data ++
            ([tscmGenCheckSum (rcpSummed hdr data)] ++
              (List.replicate (rcpCmdDataSize - data.length) 0xaa ++ [endTag])) := by
      conv_lhs =>
        rw [rcpPacket, ← List.take_append_drop 2 (setRcpHdr hdr)]
      conv_rhs =>
        enter [1, 2]
        rw [rcpSummed]
      simp only [List.append_assoc]
    rw [split]
    refine slice_middle _ _ _ rfl ?_
    rw [rcpSummed, List.length_append, Nat.add_comm]
    rfl
  rw [PacketSummed, packetHdr_rcpPacket fits, length, check, summed]

/-! ## The command that is sent -/

/-- A command with an encoder and a decoder, to be sent in this format.  Its context
has its length, its command code and its checksum. -/
structure SentCmd (fmt : TscmPktFmt) (send : SendTable) (recv : RecvTable) where
  box : CmdBox CmdContext
  found : RecvAttr
  infoSize : Fin (2 ^ 32)
  format : box.streamPktFmt = fmt.stream
  encodes : findCmdAttr send box.cmdCode = some true
  finds : recv.find box.cmdCode = some found
  decodes : found.cmdPktDecode = some infoSize
  long : 6 ≤ box.pCmdInfo.length
  code : getWord box.pCmdInfo 4 = box.cmdCode
  length : getDword box.pCmdInfo 0 + 1 = box.pCmdInfo.length
  summed : contextOk box.pCmdInfo = true

def SentCmd.received {send : SendTable} {recv : RecvTable}
    (sent : SentCmd fmt send recv) : CmdBox CmdContext where
  cmdCode := sent.box.cmdCode
  priority := .er
  handler := sent.found.userHanlder
  pCmdInfo := sent.box.pCmdInfo
  pTunnelInfo := sent.found.pTunnelInfo
  streamPktFmt := .unknown
  rxDevAddrId := sent.box.rxDevAddrId % 2 ^ 16
  txDevAddrId := sent.box.txDevAddrId % 2 ^ 16

def fragmentAt (malloc : StreamMalloc) (box : CmdBox CmdContext)
    (total seqNum index : Nat) : RecvFragment where
  malloc := malloc index
  pkt := rcpPacket (hdrAt box total seqNum index) (pieceAt box.pCmdInfo index)
  piece := pieceAt box.pCmdInfo index

variable {send : SendTable} {recv : RecvTable} {sent : SentCmd fmt send recv}
  {malloc : StreamMalloc} {box : CmdBox CmdContext}
  {total seqNum index start count : Nat}

theorem hdrAt_fits (box : CmdBox CmdContext) (seqNum index : Nat) (small : total < 2 ^ 16) :
    (hdrAt box total seqNum index).Fits where
  rxDevAddrId := Nat.mod_lt _ (by decide)
  txDevAddrId := Nat.mod_lt _ (by decide)
  totalPktNum := small
  pktNum := Nat.mod_lt _ (by decide)
  seqNum := Nat.mod_lt _ (by decide)
  pktLength := Nat.lt_of_le_of_lt (pieceAt_short box.pCmdInfo index) (by decide)

theorem fragmentAt_isFragment (small : total < 2 ^ 16)
    (inside : rcpCmdDataSize * index < box.pCmdInfo.length) (counted : index < total) :
    IsFragment (index + 1) (fragmentAt malloc box total seqNum index) := by
  have short := pieceAt_short box.pCmdInfo index
  have fits := hdrAt_fits box seqNum index small
  have hdr := packetHdr_rcpPacket fits (pieceAt box.pCmdInfo index)
  refine
    { whole := rcpPacket_length short
      tagged := rcpPacket_tagged short
      summed := rcpPacket_summed fits rfl
      num := ?_
      length := congrArg CmdRcpHdr.pktLength hdr
      short := Nat.le_trans short (by decide)
      data := rcpPacket_data
      nonempty := ?_ }
  · refine (congrArg CmdRcpHdr.pktNum hdr).trans (Nat.mod_eq_of_lt ?_)
    omega
  · refine List.ne_nil_of_length_pos ?_
    unfold rcpCmdDataSize at inside
    simp only [fragmentAt, pieceAt, slice, List.length_take, List.length_drop, rcpCmdDataSize]
    omega

theorem fragmentAt_numbered (small : total < 2 ^ 16)
    (inside : ∀ index, index < total → rcpCmdDataSize * index < box.pCmdInfo.length)
    (fewer : start + count ≤ total) :
    NumberedFrom (start + 1)
      ((List.range' start count).map (fragmentAt malloc box total seqNum)) := by
  induction count generalizing start with
  | zero => trivial
  | succ count ih =>
    rw [List.range'_succ, List.map_cons]
    exact ⟨fragmentAt_isFragment small (inside start (by omega)) (by omega), ih (by omega)⟩

theorem contentOf_fragmentAt (malloc : StreamMalloc) (box : CmdBox CmdContext)
    (total seqNum count : Nat) :
    contentOf ((List.range count).map (fragmentAt malloc box total seqNum)) =
      box.pCmdInfo.take (rcpCmdDataSize * count) := by
  induction count with
  | zero => simp [contentOf]
  | succ count ih =>
    rw [List.range_succ, List.map_append, List.map_singleton, contentOf_append,
      ih, Nat.mul_succ, List.take_add]
    rfl

def SentCmd.lastIndex (sent : SentCmd fmt send recv) : Nat :=
  sent.box.pCmdInfo.length / rcpCmdDataSize

/-- The fragment of this index, when the number of packets is right. -/
def SentCmd.fragment (sent : SentCmd fmt send recv) (malloc : StreamMalloc)
    (seqNum index : Nat) : RecvFragment :=
  fragmentAt malloc sent.box (sent.lastIndex + 1) seqNum index

theorem SentCmd.reaches (right : PktNumRight sent.box.pCmdInfo.length)
    {index : Nat} (counted : index < sent.lastIndex + 1) :
    rcpCmdDataSize * index < sent.box.pCmdInfo.length := by
  obtain ⟨more, -⟩ := right
  unfold lastIndex at counted
  unfold rcpCmdDataSize at *
  omega

theorem SentCmd.small (right : PktNumRight sent.box.pCmdInfo.length) :
    sent.lastIndex + 1 < 2 ^ 16 := by
  obtain ⟨-, few⟩ := right
  unfold lastIndex rcpCmdDataSize at *
  omega

theorem SentCmd.numbered (right : PktNumRight sent.box.pCmdInfo.length) :
    NumberedFrom 1
      ((List.range sent.lastIndex).map (sent.fragment malloc seqNum) ++
        [sent.fragment malloc seqNum sent.lastIndex]) := by
  have all :
      (List.range sent.lastIndex).map (sent.fragment malloc seqNum) ++
          [sent.fragment malloc seqNum sent.lastIndex] =
        (List.range' 0 (sent.lastIndex + 1)).map
          (fragmentAt malloc sent.box (sent.lastIndex + 1) seqNum) := by
    rw [← List.range_eq_range', List.range_succ, List.map_append]
    rfl
  rw [all]
  exact fragmentAt_numbered (sent.small right)
    (fun index counted => sent.reaches right counted) (by omega)

theorem SentCmd.content (malloc : StreamMalloc) (seqNum : Nat) :
    contentOf
        ((List.range sent.lastIndex).map (sent.fragment malloc seqNum) ++
          [sent.fragment malloc seqNum sent.lastIndex]) =
      sent.box.pCmdInfo := by
  have all := contentOf_fragmentAt malloc sent.box (sent.lastIndex + 1) seqNum (sent.lastIndex + 1)
  rw [List.range_succ, List.map_append, List.take_of_length_le] at all
  · exact all
  · unfold lastIndex rcpCmdDataSize
    omega

theorem SentCmd.firstFragment (malloc : StreamMalloc) (seqNum : Nat) :
    (((List.range sent.lastIndex).map (sent.fragment malloc seqNum)).headD
        (sent.fragment malloc seqNum sent.lastIndex)) =
      sent.fragment malloc seqNum 0 := by
  cases sent.lastIndex with
  | zero => rfl
  | succ count =>
    rw [List.range_succ_eq_map]
    rfl

/-- What the receiver gets, when the number of packets is right. -/
def SentCmd.transmission (sent : SentCmd fmt send recv) (malloc : StreamMalloc)
    (seqNum : Nat) (right : PktNumRight sent.box.pCmdInfo.length) :
    Transmission recv where
  front := (List.range sent.lastIndex).map (sent.fragment malloc seqNum)
  last := sent.fragment malloc seqNum sent.lastIndex
  cmdCode := sent.box.cmdCode
  found := sent.found
  infoSize := sent.infoSize
  finds := sent.finds
  decodes := sent.decodes
  numbered := sent.numbered right
  long := by
    have long := sent.long
    rw [sent.firstFragment]
    simp [fragment, fragmentAt, pieceAt, slice, rcpCmdDataSize, long]
  code := by
    rw [sent.firstFragment]
    exact (getWord_slice _ (by decide)).trans sent.code
  length := by
    rw [sent.content]
    exact sent.length
  summed := by
    rw [sent.content]
    exact sent.summed

/-- The stream of the packets brings this command: once, and with the last
packet. -/
structure BringsCmd (fmt : TscmPktFmt) (malloc : StreamMalloc) (attr : RecvTable)
    (packets : List (List UInt8)) (box : CmdBox CmdContext) : Prop where
  before :
    ∀ pieces : List (List UInt8), pieces.flatten = packets.dropLast.flatten →
      ∃ recv, analyseStream fmt malloc attr .create pieces = .ok recv ∧ recv.dev.log = []
  once :
    ∀ pieces : List (List UInt8), pieces.flatten = packets.flatten →
      ∃ recv how, analyseStream fmt malloc attr .create pieces = .ok recv ∧
        recv.dev.log = [(box, how)] ∧ how.Delivered ∧
          (how = .received .stored →
            ∃ nodes, HandleHolds recv.dev.hTscam nodes [] [{ box with priority := .appt }] [])

theorem streamPackets_sent (handler : PktHandler fmt) (box : CmdBox CmdContext)
    (total seqNum count : Nat) :
    streamPackets fmt ((List.range count).map (packetAt handler box total seqNum)).flatten =
      (List.range count).map fun index =>
        rcpPacket (hdrAt box total seqNum index) (pieceAt box.pCmdInfo index) := by
  have all :
      ∀ packet ∈ (List.range count).map (packetAt handler box total seqNum),
        packet.head? = some fmt.syncByte ∧ packet.length = fmt.actPktSize := by
    intro packet member
    obtain ⟨index, -, rfl⟩ := List.mem_map.mp member
    exact ⟨sentPacket_head (pieceAt_short _ _), packetAt_length⟩
  rw [streamPackets, packetise_flatten (actPktSize_pos fmt) all, List.map_map]
  exact List.map_congr_left fun index _ => sentPacket_drop (pieceAt_short _ _)

theorem analyseNext_fragments (malloc : StreamMalloc) (attr : RecvTable)
    (box : CmdBox CmdContext) (total seqNum start count : Nat) (pTscamDev : TscamDev) :
    ((List.range' start count).map fun index =>
        rcpPacket (hdrAt box total seqNum index)
          (pieceAt box.pCmdInfo index)).foldlM (analyseNext malloc attr)
        (pTscamDev, start) =
      (analyseFragments attr pTscamDev
          ((List.range' start count).map (fragmentAt malloc box total seqNum))).map
        fun after => (after, start + count) := by
  induction count generalizing start pTscamDev with
  | zero => rfl
  | succ count ih =>
    rw [List.range'_succ, List.map_cons, List.map_cons, List.foldlM_cons,
      analyseFragments_cons, analyseNext]
    cases analysed :
        tscamCmdAnalyse (malloc start) attr pTscamDev
          (rcpPacket (hdrAt box total seqNum start) (pieceAt box.pCmdInfo start)) with
    | error stop => simp [fragmentAt, analysed, bind, Except.bind, Except.map]
    | ok after =>
      have later := ih (start + 1) after
      rw [Nat.add_assoc, Nat.add_comm 1] at later
      simp only [fragmentAt, analysed, bind, Except.bind] at later ⊢
      exact later

/-- Whatever the pieces, the stream of the first packets does what their fragments
do. -/
theorem analyseStream_fragments {P : TscamDev → Prop} {pieces : List (List UInt8)}
    (stream : pieces.flatten = ((List.range count).map (packetAt handler box total seqNum)).flatten)
    (attr : RecvTable) :
    (∃ recv, analyseStream fmt malloc attr .create pieces = .ok recv ∧ P recv.dev) ↔
      ∃ after,
        analyseFragments attr .create
            ((List.range count).map (fragmentAt malloc box total seqNum)) =
          .ok after ∧ P after := by
  have packets := analyseStream_eq fmt malloc attr pieces
  rw [stream, streamPackets_sent, List.range_eq_range', analyseNext_fragments,
    Nat.zero_add] at packets
  rw [List.range_eq_range']
  cases streamed : analyseStream fmt malloc attr .create pieces with
  | error stop =>
    cases analysed :
        analyseFragments attr .create
          ((List.range' 0 count).map (fragmentAt malloc box total seqNum)) with
    | error other => simp
    | ok after => simp [streamed, analysed, Except.map] at packets
  | ok recv =>
    cases analysed :
        analyseFragments attr .create
          ((List.range' 0 count).map (fragmentAt malloc box total seqNum)) with
    | error other => simp [streamed, analysed, Except.map] at packets
    | ok after =>
      have same : recv.dev = after := by
        simp only [streamed, analysed, Except.map, Except.ok.injEq, Prod.mk.injEq] at packets
        exact packets.1
      simp [same]

theorem analyseStream_all (handler : PktHandler fmt) (malloc : StreamMalloc)
    (attr : RecvTable) (box : CmdBox CmdContext) (total seqNum count : Nat) (P : TscamDev → Prop) :
    (∀ pieces : List (List UInt8),
        pieces.flatten = ((List.range count).map (packetAt handler box total seqNum)).flatten →
          ∃ recv, analyseStream fmt malloc attr .create pieces = .ok recv ∧ P recv.dev) ↔
      ∃ after,
        analyseFragments attr .create
            ((List.range count).map (fragmentAt malloc box total seqNum)) =
          .ok after ∧ P after := by
  constructor
  · intro all
    have stream (bytes : List UInt8) : [bytes].flatten = bytes := List.flatten_singleton
    exact (analyseStream_fragments (stream _) attr).mp (all _ (stream _))
  · intro fragments pieces stream
    exact (analyseStream_fragments stream attr).mpr fragments

theorem analyseFragments_concat (attr : RecvTable) (pTscamDev : TscamDev)
    (front : List RecvFragment) (last : RecvFragment) :
    analyseFragments attr pTscamDev (front ++ [last]) =
      analyseFragments attr pTscamDev front >>= fun before =>
        tscamCmdAnalyse last.malloc attr before last.pkt := by
  simp [analyseFragments, List.foldlM_append]

theorem HandleHolds.of_init {recvNodes transNodes : List Nat}
    {recvHeld transHeld : List (CmdBox CmdContext)}
    (holds : HandleHolds (TscmHandle.init CmdContext) recvNodes transNodes recvHeld transHeld) :
    recvHeld = [] ∧ transNodes = [] ∧ transHeld = [] := by
  have recvNum := holds.recv.queued.num.trans holds.recv.length
  have transNum := holds.trans.queued.num
  have transLength := holds.trans.length
  have recvNone : recvHeld.length = 0 := recvNum.symm
  have transNone : transNodes.length = 0 := transNum.symm
  exact ⟨List.length_eq_zero_iff.mp recvNone, List.length_eq_zero_iff.mp transNone,
    List.length_eq_zero_iff.mp (transLength.symm.trans transNone)⟩

theorem SentCmd.transmission_box (malloc : StreamMalloc) (seqNum : Nat)
    (right : PktNumRight sent.box.pCmdInfo.length) :
    (sent.transmission malloc seqNum right).box = sent.received := by
  have hdr :
      packetHdr (sent.fragment malloc seqNum sent.lastIndex).pkt =
        hdrAt sent.box (sent.lastIndex + 1) seqNum sent.lastIndex :=
    packetHdr_rcpPacket (hdrAt_fits _ _ _ (sent.small right)) _
  have context := sent.content malloc seqNum
  rw [Transmission.box, Transmission.context]
  simp only [transmission, hdr, context]
  rfl

theorem bringsCmd_iff (handler : PktHandler fmt) (malloc : StreamMalloc)
    (seqNum : Nat) (right : PktNumRight sent.box.pCmdInfo.length) :
    BringsCmd fmt malloc recv
        ((List.range (sent.lastIndex + 1)).map
          (packetAt handler sent.box (sent.lastIndex + 1) seqNum))
        sent.received ↔
      Recovered (sent.transmission malloc seqNum right) .create := by
  have box := sent.transmission_box malloc seqNum right
  have front :
      ((List.range (sent.lastIndex + 1)).map
          (packetAt handler sent.box (sent.lastIndex + 1) seqNum)).dropLast =
        (List.range sent.lastIndex).map
          (packetAt handler sent.box (sent.lastIndex + 1) seqNum) := by
    rw [List.range_succ, List.map_append, List.map_singleton, List.dropLast_concat]
  have whole :
      (List.range (sent.lastIndex + 1)).map
          (fragmentAt malloc sent.box (sent.lastIndex + 1) seqNum) =
        (sent.transmission malloc seqNum right).front ++
          [(sent.transmission malloc seqNum right).last] := by
    rw [List.range_succ, List.map_append]
    rfl
  have frontIff :=
    analyseStream_all handler malloc recv sent.box (sent.lastIndex + 1) seqNum
      sent.lastIndex fun dev => dev.log = []
  have wholeIff :=
    analyseStream_all handler malloc recv sent.box (sent.lastIndex + 1) seqNum
      (sent.lastIndex + 1) fun dev => ∃ how, dev.log = [(sent.received, how)] ∧
        how.Delivered ∧ (how = .received .stored →
          ∃ nodes, HandleHolds dev.hTscam nodes [] [{ sent.received with priority := .appt }] [])
  rw [whole, analyseFragments_concat] at wholeIff
  constructor
  · intro brings
    have firstBefore := brings.before
    rw [front] at firstBefore
    obtain ⟨before, ranFront, logFront⟩ := frontIff.mp firstBefore
    obtain ⟨after, ranAll, how, log, delivered, queue⟩ :=
      wholeIff.mp fun pieces stream => by
        obtain ⟨recv, how, streamed, rest⟩ := brings.once pieces stream
        exact ⟨recv, streamed, how, rest⟩
    have ranLast := ranAll
    rw [show analyseFragments recv .create
        (sent.transmission malloc seqNum right).front = .ok before from ranFront]
      at ranLast
    refine ⟨before, after, how, ranFront, logFront, ranLast, ?_, delivered, fun stored => ?_⟩
    · rw [box]
      exact log
    · obtain ⟨nodes, holds⟩ := queue stored
      refine ⟨[], [], [], [], nodes, .init, ?_⟩
      rw [box]
      exact holds
  · rintro ⟨before, after, how, ranFront, logFront, ranLast, log, delivered, queue⟩
    rw [box] at log queue
    have ranAll := wholeIff.mpr ⟨after, by rw [ranFront]; exact ranLast, how, log,
      delivered, fun stored => by
        obtain ⟨recvNodes, transNodes, held, transHeld, nodes, holds, leftHolds⟩ := queue stored
        obtain ⟨rfl, rfl, rfl⟩ := holds.of_init
        exact ⟨nodes, leftHolds⟩⟩
    refine ⟨?_, fun pieces stream => ?_⟩
    · rw [front]
      exact frontIff.mpr ⟨before, ranFront, logFront⟩
    · obtain ⟨recv, streamed, how, rest⟩ := ranAll pieces stream
      exact ⟨recv, how, streamed, rest⟩

/-! ## The round trip -/

structure NumberedPacket (fmt : TscmPktFmt) (total index : Nat)
    (packet : List UInt8) : Prop where
  length : packet.length = fmt.actPktSize
  totalPktNum : (packetHdr (packet.drop fmt.offset)).totalPktNum = total
  pktNum : (packetHdr (packet.drop fmt.offset)).pktNum = index + 1

/-- The packets fill the buffer that was allocated for them, they are numbered, and
a new receiver gets the command from them. -/
def RoundTrip (sent : SentCmd fmt send recv) (handler : PktHandler fmt)
    (sendMalloc : SendMalloc) (malloc : StreamMalloc) (seqNum : Nat) : Prop :=
  ∃ packets seqAfter,
    tscamCmdGenerate sendMalloc send handler sent.box seqNum =
        .ok (some packets.flatten, seqAfter) ∧
      packets.length = totalPktNum sent.box.pCmdInfo.length ∧
        (∀ index packet, packets[index]? = some packet →
          NumberedPacket fmt packets.length index packet) ∧
          BringsCmd fmt malloc recv packets sent.received

/-- The length is not a multiple of the data of a packet and not too long for
`uint16_t`, there is memory, and a handler that is active is there. -/
structure RoundTripReady (sent : SentCmd fmt send recv)
    (sendMalloc : SendMalloc) (malloc : StreamMalloc) : Prop where
  right : PktNumRight sent.box.pCmdInfo.length
  muxer : sendMalloc.muxer = true
  packets : sendMalloc.packets ((sent.lastIndex + 1) * fmt.actPktSize) = true
  parser : (malloc 0).parser = true
  fits : sent.infoSize + sent.box.pCmdInfo.length < 2 ^ 32
  context : (malloc 0).context (sent.infoSize + sent.box.pCmdInfo.length) = true
  box : (malloc sent.lastIndex).box.answer (TscmHandle.init CmdContext).boxes ≠ none
  handler : sent.found.active = true → sent.found.userHanlder ≠ none

theorem SentCmd.sized (sent : SentCmd fmt send recv) : CtxtSized sent.box.pCmdInfo where
  dword := by
    have long := sent.long
    omega
  length := sent.length

theorem tscamCmdGenerate_sent (sent : SentCmd fmt send recv) (handler : PktHandler fmt)
    (sendMalloc : SendMalloc) (seqNum : Nat) :
    tscamCmdGenerate sendMalloc send handler sent.box seqNum =
      if sendMalloc.muxer then do
        let result ←
          generateLoop sendMalloc.packets handler sent.box (sent.lastIndex + 2) .zero seqNum
        .ok (result.1.pCmdPktsBuf, result.2)
      else
        .ok (none, seqNum) := by
  have code : sent.box.cmdCode % 2 ^ 16 = sent.box.cmdCode := by
    rw [← sent.code]
    exact Nat.mod_eq_of_lt (getWord_lt _ _)
  rw [tscamCmdGenerate, code, sent.encodes]
  simp only [true_and]
  rfl

variable {sendMalloc : SendMalloc}

theorem tscamCmdGenerate_wrong (sent : SentCmd fmt send recv) (handler : PktHandler fmt)
    (seqNum : Nat) (wrong : ¬ PktNumRight sent.box.pCmdInfo.length)
    (muxer : sendMalloc.muxer = true)
    (granted :
      sendMalloc.packets
        (totalPktNum ((getDword sent.box.pCmdInfo 0 + 1) % 2 ^ 32) * fmt.actPktSize) = true) :
    tscamCmdGenerate sendMalloc send handler sent.box seqNum = .error .buffer := by
  have outside :
      generateLoop sendMalloc.packets handler sent.box (sent.lastIndex + 2) .zero
        seqNum = .error .buffer :=
    generateLoop_wrong sent.sized wrong granted
  rw [tscamCmdGenerate_sent, if_pos muxer, outside]
  rfl

/-- Packets are generated only where the number of packets is right and there is
memory. -/
theorem tscamCmdGenerate_some (sent : SentCmd fmt send recv) (handler : PktHandler fmt)
    {seqNum seqAfter : Nat} {buf : List UInt8}
    (generated :
      tscamCmdGenerate sendMalloc send handler sent.box seqNum = .ok (some buf, seqAfter)) :
    PktNumRight sent.box.pCmdInfo.length ∧ sendMalloc.muxer = true ∧
      sendMalloc.packets ((sent.lastIndex + 1) * fmt.actPktSize) = true := by
  by_cases muxer : sendMalloc.muxer = true
  · by_cases granted :
        sendMalloc.packets
          (totalPktNum ((getDword sent.box.pCmdInfo 0 + 1) % 2 ^ 32) * fmt.actPktSize) = true
    · by_cases right : PktNumRight sent.box.pCmdInfo.length
      · have small : sent.box.pCmdInfo.length < 2 ^ 32 := by
          obtain ⟨-, few⟩ := right
          unfold rcpCmdDataSize at few
          omega
        rw [sent.length, Nat.mod_eq_of_lt small, totalPktNum_right right] at granted
        exact ⟨right, muxer, granted⟩
      · rw [tscamCmdGenerate_wrong sent handler seqNum right muxer granted]
          at generated
        cases generated
    · have refused :
          generateLoop sendMalloc.packets handler sent.box (sent.lastIndex + 2)
            .zero seqNum = .ok (.zero, seqNum) :=
        generateLoop_refused sent.sized.dword (by simpa using granted)
      rw [tscamCmdGenerate_sent, if_pos muxer, refused] at generated
      cases generated
  · rw [tscamCmdGenerate_sent, if_neg muxer] at generated
    cases generated

theorem tscamCmdGenerate_right (sent : SentCmd fmt send recv) (handler : PktHandler fmt)
    (seqNum : Nat) (right : PktNumRight sent.box.pCmdInfo.length) (muxer : sendMalloc.muxer = true)
    (granted : sendMalloc.packets ((sent.lastIndex + 1) * fmt.actPktSize) = true) :
    tscamCmdGenerate sendMalloc send handler sent.box seqNum =
      .ok
        (some
          ((List.range (sent.lastIndex + 1)).map
            (packetAt handler sent.box (sent.lastIndex + 1) seqNum)).flatten,
          (seqNum + sent.lastIndex + 1) % 2 ^ 16) := by
  have total : totalPktNum sent.box.pCmdInfo.length = sent.lastIndex + 1 := totalPktNum_right right
  obtain ⟨pMuxer, runs, buffer⟩ :=
    generateLoop_right handler seqNum sent.sized right (total.symm ▸ granted)
  rw [total] at buffer
  rw [tscamCmdGenerate_sent, if_pos muxer]
  change (do
    let result ← generateLoop sendMalloc.packets handler sent.box
      (sent.box.pCmdInfo.length / rcpCmdDataSize + 2) .zero seqNum
    _) = _
  rw [runs]
  simp only [bind, Except.bind, buffer]
  rfl

theorem packetAt_numbered (handler : PktHandler fmt) (box : CmdBox CmdContext)
    (seqNum : Nat) (small : total < 2 ^ 16) (counted : index < total) :
    NumberedPacket fmt total index (packetAt handler box total seqNum index) := by
  have hdr :
      packetHdr ((packetAt handler box total seqNum index).drop fmt.offset) =
        hdrAt box total seqNum index := by
    rw [packetAt, sentPacket_drop (pieceAt_short _ _), packetHdr_rcpPacket (hdrAt_fits _ _ _ small)]
  refine ⟨packetAt_length, ?_, ?_⟩
  · rw [hdr]
    rfl
  · rw [hdr]
    exact Nat.mod_eq_of_lt (by omega)

theorem recoveryReady_create (malloc : StreamMalloc) (seqNum : Nat)
    (right : PktNumRight sent.box.pCmdInfo.length) :
    RecoveryReady (sent.transmission malloc seqNum right) .create ↔
      ((malloc 0).parser = true ∧
        sent.infoSize + sent.box.pCmdInfo.length < 2 ^ 32 ∧
          (malloc 0).context (sent.infoSize + sent.box.pCmdInfo.length) = true) ∧
        (malloc sent.lastIndex).box.answer (TscmHandle.init CmdContext).boxes ≠ none ∧
          (sent.found.active = true → sent.found.userHanlder ≠ none) := by
  have none_ : HasPart sent.infoSize .create sent.box.cmdCode none := .noParser rfl
  have first :
      (sent.transmission malloc seqNum right).first =
        sent.fragment malloc seqNum 0 := sent.firstFragment malloc seqNum
  have dword :
      getDword ((sent.fragment malloc seqNum 0).pkt.drop 13) 0 = getDword sent.box.pCmdInfo 0 := by
    have is_ : IsFragment (0 + 1) (sent.fragment malloc seqNum 0) :=
      fragmentAt_isFragment (sent.small right)
        (sent.reaches right (Nat.succ_pos _)) (Nat.succ_pos _)
    have long := sent.long
    have four : 4 ≤ (sent.fragment malloc seqNum 0).piece.length := by
      simp only [SentCmd.fragment, fragmentAt, pieceAt, slice, List.length_take,
        List.length_drop, rcpCmdDataSize]
      omega
    rw [is_.dword four (sent.box.pCmdInfo.drop rcpCmdDataSize)]
    congr 1
    exact List.take_append_drop rcpCmdDataSize sent.box.pCmdInfo
  have length := sent.length
  have parts :
      (∃ part, HasPart sent.infoSize .create sent.box.cmdCode part ∧
          PartReady (sent.transmission malloc seqNum right) .create part) ↔
        (malloc 0).parser = true ∧
          sent.infoSize + sent.box.pCmdInfo.length < 2 ^ 32 ∧
            (malloc 0).context (sent.infoSize + sent.box.pCmdInfo.length) = true := by
    constructor
    · rintro ⟨part, has, ready⟩
      obtain rfl := has.unique none_
      rw [PartReady, first] at ready
      obtain ⟨parser, fits, granted⟩ := ready
      rw [dword, Nat.add_assoc, length] at fits granted
      exact ⟨parser rfl, fits, granted⟩
    · rintro ⟨parser, fits, granted⟩
      refine ⟨none, none_, ?_⟩
      rw [PartReady, first]
      refine ⟨fun _ => parser, ?_, ?_⟩
      · rw [dword, Nat.add_assoc, length]
        exact fits
      · rw [dword, Nat.add_assoc, length]
        exact granted
  refine and_congr parts ?_
  have handler : (sent.transmission malloc seqNum right).box.handler = sent.found.userHanlder := rfl
  have supersedes (cmdCode : Nat) :
      supersedeCmd queueFuel (TscmHandle.init CmdContext) cmdCode = some (.init CmdContext) := rfl
  change DeliverReady (malloc sent.lastIndex) sent.found.active (.init CmdContext) _ ↔ _
  rw [DeliverReady, handler]
  cases active : sent.found.active with
  | true => simp
  | false =>
    have room :
        (TscmHandle.init CmdContext).recv.num ≤ tscamMaxQueueSize :=
      Nat.zero_le _
    simp [supersedes, room]

/-- A command comes back from its packets exactly where its length is not a
multiple of the data of a packet, its packets can be counted, and both sides have
the memory and the receiver its handler. -/
theorem roundTrip_iff (sent : SentCmd fmt send recv) (handler : PktHandler fmt)
    (sendMalloc : SendMalloc) (malloc : StreamMalloc) (seqNum : Nat) :
    RoundTrip sent handler sendMalloc malloc seqNum ↔ RoundTripReady sent sendMalloc malloc := by
  constructor
  · rintro ⟨packets, seqAfter, generated, count, numbered, brings⟩
    obtain ⟨right, muxer, granted⟩ := tscamCmdGenerate_some sent handler generated
    have total : totalPktNum sent.box.pCmdInfo.length = sent.lastIndex + 1 :=
      totalPktNum_right right
    rw [total] at count
    rw [tscamCmdGenerate_right sent handler seqNum right muxer granted,
      Except.ok.injEq, Prod.mk.injEq, Option.some_inj] at generated
    have same :
        (List.range (sent.lastIndex + 1)).map
            (packetAt handler sent.box (sent.lastIndex + 1) seqNum) =
          packets := by
      refine flatten_uniform_inj (packetAt_uniform _ _ _ _ _) ?_ ?_ generated.1
      · intro packet member
        obtain ⟨index, found⟩ := List.mem_iff_getElem?.mp member
        exact (numbered index packet found).length
      · rw [List.length_map, List.length_range, count]
    rw [← same, bringsCmd_iff handler malloc seqNum right,
      recovered_iff _ .create, recoveryReady_create] at brings
    obtain ⟨⟨parser, fits, context⟩, box, active⟩ := brings
    exact ⟨right, muxer, granted, parser, fits, context, box, active⟩
  · rintro ⟨right, muxer, granted, parser, fits, context, box, active⟩
    have total : totalPktNum sent.box.pCmdInfo.length = sent.lastIndex + 1 :=
      totalPktNum_right right
    refine ⟨_, _, tscamCmdGenerate_right sent handler seqNum right muxer granted, ?_, ?_, ?_⟩
    · rw [List.length_map, List.length_range, total]
    · intro index packet found
      obtain ⟨counted, rfl⟩ := List.getElem?_eq_some_iff.mp found
      rw [List.length_map, List.length_range] at counted ⊢
      rw [List.getElem_map, List.getElem_range]
      exact packetAt_numbered handler sent.box seqNum (sent.small right) counted
    · rw [bringsCmd_iff handler malloc seqNum right, recovered_iff _ .create, recoveryReady_create]
      exact ⟨⟨parser, fits, context⟩, box, active⟩

local instance infoSizes_ne_zero : NeZero (2 ^ 32) := ⟨by decide⟩

set_option maxRecDepth 20000 in
/-- A command of 169 bytes, which its only packet would hold. -/
def exactCommand : SentCmd .rs232 (fun _ _ => some true) allCommands where
  box :=
    { cmdCode := 1
      priority := .appt
      handler := none
      pCmdInfo := [0, 0, 0, 168, 0, 1] ++ List.replicate 162 0 ++ [169]
      pTunnelInfo := none
      streamPktFmt := .rs232
      rxDevAddrId := 1
      txDevAddrId := 2 }
  found := ⟨some 16, none, none, false⟩
  infoSize := 16
  format := rfl
  encodes := rfl
  finds := rfl
  decodes := rfl
  long := by decide
  code := rfl
  length := rfl
  summed := by decide

def noHandler : PktHandler .rs232 where
  write packet := packet
  length _ := rfl
  behind _ := rfl
  sync never := by cases never

set_option maxRecDepth 20000 in
theorem exactCommand_wrong : ¬ PktNumRight exactCommand.box.pCmdInfo.length := by decide

/-- The end tag of a second packet is written behind the buffer. -/
theorem roundTrip_exact :
    tscamCmdGenerate ⟨true, fun _ => true⟩ (fun _ _ => some true) noHandler
        exactCommand.box 0 = .error .buffer ∧
      ¬ RoundTrip exactCommand noHandler ⟨true, fun _ => true⟩ (fun _ => noLimit) 0 := by
  have outside :
      tscamCmdGenerate ⟨true, fun _ => true⟩ (fun _ _ => some true) noHandler
        exactCommand.box 0 = .error .buffer :=
    tscamCmdGenerate_wrong exactCommand noHandler 0 exactCommand_wrong rfl rfl
  refine ⟨outside, ?_⟩
  rintro ⟨packets, seqAfter, generated, -⟩
  rw [outside] at generated
  cases generated

end IteSdk.Tscam
