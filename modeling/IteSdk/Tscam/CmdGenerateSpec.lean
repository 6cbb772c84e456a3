import IteSdk.Lib.Blocks
import IteSdk.Tscam.CmdGenerate
import IteSdk.Tscam.CmdRecoveryRun

/-!
# The packets that are generated

Each turn of the loop fills one packet of the buffer.  The buffer has room for the
packets exactly where their number is right, which it is not for a context whose
length is a multiple of the data of a packet.
-/

namespace IteSdk.Tscam

open Lib

variable {fmt : TscmPktFmt} {handler : PktHandler fmt} {hdr : CmdRcpHdr}
  {front region rest data packet : List UInt8} {offset count start : Nat}

/-! ## One packet -/

theorem actPktSize_eq (fmt : TscmPktFmt) : fmt.actPktSize = fmt.offset + 184 := by cases fmt <;> rfl

theorem writeAt_ok (memory : List UInt8) (inside : offset + data.length ≤ memory.length) :
    writeAt memory offset data = .ok (overwrite offset data memory) :=
  if_pos (.inr inside)

theorem writeAt_error {memory : List UInt8} (some_ : data ≠ [])
    (outside : memory.length < offset + data.length) :
    writeAt memory offset data = .error .buffer := by
  refine if_neg (not_or.mpr ⟨fun none_ => ?_, by omega⟩)
  exact some_ (List.length_eq_zero_iff.mp none_)

theorem writeAt_window (first : front.length = start)
    (inside : offset + data.length ≤ region.length) :
    writeAt (front ++ region ++ rest) (start + offset) data =
      .ok (front ++ overwrite offset data region ++ rest) := by
  subst first
  rw [writeAt_ok _ (by simp only [List.length_append]; omega), List.append_assoc,
    overwrite_append_right, overwrite_append_left _ _ inside, List.append_assoc]

theorem bytesAt_window (first : front.length = start) (inside : offset + count ≤ region.length) :
    bytesAt .buffer (front ++ region ++ rest) (start + offset) count =
      .ok (slice offset count region) := by
  subst first
  rw [bytesAt_ok (by simp only [List.length_append]; omega), List.append_assoc,
    slice_append_right, slice_append_left _ _ inside]

def rcpSummed (hdr : CmdRcpHdr) (data : List UInt8) : List UInt8 := (setRcpHdr hdr).drop 2 ++ data

/-- A packet from its leading tag on; behind the checksum it is filled up. -/
def rcpPacket (hdr : CmdRcpHdr) (data : List UInt8) : List UInt8 :=
  [leadingTag] ++ setRcpHdr hdr ++ data ++
    [tscmGenCheckSum (rcpSummed hdr data)] ++
      (List.replicate (rcpCmdDataSize - data.length) 0xaa ++ [endTag])

def filledPacket (fmt : TscmPktFmt) (data : List UInt8) : List UInt8 :=
  List.replicate fmt.offset 0xaa ++
    (List.replicate 13 0xaa ++ data ++
      (List.replicate (rcpCmdDataSize + 1 - data.length) 0xaa ++ [endTag]))

def sentPacket (handler : PktHandler fmt) (hdr : CmdRcpHdr) (data : List UInt8) : List UInt8 :=
  (handler.write (filledPacket fmt data)).take fmt.offset ++ rcpPacket hdr data

theorem setRcpHdr_length (hdr : CmdRcpHdr) : (setRcpHdr hdr).length = 12 := rfl

theorem filledPacket_length (fmt : TscmPktFmt) (short : data.length ≤ rcpCmdDataSize) :
    (filledPacket fmt data).length = fmt.actPktSize := by
  have size := actPktSize_eq fmt
  unfold rcpCmdDataSize at short
  simp only [filledPacket, List.length_append, List.length_replicate,
    List.length_cons, List.length_nil, rcpCmdDataSize]
  omega

theorem rcpPacket_length (short : data.length ≤ rcpCmdDataSize) :
    (rcpPacket hdr data).length = 184 := by
  unfold rcpCmdDataSize at short
  simp only [rcpPacket, List.length_append, List.length_replicate,
    List.length_cons, List.length_nil, rcpCmdDataSize, setRcpHdr_length]
  omega

theorem handlerFront_length (handler : PktHandler fmt) (short : data.length ≤ rcpCmdDataSize) :
    ((handler.write (filledPacket fmt data)).take fmt.offset).length = fmt.offset := by
  have size := actPktSize_eq fmt
  rw [List.length_take, handler.length, filledPacket_length fmt short]
  omega

section

variable (short : data.length ≤ rcpCmdDataSize)

include short

theorem sentPacket_length : (sentPacket handler hdr data).length = fmt.actPktSize := by
  rw [sentPacket, List.length_append, handlerFront_length handler short,
    rcpPacket_length short, actPktSize_eq]

theorem sentPacket_drop : (sentPacket handler hdr data).drop fmt.offset = rcpPacket hdr data :=
  List.drop_left' (handlerFront_length handler short)

theorem sentPacket_head : (sentPacket handler hdr data).head? = some fmt.syncByte := by
  cases fmt with
  | rs232 => rfl
  | ts =>
    have first := handler.sync rfl _ (filledPacket_length .ts short)
    have front := handlerFront_length handler short
    rw [sentPacket, List.head?_append, List.head?_take]
    simp [TscmPktFmt.offset, first]

theorem overwrite_data :
    overwrite (fmt.offset + 1 + cmdRcpHdrSize) data (List.replicate fmt.actPktSize 0xaa) =
      List.replicate (fmt.offset + 13) 0xaa ++ data ++
        List.replicate (rcpCmdDataSize + 2 - data.length) 0xaa := by
  have split :
      List.replicate fmt.actPktSize (0xaa : UInt8) =
        List.replicate (fmt.offset + 13) 0xaa ++
          List.replicate data.length 0xaa ++
            List.replicate (rcpCmdDataSize + 2 - data.length) 0xaa := by
    unfold rcpCmdDataSize at short
    rw [List.replicate_append_replicate, List.replicate_append_replicate,
      actPktSize_eq, rcpCmdDataSize]
    congr 1
    omega
  rw [split]
  refine overwrite_middle _ _ _ _ ?_ List.length_replicate.symm
  rw [List.length_replicate]
  rfl

theorem overwrite_endTag :
    overwrite (fmt.actPktSize - 1) [endTag]
        (List.replicate (fmt.offset + 13) 0xaa ++ data ++
          List.replicate (rcpCmdDataSize + 2 - data.length) 0xaa) =
      filledPacket fmt data := by
  have split :
      List.replicate (rcpCmdDataSize + 2 - data.length) (0xaa : UInt8) =
        List.replicate (rcpCmdDataSize + 1 - data.length) 0xaa ++ [0xaa] := by
    rw [← List.replicate_succ']
    congr 1
    omega
  have start :
      (List.replicate (fmt.offset + 13) 0xaa ++ data ++
        List.replicate (rcpCmdDataSize + 1 - data.length) 0xaa).length = fmt.actPktSize - 1 := by
    have size := actPktSize_eq fmt
    unfold rcpCmdDataSize at short
    simp only [List.length_append, List.length_replicate, rcpCmdDataSize]
    omega
  have last := overwrite_middle _ [0xaa] [endTag] [] start rfl
  rw [List.append_nil, List.append_nil] at last
  rw [split, ← List.append_assoc, last, filledPacket, ← List.replicate_append_replicate]
  simp only [List.append_assoc]

end

theorem overwrite_hdr (handler : PktHandler fmt) (hdr : CmdRcpHdr)
    (short : data.length ≤ rcpCmdDataSize) :
    overwrite (fmt.offset + 1) (setRcpHdr hdr)
        (overwrite fmt.offset [leadingTag] (handler.write (filledPacket fmt data))) =
      (handler.write (filledPacket fmt data)).take fmt.offset ++
        ([leadingTag] ++ setRcpHdr hdr ++ data ++
          (List.replicate (rcpCmdDataSize + 1 - data.length) 0xaa ++ [endTag])) := by
  have start := handlerFront_length handler short
  have behind :
      (filledPacket fmt data).drop fmt.offset =
        [0xaa] ++ List.replicate 12 0xaa ++
          (data ++ (List.replicate (rcpCmdDataSize + 1 - data.length) 0xaa ++ [endTag])) := by
    rw [filledPacket, List.drop_left' List.length_replicate]
    simp only [List.append_assoc]
    rfl
  conv_lhs =>
    rw [← List.take_append_drop fmt.offset (handler.write (filledPacket fmt data)),
      handler.behind, behind, List.append_assoc, ← List.append_assoc]
  rw [overwrite_middle _ [0xaa] [leadingTag] _ start rfl, ← List.append_assoc]
  rw [overwrite_middle _ (List.replicate 12 0xaa) (setRcpHdr hdr) _ ?_ rfl]
  · simp only [List.append_assoc]
  · rw [List.length_append, start]
    rfl

theorem overwrite_checkSum {first summed : List UInt8} (check : UInt8)
    (start : first.length + summed.length = offset) (short : data.length ≤ rcpCmdDataSize) :
    overwrite offset [check]
        (first ++ (summed ++
          (List.replicate (rcpCmdDataSize + 1 - data.length) 0xaa ++ [endTag]))) =
      first ++ (summed ++ [check] ++
        (List.replicate (rcpCmdDataSize - data.length) 0xaa ++ [endTag])) := by
  have split :
      List.replicate (rcpCmdDataSize + 1 - data.length) (0xaa : UInt8) =
        [0xaa] ++ List.replicate (rcpCmdDataSize - data.length) 0xaa := by
    rw [← List.singleton_append.symm, ← List.replicate_succ]
    congr 1
    omega
  have whole :=
    overwrite_middle (first ++ summed) [0xaa] [check]
      (List.replicate (rcpCmdDataSize - data.length) 0xaa ++ [endTag])
      (by rw [List.length_append, start]) rfl
  rw [split]
  simpa only [List.append_assoc] using whole

theorem writePacket_ok (first : front.length = start)
    (short : data.length ≤ rcpCmdDataSize) (length : hdr.pktLength = data.length) :
    writePacket handler hdr start
        (front ++
          overwrite (fmt.offset + 1 + cmdRcpHdrSize) data
            (List.replicate fmt.actPktSize 0xaa) ++ rest) =
      .ok (front ++ sentPacket handler hdr data ++ rest) := by
  have size := actPktSize_eq fmt
  have filled := filledPacket_length fmt short
  have written := (handler.length (filledPacket fmt data)).trans filled
  have startFront := handlerFront_length handler short
  have copied :
      (List.replicate (fmt.offset + 13) 0xaa ++ data ++
        List.replicate (rcpCmdDataSize + 2 - data.length) 0xaa).length = fmt.actPktSize := by
    unfold rcpCmdDataSize at short
    simp only [List.length_append, List.length_replicate, rcpCmdDataSize]
    omega
  have dataLength : data.length ≤ 169 := short
  have tagged :
      (overwrite fmt.offset [leadingTag]
        (handler.write (filledPacket fmt data))).length = fmt.actPktSize := by
    rw [length_overwrite (by rw [written, size]; simp), written]
  have summed :
      slice (fmt.offset + 3) (cmdRcpHdrSize - 2 + data.length)
          ((handler.write (filledPacket fmt data)).take fmt.offset ++
            ([leadingTag] ++ setRcpHdr hdr ++ data ++
              (List.replicate (rcpCmdDataSize + 1 - data.length) 0xaa ++ [endTag]))) =
        rcpSummed hdr data := by
    have split :
        slice (fmt.offset + 3) (cmdRcpHdrSize - 2 + data.length)
            ((handler.write (filledPacket fmt data)).take fmt.offset ++
                ([leadingTag] ++ (setRcpHdr hdr).take 2) ++ rcpSummed hdr data ++
              (List.replicate (rcpCmdDataSize + 1 - data.length) 0xaa ++ [endTag])) =
          rcpSummed hdr data :=
      slice_middle _ _ _ (by rw [List.length_append, startFront]; rfl)
        (by rw [rcpSummed, List.length_append]; rfl)
    conv_rhs => rw [← split, rcpSummed]
    congr 1
    conv_lhs => rw [← List.take_append_drop 2 (setRcpHdr hdr)]
    simp only [List.append_assoc]
  have given :
      bytesAt .buffer (front ++ filledPacket fmt data ++ rest) (start + 0) fmt.actPktSize =
        .ok (slice 0 fmt.actPktSize (filledPacket fmt data)) :=
    bytesAt_window first (by rw [filled]; omega)
  have taken :
      writeAt (front ++ filledPacket fmt data ++ rest) (start + 0)
          (handler.write (filledPacket fmt data)) =
        .ok (front ++ handler.write (filledPacket fmt data) ++ rest) := by
    rw [writeAt_window first (by rw [written, filled]; omega),
      overwrite_whole (written.trans filled.symm)]
  rw [← filled, slice_all, filled, Nat.add_zero] at given
  rw [Nat.add_zero] at taken
  have header := overwrite_hdr handler hdr short
  have headed :
      (overwrite (fmt.offset + 1) (setRcpHdr hdr)
        (overwrite fmt.offset [leadingTag]
          (handler.write (filledPacket fmt data)))).length = fmt.actPktSize := by
    rw [length_overwrite (by rw [tagged, setRcpHdr_length]; omega), tagged]
  rw [overwrite_data short, writePacket, length,
    writeAt_window first (by rw [copied, size]; simp), overwrite_endTag short]
  simp only [bind, Except.bind, given, taken]
  rw [writeAt_window first (by rw [written]; simp; omega)]
  simp only
  rw [writeAt_window first (by rw [tagged, setRcpHdr_length]; omega)]
  simp only
  rw [bytesAt_window first (by rw [headed, cmdRcpHdrSize]; omega)]
  simp only
  have checked :
      ((handler.write (filledPacket fmt data)).take fmt.offset).length +
          ([leadingTag] ++ setRcpHdr hdr ++ data).length =
        fmt.offset + 3 + (cmdRcpHdrSize - 2 + data.length) := by
    simp only [startFront, List.length_append, setRcpHdr_length,
      List.length_singleton, cmdRcpHdrSize]
    omega
  rw [writeAt_window first (by rw [headed, cmdRcpHdrSize]; simp; omega), header,
    summed, overwrite_checkSum _ checked short, sentPacket, rcpPacket]

/-! ## One turn of the loop -/

def muxerAt (ends total index pktLength : Nat) (buf : List UInt8) : CmdPktMuxer where
  bSplitDone := false
  pCmdPktsBuf := some buf
  pCurCmdCtxt := some (rcpCmdDataSize * index)
  pEndCmdCtxt := ends
  totalPktNum := total
  pktNum := index
  pktLength := pktLength

/-- The rest of a turn, behind the allocation of the buffer. -/
def generateTurn (grant : Nat → Bool) (handler : PktHandler fmt)
    (box : CmdBox CmdContext) (fuel : Nat) (pMuxer : CmdPktMuxer)
    (seqNum : Nat) : Except TscmStop (CmdPktMuxer × Nat) := do
  let pMuxer ← muxerCopy fmt box.pCmdInfo pMuxer
  let buf ←
    writePacket handler (generatedHdr box pMuxer seqNum)
      (fmt.actPktSize * pMuxer.pktNum) (pMuxer.pCmdPktsBuf.getD [])
  generateLoop grant handler box fuel
    { pMuxer with
      pCmdPktsBuf := some buf
      pktNum := (pMuxer.pktNum + 1) % 2 ^ 16 }
    ((seqNum + 1) % 2 ^ 16)

variable {grant : Nat → Bool} {box : CmdBox CmdContext}
  {ends total index pktLength fuel seqNum : Nat} {buf : List UInt8}

theorem generateLoop_at (some_ : total ≠ 0) :
    generateLoop grant handler box (fuel + 1) (muxerAt ends total index pktLength buf) seqNum =
      generateTurn grant handler box fuel (muxerAt ends total index pktLength buf) seqNum := by
  have encodes :
      cmdPktEncode grant fmt box.pCmdInfo (muxerAt ends total index pktLength buf) =
        muxerCopy fmt box.pCmdInfo (muxerAt ends total index pktLength buf) >>=
          fun pMuxer => .ok (some pMuxer) := by
    simp [cmdPktEncode, muxerBegin, muxerAt, some_, muxerBuffer, bind, Except.bind]
  rw [generateLoop, encodes, generateTurn]
  cases muxerCopy fmt box.pCmdInfo (muxerAt ends total index pktLength buf) <;>
    rfl

theorem muxerBegin_zero (dword : 4 ≤ box.pCmdInfo.length)
    (ends_ : ends = (getDword box.pCmdInfo 0 + 1) % 2 ^ 32) :
    muxerBegin box.pCmdInfo .zero =
      .ok { CmdPktMuxer.zero with
        pCurCmdCtxt := some 0, pEndCmdCtxt := ends, totalPktNum := totalPktNum ends } := by
  rw [muxerBegin, if_pos (show CmdPktMuxer.zero.totalPktNum = 0 from rfl),
    bytesAt_ok (show 0 + 4 ≤ _ by omega), ends_,
    ← getDword_slice box.pCmdInfo]
  rfl

theorem generateLoop_zero (dword : 4 ≤ box.pCmdInfo.length)
    (ends_ : ends = (getDword box.pCmdInfo 0 + 1) % 2 ^ 32)
    (granted : grant (totalPktNum ends * fmt.actPktSize) = true) :
    generateLoop grant handler box (fuel + 1) .zero seqNum =
      generateTurn grant handler box fuel
        (muxerAt ends (totalPktNum ends) 0 0
          (List.replicate (totalPktNum ends * fmt.actPktSize) 0xaa))
        seqNum := by
  have encodes :
      cmdPktEncode grant fmt box.pCmdInfo .zero =
        muxerCopy fmt box.pCmdInfo
            (muxerAt ends (totalPktNum ends) 0 0
              (List.replicate (totalPktNum ends * fmt.actPktSize) 0xaa)) >>=
          fun pMuxer => .ok (some pMuxer) := by
    rw [cmdPktEncode, muxerBegin_zero dword ends_]
    simp only [bind, Except.bind, muxerBuffer, CmdPktMuxer.zero, granted, if_true]
    rfl
  rw [generateLoop, encodes, generateTurn]
  cases muxerCopy fmt box.pCmdInfo _ <;> rfl

theorem generateLoop_refused (dword : 4 ≤ box.pCmdInfo.length)
    (refused :
      grant (totalPktNum ((getDword box.pCmdInfo 0 + 1) % 2 ^ 32) * fmt.actPktSize) = false) :
    generateLoop grant handler box (fuel + 1) .zero seqNum = .ok (.zero, seqNum) := by
  have encodes : cmdPktEncode grant fmt box.pCmdInfo .zero = .ok none := by
    rw [cmdPktEncode, muxerBegin_zero dword rfl]
    simp only [bind, Except.bind, muxerBuffer, CmdPktMuxer.zero, refused, Bool.false_eq_true,
      if_false]
  rw [generateLoop, encodes]
  rfl

def pieceAt (pCmdInfo : CmdContext) (index : Nat) : List UInt8 :=
  slice (rcpCmdDataSize * index) rcpCmdDataSize pCmdInfo

theorem pieceAt_short (pCmdInfo : CmdContext) (index : Nat) :
    (pieceAt pCmdInfo index).length ≤ rcpCmdDataSize :=
  length_slice_le _ _ _

theorem muxerCopy_eq {pMuxer : CmdPktMuxer} {pCmdInfo : CmdContext} {cur count : Nat}
    (cur_ : pMuxer.pCurCmdCtxt = some cur) (buf_ : pMuxer.pCmdPktsBuf = some buf)
    (count_ :
      (if pMuxer.pEndCmdCtxt < cur + rcpCmdDataSize then
        (pMuxer.pEndCmdCtxt - cur) % 2 ^ 16
      else rcpCmdDataSize) = count) :
    muxerCopy fmt pCmdInfo pMuxer = (do
      let data ← bytesAt .buffer pCmdInfo cur count
      let buf ←
        writeAt buf (pMuxer.pktNum * fmt.actPktSize + (fmt.offset + 1) + cmdRcpHdrSize) data
      .ok
        { pMuxer with
          bSplitDone := pMuxer.bSplitDone || pMuxer.pEndCmdCtxt < cur + rcpCmdDataSize
          pktLength := count
          pCurCmdCtxt := some (cur + count)
          pCmdPktsBuf := some buf }) := by
  cases pMuxer
  subst cur_ buf_ count_
  rfl

theorem copyCount_eq {cur : Nat} (reached : cur ≤ ends) :
    (if ends < cur + rcpCmdDataSize then (ends - cur) % 2 ^ 16
      else rcpCmdDataSize) =
      min rcpCmdDataSize (ends - cur) := by
  unfold rcpCmdDataSize
  split <;> omega

theorem muxerCopy_ok (start : front.length = index * fmt.actPktSize)
    (piece : slice (rcpCmdDataSize * index)
        (min rcpCmdDataSize (ends - rcpCmdDataSize * index)) box.pCmdInfo =
      pieceAt box.pCmdInfo index)
    (reached : rcpCmdDataSize * index ≤ ends) (inside : ends ≤ box.pCmdInfo.length) :
    muxerCopy fmt box.pCmdInfo
        (muxerAt ends total index pktLength (front ++ List.replicate fmt.actPktSize 0xaa ++ rest)) =
      .ok
        { muxerAt ends total index (pieceAt box.pCmdInfo index).length
            (front ++
              overwrite (fmt.offset + 1 + cmdRcpHdrSize)
                (pieceAt box.pCmdInfo index)
                (List.replicate fmt.actPktSize 0xaa) ++ rest) with
          bSplitDone := decide (ends < rcpCmdDataSize * index + rcpCmdDataSize)
          pCurCmdCtxt := some (rcpCmdDataSize * index + (pieceAt box.pCmdInfo index).length) } := by
  have size := actPktSize_eq fmt
  have within :
      rcpCmdDataSize * index + min rcpCmdDataSize (ends - rcpCmdDataSize * index) ≤
        box.pCmdInfo.length := by
    omega
  have length :
      min rcpCmdDataSize (ends - rcpCmdDataSize * index) = (pieceAt box.pCmdInfo index).length := by
    rw [← piece, length_slice within]
  have short := pieceAt_short box.pCmdInfo index
  unfold rcpCmdDataSize at short
  have copied :
      writeAt (front ++ List.replicate fmt.actPktSize 0xaa ++ rest)
          (index * fmt.actPktSize + (fmt.offset + 1 + cmdRcpHdrSize))
          (pieceAt box.pCmdInfo index) =
        .ok (front ++
          overwrite (fmt.offset + 1 + cmdRcpHdrSize) (pieceAt box.pCmdInfo index)
            (List.replicate fmt.actPktSize 0xaa) ++ rest) :=
    writeAt_window start (by rw [List.length_replicate, cmdRcpHdrSize]; omega)
  rw [← Nat.add_assoc, ← Nat.add_assoc] at copied
  rw [length] at piece within
  rw [muxerCopy_eq rfl rfl ((copyCount_eq reached).trans length)]
  simp only [muxerAt, bytesAt_ok within, bind, Except.bind, piece,
    ← Nat.add_assoc, Bool.false_or, copied]
  rfl

def hdrAt (box : CmdBox CmdContext) (total seqNum index : Nat) : CmdRcpHdr where
  rxDevAddrId := box.rxDevAddrId % 2 ^ 16
  txDevAddrId := box.txDevAddrId % 2 ^ 16
  totalPktNum := total
  pktNum := (index + 1) % 2 ^ 16
  seqNum := (seqNum + index + 1) % 2 ^ 16
  pktLength := (pieceAt box.pCmdInfo index).length

def packetAt (handler : PktHandler fmt) (box : CmdBox CmdContext)
    (total seqNum index : Nat) : List UInt8 :=
  sentPacket handler (hdrAt box total seqNum index) (pieceAt box.pCmdInfo index)

theorem packetAt_length : (packetAt handler box total seqNum index).length = fmt.actPktSize :=
  sentPacket_length (pieceAt_short _ _)

theorem packetAt_uniform (handler : PktHandler fmt) (box : CmdBox CmdContext)
    (total seqNum : Nat) (indices : List Nat) :
    Uniform fmt.actPktSize (indices.map (packetAt handler box total seqNum)) := by
  intro packet member
  obtain ⟨index, -, rfl⟩ := List.mem_map.mp member
  exact packetAt_length

variable {counter : Nat}

theorem generateTurn_ok (start : front.length = index * fmt.actPktSize)
    (piece : slice (rcpCmdDataSize * index)
        (min rcpCmdDataSize (ends - rcpCmdDataSize * index)) box.pCmdInfo =
      pieceAt box.pCmdInfo index)
    (reached : rcpCmdDataSize * index ≤ ends) (inside : ends ≤ box.pCmdInfo.length)
    (counted : (counter + 1) % 2 ^ 16 = (seqNum + index + 1) % 2 ^ 16) :
    generateTurn grant handler box fuel
        (muxerAt ends total index pktLength (front ++ List.replicate fmt.actPktSize 0xaa ++ rest))
        counter =
      generateLoop grant handler box fuel
        { muxerAt ends total ((index + 1) % 2 ^ 16)
            (pieceAt box.pCmdInfo index).length
            (front ++ packetAt handler box total seqNum index ++ rest) with
          bSplitDone := decide (ends < rcpCmdDataSize * index + rcpCmdDataSize)
          pCurCmdCtxt := some (rcpCmdDataSize * index + (pieceAt box.pCmdInfo index).length) }
        ((seqNum + index + 1) % 2 ^ 16) := by
  have written :
      writePacket handler (hdrAt box total seqNum index) (fmt.actPktSize * index)
          (front ++
            overwrite (fmt.offset + 1 + cmdRcpHdrSize) (pieceAt box.pCmdInfo index)
              (List.replicate fmt.actPktSize 0xaa) ++ rest) =
        .ok (front ++ packetAt handler box total seqNum index ++ rest) :=
    writePacket_ok (start.trans (Nat.mul_comm _ _)) (pieceAt_short _ _) rfl
  rw [generateTurn, muxerCopy_ok start piece reached inside]
  simp only [bind, Except.bind, generatedHdr, muxerAt, Option.getD_some, counted]
  simp only [hdrAt] at written
  simp only [written]

theorem generateTurn_outside (length : buf.length = index * fmt.actPktSize)
    (reached : rcpCmdDataSize * index ≤ ends) (inside : ends ≤ box.pCmdInfo.length) :
    generateTurn grant handler box fuel (muxerAt ends total index pktLength buf) counter =
      .error .buffer := by
  have size := actPktSize_eq fmt
  have within :
      rcpCmdDataSize * index + min rcpCmdDataSize (ends - rcpCmdDataSize * index) ≤
        box.pCmdInfo.length := by
    omega
  rw [generateTurn, muxerCopy_eq rfl rfl (copyCount_eq reached)]
  simp only [muxerAt, bytesAt_ok within, bind, Except.bind]
  by_cases nothing :
      slice (rcpCmdDataSize * index)
        (min rcpCmdDataSize (ends - rcpCmdDataSize * index)) box.pCmdInfo = []
  · have tagged :
        writeAt buf (fmt.actPktSize * index + (fmt.actPktSize - 1)) [endTag] =
          .error .buffer := by
      refine writeAt_error (by simp) ?_
      rw [length, List.length_singleton, Nat.mul_comm]
      omega
    have copied (offset : Nat) : writeAt buf offset [] = .ok buf := by
      rw [writeAt, if_pos (.inl rfl), overwrite_nil]
    simp only [nothing, copied, writePacket, Option.getD_some, tagged, bind, Except.bind]
  · rw [writeAt_error nothing (by rw [length]; omega)]

theorem generateLoop_run (steps : Nat) (start : front.length = index * fmt.actPktSize)
    (reached : rcpCmdDataSize * (index + steps) ≤ ends)
    (inside : ends ≤ box.pCmdInfo.length) (room : index + steps ≤ total) (small : total < 2 ^ 16)
    (counted : (counter + 1) % 2 ^ 16 = (seqNum + index + 1) % 2 ^ 16) :
    ∃ pktLength' counter',
      (counter' + 1) % 2 ^ 16 = (seqNum + (index + steps) + 1) % 2 ^ 16 ∧
        generateLoop grant handler box (fuel + steps)
            (muxerAt ends total index pktLength
              (front ++ List.replicate (steps * fmt.actPktSize) 0xaa ++ rest))
            counter =
          generateLoop grant handler box fuel
            (muxerAt ends total (index + steps) pktLength'
              (front ++
                ((List.range' index steps).map
                  (packetAt handler box total seqNum)).flatten ++ rest))
            counter' := by
  induction steps generalizing index pktLength counter front with
  | zero =>
    refine ⟨pktLength, counter, counted, ?_⟩
    simp
  | succ steps ih =>
    have whole : rcpCmdDataSize * index + rcpCmdDataSize ≤ ends := by
      unfold rcpCmdDataSize at reached ⊢
      omega
    have piece :
        slice (rcpCmdDataSize * index)
            (min rcpCmdDataSize (ends - rcpCmdDataSize * index)) box.pCmdInfo =
          pieceAt box.pCmdInfo index := by
      rw [pieceAt, Nat.min_eq_left (by omega)]
    have full : (pieceAt box.pCmdInfo index).length = rcpCmdDataSize := length_slice (by omega)
    have next : (index + 1) % 2 ^ 16 = index + 1 := Nat.mod_eq_of_lt (by omega)
    have split :
        front ++ List.replicate ((steps + 1) * fmt.actPktSize) 0xaa ++ rest =
          front ++ List.replicate fmt.actPktSize 0xaa ++
            (List.replicate (steps * fmt.actPktSize) 0xaa ++ rest) := by
      rw [Nat.succ_mul, Nat.add_comm, ← List.replicate_append_replicate]
      simp only [List.append_assoc]
    have later :=
      @ih (front ++ packetAt handler box total seqNum index) (index + 1)
        rcpCmdDataSize ((seqNum + index + 1) % 2 ^ 16)
        (by rw [List.length_append, start, packetAt_length, Nat.succ_mul])
        (by rw [Nat.add_right_comm]; exact reached) (by omega)
        (by rw [Nat.mod_add_mod, Nat.add_assoc seqNum])
    obtain ⟨pktLength', counter', counts, runs⟩ := later
    refine ⟨pktLength', counter', ?_, ?_⟩
    · rw [counts, Nat.add_right_comm index]
      rfl
    · have turn :
          generateLoop grant handler box (fuel + steps + 1)
              (muxerAt ends total index pktLength
                (front ++ List.replicate fmt.actPktSize 0xaa ++
                  (List.replicate (steps * fmt.actPktSize) 0xaa ++ rest)))
              counter =
            generateLoop grant handler box (fuel + steps)
              (muxerAt ends total (index + 1) rcpCmdDataSize
                (front ++ packetAt handler box total seqNum index ++
                  (List.replicate (steps * fmt.actPktSize) 0xaa ++ rest)))
              ((seqNum + index + 1) % 2 ^ 16) := by
        rw [generateLoop_at (by omega),
          generateTurn_ok start piece (by omega) inside counted, full, next,
          decide_eq_false (by omega)]
        rfl
      rw [split, ← Nat.add_assoc, turn]
      simp only [List.append_assoc] at runs ⊢
      rw [runs, Nat.add_right_comm index, List.range'_succ]
      simp only [List.map_cons, List.flatten_cons, List.append_assoc, Nat.add_assoc]

/-- The number of packets is right exactly for these lengths of a context. -/
def PktNumRight (length : Nat) : Prop :=
  ¬ rcpCmdDataSize ∣ length ∧ length < 65535 * rcpCmdDataSize
deriving Decidable

theorem totalPktNum_right {length : Nat} (right : PktNumRight length) :
    totalPktNum length = length / rcpCmdDataSize + 1 := by
  obtain ⟨more, small⟩ := right
  unfold totalPktNum rcpCmdDataSize at *
  split <;> omega

theorem totalPktNum_lt (length : Nat) : totalPktNum length < 2 ^ 16 := by
  unfold totalPktNum
  split <;> omega

theorem totalPktNum_wrong {length : Nat} (wrong : ¬ PktNumRight length) :
    totalPktNum length ≤ length / rcpCmdDataSize := by
  unfold PktNumRight at wrong
  unfold totalPktNum rcpCmdDataSize at *
  split <;> omega

structure CtxtSized (pCmdInfo : CmdContext) : Prop where
  dword : 4 ≤ pCmdInfo.length
  length : getDword pCmdInfo 0 + 1 = pCmdInfo.length

theorem pieceAt_last (pCmdInfo : CmdContext)
    (small : ends - rcpCmdDataSize * index < rcpCmdDataSize) (whole : ends = pCmdInfo.length) :
    slice (rcpCmdDataSize * index) (min rcpCmdDataSize (ends - rcpCmdDataSize * index)) pCmdInfo =
      pieceAt pCmdInfo index := by
  rw [Nat.min_eq_right (Nat.le_of_lt small), pieceAt, slice, slice,
    List.take_of_length_le (by rw [List.length_drop]; omega),
    List.take_of_length_le (by rw [List.length_drop]; omega)]

theorem generateLoop_right (handler : PktHandler fmt) (seqNum : Nat)
    (sized : CtxtSized box.pCmdInfo) (right : PktNumRight box.pCmdInfo.length)
    (granted : grant (totalPktNum box.pCmdInfo.length * fmt.actPktSize) = true) :
    ∃ pMuxer,
      generateLoop grant handler box (box.pCmdInfo.length / rcpCmdDataSize + 2) .zero seqNum =
        .ok (pMuxer, (seqNum + box.pCmdInfo.length / rcpCmdDataSize + 1) % 2 ^ 16) ∧
        pMuxer.pCmdPktsBuf =
          some
            ((List.range (totalPktNum box.pCmdInfo.length)).map
              (packetAt handler box (totalPktNum box.pCmdInfo.length) seqNum)).flatten := by
  have total := totalPktNum_right right
  have tooMany := totalPktNum_lt box.pCmdInfo.length
  obtain ⟨more, small⟩ := right
  have ends : box.pCmdInfo.length = (getDword box.pCmdInfo 0 + 1) % 2 ^ 32 := by
    rw [sized.length, Nat.mod_eq_of_lt]
    unfold rcpCmdDataSize at small
    omega
  have buffer :
      List.replicate (totalPktNum box.pCmdInfo.length * fmt.actPktSize) (0xaa : UInt8) =
        [] ++
          List.replicate
            (box.pCmdInfo.length / rcpCmdDataSize * fmt.actPktSize) 0xaa ++
              List.replicate fmt.actPktSize 0xaa := by
    rw [List.nil_append, List.replicate_append_replicate, total, Nat.succ_mul]
  obtain ⟨pktLength, counter, counted, runs⟩ :=
    @generateLoop_run fmt handler [] (List.replicate fmt.actPktSize 0xaa) grant box
      box.pCmdInfo.length (totalPktNum box.pCmdInfo.length) 0 0 2 seqNum seqNum
      (box.pCmdInfo.length / rcpCmdDataSize) (by simp)
      (by rw [Nat.zero_add]; exact Nat.mul_div_le _ _) (Nat.le_refl _) (by omega)
      tooMany rfl
  rw [Nat.zero_add] at counted runs
  have some_ : totalPktNum box.pCmdInfo.length ≠ 0 := by simp [total]
  have first :
      generateLoop grant handler box (box.pCmdInfo.length / rcpCmdDataSize + 1 + 1) .zero seqNum =
        generateLoop grant handler box (2 + box.pCmdInfo.length / rcpCmdDataSize)
          (muxerAt box.pCmdInfo.length (totalPktNum box.pCmdInfo.length) 0 0
            (List.replicate (totalPktNum box.pCmdInfo.length * fmt.actPktSize) 0xaa))
          seqNum := by
    rw [generateLoop_zero sized.dword ends granted, ← generateLoop_at some_, Nat.add_comm 2]
  have start :
      ([] ++
        ((List.range' 0 (box.pCmdInfo.length / rcpCmdDataSize)).map
          (packetAt handler box (totalPktNum box.pCmdInfo.length) seqNum)).flatten).length =
        box.pCmdInfo.length / rcpCmdDataSize * fmt.actPktSize := by
    rw [List.nil_append, length_flatten_uniform (packetAt_uniform _ _ _ _ _),
      List.length_map, List.length_range']
  have partly :
      box.pCmdInfo.length - rcpCmdDataSize * (box.pCmdInfo.length / rcpCmdDataSize) <
        rcpCmdDataSize := by
    unfold rcpCmdDataSize
    omega
  have done :
      box.pCmdInfo.length <
        rcpCmdDataSize * (box.pCmdInfo.length / rcpCmdDataSize) + rcpCmdDataSize := by
    omega
  rw [buffer, runs, ← List.append_nil (_ ++ List.replicate fmt.actPktSize 0xaa),
    generateLoop_at some_,
    generateTurn_ok start (pieceAt_last _ partly rfl) (Nat.mul_div_le _ _)
      (Nat.le_refl _) counted, decide_eq_true done] at first
  refine ⟨_, first.trans rfl, ?_⟩
  rw [total, List.range_eq_range', List.range'_concat, List.map_append, List.flatten_append]
  simp [muxerAt]

theorem generateLoop_wrong (sized : CtxtSized box.pCmdInfo)
    (wrong : ¬ PktNumRight box.pCmdInfo.length)
    (granted :
      grant (totalPktNum ((getDword box.pCmdInfo 0 + 1) % 2 ^ 32) * fmt.actPktSize) = true) :
    generateLoop grant handler box (box.pCmdInfo.length / rcpCmdDataSize + 2) .zero seqNum =
      .error .buffer := by
  obtain ⟨ends, ends_⟩ : ∃ ends, ends = (getDword box.pCmdInfo 0 + 1) % 2 ^ 32 := ⟨_, rfl⟩
  rw [← ends_] at granted
  have inside : ends ≤ box.pCmdInfo.length := by
    rw [ends_, sized.length]
    exact Nat.mod_le _ _
  have wrongEnds : ¬ PktNumRight ends := by
    have dword := getDword_lt box.pCmdInfo 0
    have whole : ends = box.pCmdInfo.length ∨ ends = 0 := by
      have length := sized.length
      omega
    rcases whole with same | none_
    · rw [same]
      exact wrong
    · rw [none_]
      decide
  have fewer := totalPktNum_wrong wrongEnds
  have reached : rcpCmdDataSize * totalPktNum ends ≤ ends := by
    rw [Nat.mul_comm]
    exact (Nat.le_div_iff_mul_le (by decide)).mp fewer
  have enough : totalPktNum ends ≤ box.pCmdInfo.length / rcpCmdDataSize :=
    fewer.trans (Nat.div_le_div_right inside)
  rw [generateLoop_zero sized.dword ends_ granted]
  by_cases none_ : totalPktNum ends = 0
  · refine generateTurn_outside ?_ (Nat.zero_le _) inside
    rw [none_, Nat.zero_mul]
    rfl
  · obtain ⟨turns, fuel_⟩ :
        ∃ turns, box.pCmdInfo.length / rcpCmdDataSize + 1 + 1 = turns + 1 + totalPktNum ends :=
      ⟨box.pCmdInfo.length / rcpCmdDataSize + 1 - totalPktNum ends, by omega⟩
    obtain ⟨pktLength, counter, -, runs⟩ :=
      @generateLoop_run fmt handler [] [] grant box ends (totalPktNum ends) 0 0
        (turns + 1) seqNum seqNum (totalPktNum ends) (by simp)
        (by rw [Nat.zero_add]; exact reached) inside (by omega)
        (totalPktNum_lt ends) rfl
    rw [List.nil_append, List.append_nil, List.nil_append, List.append_nil, Nat.zero_add] at runs
    rw [← generateLoop_at none_, fuel_, runs, generateLoop_at none_]
    refine generateTurn_outside ?_ reached inside
    rw [length_flatten_uniform (packetAt_uniform _ _ _ _ _), List.length_map, List.length_range']

end IteSdk.Tscam
