import IteSdk.Tscam.CmdInside

/-!
# Commands after a loss

The parser of a command keeps what it collected until the command is delivered.
When all fragments of a command arrive in order, the command is delivered exactly
where no fragment of an earlier transmission is left in its parser.
-/

namespace IteSdk.Tscam

open Lib

/-- What the parser of a command has collected, and the room for it. -/
inductive HasPart (infoSize : Nat) (pTscamDev : TscamDev) (cmdCode : Nat) :
    Option (Nat × List UInt8) → Prop
  | noParser (none_ : pTscamDev.parsers cmdCode = none) : HasPart infoSize pTscamDev cmdCode none
  | noBuffer (parser : CmdPktParser) (held : pTscamDev.parsers cmdCode = some parser)
      (nothing : parser.pCmdPktPrivData = none) :
      HasPart infoSize pTscamDev cmdCode none
  | collecting (parser : CmdPktParser) (capacity : Nat) (collected : List UInt8)
      (held : pTscamDev.parsers cmdCode = some parser)
      (collecting : Collecting infoSize parser capacity collected) :
      HasPart infoSize pTscamDev cmdCode (some (capacity, collected))

structure Allocates (malloc : PktMalloc) (infoSize : Nat) (pTscamDev : TscamDev)
    (cmdCode : Nat) (buf : List UInt8) : Prop where
  parser : pTscamDev.parsers cmdCode = none → malloc.parser = true
  fits : infoSize + getDword buf 0 + 1 < 2 ^ 32
  granted : malloc.context (infoSize + getDword buf 0 + 1) = true

inductive Grows (malloc : PktMalloc) (infoSize : Nat) (pTscamDev : TscamDev)
    (cmdCode : Nat) (buf piece : List UInt8) : Nat → List UInt8 → Prop
  | next (capacity : Nat) (collected : List UInt8)
      (part : HasPart infoSize pTscamDev cmdCode (some (capacity, collected))) :
      Grows malloc infoSize pTscamDev cmdCode buf piece capacity (collected ++ piece)
  | first (part : HasPart infoSize pTscamDev cmdCode none)
      (allocates : Allocates malloc infoSize pTscamDev cmdCode buf) :
      Grows malloc infoSize pTscamDev cmdCode buf piece (getDword buf 0 + 1) piece

inductive FragmentTaken (malloc : PktMalloc) (found : RecvAttr) (infoSize : Nat)
    (pTscamDev : TscamDev) (hdr : CmdRcpHdr) (cmdCode : Nat)
    (buf : List UInt8) (after : TscamDev) : Prop
  | skipped (part : HasPart infoSize pTscamDev cmdCode none)
      (refused : ¬ Allocates malloc infoSize pTscamDev cmdCode buf)
      (left : HasPart infoSize after cmdCode none)
      (hTscam : after.hTscam = pTscamDev.hTscam)
      (code : after.actRecvCmdCode = pTscamDev.actRecvCmdCode)
      (num : after.prevPktNum = pTscamDev.prevPktNum)
      (log : after.log = pTscamDev.log)
  | collected (capacity : Nat) (content : List UInt8)
      (grows :
        Grows malloc infoSize pTscamDev cmdCode buf (buf.take hdr.pktLength) capacity content)
      (part : HasPart infoSize after cmdCode (some (capacity, content)))
      (notDone : fragmentDone capacity content = false)
      (hTscam : after.hTscam = pTscamDev.hTscam)
      (code : after.actRecvCmdCode = pTscamDev.actRecvCmdCode)
      (num : after.prevPktNum = pTscamDev.prevPktNum)
      (log : after.log = pTscamDev.log)
  | completed (capacity : Nat) (content : List UInt8) (parser : CmdPktParser)
      (grows :
        Grows malloc infoSize pTscamDev cmdCode buf (buf.take hdr.pktLength) capacity content)
      (complete : content.length = capacity)
      (delivers :
        deliverCmd malloc found.active
            { pTscamDev.setParser cmdCode (some parser) with
              actRecvCmdCode := noCmdCode }
            (recvBox found hdr cmdCode content) =
          .ok after)

variable {attr : RecvTable} {pTscamDev after : TscamDev} {malloc : PktMalloc}
  {pkt : List UInt8} {found : RecvAttr} {infoSize : Fin (2 ^ 32)}
  {parser : CmdPktParser} {hdr : CmdRcpHdr} {cmdCode capacity : Nat}
  {collected : List UInt8}

theorem Collecting.content {size : Nat} (collecting : Collecting size parser capacity collected)
    (complete : collected.length = capacity) :
    (parser.pCmdPktPrivData.getD []).drop size = collected := by
  obtain ⟨info, left, data, infoLength, lengths⟩ := collecting.data
  obtain rfl : left = [] := List.length_eq_zero_iff.mp (by omega)
  rw [data, Option.getD_some, List.append_nil, List.drop_left' infoLength]

theorem decodeFragment_collecting
    (obtained : obtainParser malloc pTscamDev cmdCode = some parser) (made : CmdPktParser)
    (decodes :
      cmdPktDecode malloc.context infoSize parser (pkt.drop 13) hdr.pktLength =
        (cmdPktCopy made (pkt.drop 13) hdr.pktLength >>= cmdPktFinish infoSize))
    (collecting : Collecting infoSize made capacity collected)
    (done : made.bCollecteDone = true → collected.length = capacity ∧ 4 ≤ capacity)
    (inside : hdr.pktLength ≤ (pkt.drop 13).length)
    (grows :
      Grows malloc infoSize pTscamDev cmdCode (pkt.drop 13)
        ((pkt.drop 13).take hdr.pktLength) capacity
        (collected ++ (pkt.drop 13).take hdr.pktLength))
    (ran : decodeFragment malloc found infoSize pTscamDev hdr cmdCode pkt = .ok after) :
    FragmentTaken malloc found infoSize pTscamDev hdr cmdCode (pkt.drop 13) after := by
  by_cases fits :
      FragmentFits capacity collected ((pkt.drop 13).take hdr.pktLength)
  · obtain ⟨decoded, copies, collects, isDone⟩ := cmdPktCopy_finish collecting inside fits
    rw [decodeFragment, obtained] at ran
    simp only [decodes.trans copies, bind, Except.bind] at ran
    by_cases finished : decoded.bCollecteDone = true
    · have complete :
          (collected ++ (pkt.drop 13).take hdr.pktLength).length = capacity := by
        have room := fits.1
        rw [isDone, Bool.or_eq_true] at finished
        rw [List.length_append]
        rcases finished with old | new
        · have full := done old
          omega
        · simp only [fragmentDone, Bool.and_eq_true, decide_eq_true_eq, List.length_append] at new
          exact new.1
      rw [if_pos finished, collects.content complete] at ran
      exact .completed capacity _ decoded grows complete ran
    · rw [if_neg finished, Except.ok.injEq] at ran
      subst ran
      refine .collected capacity _ grows ?_ ?_ rfl rfl rfl rfl
      · exact .collecting decoded capacity _
          (TscamDev.setParser_self pTscamDev cmdCode (some decoded)) collects
      · rw [isDone, Bool.or_eq_true, not_or] at finished
        simpa using finished.2
  · have outside := cmdPktCopy_finish_outside collecting inside fits
    rw [decodeFragment, obtained] at ran
    simp only [decodes.trans outside, bind, Except.bind] at ran
    cases ran

theorem decodeFragment_taken (between : pTscamDev.Between attr)
    (finds : attr.find cmdCode = some found) (decodes : found.cmdPktDecode = some infoSize)
    (whole : pkt.length = 184) (short : hdr.pktLength ≤ pktLengthMax)
    (ran : decodeFragment malloc found infoSize pTscamDev hdr cmdCode pkt = .ok after) :
    FragmentTaken malloc found infoSize pTscamDev hdr cmdCode (pkt.drop 13) after := by
  have length : (pkt.drop 13).length = 171 := by
    rw [List.length_drop]
    omega
  have inside : hdr.pktLength ≤ (pkt.drop 13).length := by
    unfold pktLengthMax at short
    omega
  have dword : 4 ≤ (pkt.drop 13).length := by omega
  cases obtained : obtainParser malloc pTscamDev cmdCode with
  | none =>
    rw [decodeFragment, obtained] at ran
    cases ran
    have none_ : pTscamDev.parsers cmdCode = none := by
      rw [obtainParser] at obtained
      cases held : pTscamDev.parsers cmdCode with
      | none => rfl
      | some parser =>
        rw [held] at obtained
        cases obtained
    refine .skipped (.noParser none_) (fun allocates => ?_) (.noParser none_) rfl rfl rfl rfl
    rw [obtainParser, none_] at obtained
    simp [allocates.parser none_] at obtained
  | some parser =>
    have part_ :
        parser.pCmdPktPrivData = none → HasPart infoSize pTscamDev cmdCode none := by
      intro nothing
      cases held : pTscamDev.parsers cmdCode with
      | none => exact .noParser held
      | some old =>
        rw [obtainParser, held, Option.some_inj] at obtained
        subst obtained
        exact .noBuffer old held nothing
    cases obtainParser_between between finds decodes obtained with
    | collecting capacity collected collecting done =>
      have held : pTscamDev.parsers cmdCode = some parser := by
        rw [obtainParser] at obtained
        cases held : pTscamDev.parsers cmdCode with
        | some old =>
          rw [held] at obtained
          exact obtained
        | none =>
          obtain ⟨info, left, data, -⟩ := collecting.data
          rw [held] at obtained
          dsimp only at obtained
          split at obtained
          · rw [Option.some_inj] at obtained
            subst obtained
            cases data
          · cases obtained
      exact decodeFragment_collecting obtained parser
        (cmdPktDecode_next collecting malloc.context) collecting done inside
        (.next capacity collected (.collecting parser capacity collected held collecting))
        ran
    | empty nothing notDone =>
      have part := part_ nothing
      by_cases granted :
          malloc.context ((infoSize + getDword (pkt.drop 13) 0 + 1) % 2 ^ 32) = true
      · by_cases noOverflow : infoSize + getDword (pkt.drop 13) 0 + 1 < 2 ^ 32
        · rw [Nat.mod_eq_of_lt noOverflow] at granted
          obtain ⟨made, collecting, same, copies⟩ :=
            cmdPktDecode_first malloc.context hdr.pktLength nothing dword noOverflow granted
          have allocates :
              Allocates malloc infoSize pTscamDev cmdCode (pkt.drop 13) := by
            refine ⟨fun none_ => ?_, noOverflow, granted⟩
            rw [obtainParser, none_] at obtained
            by_contra refused
            simp [refused] at obtained
          refine decodeFragment_collecting obtained made copies collecting ?_
            inside (.first part allocates) ran
          rw [same, notDone]
          intro never
          cases never
        · rw [decodeFragment, obtained] at ran
          simp only [cmdPktDecode_overflow malloc.context nothing dword inside
            infoSize.isLt (by omega) granted, bind, Except.bind] at ran
          cases ran
      · obtain ⟨refused, decoded, left, same⟩ :=
          cmdPktDecode_refused malloc.context hdr.pktLength nothing dword (by simpa using granted)
        rw [decodeFragment, obtained] at ran
        simp only [decoded, bind, Except.bind, same, notDone] at ran
        cases ran
        refine .skipped part (fun allocates => granted ?_)
          (.noBuffer refused (TscamDev.setParser_self pTscamDev cmdCode (some refused)) left)
          rfl rfl rfl rfl
        rw [Nat.mod_eq_of_lt allocates.fits]
        exact allocates.granted

theorem HasPart.unique {size : Nat} {first second : Option (Nat × List UInt8)}
    (left : HasPart size pTscamDev cmdCode first)
    (right : HasPart size pTscamDev cmdCode second) : first = second := by
  cases left with
  | noParser none_ =>
    cases right with
    | noParser | noBuffer => rfl
    | collecting parser capacity collected held =>
      rw [none_] at held
      cases held
  | noBuffer parser held nothing =>
    cases right with
    | noParser | noBuffer => rfl
    | collecting other capacity collected same collecting =>
      obtain ⟨info, rest, data, -⟩ := collecting.data
      rw [held, Option.some_inj] at same
      rw [← same, nothing] at data
      cases data
  | collecting parser capacity collected held collecting =>
    obtain ⟨info, rest, data, infoLength, lengths⟩ := collecting.data
    cases right with
    | noParser none_ =>
      rw [none_] at held
      cases held
    | noBuffer other same nothing =>
      rw [held, Option.some_inj] at same
      rw [← same, data] at nothing
      cases nothing
    | collecting other room bytes same also =>
      rw [held, Option.some_inj] at same
      subst same
      obtain ⟨info', rest', data', infoLength', lengths'⟩ := also.data
      have cur := collecting.cur.symm.trans also.cur
      rw [data, Option.some_inj, List.append_assoc, List.append_assoc]
        at data'
      obtain ⟨-, behind⟩ := List.append_inj data' (infoLength.trans infoLength'.symm)
      obtain ⟨sameBytes, sameRest⟩ := List.append_inj behind (by omega)
      subst sameBytes sameRest
      rw [← lengths, ← lengths']

theorem HasPart.congr {size : Nat} {part : Option (Nat × List UInt8)}
    (has : HasPart size pTscamDev cmdCode part) (same : after.parsers = pTscamDev.parsers) :
    HasPart size after cmdCode part := by
  cases has with
  | noParser none_ => exact .noParser (by rw [same, none_])
  | noBuffer parser held nothing =>
    exact .noBuffer parser (by rw [same, held]) nothing
  | collecting parser capacity collected held collecting =>
    exact .collecting parser capacity collected (by rw [same, held]) collecting

def CmdEnd.Delivered (how : CmdEnd) : Prop := how = .handled ∨ how = .received .stored

/-- There is an active handler, or room in the queue, and memory for the box. -/
def DeliverReady (malloc : PktMalloc) (active : Bool)
    (hTscam : TscmHandle CmdContext) (box : CmdBox CmdContext) : Prop :=
  if active then
    malloc.box.answer hTscam.boxes ≠ none ∧ box.handler ≠ none
  else
    hTscam.recv.num ≤ tscamMaxQueueSize ∧
      ∃ left, supersedeCmd queueFuel hTscam box.cmdCode = some left ∧
        malloc.box.answer left.boxes ≠ none

variable {active : Bool} {box : CmdBox CmdContext}

theorem recvCmd_stored {hTscam left : TscmHandle CmdContext}
    {answer : BoxMalloc CmdContext} {result : RecvResult}
    (received : recvCmd queueFuel hTscam answer box = some (left, result)) :
    result = .stored ↔
      hTscam.recv.num ≤ tscamMaxQueueSize ∧
        ∃ left, supersedeCmd queueFuel hTscam box.cmdCode = some left ∧
          answer.answer left.boxes ≠ none := by
  rw [recvCmd] at received
  by_cases full : hTscam.recv.num > tscamMaxQueueSize
  · rw [if_pos full] at received
    cases received
    simp
    omega
  · rw [if_neg full] at received
    cases superseded : supersedeCmd queueFuel hTscam box.cmdCode with
    | none =>
      rw [superseded] at received
      cases received
    | some without =>
      rw [superseded, Option.bind_eq_bind, Option.bind_some] at received
      cases answered : answer.answer without.boxes with
      | none =>
        rw [answered] at received
        cases received
        simp [answered]
      | some new =>
        rw [answered] at received
        cases received
        simp [answered]
        omega

theorem deliverCmd_log (delivers : deliverCmd malloc active pTscamDev box = .ok after) :
    ∃ how, after.log = pTscamDev.log ++ [(box, how)] ∧
      (how.Delivered ↔ DeliverReady malloc active pTscamDev.hTscam box) := by
  rw [deliverCmd] at delivers
  cases active with
  | true =>
    rw [if_pos rfl] at delivers
    rw [DeliverReady, if_pos rfl]
    cases answered : malloc.box.answer pTscamDev.hTscam.boxes with
    | none =>
      rw [answered] at delivers
      cases delivers
      exact ⟨_, rfl, by simp [CmdEnd.Delivered]⟩
    | some new =>
      rw [answered] at delivers
      cases delivers
      refine ⟨_, rfl, ?_⟩
      cases box.handler <;> simp [CmdEnd.Delivered]
  | false =>
    rw [if_neg (by simp)] at delivers
    rw [DeliverReady, if_neg (by simp)]
    cases received : recvCmd queueFuel pTscamDev.hTscam malloc.box box with
    | none =>
      rw [received] at delivers
      cases delivers
    | some taken =>
      obtain ⟨hTscam, result⟩ := taken
      rw [received] at delivers
      cases delivers
      refine ⟨.received result, ?_, ?_⟩
      · cases result <;> rfl
      · rw [← recvCmd_stored received]
        simp [CmdEnd.Delivered]

theorem deliverCmd_queue
    (queues : ∃ recvNodes transNodes recvHeld transHeld,
      HandleHolds pTscamDev.hTscam recvNodes transNodes recvHeld transHeld ∧ RecvBounded recvHeld)
    (delivers : deliverCmd malloc active pTscamDev box = .ok after)
    (stored : after.log = pTscamDev.log ++ [(box, .received .stored)]) :
    ∃ recvNodes transNodes held transHeld nodes,
      HandleHolds pTscamDev.hTscam recvNodes transNodes held transHeld ∧
        HandleHolds after.hTscam nodes transNodes
          (withoutCode held box.cmdCode ++ [{ box with priority := .appt }])
          transHeld := by
  obtain ⟨recvNodes, transNodes, held, transHeld, holds, bounded⟩ := queues
  rw [deliverCmd] at delivers
  cases active with
  | true =>
    rw [if_pos rfl] at delivers
    cases answered : malloc.box.answer pTscamDev.hTscam.boxes with
    | none =>
      rw [answered] at delivers
      cases delivers
      simp at stored
    | some new =>
      rw [answered] at delivers
      cases delivers
      cases handler : box.handler <;> simp [handler] at stored
  | false =>
    rw [if_neg (by simp)] at delivers
    obtain ⟨left, result, nodes, received, leftHolds, -, -⟩ :=
      recvCmd_held malloc.box box holds bounded (show tscamMaxQueueSize + 1 < queueFuel by decide)
    rw [received] at delivers
    cases delivers
    obtain rfl : result = .stored := by cases result <;> simp at stored ⊢
    exact ⟨recvNodes, transNodes, held, transHeld, nodes, holds, leftHolds⟩

theorem decodeFragment_log
    (ran : decodeFragment malloc found infoSize pTscamDev hdr cmdCode pkt = .ok after) :
    ∃ more, after.log = pTscamDev.log ++ more := by
  rw [decodeFragment] at ran
  cases obtained : obtainParser malloc pTscamDev cmdCode with
  | none =>
    rw [obtained] at ran
    cases ran
    exact ⟨[], (List.append_nil _).symm⟩
  | some parser =>
    rw [obtained] at ran
    cases decodes : cmdPktDecode malloc.context infoSize parser (pkt.drop 13) hdr.pktLength with
    | error stop =>
      simp only [decodes, bind, Except.bind] at ran
      cases ran
    | ok decoded =>
      simp only [decodes, bind, Except.bind] at ran
      split at ran
      · obtain ⟨how, log, -⟩ := deliverCmd_log ran
        exact ⟨_, log⟩
      · cases ran
        exact ⟨[], (List.append_nil _).symm⟩

theorem tscamCmdAnalyse_log (whole : pkt.length = 184)
    (ran : tscamCmdAnalyse malloc attr pTscamDev pkt = .ok after) :
    ∃ more, after.log = pTscamDev.log ++ more := by
  classical
  have same : ∃ more, pTscamDev.log = pTscamDev.log ++ more := ⟨[], (List.append_nil _).symm⟩
  have begun : (begunBy pTscamDev pkt).log = pTscamDev.log := by
    rw [begunBy]
    split <;> rfl
  by_cases tagged : PacketTagged pkt
  · by_cases short : (packetHdr pkt).pktLength ≤ pktLengthMax
    · by_cases summed : PacketSummed pkt
      · rw [tscamCmdAnalyse_tagged whole tagged short summed] at ran
        by_cases next : PacketNext pTscamDev pkt
        · rw [takeFragment_next next] at ran
          have counted : (countedBy pTscamDev pkt).log = pTscamDev.log := begun
          cases finds : attr.find (packetCode pTscamDev pkt) with
          | none =>
            rw [finds] at ran
            cases ran
            rw [counted]
            exact same
          | some found =>
            cases decodes : found.cmdPktDecode with
            | none =>
              simp only [finds, decodes] at ran
              cases ran
              rw [counted]
              exact same
            | some infoSize =>
              simp only [finds, decodes] at ran
              rw [← counted]
              exact decodeFragment_log ran
        · rw [takeFragment, if_neg (mt begunBy_next.mp next)] at ran
          cases ran
          rw [begun]
          exact same
      · rw [tscamCmdAnalyse, checkedHdr_inside whole tagged short, if_neg summed] at ran
        cases ran
        exact same
    · rw [tscamCmdAnalyse, checkedHdr_outside whole tagged short] at ran
      cases ran
  · rw [tscamCmdAnalyse, checkedHdr_untagged whole tagged] at ran
    cases ran
    exact same

/-! ## The fragments of a command -/

/-- A packet with the data of one fragment, and what `malloc` answers while it is
analysed. -/
structure RecvFragment where
  malloc : PktMalloc
  pkt : List UInt8
  piece : List UInt8

/-- The packet is a right one, and carries the fragment of this number. -/
structure IsFragment (num : Nat) (fragment : RecvFragment) : Prop where
  whole : fragment.pkt.length = 184
  tagged : PacketTagged fragment.pkt
  summed : PacketSummed fragment.pkt
  num : (packetHdr fragment.pkt).pktNum = num
  length : (packetHdr fragment.pkt).pktLength = fragment.piece.length
  short : fragment.piece.length ≤ pktLengthMax
  data : (fragment.pkt.drop 13).take fragment.piece.length = fragment.piece
  nonempty : fragment.piece ≠ []

def NumberedFrom : Nat → List RecvFragment → Prop
  | _, [] => True
  | num, fragment :: rest =>
    IsFragment num fragment ∧ NumberedFrom (num + 1) rest

def contentOf (fragments : List RecvFragment) : List UInt8 := fragments.flatMap RecvFragment.piece

/-- `_tscam_cmd_analyse` on one fragment after the other. -/
def analyseFragments (attr : RecvTable) (pTscamDev : TscamDev)
    (fragments : List RecvFragment) : Except TscmStop TscamDev :=
  fragments.foldlM
    (fun pTscamDev fragment => tscamCmdAnalyse fragment.malloc attr pTscamDev fragment.pkt)
    pTscamDev

structure Receiving (pTscamDev : TscamDev) (cmdCode num : Nat) : Prop where
  code : pTscamDev.actRecvCmdCode % 2 ^ 16 = cmdCode
  num : pTscamDev.prevPktNum = num

variable {num : Nat} {fragment : RecvFragment} {part : Option (Nat × List UInt8)}

theorem IsFragment.piece_eq (is_ : IsFragment num fragment) :
    (fragment.pkt.drop 13).take (packetHdr fragment.pkt).pktLength = fragment.piece := by
  rw [is_.length, is_.data]

/-- The fragment of the command that comes next, as the device sees it. -/
structure Coming (pTscamDev : TscamDev) (cmdCode num : Nat)
    (fragment : RecvFragment) : Prop where
  is_ : IsFragment num fragment
  next : PacketNext pTscamDev fragment.pkt
  code : packetCode pTscamDev fragment.pkt = cmdCode

theorem Coming.first (is_ : IsFragment 1 fragment) (long : 6 ≤ fragment.piece.length)
    (code : getWord fragment.piece 4 = cmdCode) :
    Coming pTscamDev cmdCode 1 fragment where
  is_ := is_
  next := .inl is_.num
  code := by
    have byte (i : Nat) :
        (fragment.pkt.drop 13).getD i 0 = fragment.pkt.getD (13 + i) 0 := by
      rw [List.getD_eq_getElem?_getD, List.getD_eq_getElem?_getD, List.getElem?_drop]
    have shifted : getWord (fragment.pkt.drop 13) 4 = getWord fragment.pkt 17 := by
      rw [getWord, getWord, byte, byte]
    have taken : getWord fragment.piece 4 = getWord (fragment.pkt.drop 13) 4 := by
      conv_lhs => rw [← is_.data]
      exact getWord_slice (fragment.pkt.drop 13) (by omega)
    rw [packetCode, if_pos is_.num, ← shifted, ← taken, code]

theorem Coming.later (is_ : IsFragment (num + 1) fragment)
    (receiving : Receiving pTscamDev cmdCode num) (positive : 1 ≤ num) :
    Coming pTscamDev cmdCode (num + 1) fragment where
  is_ := is_
  next := by
    have small := getWord_lt (slice 1 cmdRcpHdrSize fragment.pkt) 6
    have same : (packetHdr fragment.pkt).pktNum = num + 1 := is_.num
    refine .inr ?_
    rw [receiving.num, same, Nat.mod_eq_of_lt]
    rw [← same]
    exact small
  code := by
    rw [packetCode, if_neg (by rw [is_.num]; omega)]
    exact receiving.code

theorem Coming.analyse (coming : Coming pTscamDev cmdCode num fragment)
    (finds : attr.find cmdCode = some found) (decodes : found.cmdPktDecode = some infoSize) :
    tscamCmdAnalyse fragment.malloc attr pTscamDev fragment.pkt =
      decodeFragment fragment.malloc found infoSize
        (countedBy pTscamDev fragment.pkt) (packetHdr fragment.pkt) cmdCode
        fragment.pkt := by
  have is_ := coming.is_
  rw [tscamCmdAnalyse_tagged is_.whole is_.tagged (is_.length ▸ is_.short)
    is_.summed, takeFragment_next coming.next, coming.code, finds]
  simp only [decodes]

theorem Coming.receiving (coming : Coming pTscamDev cmdCode num fragment)
    (code : after.actRecvCmdCode = (countedBy pTscamDev fragment.pkt).actRecvCmdCode)
    (same : after.prevPktNum = (countedBy pTscamDev fragment.pkt).prevPktNum) :
    Receiving after cmdCode num where
  code := by
    rw [code]
    exact begunBy_code.trans coming.code
  num := by
    rw [same]
    exact coming.is_.num

theorem countedBy_log : (countedBy pTscamDev pkt).log = pTscamDev.log := by
  change (begunBy pTscamDev pkt).log = _
  rw [begunBy]
  split <;> rfl

end IteSdk.Tscam
