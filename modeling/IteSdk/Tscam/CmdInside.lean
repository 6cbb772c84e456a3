import IteSdk.Lib.Outcome
import IteSdk.Tscam.CmdCollect
import IteSdk.Tscam.CmdQueue
import IteSdk.Tscam.StreamAnalyse

/-!
# Accesses of the receiver

A packet is analysed without an access outside it, or outside the buffer of its
command, exactly when its length fits the packet and its fragment fits the buffer.
-/

namespace IteSdk.Tscam

open Lib

def packetHdr (pkt : List UInt8) : CmdRcpHdr := getRcpHdr (slice 1 cmdRcpHdrSize pkt)

def PacketTagged (pkt : List UInt8) : Prop :=
  slice 0 1 pkt = [leadingTag] ∧ slice (pkt.length - 1) 1 pkt = [endTag]

/-- The longest data for which the checksum lies in front of the end tag, or at
its place. -/
def pktLengthMax : Nat := 170

def PacketSummed (pkt : List UInt8) : Prop :=
  slice (13 + (packetHdr pkt).pktLength) 1 pkt =
    [tscmGenCheckSum (slice 3 ((packetHdr pkt).pktLength + (cmdRcpHdrSize - 2)) pkt)]

/-- The packet is the first of a command or the next one of the command that is
received. -/
def PacketNext (pTscamDev : TscamDev) (pkt : List UInt8) : Prop :=
  (packetHdr pkt).pktNum = 1 ∨ (packetHdr pkt).pktNum = (pTscamDev.prevPktNum + 1) % 2 ^ 16

def packetCode (pTscamDev : TscamDev) (pkt : List UInt8) : Nat :=
  if (packetHdr pkt).pktNum = 1 then
    getWord pkt 17
  else
    pTscamDev.actRecvCmdCode % 2 ^ 16

/-- The packet can be analysed without an access outside it or outside the buffer
of its command. -/
def PacketFits (malloc : PktMalloc) (attr : RecvTable) (pTscamDev : TscamDev)
    (pkt : List UInt8) : Prop :=
  PacketTagged pkt →
    (packetHdr pkt).pktLength ≤ pktLengthMax ∧
      (PacketSummed pkt → PacketNext pTscamDev pkt →
        ∀ found infoSize parser,
          attr.find (packetCode pTscamDev pkt) = some found →
            found.cmdPktDecode = some infoSize →
              obtainParser malloc pTscamDev (packetCode pTscamDev pkt) = some parser →
                DecodeFits malloc.context infoSize parser (pkt.drop 13) (packetHdr pkt).pktLength)

structure TscamDev.Between (attr : RecvTable) (pTscamDev : TscamDev) : Prop where
  parsers :
    ∀ cmdCode parser, pTscamDev.parsers cmdCode = some parser →
      ∀ found infoSize, attr.find cmdCode = some found →
        found.cmdPktDecode = some infoSize → parser.Between infoSize
  queues :
    ∃ recvNodes transNodes recvHeld transHeld,
      HandleHolds pTscamDev.hTscam recvNodes transNodes recvHeld transHeld ∧ RecvBounded recvHeld

variable {attr : RecvTable} {pTscamDev after : TscamDev} {malloc : PktMalloc}
  {pkt : List UInt8} {found : RecvAttr} {infoSize : Fin (2 ^ 32)}
  {parser : CmdPktParser} {hdr : CmdRcpHdr} {cmdCode : Nat}

theorem TscamDev.Between.create : TscamDev.create.Between attr where
  parsers := by simp [TscamDev.create]
  queues := ⟨[], [], [], [], .init, by simp, List.nodup_nil⟩

theorem TscamDev.Between.congr (between : pTscamDev.Between attr)
    (parsers : after.parsers = pTscamDev.parsers)
    (hTscam : after.hTscam = pTscamDev.hTscam) : after.Between attr where
  parsers := by
    rw [parsers]
    exact between.parsers
  queues := by
    rw [hTscam]
    exact between.queues

theorem TscamDev.Between.setParser (between : pTscamDev.Between attr)
    (found_ : attr.find cmdCode = some found) (decodes : found.cmdPktDecode = some infoSize)
    (parserBetween : parser.Between infoSize) :
    (pTscamDev.setParser cmdCode (some parser)).Between attr where
  parsers := by
    intro other held here known size finds sized
    by_cases same : other = cmdCode
    · subst same
      rw [TscamDev.setParser_self, Option.some_inj] at here
      subst here
      rw [found_, Option.some_inj] at finds
      subst finds
      rw [decodes, Option.some_inj] at sized
      subst sized
      exact parserBetween
    · rw [TscamDev.setParser_of_ne _ same] at here
      exact between.parsers other held here known size finds sized
  queues := between.queues

theorem TscamDev.Between.dropParser (between : pTscamDev.Between attr)
    (cmdCode : Nat) : (pTscamDev.setParser cmdCode none).Between attr where
  parsers := by
    intro other held here
    by_cases same : other = cmdCode
    · subst same
      rw [TscamDev.setParser_self] at here
      cases here
    · rw [TscamDev.setParser_of_ne _ same] at here
      exact between.parsers other held here
  queues := between.queues

theorem deliverCmd_between (malloc : PktMalloc) (active : Bool)
    (box : CmdBox CmdContext) (between : pTscamDev.Between attr) :
    ∃ after, deliverCmd malloc active pTscamDev box = .ok after ∧ after.Between attr := by
  rw [deliverCmd]
  cases active with
  | true =>
    rw [if_pos rfl]
    cases malloc.box.answer pTscamDev.hTscam.boxes with
    | none => exact ⟨_, rfl, between.congr rfl rfl⟩
    | some new =>
      exact ⟨_, rfl, (between.dropParser box.cmdCode).congr rfl rfl⟩
  | false =>
    rw [if_neg (by simp)]
    obtain ⟨recvNodes, transNodes, recvHeld, transHeld, holds, bounded⟩ := between.queues
    obtain ⟨left, result, nodes, received, leftHolds, leftBounded, -⟩ :=
      recvCmd_held malloc.box box holds bounded (show tscamMaxQueueSize + 1 < queueFuel by decide)
    rw [received]
    refine ⟨_, rfl, ?_, nodes, transNodes, _, transHeld, leftHolds, leftBounded⟩
    by_cases kept : result = .noMemory
    · simp only [if_pos kept]
      exact between.parsers
    · simp only [if_neg kept]
      exact (between.dropParser box.cmdCode).parsers

theorem obtainParser_between (between : pTscamDev.Between attr)
    (finds : attr.find cmdCode = some found) (decodes : found.cmdPktDecode = some infoSize)
    (obtained : obtainParser malloc pTscamDev cmdCode = some parser) :
    parser.Between infoSize := by
  rw [obtainParser] at obtained
  cases held : pTscamDev.parsers cmdCode with
  | some old =>
    rw [held, Option.some_inj] at obtained
    subst obtained
    exact between.parsers cmdCode old held found infoSize finds decodes
  | none =>
    rw [held] at obtained
    dsimp only at obtained
    split at obtained
    · rw [Option.some_inj] at obtained
      subst obtained
      exact .zero
    · cases obtained

theorem decodeFragment_spec (malloc : PktMalloc) (between : pTscamDev.Between attr)
    (finds : attr.find cmdCode = some found) (decodes : found.cmdPktDecode = some infoSize)
    (whole : pkt.length = 184) (short : hdr.pktLength ≤ pktLengthMax) :
    ((∀ parser, obtainParser malloc pTscamDev cmdCode = some parser →
        DecodeFits malloc.context infoSize parser (pkt.drop 13) hdr.pktLength) →
      ∃ after,
        decodeFragment malloc found infoSize pTscamDev hdr cmdCode pkt = .ok after ∧
          after.Between attr) ∧
      ((∃ parser, obtainParser malloc pTscamDev cmdCode = some parser ∧
          ¬ DecodeFits malloc.context infoSize parser (pkt.drop 13) hdr.pktLength) →
        decodeFragment malloc found infoSize pTscamDev hdr cmdCode pkt = .error .buffer) := by
  have length : (pkt.drop 13).length = 171 := by
    rw [List.length_drop]
    omega
  have inside : hdr.pktLength ≤ (pkt.drop 13).length := by
    unfold pktLengthMax at short
    omega
  rw [decodeFragment]
  cases obtained : obtainParser malloc pTscamDev cmdCode with
  | none =>
    refine ⟨fun _ => ⟨pTscamDev, rfl, between⟩, ?_⟩
    rintro ⟨parser, never, -⟩
    cases never
  | some parser =>
    have parserBetween := obtainParser_between between finds decodes obtained
    obtain ⟨fits, fitsNot⟩ :=
      cmdPktDecode_spec malloc.context parserBetween
        (show 4 ≤ (pkt.drop 13).length by omega) inside infoSize.isLt
    constructor
    · intro all
      obtain ⟨decoded, decodesTo, decodedBetween⟩ := fits (all parser rfl)
      have kept := between.setParser finds decodes decodedBetween
      simp only [decodesTo, bind, Except.bind]
      split
      · exact deliverCmd_between malloc found.active _ (kept.congr rfl rfl)
      · exact ⟨_, rfl, kept⟩
    · rintro ⟨other, same, not⟩
      rw [Option.some_inj] at same
      subst same
      simp only [fitsNot not, bind, Except.bind]

/-! ## One packet -/

theorem checkedHdr_untagged (whole : pkt.length = 184)
    (untagged : ¬ PacketTagged pkt) : checkedHdr pkt = .ok none := by
  rw [checkedHdr]
  simp only [bytesAt_ok (show 0 + 1 ≤ pkt.length by omega), bind, Except.bind]
  by_cases leading : slice 0 1 pkt = [leadingTag]
  · rw [if_neg (not_not.mpr leading)]
    simp only [bytesAt_ok (show pkt.length - 1 + 1 ≤ pkt.length by omega)]
    rw [if_pos fun last => untagged ⟨leading, last⟩]
  · rw [if_pos leading]

theorem checkedHdr_tagged (whole : pkt.length = 184) (tagged : PacketTagged pkt) :
    checkedHdr pkt = (do
      let summed ← bytesAt .packet pkt 3 ((packetHdr pkt).pktLength + (cmdRcpHdrSize - 2))
      let checkSum ← bytesAt .packet pkt (13 + (packetHdr pkt).pktLength) 1
      if checkSum = [tscmGenCheckSum summed] then
        .ok (some (packetHdr pkt))
      else
        .ok none) := by
  rw [checkedHdr]
  simp only [bytesAt_ok (show 0 + 1 ≤ pkt.length by omega), bind, Except.bind]
  rw [if_neg (not_not.mpr tagged.1)]
  simp only [bytesAt_ok (show pkt.length - 1 + 1 ≤ pkt.length by omega)]
  rw [if_neg (not_not.mpr tagged.2)]
  simp only [bytesAt_ok (show 1 + cmdRcpHdrSize ≤ pkt.length by
    rw [cmdRcpHdrSize]
    omega)]
  rfl

theorem checkedHdr_outside (whole : pkt.length = 184) (tagged : PacketTagged pkt)
    (long : ¬ (packetHdr pkt).pktLength ≤ pktLengthMax) :
    checkedHdr pkt = .error .packet := by
  unfold pktLengthMax at long
  rw [checkedHdr_tagged whole tagged]
  by_cases summed : 3 + ((packetHdr pkt).pktLength + (cmdRcpHdrSize - 2)) ≤ pkt.length
  · simp only [bytesAt_ok summed, bind, Except.bind]
    rw [bytesAt_error (by omega)]
  · rw [bytesAt_error (by omega)]
    rfl

theorem checkedHdr_inside (whole : pkt.length = 184) (tagged : PacketTagged pkt)
    (short : (packetHdr pkt).pktLength ≤ pktLengthMax) [Decidable (PacketSummed pkt)] :
    checkedHdr pkt = .ok (if PacketSummed pkt then some (packetHdr pkt) else none) := by
  unfold pktLengthMax at short
  rw [checkedHdr_tagged whole tagged]
  simp only [
    bytesAt_ok (show 3 + ((packetHdr pkt).pktLength + (cmdRcpHdrSize - 2)) ≤
      pkt.length by rw [cmdRcpHdrSize]; omega),
    bytesAt_ok (show 13 + (packetHdr pkt).pktLength + 1 ≤ pkt.length by omega),
    bind, Except.bind]
  by_cases right : PacketSummed pkt
  · rw [if_pos right]
    exact if_pos right
  · rw [if_neg right]
    exact if_neg right

/-- The device that has taken the command code of the packet. -/
def begunBy (pTscamDev : TscamDev) (pkt : List UInt8) : TscamDev :=
  if (packetHdr pkt).pktNum = 1 then
    { pTscamDev with actRecvCmdCode := getWord pkt 17, prevPktNum := 0 }
  else
    pTscamDev

theorem beginCmd_eq (whole : pkt.length = 184) :
    beginCmd pTscamDev (packetHdr pkt) pkt = .ok (begunBy pTscamDev pkt) := by
  have code : getWord (slice 17 2 pkt) 0 = getWord pkt 17 := by
    have byte (i : Nat) (less : i < 2) :
        (slice 17 2 pkt).getD i 0 = pkt.getD (17 + i) 0 := by
      rw [List.getD_eq_getElem?_getD, List.getD_eq_getElem?_getD, getElem?_slice, if_pos less]
    simp only [getWord, byte 0 (by omega), byte 1 (by omega), Nat.zero_add]
  rw [beginCmd, begunBy]
  split
  · simp only [bytesAt_ok (show 17 + 2 ≤ pkt.length by omega), bind, Except.bind, code]
  · rfl

theorem getWord_lt (bytes : List UInt8) (offset : Nat) : getWord bytes offset < 2 ^ 16 := by
  have low := (bytes.getD (offset + 1) 0).toNat_lt
  have high := (bytes.getD offset 0).toNat_lt
  rw [getWord]
  omega

theorem begunBy_code :
    (begunBy pTscamDev pkt).actRecvCmdCode % 2 ^ 16 = packetCode pTscamDev pkt := by
  rw [begunBy, packetCode]
  split
  · exact Nat.mod_eq_of_lt (getWord_lt pkt 17)
  · rfl

theorem begunBy_next :
    (packetHdr pkt).pktNum = ((begunBy pTscamDev pkt).prevPktNum + 1) % 2 ^ 16 ↔
      PacketNext pTscamDev pkt := by
  rw [begunBy, PacketNext]
  by_cases first : (packetHdr pkt).pktNum = 1
  · simp [first]
  · rw [if_neg first]
    simp [first]

theorem begunBy_parsers : (begunBy pTscamDev pkt).parsers = pTscamDev.parsers := by
  rw [begunBy]
  split <;> rfl

theorem begunBy_hTscam : (begunBy pTscamDev pkt).hTscam = pTscamDev.hTscam := by
  rw [begunBy]
  split <;> rfl

def countedBy (pTscamDev : TscamDev) (pkt : List UInt8) : TscamDev :=
  { begunBy pTscamDev pkt with prevPktNum := (packetHdr pkt).pktNum }

theorem countedBy_between (between : pTscamDev.Between attr) (pkt : List UInt8) :
    (countedBy pTscamDev pkt).Between attr :=
  between.congr begunBy_parsers begunBy_hTscam

theorem obtainParser_counted :
    obtainParser malloc (countedBy pTscamDev pkt) cmdCode =
      obtainParser malloc pTscamDev cmdCode := by
  have same :
      (countedBy pTscamDev pkt).parsers cmdCode = pTscamDev.parsers cmdCode :=
    congrFun begunBy_parsers cmdCode
  rw [obtainParser, obtainParser, same]

theorem tscamCmdAnalyse_tagged (whole : pkt.length = 184) (tagged : PacketTagged pkt)
    (short : (packetHdr pkt).pktLength ≤ pktLengthMax) (summed : PacketSummed pkt) :
    tscamCmdAnalyse malloc attr pTscamDev pkt =
      takeFragment malloc attr (begunBy pTscamDev pkt) (packetHdr pkt) pkt := by
  classical
  rw [tscamCmdAnalyse, checkedHdr_inside whole tagged short, if_pos summed]
  simp only [bind, Except.bind, beginCmd_eq whole]

theorem takeFragment_next (next : PacketNext pTscamDev pkt) :
    takeFragment malloc attr (begunBy pTscamDev pkt) (packetHdr pkt) pkt =
      match attr.find (packetCode pTscamDev pkt) with
      | none => .ok (countedBy pTscamDev pkt)
      | some found =>
        match found.cmdPktDecode with
        | none => .ok (countedBy pTscamDev pkt)
        | some infoSize =>
          decodeFragment malloc found infoSize (countedBy pTscamDev pkt)
            (packetHdr pkt) (packetCode pTscamDev pkt) pkt := by
  rw [takeFragment, if_pos (begunBy_next.mpr next), begunBy_code]
  rfl

/-- A packet that is the next one is taken inside exactly where its fragment
fits. -/
theorem takeFragment_spec (malloc : PktMalloc)
    (between : pTscamDev.Between attr) (whole : pkt.length = 184)
    (short : (packetHdr pkt).pktLength ≤ pktLengthMax) (next : PacketNext pTscamDev pkt) :
    ((∀ found infoSize parser,
        attr.find (packetCode pTscamDev pkt) = some found →
          found.cmdPktDecode = some infoSize →
            obtainParser malloc pTscamDev (packetCode pTscamDev pkt) = some parser →
              DecodeFits malloc.context infoSize parser (pkt.drop 13) (packetHdr pkt).pktLength) →
      ∃ after,
        takeFragment malloc attr (begunBy pTscamDev pkt) (packetHdr pkt) pkt = .ok after ∧
          after.Between attr) ∧
      (¬ (∀ found infoSize parser,
          attr.find (packetCode pTscamDev pkt) = some found →
            found.cmdPktDecode = some infoSize →
              obtainParser malloc pTscamDev (packetCode pTscamDev pkt) = some parser →
                DecodeFits malloc.context infoSize parser (pkt.drop 13) (packetHdr pkt).pktLength) →
        takeFragment malloc attr (begunBy pTscamDev pkt) (packetHdr pkt) pkt =
          .error .buffer) := by
  have counted := countedBy_between between pkt
  rw [takeFragment_next next]
  cases finds : attr.find (packetCode pTscamDev pkt) with
  | none =>
    refine ⟨fun _ => ⟨_, rfl, counted⟩, fun fitsNot => ?_⟩
    exact (fitsNot nofun).elim
  | some found =>
    cases decodes : found.cmdPktDecode with
    | none =>
      refine ⟨fun _ => ⟨_, by simp only [decodes], counted⟩,
        fun fitsNot => (fitsNot fun other _ _ known sized => ?_).elim⟩
      rw [Option.some_inj] at known
      subst known
      rw [decodes] at sized
      cases sized
    | some infoSize =>
      simp only [decodes]
      obtain ⟨inside, outside⟩ := decodeFragment_spec malloc counted finds decodes whole short
      simp only [obtainParser_counted] at inside outside
      constructor
      · intro fits
        exact inside fun parser obtained => fits found infoSize parser rfl decodes obtained
      · intro fitsNot
        refine outside ?_
        by_contra all
        refine fitsNot fun other size parser known sized obtained => ?_
        rw [Option.some_inj] at known
        subst known
        rw [decodes, Option.some_inj] at sized
        subst sized
        by_contra not
        exact all ⟨parser, obtained, not⟩

theorem tscamCmdAnalyse_spec (malloc : PktMalloc)
    (between : pTscamDev.Between attr) (whole : pkt.length = 184) :
    (PacketFits malloc attr pTscamDev pkt →
      ∃ after, tscamCmdAnalyse malloc attr pTscamDev pkt = .ok after ∧ after.Between attr) ∧
      (¬ PacketFits malloc attr pTscamDev pkt →
        ∃ stop, tscamCmdAnalyse malloc attr pTscamDev pkt = .error stop ∧
          (stop = .packet ∨ stop = .buffer)) := by
  classical
  by_cases tagged : PacketTagged pkt
  · by_cases short : (packetHdr pkt).pktLength ≤ pktLengthMax
    · by_cases summed : PacketSummed pkt
      · rw [tscamCmdAnalyse_tagged whole tagged short summed]
        by_cases next : PacketNext pTscamDev pkt
        · obtain ⟨inside, outside⟩ := takeFragment_spec malloc between whole short next
          refine ⟨fun fits => inside ((fits tagged).2 summed next),
            fun fitsNot => ⟨.buffer, outside fun all => ?_, .inr rfl⟩⟩
          exact fitsNot fun _ => ⟨short, fun _ _ => all⟩
        · have stays :
              takeFragment malloc attr (begunBy pTscamDev pkt) (packetHdr pkt) pkt =
                .ok (begunBy pTscamDev pkt) := by
            rw [takeFragment, if_neg (mt begunBy_next.mp next)]
          rw [stays]
          refine ⟨fun _ => ⟨_, rfl, between.congr begunBy_parsers begunBy_hTscam⟩,
            fun fitsNot => ?_⟩
          exact (fitsNot fun _ => ⟨short, fun _ now => (next now).elim⟩).elim
      · rw [tscamCmdAnalyse, checkedHdr_inside whole tagged short, if_neg summed]
        refine ⟨fun _ => ⟨_, rfl, between⟩, fun fitsNot => ?_⟩
        exact (fitsNot fun _ => ⟨short, fun now => (summed now).elim⟩).elim
    · rw [tscamCmdAnalyse, checkedHdr_outside whole tagged short]
      refine ⟨fun fits => (short (fits tagged).1).elim, fun _ => ?_⟩
      exact ⟨.packet, rfl, .inl rfl⟩
  · rw [tscamCmdAnalyse, checkedHdr_untagged whole tagged]
    refine ⟨fun _ => ⟨_, rfl, between⟩, fun fitsNot => ?_⟩
    exact (fitsNot fun now => (tagged now).elim).elim

/-- The next packet fits, with what `malloc` answers while it is analysed. -/
def NextFits (malloc : StreamMalloc) (attr : RecvTable)
    (state : TscamDev × Nat) (pkt : List UInt8) : Prop :=
  PacketFits (malloc state.2) attr state.1 pkt

variable {state : TscamDev × Nat}

theorem analyseNext_spec (malloc : StreamMalloc)
    (between : state.1.Between attr) (whole : pkt.length = 184) :
    (NextFits malloc attr state pkt →
      ∃ after, analyseNext malloc attr state pkt = .ok after ∧ after.1.Between attr) ∧
      (¬ NextFits malloc attr state pkt →
        ∃ stop, analyseNext malloc attr state pkt = .error stop ∧
          (stop = .packet ∨ stop = .buffer)) := by
  obtain ⟨inside, outside⟩ := tscamCmdAnalyse_spec (malloc state.2) between whole
  rw [analyseNext]
  constructor
  · intro fits
    obtain ⟨after, analysed, kept⟩ := inside fits
    rw [analysed]
    exact ⟨_, rfl, kept⟩
  · intro fitsNot
    obtain ⟨stop, stopped, which⟩ := outside fitsNot
    rw [stopped]
    exact ⟨stop, rfl, which⟩

theorem analyseNext_ok_iff (malloc : StreamMalloc)
    (between : state.1.Between attr) (whole : pkt.length = 184) :
    (∃ after, analyseNext malloc attr state pkt = .ok after) ↔ NextFits malloc attr state pkt := by
  obtain ⟨inside, outside⟩ := analyseNext_spec malloc between whole
  constructor
  · rintro ⟨after, analysed⟩
    by_contra fitsNot
    obtain ⟨stop, stopped, -⟩ := outside fitsNot
    rw [stopped] at analysed
    cases analysed
  · intro fits
    obtain ⟨after, analysed, -⟩ := inside fits
    exact ⟨after, analysed⟩

theorem analyseNext_ends (malloc : StreamMalloc)
    (between : state.1.Between attr) (whole : pkt.length = 184) :
    Ends (fun stop => stop = .packet ∨ stop = .buffer)
      (fun after => after.1.Between attr) (analyseNext malloc attr state pkt) := by
  obtain ⟨inside, outside⟩ := analyseNext_spec malloc between whole
  by_cases fits : NextFits malloc attr state pkt
  · obtain ⟨after, analysed, kept⟩ := inside fits
    exact .of_ok analysed kept
  · obtain ⟨stop, stopped, which⟩ := outside fits
    rw [stopped]
    exact which

/-- Whatever the stream and however it is cut, the receiver stays inside the
packets and the buffers exactly where every packet fits in the state before it;
it never leaves its cache, and every call ends. -/
theorem analyseStream_inside (fmt : TscmPktFmt) (malloc : StreamMalloc)
    (attr : RecvTable) (pieces : List (List UInt8)) :
    ((∃ finish, analyseStream fmt malloc attr .create pieces = .ok finish) ↔
      MeetsAlong (NextFits malloc attr) (analyseNext malloc attr) (.create, 0)
        (streamPackets fmt pieces.flatten)) ∧
      ∀ stop, analyseStream fmt malloc attr .create pieces = .error stop →
        stop = .packet ∨ stop = .buffer := by
  have packets := analyseStream_eq fmt malloc attr pieces
  have lengths (pkt : List UInt8) (member : pkt ∈ streamPackets fmt pieces.flatten) :
      pkt.length = 184 := streamPackets_length pieces.flatten pkt member
  have whole :
      Ends (fun stop => stop = .packet ∨ stop = .buffer)
        (fun after : TscamDev × Nat => after.1.Between attr)
        ((streamPackets fmt pieces.flatten).foldlM (analyseNext malloc attr) (.create, 0)) :=
    Ends.foldlM
      (fun state between pkt member => analyseNext_ends malloc between (lengths pkt member))
      TscamDev.Between.create
  rw [← foldlM_ok_iff (fun state : TscamDev × Nat => state.1.Between attr)
    (fun state between pkt member => analyseNext_ok_iff malloc between (lengths pkt member))
    (fun state between pkt member after analysed =>
      (analyseNext_ends malloc between (lengths pkt member)).ok analysed)
    TscamDev.Between.create, ← packets]
  rw [← packets] at whole
  cases ran : analyseStream fmt malloc attr .create pieces with
  | ok finish =>
    exact ⟨⟨fun _ => ⟨_, rfl⟩, fun _ => ⟨finish, rfl⟩⟩, fun _ never => by cases never⟩
  | error stop =>
    rw [ran] at whole
    refine ⟨⟨?_, ?_⟩, fun other same => ?_⟩
    · rintro ⟨finish, never⟩
      cases never
    · rintro ⟨finish, never⟩
      cases never
    · cases same
      exact whole

def packetOf (pktNum pktLength : Nat) (data : List UInt8) : List UInt8 :=
  [leadingTag, 0, 0] ++ (summed ++ [tscmGenCheckSum summed] ++ behind) ++ [endTag]
where
  summed : List UInt8 := [0, 0, 0, 2] ++ setWord pktNum ++ [0, 1] ++ setWord pktLength ++ data
  behind : List UInt8 := List.replicate (169 - data.length) 0

/-- Every command has a decoder with a structure of 16 bytes. -/
def allCommands : RecvTable := fun _ _ => some ⟨some 16, none, none, false⟩

def noLimit : PktMalloc := ⟨true, fun _ => true, .of 0⟩

set_option maxRecDepth 20000 in
/-- A length that reaches behind the packet, and a fragment of ten bytes of a
command of eight. -/
theorem analyseStream_outside :
    analyseStream .rs232 (fun _ => noLimit) allCommands .create
          [packetOf 1 171 [0, 0, 0, 7, 0, 1]] =
        .error .packet ∧
      analyseStream .rs232 (fun _ => noLimit) allCommands .create
          [packetOf 1 10 [0, 0, 0, 7, 0, 1, 0, 0, 0, 0]] =
        .error .buffer :=
  ⟨rfl, rfl⟩

end IteSdk.Tscam
