import IteSdk.Tscam.CmdRecovery

/-!
# All fragments of a command, in order

What the parser holds in front of the first fragment decides whether the command is
delivered with its bytes.
-/

namespace IteSdk.Tscam

open Lib

variable {attr : RecvTable} {pTscamDev after before : TscamDev}
  {found : RecvAttr} {infoSize : Fin (2 ^ 32)} {cmdCode num capacity : Nat}
  {fragment : RecvFragment} {part : Option (Nat × List UInt8)}
  {collected : List UInt8}

theorem contentOf_cons (fragment : RecvFragment) (rest : List RecvFragment) :
    contentOf (fragment :: rest) = fragment.piece ++ contentOf rest :=
  List.flatMap_cons

theorem analyseFragments_cons (attr : RecvTable) (pTscamDev : TscamDev)
    (fragment : RecvFragment) (rest : List RecvFragment) :
    analyseFragments attr pTscamDev (fragment :: rest) =
      tscamCmdAnalyse fragment.malloc attr pTscamDev fragment.pkt >>=
        fun after => analyseFragments attr after rest :=
  List.foldlM_cons

variable {malloc : PktMalloc} {fragments : List RecvFragment}

theorem tscamCmdAnalyse_between {pkt : List UInt8}
    (between : pTscamDev.Between attr) (whole : pkt.length = 184)
    (ran : tscamCmdAnalyse malloc attr pTscamDev pkt = .ok after) :
    after.Between attr := by
  obtain ⟨inside, outside⟩ := tscamCmdAnalyse_spec malloc between whole
  by_cases fits : PacketFits malloc attr pTscamDev pkt
  · obtain ⟨other, analysed, kept⟩ := inside fits
    rw [ran, Except.ok.injEq] at analysed
    subst analysed
    exact kept
  · obtain ⟨stop, stopped, -⟩ := outside fits
    rw [ran] at stopped
    cases stopped

theorem analyseFragments_log (numbered : NumberedFrom num fragments)
    (ran : analyseFragments attr pTscamDev fragments = .ok after) :
    ∃ more, after.log = pTscamDev.log ++ more := by
  induction fragments generalizing pTscamDev num with
  | nil =>
    cases ran
    exact ⟨[], (List.append_nil _).symm⟩
  | cons fragment rest ih =>
    rw [analyseFragments_cons] at ran
    cases analysed : tscamCmdAnalyse fragment.malloc attr pTscamDev fragment.pkt with
    | error stop =>
      rw [analysed] at ran
      cases ran
    | ok middle =>
      rw [analysed] at ran
      obtain ⟨first, logFirst⟩ := tscamCmdAnalyse_log numbered.1.whole analysed
      obtain ⟨later, logLater⟩ := ih numbered.2 ran
      exact ⟨first ++ later, by rw [logLater, logFirst, List.append_assoc]⟩

/-- What a fragment of the command does to the device, as long as nothing is
delivered. -/
structure Quiet (infoSize : Nat) (cmdCode num : Nat) (pTscamDev after : TscamDev)
    (part : Option (Nat × List UInt8)) : Prop where
  receiving : Receiving after cmdCode num
  hTscam : after.hTscam = pTscamDev.hTscam
  log : after.log = pTscamDev.log
  has : HasPart infoSize after cmdCode part

/-- The first fragment that is copied allocates; the next ones go behind it. -/
def GrowsFrom (malloc : PktMalloc) (infoSize : Nat) (pTscamDev : TscamDev)
    (cmdCode : Nat) (buf piece : List UInt8) :
    Option (Nat × List UInt8) → Nat → List UInt8 → Prop
  | none, capacity, content =>
    Allocates malloc infoSize pTscamDev cmdCode buf ∧
      capacity = getDword buf 0 + 1 ∧ content = piece
  | some (room, collected), capacity, content =>
    capacity = room ∧ content = collected ++ piece

theorem Grows.from {size : Nat} {buf piece content : List UInt8}
    (has : HasPart size pTscamDev cmdCode part)
    (grows :
      Grows malloc size (countedBy pTscamDev fragment.pkt) cmdCode buf piece capacity content) :
    GrowsFrom malloc size pTscamDev cmdCode buf piece part capacity content := by
  have counted : HasPart size (countedBy pTscamDev fragment.pkt) cmdCode part :=
    has.congr begunBy_parsers
  cases grows with
  | next room collected inside =>
    obtain rfl := counted.unique inside
    exact ⟨rfl, rfl⟩
  | first inside allocates =>
    obtain rfl := counted.unique inside
    refine ⟨⟨fun none_ => allocates.parser ?_, allocates.fits, allocates.granted⟩, rfl, rfl⟩
    exact (congrFun begunBy_parsers cmdCode).trans none_

section

variable (coming : Coming pTscamDev cmdCode num fragment) (between : pTscamDev.Between attr)
  (finds : attr.find cmdCode = some found) (decodes : found.cmdPktDecode = some infoSize)

include coming between finds decodes

theorem Coming.taken (has : HasPart infoSize pTscamDev cmdCode part)
    (ran : tscamCmdAnalyse fragment.malloc attr pTscamDev fragment.pkt = .ok after) :
    (part = none ∧
        ¬ Allocates fragment.malloc infoSize pTscamDev cmdCode (fragment.pkt.drop 13) ∧
          Quiet infoSize cmdCode num pTscamDev after none) ∨
      ∃ capacity content,
        GrowsFrom fragment.malloc infoSize pTscamDev cmdCode
            (fragment.pkt.drop 13) fragment.piece part capacity content ∧
          ((fragmentDone capacity content = false ∧
              Quiet infoSize cmdCode num pTscamDev after (some (capacity, content))) ∨
            (content.length = capacity ∧
              ∃ ready : TscamDev,
                ready.hTscam = pTscamDev.hTscam ∧ ready.log = pTscamDev.log ∧
                  deliverCmd fragment.malloc found.active ready
                      (recvBox found (packetHdr fragment.pkt) cmdCode content) =
                    .ok after)) := by
  have is_ := coming.is_
  have counted := countedBy_between between fragment.pkt
  have log : (countedBy pTscamDev fragment.pkt).log = pTscamDev.log := countedBy_log
  have hTscam : (countedBy pTscamDev fragment.pkt).hTscam = pTscamDev.hTscam := begunBy_hTscam
  rw [coming.analyse finds decodes] at ran
  cases decodeFragment_taken counted finds decodes is_.whole (is_.length ▸ is_.short) ran with
  | skipped here refused left sameTscam code same sameLog =>
    have none_ : part = none :=
      (has.congr begunBy_parsers : HasPart infoSize
        (countedBy pTscamDev fragment.pkt) cmdCode part).unique here
    refine .inl ⟨none_, fun allocates => refused ⟨fun none_ => ?_,
      allocates.fits, allocates.granted⟩, coming.receiving code same,
      sameTscam.trans hTscam, sameLog.trans log, left⟩
    exact allocates.parser ((congrFun begunBy_parsers cmdCode).symm.trans none_)
  | collected capacity content grows inside notDone sameTscam code same sameLog =>
    rw [is_.piece_eq] at grows
    exact .inr ⟨capacity, content, grows.from has, .inl ⟨notDone,
      coming.receiving code same, sameTscam.trans hTscam, sameLog.trans log,
      inside⟩⟩
  | completed capacity content parser grows complete delivers =>
    rw [is_.piece_eq] at grows
    refine .inr ⟨capacity, content, grows.from has, .inr ⟨complete, ?_⟩⟩
    exact
      ⟨{ (countedBy pTscamDev fragment.pkt).setParser cmdCode (some parser) with
          actRecvCmdCode := noCmdCode },
        hTscam, log, delivers⟩

theorem Coming.goes
    (fits : ∀ parser,
      obtainParser fragment.malloc pTscamDev cmdCode = some parser →
        DecodeFits fragment.malloc.context infoSize parser
          (fragment.pkt.drop 13) (packetHdr fragment.pkt).pktLength) :
    ∃ after, tscamCmdAnalyse fragment.malloc attr pTscamDev fragment.pkt = .ok after := by
  obtain ⟨inside, -⟩ := tscamCmdAnalyse_spec fragment.malloc between coming.is_.whole
  obtain ⟨after, analysed, -⟩ := inside fun tagged => by
    refine ⟨coming.is_.length ▸ coming.is_.short,
      fun _ _ other size parser known sized obtained => ?_⟩
    rw [coming.code] at known obtained
    rw [finds, Option.some_inj] at known
    subst known
    rw [decodes, Option.some_inj] at sized
    subst sized
    exact fits parser obtained
  exact ⟨after, analysed⟩

end

theorem GrowsFrom.unique {size other : Nat} {buf piece content bytes : List UInt8}
    (first : GrowsFrom malloc size pTscamDev cmdCode buf piece part capacity content)
    (second : GrowsFrom malloc size pTscamDev cmdCode buf piece part other bytes) :
    capacity = other ∧ content = bytes := by
  rcases part with _ | ⟨room, collected⟩
  · obtain ⟨-, rfl, rfl⟩ := first
    obtain ⟨-, rfl, rfl⟩ := second
    exact ⟨rfl, rfl⟩
  · obtain ⟨rfl, rfl⟩ := first
    obtain ⟨rfl, rfl⟩ := second
    exact ⟨rfl, rfl⟩

theorem IsFragment.decodeFits {content : List UInt8} (is_ : IsFragment num fragment)
    (has : HasPart infoSize pTscamDev cmdCode part)
    (grows :
      GrowsFrom fragment.malloc infoSize pTscamDev cmdCode (fragment.pkt.drop 13)
        fragment.piece part capacity content)
    (room : content.length ≤ capacity)
    (checkable : content.length = capacity → ContextInside content) {parser : CmdPktParser}
    (obtained : obtainParser fragment.malloc pTscamDev cmdCode = some parser) :
    DecodeFits fragment.malloc.context infoSize parser (fragment.pkt.drop 13)
      (packetHdr fragment.pkt).pktLength := by
  have piece := is_.piece_eq
  cases has with
  | collecting held room' collected here collecting =>
    obtain ⟨rfl, rfl⟩ := grows
    rw [obtainParser, here, Option.some_inj] at obtained
    subst obtained
    rw [decodeFits_collecting collecting, piece]
    rw [List.length_append] at room checkable
    exact ⟨room, checkable⟩
  | noParser none_ =>
    obtain ⟨allocates, rfl, rfl⟩ := grows
    rw [obtainParser, none_] at obtained
    dsimp only at obtained
    rw [if_pos (allocates.parser none_), Option.some_inj] at obtained
    subst obtained
    rw [DecodeFits, piece]
    refine fun _ => ⟨allocates.fits, ?_, ?_⟩
    · simpa using room
    · simpa using checkable
  | noBuffer held here nothing =>
    obtain ⟨allocates, rfl, rfl⟩ := grows
    rw [obtainParser, here, Option.some_inj] at obtained
    subst obtained
    rw [DecodeFits, nothing, piece]
    refine fun _ => ⟨allocates.fits, ?_, ?_⟩
    · simpa using room
    · simpa using checkable

theorem Coming.forward {content : List UInt8}
    (coming : Coming pTscamDev cmdCode num fragment) (between : pTscamDev.Between attr)
    (finds : attr.find cmdCode = some found) (decodes : found.cmdPktDecode = some infoSize)
    (has : HasPart infoSize pTscamDev cmdCode part)
    (grows :
      GrowsFrom fragment.malloc infoSize pTscamDev cmdCode (fragment.pkt.drop 13)
        fragment.piece part capacity content)
    (room : content.length ≤ capacity)
    (right : content.length = capacity → ContextInside content ∧ contextOk content = true) :
    ∃ after,
      tscamCmdAnalyse fragment.malloc attr pTscamDev fragment.pkt = .ok after ∧
        after.Between attr ∧
          (content.length < capacity →
            Quiet infoSize cmdCode num pTscamDev after (some (capacity, content))) ∧
            (content.length = capacity →
              ∃ ready : TscamDev,
                ready.hTscam = pTscamDev.hTscam ∧ ready.log = pTscamDev.log ∧
                  deliverCmd fragment.malloc found.active ready
                      (recvBox found (packetHdr fragment.pkt) cmdCode content) =
                    .ok after) := by
  obtain ⟨after, analysed⟩ :=
    coming.goes between finds decodes fun parser obtained =>
      coming.is_.decodeFits has grows room (fun full => (right full).1) obtained
  have kept := tscamCmdAnalyse_between between coming.is_.whole analysed
  refine ⟨after, analysed, kept, ?_⟩
  rcases coming.taken between finds decodes has analysed with
    ⟨rfl, refused, -⟩ | ⟨other, bytes, also, outcome⟩
  · exact (refused grows.1).elim
  · obtain ⟨rfl, rfl⟩ := grows.unique also
    rcases outcome with ⟨notDone, quiet⟩ | ⟨complete, delivered⟩
    · refine ⟨fun _ => quiet, fun full => ?_⟩
      simp [fragmentDone, full, (right full).2] at notDone
    · exact ⟨fun less => by omega, fun _ => delivered⟩

/-- What the part of a command becomes while nothing is delivered. -/
structure Tracked (infoSize cmdCode : Nat) (pTscamDev before : TscamDev)
    (bytes : List UInt8) (part : Option (Nat × List UInt8)) (last : Nat) : Prop where
  receiving : Receiving before cmdCode last
  hTscam : before.hTscam = pTscamDev.hTscam
  has :
    (∃ capacity collected, part = some (capacity, collected) ∧
      HasPart infoSize before cmdCode (some (capacity, collected ++ bytes))) ∨
    (part = none ∧ ∃ later, HasPart infoSize before cmdCode later ∧
      ∀ capacity collected, later = some (capacity, collected) → collected.length ≤ bytes.length)

section

variable (finds : attr.find cmdCode = some found) (decodes : found.cmdPktDecode = some infoSize)
  (numbered : NumberedFrom (num + 1) fragments) (positive : 1 ≤ num)
  (between : pTscamDev.Between attr) (receiving : Receiving pTscamDev cmdCode num)

include finds decodes numbered positive between receiving

theorem fragments_tracked (has : HasPart infoSize pTscamDev cmdCode part)
    (ran : analyseFragments attr pTscamDev fragments = .ok before)
    (log : before.log = pTscamDev.log) :
    before.Between attr ∧
      Tracked infoSize cmdCode pTscamDev before (contentOf fragments) part
        (num + fragments.length) := by
  induction fragments generalizing pTscamDev num part with
  | nil =>
    cases ran
    refine ⟨between, receiving, rfl, ?_⟩
    rcases part with _ | ⟨capacity, collected⟩
    · exact .inr ⟨rfl, none, has, nofun⟩
    · refine .inl ⟨capacity, collected, rfl, ?_⟩
      rw [contentOf, List.flatMap_nil, List.append_nil]
      exact has
  | cons fragment rest ih =>
    obtain ⟨is_, numberedRest⟩ := numbered
    rw [analyseFragments_cons] at ran
    cases analysed : tscamCmdAnalyse fragment.malloc attr pTscamDev fragment.pkt with
    | error stop =>
      rw [analysed] at ran
      cases ran
    | ok middle =>
      rw [analysed] at ran
      have middleBetween := tscamCmdAnalyse_between between is_.whole analysed
      obtain ⟨more, logLater⟩ := analyseFragments_log numberedRest ran
      have coming := Coming.later is_ receiving positive
      have lengths : num + (fragment :: rest).length = num + 1 + rest.length := by
        rw [List.length_cons]
        omega
      rw [contentOf_cons, lengths]
      have goes (next : Option (Nat × List UInt8))
          (quiet : Quiet infoSize cmdCode (num + 1) pTscamDev middle next) :=
        ih numberedRest (by omega) middleBetween
          quiet.receiving quiet.has ran (log.trans quiet.log.symm)
      rcases coming.taken between finds decodes has analysed with
        ⟨rfl, -, quiet⟩ | ⟨capacity, content, grows, ⟨-, quiet⟩ |
          ⟨-, ready, -, readyLog, delivers⟩⟩
      · obtain ⟨kept, tracked⟩ := goes none quiet
        refine ⟨kept, tracked.receiving, tracked.hTscam.trans quiet.hTscam, ?_⟩
        rcases tracked.has with ⟨_, _, never, -⟩ | ⟨-, later, inside, fewer⟩
        · cases never
        · refine .inr ⟨rfl, later, inside, fun room bytes same => ?_⟩
          have bound := fewer room bytes same
          rw [List.length_append]
          omega
      · obtain ⟨kept, tracked⟩ := goes _ quiet
        refine ⟨kept, tracked.receiving, tracked.hTscam.trans quiet.hTscam, ?_⟩
        rcases tracked.has with ⟨room, bytes, same, inside⟩ | ⟨never, -⟩
        · obtain ⟨rfl, rfl⟩ : capacity = room ∧ content = bytes := by simpa using same
          rcases part with _ | ⟨old, collected⟩
          · obtain ⟨-, -, rfl⟩ := grows
            refine .inr ⟨rfl, _, inside, fun _ _ same => ?_⟩
            cases same
            exact Nat.le_refl _
          · obtain ⟨rfl, rfl⟩ := grows
            refine .inl ⟨capacity, collected, rfl, ?_⟩
            rw [← List.append_assoc]
            exact inside
        · cases never
      · -- A delivery would be in the log.
        obtain ⟨how, logged, -⟩ := deliverCmd_log delivers
        rw [logLater, logged, readyLog] at log
        simp at log

theorem fragments_forward (has : HasPart infoSize pTscamDev cmdCode (some (capacity, collected)))
    (room : collected.length + (contentOf fragments).length < capacity) :
    ∃ before, analyseFragments attr pTscamDev fragments = .ok before ∧
      before.Between attr ∧
        Quiet infoSize cmdCode (num + fragments.length) pTscamDev before
          (some (capacity, collected ++ contentOf fragments)) := by
  induction fragments generalizing pTscamDev num collected with
  | nil =>
    refine ⟨pTscamDev, rfl, between, receiving, rfl, rfl, ?_⟩
    rw [contentOf, List.flatMap_nil, List.append_nil]
    exact has
  | cons fragment rest ih =>
    obtain ⟨is_, numberedRest⟩ := numbered
    rw [contentOf_cons, List.length_append] at room
    have shorter : (collected ++ fragment.piece).length < capacity := by
      rw [List.length_append]
      omega
    obtain ⟨middle, analysed, middleBetween, quiet, -⟩ :=
      (Coming.later is_ receiving positive).forward between finds decodes has
        ⟨rfl, rfl⟩ (Nat.le_of_lt shorter) (fun full => by omega)
    have quiet := quiet shorter
    obtain ⟨before, ran, kept, later⟩ :=
      ih numberedRest (by omega) middleBetween quiet.receiving
        quiet.has (by rw [List.length_append]; omega)
    have lengths : num + (fragment :: rest).length = num + 1 + rest.length := by
      rw [List.length_cons]
      omega
    refine ⟨before, ?_, kept, ?_⟩
    · rw [analyseFragments_cons, analysed]
      exact ran
    · rw [contentOf_cons, lengths, ← List.append_assoc]
      exact ⟨later.receiving, later.hTscam.trans quiet.hTscam, later.log.trans quiet.log, later.has⟩

end

/-! ## A whole command -/

/-- All fragments of a command in order: packets that are right, with the numbers
from 1 on, whose data make the context of a known command. -/
structure Transmission (attr : RecvTable) where
  front : List RecvFragment
  last : RecvFragment
  cmdCode : Nat
  found : RecvAttr
  infoSize : Fin (2 ^ 32)
  finds : attr.find cmdCode = some found
  decodes : found.cmdPktDecode = some infoSize
  numbered : NumberedFrom 1 (front ++ [last])
  long : 6 ≤ (front.headD last).piece.length
  code : getWord (front.headD last).piece 4 = cmdCode
  length : getDword (contentOf (front ++ [last])) 0 + 1 = (contentOf (front ++ [last])).length
  summed : contextOk (contentOf (front ++ [last])) = true

variable (transmission : Transmission attr)

def Transmission.first : RecvFragment := transmission.front.headD transmission.last

def Transmission.context : CmdContext := contentOf (transmission.front ++ [transmission.last])

def Transmission.box : CmdBox CmdContext :=
  recvBox transmission.found (packetHdr transmission.last.pkt)
    transmission.cmdCode transmission.context

/-- The command is delivered with the last fragment, and nothing before; if it goes
into the queue, it is the last one there. -/
def Recovered (pTscamDev : TscamDev) : Prop :=
  ∃ before after how,
    analyseFragments attr pTscamDev transmission.front = .ok before ∧
      before.log = pTscamDev.log ∧
        tscamCmdAnalyse transmission.last.malloc attr before transmission.last.pkt = .ok after ∧
          after.log = pTscamDev.log ++ [(transmission.box, how)] ∧
            how.Delivered ∧
              (how = .received .stored →
                ∃ recvNodes transNodes held transHeld nodes,
                  HandleHolds pTscamDev.hTscam recvNodes transNodes held transHeld ∧
                    HandleHolds after.hTscam nodes transNodes
                      (withoutCode held transmission.cmdCode ++
                        [{ transmission.box with priority := .appt }])
                      transHeld)

/-- What a parser may have in front of the first fragment: no buffer, when one is
granted, or a buffer of the right size with nothing in it. -/
def PartReady (pTscamDev : TscamDev) : Option (Nat × List UInt8) → Prop
  | none =>
    Allocates transmission.first.malloc transmission.infoSize pTscamDev
      transmission.cmdCode (transmission.first.pkt.drop 13)
  | some (capacity, collected) =>
    capacity = transmission.context.length ∧ collected = []

/-- Nothing of an earlier transmission is left, and the command can be
delivered. -/
def RecoveryReady (pTscamDev : TscamDev) : Prop :=
  (∃ part,
    HasPart transmission.infoSize pTscamDev transmission.cmdCode part ∧
      PartReady transmission pTscamDev part) ∧
    DeliverReady transmission.last.malloc transmission.found.active
      pTscamDev.hTscam transmission.box

theorem numberedFrom_append (numbered : NumberedFrom num (fragments ++ [fragment])) :
    NumberedFrom num fragments ∧ IsFragment (num + fragments.length) fragment := by
  induction fragments generalizing num with
  | nil => exact ⟨trivial, numbered.1⟩
  | cons head rest ih =>
    obtain ⟨others, last⟩ := ih numbered.2
    refine ⟨⟨numbered.1, others⟩, ?_⟩
    rw [List.length_cons, ← Nat.add_assoc, Nat.add_right_comm]
    exact last

theorem contentOf_append (fragments : List RecvFragment) (fragment : RecvFragment) :
    contentOf (fragments ++ [fragment]) = contentOf fragments ++ fragment.piece := by
  simp [contentOf]

theorem Transmission.contextInside : ContextInside transmission.context := by
  have length := transmission.length
  have long := transmission.long
  refine ⟨?_, Nat.le_of_eq length⟩
  rw [context, contentOf_append, List.length_append]
  cases shape : transmission.front with
  | nil =>
    rw [shape] at long
    simp at long
    omega
  | cons first rest =>
    rw [shape] at long
    rw [contentOf_cons, List.length_append]
    simp at long
    omega

theorem recovered_iff_last (between : pTscamDev.Between attr)
    (ran : analyseFragments attr pTscamDev transmission.front = .ok before)
    (beforeBetween : before.Between attr) (hTscam : before.hTscam = pTscamDev.hTscam)
    (log : before.log = pTscamDev.log)
    (coming : Coming before transmission.cmdCode num transmission.last)
    (has : HasPart transmission.infoSize before transmission.cmdCode part) :
    Recovered transmission pTscamDev ↔
      (∃ capacity,
        GrowsFrom transmission.last.malloc transmission.infoSize before
            transmission.cmdCode (transmission.last.pkt.drop 13)
            transmission.last.piece part capacity transmission.context ∧
          transmission.context.length = capacity) ∧
        DeliverReady transmission.last.malloc transmission.found.active
          pTscamDev.hTscam transmission.box := by
  constructor
  · rintro ⟨other, after, how, same, -, analysed, logged, delivered, -⟩
    rw [ran, Except.ok.injEq] at same
    subst same
    rcases coming.taken beforeBetween transmission.finds transmission.decodes has analysed with
      ⟨-, -, quiet⟩ | ⟨capacity, content, grows, ⟨-, quiet⟩ |
        ⟨complete, ready, readyTscam, readyLog, delivers⟩⟩
    · rw [quiet.log, log] at logged
      simp at logged
    · rw [quiet.log, log] at logged
      simp at logged
    · obtain ⟨now, logs, exact_⟩ := deliverCmd_log delivers
      rw [logs, readyLog, log] at logged
      obtain ⟨sameBox, rfl⟩ : recvBox transmission.found
          (packetHdr transmission.last.pkt) transmission.cmdCode content =
            transmission.box ∧ now = how := by
        simpa using logged
      obtain rfl : content = transmission.context := congrArg CmdBox.pCmdInfo sameBox
      refine ⟨⟨capacity, grows, complete⟩, ?_⟩
      rw [← hTscam, ← readyTscam]
      exact exact_.mp delivered
  · rintro ⟨⟨capacity, grows, complete⟩, ready⟩
    obtain ⟨after, analysed, -, -, completes⟩ :=
      coming.forward beforeBetween transmission.finds transmission.decodes has
        grows (Nat.le_of_eq complete)
        (fun _ => ⟨transmission.contextInside, transmission.summed⟩)
    obtain ⟨last, lastTscam, lastLog, delivers⟩ := completes complete
    obtain ⟨how, logs, exact_⟩ := deliverCmd_log delivers
    have logged : after.log = pTscamDev.log ++ [(transmission.box, how)] := by
      rw [logs, lastLog, log]
      rfl
    refine ⟨before, after, how, ran, log, analysed, logged, exact_.mpr ?_, ?_⟩
    · rw [lastTscam, hTscam]
      exact ready
    · rintro rfl
      have queues := between.queues
      rw [← hTscam, ← lastTscam] at queues ⊢
      exact deliverCmd_queue queues delivers logs

theorem TscamDev.Between.hasPart (between : pTscamDev.Between attr)
    (finds : attr.find cmdCode = some found) (decodes : found.cmdPktDecode = some infoSize) :
    ∃ part, HasPart infoSize pTscamDev cmdCode part := by
  cases held : pTscamDev.parsers cmdCode with
  | none => exact ⟨none, .noParser held⟩
  | some parser =>
    cases between.parsers cmdCode parser held found infoSize finds decodes with
    | empty nothing => exact ⟨none, .noBuffer parser held nothing⟩
    | collecting capacity collected collecting =>
      exact ⟨_, .collecting parser capacity collected held collecting⟩

theorem IsFragment.dword (is_ : IsFragment num fragment)
    (long : 4 ≤ fragment.piece.length) (behind : List UInt8) :
    getDword (fragment.pkt.drop 13) 0 = getDword (fragment.piece ++ behind) 0 := by
  have split :
      fragment.pkt.drop 13 = fragment.piece ++ (fragment.pkt.drop 13).drop fragment.piece.length :=
    (List.take_append_drop fragment.piece.length _).symm.trans (congrArg (· ++ _) is_.data)
  rw [split, getDword_append long, getDword_append long]

theorem recovered_iff_single (between : pTscamDev.Between attr) (single : transmission.front = []) :
    Recovered transmission pTscamDev ↔ RecoveryReady transmission pTscamDev := by
  obtain ⟨part, has⟩ := between.hasPart transmission.finds transmission.decodes
  have numbered := transmission.numbered
  have long := transmission.long
  have code := transmission.code
  have length := transmission.length
  have first : transmission.first = transmission.last := by
    rw [Transmission.first, single]
    rfl
  have whole : transmission.context = transmission.last.piece := by
    rw [Transmission.context, single]
    simp [contentOf]
  rw [single] at numbered long code
  have is_ : IsFragment 1 transmission.last := numbered.1
  have coming : Coming pTscamDev transmission.cmdCode 1 transmission.last := .first is_ long code
  rw [recovered_iff_last transmission between (by rw [single]; rfl) between rfl rfl
    coming has, RecoveryReady]
  refine and_congr_left fun _ => ⟨?_, ?_⟩
  · rintro ⟨capacity, grows, complete⟩
    refine ⟨part, has, ?_⟩
    rcases part with _ | ⟨room, collected⟩
    · rw [PartReady, first]
      exact grows.1
    · obtain ⟨rfl, content⟩ := grows
      rw [whole] at content
      exact ⟨complete.symm, List.append_left_eq_self.mp content.symm⟩
  · rintro ⟨other, inside, ready⟩
    obtain rfl := has.unique inside
    rcases part with _ | ⟨room, collected⟩
    · rw [PartReady, first] at ready
      refine ⟨_, ⟨ready, rfl, whole⟩, ?_⟩
      have dword := is_.dword (by simp at long; omega) []
      rw [dword, List.append_nil, ← whole]
      exact length.symm
    · obtain ⟨rfl, rfl⟩ := ready
      exact ⟨_, ⟨rfl, whole⟩, rfl⟩

theorem recovered_iff_several (between : pTscamDev.Between attr)
    {head : RecvFragment} {mid : List RecvFragment} (several : transmission.front = head :: mid) :
    Recovered transmission pTscamDev ↔ RecoveryReady transmission pTscamDev := by
  have finds := transmission.finds
  have decodes := transmission.decodes
  obtain ⟨part, has⟩ := between.hasPart finds decodes
  have numbered := transmission.numbered
  have long := transmission.long
  have code := transmission.code
  have length := transmission.length
  have first : transmission.first = head := by
    rw [Transmission.first, several]
    rfl
  have whole : transmission.context = head.piece ++ contentOf mid ++ transmission.last.piece := by
    rw [Transmission.context, several, contentOf_append, contentOf_cons]
  rw [several] at numbered long code
  obtain ⟨isHead, numberedRest⟩ := numbered
  obtain ⟨numberedMid, isLast⟩ := numberedFrom_append numberedRest
  have comingHead : Coming pTscamDev transmission.cmdCode 1 head := .first isHead long code
  have headLong : 6 ≤ head.piece.length := long
  have lastSome : 0 < transmission.last.piece.length := List.length_pos_iff.mpr isLast.nonempty
  have total : transmission.context.length =
      head.piece.length + (contentOf mid).length + transmission.last.piece.length := by
    rw [whole, List.length_append, List.length_append]
  have later (before : TscamDev)
      (receiving : Receiving before transmission.cmdCode (1 + mid.length)) :
      Coming before transmission.cmdCode (1 + mid.length + 1) transmission.last := by
    refine .later ?_ receiving (by omega)
    rw [Nat.add_right_comm]
    exact isLast
  constructor
  · intro recovered
    obtain ⟨before, after, how, ran, log, rest⟩ := recovered
    have all := ran
    rw [several, analyseFragments_cons] at ran
    cases analysed : tscamCmdAnalyse head.malloc attr pTscamDev head.pkt with
    | error stop =>
      rw [analysed] at ran
      cases ran
    | ok middle =>
      rw [analysed] at ran
      have middleBetween := tscamCmdAnalyse_between between isHead.whole analysed
      obtain ⟨more, logLater⟩ := analyseFragments_log numberedMid ran
      have track (next : Option (Nat × List UInt8))
          (quiet : Quiet transmission.infoSize transmission.cmdCode 1 pTscamDev middle next) :=
        fragments_tracked finds decodes numberedMid (Nat.le_refl 1)
          middleBetween quiet.receiving quiet.has ran
          (log.trans quiet.log.symm)
      have last (beforeBetween : before.Between attr) (hTscam : before.hTscam = pTscamDev.hTscam)
          (receiving : Receiving before transmission.cmdCode (1 + mid.length))
          {left : Option (Nat × List UInt8)}
          (hasLeft : HasPart transmission.infoSize before transmission.cmdCode left) :=
        (recovered_iff_last transmission between all beforeBetween hTscam log
          (later before receiving) hasLeft).mp
          ⟨before, after, how, all, log, rest⟩
      rcases comingHead.taken between finds decodes has analysed with
        ⟨-, -, quiet⟩ | ⟨capacity, content, grows, ⟨-, quiet⟩ | ⟨-, ready, -, readyLog, delivers⟩⟩
      · -- What was refused is missing at the end.
        obtain ⟨beforeBetween, tracked⟩ := track none quiet
        rcases tracked.has with ⟨_, _, never, -⟩ | ⟨-, left, inside, fewer⟩
        · cases never
        · obtain ⟨⟨room, growsLast, complete⟩, -⟩ :=
            last beforeBetween (tracked.hTscam.trans quiet.hTscam) tracked.receiving inside
          rcases left with _ | ⟨old, collected⟩
          · have same := congrArg List.length growsLast.2.2
            omega
          · have bound := fewer old collected rfl
            have same := congrArg List.length growsLast.2
            rw [List.length_append] at same
            omega
      · obtain ⟨beforeBetween, tracked⟩ := track _ quiet
        rcases tracked.has with ⟨room, bytes, same, inside⟩ | ⟨never, -⟩
        · obtain ⟨rfl, rfl⟩ : capacity = room ∧ content = bytes := by simpa using same
          obtain ⟨⟨full, growsLast, complete⟩, ready⟩ :=
            last beforeBetween (tracked.hTscam.trans quiet.hTscam) tracked.receiving inside
          obtain ⟨rfl, sameContext⟩ := growsLast
          have sameHead : content = head.piece := by
            rw [whole, List.append_left_inj, List.append_left_inj]
              at sameContext
            exact sameContext.symm
          refine ⟨⟨part, has, ?_⟩, ready⟩
          rcases part with _ | ⟨old, collected⟩
          · rw [PartReady, first]
            exact grows.1
          · obtain ⟨rfl, rfl⟩ := grows
            exact ⟨complete.symm, List.append_left_eq_self.mp sameHead⟩
        · cases never
      · obtain ⟨now, logged, -⟩ := deliverCmd_log delivers
        rw [logLater, logged, readyLog] at log
        simp at log
  · rintro ⟨⟨other, inside, partReady⟩, ready⟩
    obtain rfl := has.unique inside
    have grows :
        GrowsFrom head.malloc transmission.infoSize pTscamDev
          transmission.cmdCode (head.pkt.drop 13) head.piece part
          transmission.context.length head.piece := by
      rcases part with _ | ⟨old, collected⟩
      · rw [PartReady, first] at partReady
        refine ⟨partReady, ?_, rfl⟩
        have dword := isHead.dword (by omega) (contentOf mid ++ transmission.last.piece)
        rw [← List.append_assoc, ← whole] at dword
        rw [dword]
        exact length.symm
      · obtain ⟨rfl, rfl⟩ := partReady
        exact ⟨rfl, rfl⟩
    have shorter : head.piece.length < transmission.context.length := by omega
    obtain ⟨middle, analysed, middleBetween, quiet, -⟩ :=
      comingHead.forward between finds decodes has grows (Nat.le_of_lt shorter)
        (fun full => by omega)
    have quiet := quiet shorter
    obtain ⟨before, ran, beforeBetween, quietLater⟩ :=
      fragments_forward finds decodes numberedMid (Nat.le_refl 1) middleBetween
        quiet.receiving quiet.has (by omega)
    have all : analyseFragments attr pTscamDev transmission.front = .ok before := by
      rw [several, analyseFragments_cons, analysed]
      exact ran
    refine (recovered_iff_last transmission between all beforeBetween
      (quietLater.hTscam.trans quiet.hTscam) (quietLater.log.trans quiet.log)
      (later before quietLater.receiving) quietLater.has).mpr ⟨?_, ready⟩
    exact ⟨_, ⟨rfl, whole⟩, rfl⟩

theorem recovered_iff (between : pTscamDev.Between attr) :
    Recovered transmission pTscamDev ↔ RecoveryReady transmission pTscamDev := by
  cases shape : transmission.front with
  | nil => exact recovered_iff_single transmission between shape
  | cons head mid => exact recovered_iff_several transmission between shape

/-! ## After any packets -/

inductive RecvEvent
  | packet (malloc : PktMalloc) (pkt : List UInt8) (whole : pkt.length = 184)
  | fetch

def recvEvent (attr : RecvTable) (pTscamDev : TscamDev) : RecvEvent → Except TscmStop TscamDev
  | .packet malloc pkt _ => tscamCmdAnalyse malloc attr pTscamDev pkt
  | .fetch =>
    match tscamCmdFetch queueFuel pTscamDev.hTscam with
    | none => .error .endless
    | some (hTscam, _) => .ok { pTscamDev with hTscam := hTscam }

theorem RecvBounded.tail {held : List (CmdBox CmdContext)}
    (bounded : RecvBounded held) : RecvBounded held.tail where
  short := by
    have short := bounded.short
    rw [List.length_tail]
    omega
  codes := bounded.codes.sublist ((List.tail_sublist held).map _)

theorem recvEvent_between (between : pTscamDev.Between attr) (event : RecvEvent)
    (ran : recvEvent attr pTscamDev event = .ok after) : after.Between attr := by
  cases event with
  | packet malloc pkt whole => exact tscamCmdAnalyse_between between whole ran
  | fetch =>
    obtain ⟨recvNodes, transNodes, held, transHeld, holds, bounded⟩ := between.queues
    have short := bounded.short
    have small : held.length < 2 ^ 32 := by
      unfold tscamMaxQueueSize at short
      omega
    obtain ⟨left, nodes, fetched, leftHolds⟩ :=
      tscamCmdFetch_spec holds (show held.length ≤ queueFuel by unfold queueFuel; omega) small
    rw [recvEvent, fetched] at ran
    cases ran
    exact ⟨between.parsers, nodes, transNodes, held.tail, transHeld, leftHolds, bounded.tail⟩

theorem recvEvents_between {events : List RecvEvent} (between : pTscamDev.Between attr)
    (ran : events.foldlM (recvEvent attr) pTscamDev = .ok after) :
    after.Between attr := by
  induction events generalizing pTscamDev with
  | nil =>
    cases ran
    exact between
  | cons event rest ih =>
    rw [List.foldlM_cons] at ran
    cases went : recvEvent attr pTscamDev event with
    | error stop =>
      rw [went] at ran
      cases ran
    | ok middle =>
      rw [went] at ran
      exact ih (recvEvent_between between event went) ran

/-- Whatever was received and fetched before: when all fragments of a command
arrive in order, it is delivered with their bytes exactly where nothing of an
earlier transmission is left in its parser, and it can be delivered at all. -/
theorem recovered_after (attr : RecvTable) (earlier : List RecvEvent)
    (transmission : Transmission attr) :
    (∃ pTscamDev, earlier.foldlM (recvEvent attr) .create = .ok pTscamDev ∧
      Recovered transmission pTscamDev) ↔
      ∃ pTscamDev, earlier.foldlM (recvEvent attr) .create = .ok pTscamDev ∧
        RecoveryReady transmission pTscamDev :=
  exists_congr fun _ => and_congr_right fun ran =>
    recovered_iff transmission (recvEvents_between .create ran)

theorem not_recovered {stop : TscmStop}
    (stopped :
      analyseFragments attr pTscamDev (transmission.front ++ [transmission.last]) = .error stop) :
    ¬ Recovered transmission pTscamDev := by
  rintro ⟨before, after, how, ran, -, analysed, -⟩
  unfold analyseFragments at ran stopped
  rw [List.foldlM_append, ran] at stopped
  simp only [bind, Except.bind, List.foldlM_cons, analysed] at stopped
  cases stopped

def halfFragment : Bool → RecvFragment
  | true => ⟨noLimit, packetOf 1 6 [0, 0, 0, 11, 0, 1], [0, 0, 0, 11, 0, 1]⟩
  | false => ⟨noLimit, packetOf 2 6 [5, 6, 7, 8, 9, 47], [5, 6, 7, 8, 9, 47]⟩

set_option maxRecDepth 20000 in
theorem halfFragment_isFragment (first : Bool) :
    IsFragment (if first then 1 else 2) (halfFragment first) := by
  cases first
  · exact ⟨rfl, ⟨rfl, rfl⟩, rfl, rfl, rfl, by decide, rfl, by simp [halfFragment]⟩
  · exact ⟨rfl, ⟨rfl, rfl⟩, rfl, rfl, rfl, by decide, rfl, by simp [halfFragment]⟩

def halves : Transmission allCommands where
  front := [halfFragment true]
  last := halfFragment false
  cmdCode := 1
  found := ⟨some ⟨16, by decide⟩, none, none, false⟩
  infoSize := ⟨16, by decide⟩
  finds := rfl
  decodes := rfl
  numbered := ⟨halfFragment_isFragment true, halfFragment_isFragment false, trivial⟩
  long := by decide
  code := rfl
  length := rfl
  summed := by decide

set_option maxRecDepth 20000 in
/-- The first half comes twice, because the second one was lost: the command is not
delivered, and the last half is copied behind the buffer. -/
theorem recovered_after_loss :
    ∃ pTscamDev,
      [RecvEvent.packet noLimit (halfFragment true).pkt rfl].foldlM
          (recvEvent allCommands) .create = .ok pTscamDev ∧
        analyseFragments allCommands pTscamDev [halfFragment true, halfFragment false] =
          .error .buffer ∧
          ¬ Recovered halves pTscamDev :=
  ⟨_, rfl, rfl, not_recovered halves rfl⟩

end IteSdk.Tscam
