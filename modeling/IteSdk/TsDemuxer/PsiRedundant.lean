import IteSdk.TsDemuxer.PsiPacketSafe

/-!
# Packets that repeat their predecessor

A packet with the counter of the packet before it is dropped, unless the decoder
has seen a discontinuity: then it is taken up, and what is being gathered is lost.
-/

namespace IteSdk.TsDemuxer

open Lib

variable {π : Type} {env : PsiEnv π} {packet : TsPacket}

theorem startSection_counter (env : PsiEnv π) (ptDecoder : PsiDecoder π) :
    (ptDecoder.startSection env).1.continuityCounter = ptDecoder.continuityCounter := by
  rw [PsiDecoder.startSection]
  cases env.alloc ptDecoder.allocated with
  | none | some garbage => rfl

theorem deliver_counter (env : PsiEnv π) (ptDecoder : PsiDecoder π) (section_ : PsiSection) :
    (ptDecoder.deliver env section_).continuityCounter = ptDecoder.continuityCounter := by
  rw [PsiDecoder.deliver]
  cases section_.decode with
  | none | some decoded => rfl

theorem goOn_counter (env : PsiEnv π) (cursor : PacketCursor π) :
    (cursor.goOn env).ptDecoder.continuityCounter = cursor.ptDecoder.continuityCounter := by
  have kept := startSection_counter env cursor.ptDecoder
  rw [PacketCursor.goOn]
  cases cursor.beginSection with
  | none => rfl
  | some address =>
    dsimp only
    cases started : cursor.ptDecoder.startSection env with
    | mk ptDecoder success =>
      rw [started] at kept
      cases success with
      | true | false => exact kept

theorem endHeader_counter (env : PsiEnv π) (cursor : PacketCursor π) (section_ : PsiSection) :
    (cursor.endHeader env section_).ptDecoder.continuityCounter =
      cursor.ptDecoder.continuityCounter := by
  rw [PacketCursor.endHeader]
  dsimp only
  split
  · exact goOn_counter env _
  · rfl

variable {cursor next : PacketCursor π}

theorem endSection_counter {section_ : PsiSection}
    (ends : cursor.endSection env packet section_ = .ok next) :
    next.ptDecoder.continuityCounter = cursor.ptDecoder.continuityCounter := by
  rw [PacketCursor.endSection] at ends
  dsimp only at ends
  split at ends
  · cases read : readByte packet cursor.payload with
    | error stop =>
      rw [read] at ends
      cases ends
    | ok byte =>
      rw [read] at ends
      rw [← Except.ok.inj ends]
      exact (goOn_counter env _).trans (deliver_counter env _ _)
  · rw [← Except.ok.inj ends]
    exact (goOn_counter env _).trans (deliver_counter env _ _)

theorem turn_counter (turns : cursor.turn env packet = .ok next) :
    next.ptDecoder.continuityCounter = cursor.ptDecoder.continuityCounter := by
  rw [PacketCursor.turn] at turns
  cases current : cursor.ptDecoder.ptCurrentSection with
  | none =>
    rw [current] at turns
    cases turns
  | some section_ =>
    rw [current] at turns
    dsimp only at turns
    split at turns
    · cases read : section_.copy cursor.ptDecoder.sectionMaxSize packet
          cursor.payload cursor.ptDecoder.needByte with
      | error stop =>
        rw [read] at turns
        cases turns
      | ok copied =>
        rw [read] at turns
        cases complete : cursor.ptDecoder.bCompleteHeader with
        | false =>
          rw [complete] at turns
          rw [← Except.ok.inj turns]
          exact endHeader_counter env _ _
        | true =>
          rw [complete] at turns
          change PacketCursor.endSection env packet
            { cursor with
              payload := cursor.payload + cursor.ptDecoder.needByte
              availableByte := cursor.availableByte - cursor.ptDecoder.needByte }
            copied = .ok next at turns
          have kept := endSection_counter turns
          exact kept
    · cases read : section_.copy cursor.ptDecoder.sectionMaxSize packet
          cursor.payload cursor.availableByte.toNat with
      | error stop =>
        rw [read] at turns
        cases turns
      | ok copied =>
        rw [read] at turns
        rw [← Except.ok.inj turns]

theorem loop_counter {fuel : Nat} {cursor : PacketCursor π}
    {after : PsiDecoder π} (loops : cursor.loop env packet fuel = .ok after) :
    after.continuityCounter = cursor.ptDecoder.continuityCounter := by
  induction fuel generalizing cursor with
  | zero =>
    cases loops
  | succ fuel ih =>
    rw [PacketCursor.loop] at loops
    split at loops
    · cases turns : cursor.turn env packet with
      | error stop =>
        rw [turns] at loops
        cases loops
      | ok next =>
        rw [turns] at loops
        exact (ih loops).trans (turn_counter turns)
    · rw [← Except.ok.inj loops]

variable {ptDecoder after : PsiDecoder π}

theorem decodePayload_counter {payload : Nat} {beginSection : Option Nat}
    (decodes : ptDecoder.decodePayload env packet payload beginSection = .ok after) :
    after.continuityCounter = ptDecoder.continuityCounter := by
  unfold PsiDecoder.decodePayload at decodes
  split at decodes
  · exact loop_counter decodes
  · rw [← Except.ok.inj decodes]
  · have kept := startSection_counter env ptDecoder
    cases started : ptDecoder.startSection env with
    | mk next success =>
      rw [started] at kept decodes
      cases success with
      | true => exact (loop_counter decodes).trans kept
      | false =>
        rw [← Except.ok.inj decodes]
        exact kept

theorem decodeUnit_counter (length : packet.length = tsPacketSize)
    (decodes : ptDecoder.decodeUnit env packet (packet.getD 3 0) = .ok after) :
    after.continuityCounter = ptDecoder.continuityCounter := by
  rw [decodeUnit_eq length] at decodes
  split at decodes
  · split at decodes
    · cases pointer : readByte packet (payloadOffset packet) with
      | error stop =>
        rw [pointer] at decodes
        cases decodes
      | ok pointerField =>
        rw [pointer] at decodes
        exact decodePayload_counter decodes
    · exact decodePayload_counter decodes
  · rw [← Except.ok.inj decodes]

/-- A duplicate of the packet before, or a packet without payload that repeats its
counter. -/
structure Redundant (before packet : TsPacket) : Prop where
  counter : counterOf packet = counterOf before
  repeats : packet = before ∨ ¬HasPayload packet

theorem follow_counter (ptDecoder : PsiDecoder π) (continuityCounter : Nat) :
    (ptDecoder.follow continuityCounter).continuityCounter = continuityCounter := by
  rw [PsiDecoder.follow]
  split <;> rfl

theorem decodePacket_counter
    (ts : IsTsPacket packet) (decodes : ptDecoder.decodePacket env packet = .ok after) :
    after.continuityCounter = counterOf packet := by
  rw [decodePacket_eq ts.length, if_neg (not_not_intro ts.syncByte)] at decodes
  split at decodes
  · rename_i duplicate
    rw [← Except.ok.inj decodes]
    exact duplicate.1.symm
  · exact (decodeUnit_counter ts.length decodes).trans (follow_counter _ _)

/-- What a redundant packet needs to be harmless: no discontinuity is pending, or
there is nothing to lose and nothing that the packet starts. -/
def Harmless (ptDecoder : PsiDecoder π) (packet : TsPacket) : Prop :=
  ptDecoder.bDiscontinuity = false ∨
    ptDecoder.ptCurrentSection = none ∧ ¬(HasPayload packet ∧ StartsUnit packet)

theorem decodePacket_duplicate {ptDecoder : PsiDecoder π} (ts : IsTsPacket packet)
    (counter : counterOf packet = ptDecoder.continuityCounter)
    (clear : ptDecoder.bDiscontinuity = false) :
    ptDecoder.decodePacket env packet = .ok ptDecoder := by
  rw [decodePacket_eq ts.length, if_neg (not_not_intro ts.syncByte), if_pos ⟨counter, clear⟩]

variable {ptDecoder : PsiDecoder π}

/-- A packet with the last counter leaves a decoder as it is that has lost its
section already. -/
theorem follow_same
    (pending : ptDecoder.bDiscontinuity = true) (idle : ptDecoder.ptCurrentSection = none) :
    ptDecoder.follow ptDecoder.continuityCounter = ptDecoder := by
  rw [PsiDecoder.follow, if_neg (by omega)]
  rw [← pending, ← idle]

theorem decodePacket_harmless
    (ts : IsTsPacket packet) (counter : counterOf packet = ptDecoder.continuityCounter)
    (harmless : Harmless ptDecoder packet) :
    ptDecoder.decodePacket env packet = .ok ptDecoder := by
  cases flag : ptDecoder.bDiscontinuity with
  | false => exact decodePacket_duplicate ts counter flag
  | true =>
    rcases harmless with clear | ⟨idle, nothing⟩
    · rw [flag] at clear
      cases clear
    have pending : ¬(counterOf packet = ptDecoder.continuityCounter ∧
        ptDecoder.bDiscontinuity = false) := by
      rw [flag]
      exact fun duplicate => by cases duplicate.2
    rw [decodePacket_eq ts.length, if_neg (not_not_intro ts.syncByte),
      if_neg pending, counter, follow_same flag idle, decodeUnit_eq ts.length]
    split
    · rename_i payload
      rw [if_neg fun starts => nothing ⟨payload, starts⟩]
      unfold PsiDecoder.decodePayload
      rw [idle]
    · rfl

abbrev RunPacket := TsPacket × Bool

def RedundantIn : Option TsPacket → List RunPacket → Prop
  | _, [] => True
  | before, (packet, putIn) :: rest =>
    IsTsPacket packet ∧
      (putIn = true → ∃ previous, before = some previous ∧ Redundant previous packet) ∧
      RedundantIn (some packet) rest

/-- Every packet that has been put in is harmless where it comes. -/
def HarmlessIn (env : PsiEnv π) : PsiDecoder π → List RunPacket → Prop
  | _, [] => True
  | ptDecoder, (packet, putIn) :: rest =>
    (putIn = true → Harmless ptDecoder packet) ∧
      ∀ after, ptDecoder.decodePacket env packet = .ok after → HarmlessIn env after rest

def plainPackets (run : List RunPacket) : List TsPacket :=
  (run.filter fun packet => !packet.2).map Prod.fst

def allPackets (run : List RunPacket) : List TsPacket := run.map Prod.fst

theorem decodePackets_plain {before : Option TsPacket} {run : List RunPacket}
    (counter : ∀ previous, before = some previous →
      ptDecoder.continuityCounter = counterOf previous)
    (redundant : RedundantIn before run) (harmless : HarmlessIn env ptDecoder run) :
    ptDecoder.decodePackets env (allPackets run) =
      ptDecoder.decodePackets env (plainPackets run) := by
  induction run generalizing ptDecoder before with
  | nil => rfl
  | cons first rest ih =>
    rcases first with ⟨packet, putIn⟩
    obtain ⟨ts, repeats, redundantRest⟩ := redundant
    obtain ⟨harmlessHere, harmlessRest⟩ := harmless
    have follows (after : PsiDecoder π)
        (decodes : ptDecoder.decodePacket env packet = .ok after) :
        after.decodePackets env (allPackets rest) =
          after.decodePackets env (plainPackets rest) := by
      refine ih (fun previous same => ?_) redundantRest (harmlessRest after decodes)
      rw [← Option.some.inj same]
      exact decodePacket_counter ts decodes
    change ptDecoder.decodePackets env (packet :: allPackets rest) = _
    rw [PsiDecoder.decodePackets]
    cases putIn with
    | true =>
      obtain ⟨previous, rfl, same⟩ := repeats rfl
      have stays : ptDecoder.decodePacket env packet = .ok ptDecoder :=
        decodePacket_harmless ts (same.counter.trans (counter previous rfl).symm) (harmlessHere rfl)
      rw [stays]
      exact follows ptDecoder stays
    | false =>
      change _ = ptDecoder.decodePackets env (packet :: plainPackets rest)
      rw [PsiDecoder.decodePackets]
      cases decodes : ptDecoder.decodePacket env packet with
      | error stop => rfl
      | ok after => exact follows after decodes

def plainPacket (unitStart counter : UInt8) (payload : List UInt8) : TsPacket :=
  [0x47, unitStart, 0x00, 0x10 + counter] ++ payload

/-- The begin of a section with 203 bytes, of which 183 are here. -/
def beginPacket : TsPacket :=
  plainPacket 0x40 5 (0x00 :: 0x70 :: 0x00 :: 200 :: List.replicate 180 0x11)

def endPacket : TsPacket := plainPacket 0x00 6 (List.replicate 20 0x11 ++ List.replicate 164 0xFF)

def fieldPacket : TsPacket := [0x47, 0x00, 0x00, 0x25, 183] ++ List.replicate 183 0xFF

def shortPacket : TsPacket :=
  plainPacket 0x40 5 (0x00 :: 0x70 :: 0x00 :: 0x00 :: List.replicate 180 0xFF)

/-- How many sections are handed over in a run from the begin. -/
def deliveredCount (keeps : Bool) (packets : List TsPacket) : Option Nat :=
  (((PsiDecoder.attach 1024 ()).decodePackets (flagEnv keeps) packets).map
    fun after => after.delivered.length).toOption

/-- Redundant packets change nothing where each of them is harmless. -/
theorem redundant_harmless (env : PsiEnv π) (sectionMaxSize : Nat)
    (privateDecoder : π) (run : List RunPacket) (redundant : RedundantIn none run)
    (harmless : HarmlessIn env (.attach sectionMaxSize privateDecoder) run) :
    (PsiDecoder.attach sectionMaxSize privateDecoder).decodePackets env (allPackets run) =
      (PsiDecoder.attach sectionMaxSize privateDecoder).decodePackets env (plainPackets run) :=
  decodePackets_plain (fun _ none_ => by cases none_) redundant harmless

theorem redundant_harmless_short :
    deliveredCount false [shortPacket, shortPacket] = deliveredCount false [shortPacket] := by
  have cleared :
      ((PsiDecoder.attach 1024 ()).decodePacket (flagEnv false)
        shortPacket).toOption.map PsiDecoder.bDiscontinuity = some false := by
    decide +kernel
  have harmless : HarmlessIn (flagEnv false) (.attach 1024 ())
      [(shortPacket, false), (shortPacket, true)] := by
    refine ⟨fun putIn => absurd putIn (by decide), fun after decodes =>
      ⟨fun _ => Or.inl ?_, fun _ _ => trivial⟩⟩
    rw [decodes] at cleared
    exact Option.some.inj cleared
  have same := redundant_harmless (flagEnv false) 1024 ()
    [(shortPacket, false), (shortPacket, true)]
    ⟨⟨rfl, rfl⟩, fun putIn => absurd putIn (by decide), ⟨rfl, rfl⟩,
      fun _ => ⟨shortPacket, rfl, rfl, Or.inl rfl⟩, trivial⟩ harmless
  exact congrArg (fun run => (run.map fun after => after.delivered.length).toOption) same

/-- Before the first section, each of them loses a section to a packet without
payload; one that never clears the flag takes up a duplicate again. -/
theorem redundant_changes :
    RedundantIn none [(beginPacket, false), (fieldPacket, true), (endPacket, false)] ∧
      (∀ keeps,
        deliveredCount keeps [beginPacket, endPacket] = some 1 ∧
          deliveredCount keeps [beginPacket, fieldPacket, endPacket] = some 0) ∧
      RedundantIn none [(shortPacket, false), (shortPacket, true)] ∧
      deliveredCount true [shortPacket] = some 1 ∧
      deliveredCount true [shortPacket, shortPacket] = some 2 := by
  refine ⟨?_, by decide +kernel, ?_, by decide +kernel, by decide +kernel⟩
  · exact ⟨⟨rfl, rfl⟩, fun putIn => absurd putIn (by decide), ⟨rfl, rfl⟩,
      fun _ => ⟨beginPacket, rfl, rfl, Or.inr (by decide)⟩,
      ⟨rfl, rfl⟩, fun putIn => absurd putIn (by decide), trivial⟩
  · exact ⟨⟨rfl, rfl⟩, fun putIn => absurd putIn (by decide), ⟨rfl, rfl⟩,
      fun _ => ⟨shortPacket, rfl, rfl, Or.inl rfl⟩, trivial⟩

end IteSdk.TsDemuxer
