import IteSdk.TsDemuxer.PsiPacket
import Mathlib.Data.List.GetD

/-!
# The decoder under arbitrary packets

Every call ends, the section buffer is never left, and what is handed over has its
full length and a valid checksum.  The packet is left only where the adaptation
field of a packet that starts a unit reaches to its end.
-/

namespace IteSdk.TsDemuxer

open Lib

variable {π : Type} {env : PsiEnv π} {packet : TsPacket}

/-- A section that is being gathered, with the bytes that it still needs. -/
structure Gathering (ptDecoder : PsiDecoder π) (section_ : PsiSection) :
    Prop where
  room : section_.data.length + ptDecoder.needByte ≤ ptDecoder.sectionMaxSize
  payloadEnd : section_.payloadEnd = section_.data.length
  header :
    ptDecoder.bCompleteHeader = false →
      section_.data.length + ptDecoder.needByte = privateSectionHeaderSize ∧ 0 < ptDecoder.needByte
  body :
    ptDecoder.bCompleteHeader = true →
      section_.data.length + ptDecoder.needByte = privateSectionHeaderSize + section_.sectionLength

def Valid (section_ : PsiSection) : Prop :=
  section_.sectionSyntaxIndicator = 1 →
    section_.data.length = 3 + section_.sectionLength ∧ crcOf section_.data = 0

structure PsiSound (ptDecoder : PsiDecoder π) : Prop where
  large : privateSectionHeaderSize ≤ ptDecoder.sectionMaxSize
  small : ptDecoder.sectionMaxSize < 2 ^ 32
  gathering : ∀ section_, ptDecoder.ptCurrentSection = some section_ → Gathering ptDecoder section_
  delivered : ∀ section_ ∈ ptDecoder.delivered, Valid section_

theorem map_byte_range (section_ : PsiSection) :
    (List.range section_.data.length).map section_.byte = section_.data := by
  apply List.ext_getElem
  · rw [List.length_map, List.length_range]
  · intro i inside inside'
    rw [List.getElem_map, List.getElem_range, PsiSection.byte, List.getD_eq_getElem _ _ inside']

theorem decode_valid {section_ decoded : PsiSection}
    (payloadEnd : section_.payloadEnd = section_.data.length)
    (length : section_.data.length = 3 + section_.sectionLength)
    (decodes : section_.decode = some decoded) : Valid decoded := by
  intro generic
  rw [PsiSection.decode] at decodes
  split at decodes
  · rename_i syntax_
    split at decodes
    · rename_i verified
      obtain rfl := Option.some.inj decodes
      refine ⟨length, ?_⟩
      have cut : section_.readHeader.cutChecksum.payloadEnd + 4 =
          section_.data.length := by
        rw [← payloadEnd]
        exact Int.sub_add_cancel _ _
      rw [PsiSection.verifySection, PsiSection.cutChecksum, if_pos syntax_]
        at verified
      change decide (crcOf ((List.range
        (section_.readHeader.cutChecksum.payloadEnd + 4).toNat).map
          section_.byte) = 0) = true at verified
      rw [cut, Int.toNat_natCast] at verified
      have bytes := map_byte_range section_
      have zero := of_decide_eq_true verified
      exact (congrArg crcOf bytes).symm.trans zero
    · cases decodes
  · rename_i private_
    obtain rfl := Option.some.inj decodes
    exact absurd (generic.trans_ne Nat.one_ne_zero) private_

/-! ## The loop -/

structure CursorOk (cursor : PacketCursor π) : Prop where
  sound : PsiSound cursor.ptDecoder
  current : 0 < cursor.availableByte → cursor.ptDecoder.ptCurrentSection.isSome = true
  inside : 0 < cursor.availableByte → (cursor.payload : Int) + cursor.availableByte = tsPacketSize

/-- A bound for the turns of the loop: a turn takes bytes from the packet, or ends a
section, or goes back to where a section begins, which it does once. -/
def turnsLeft (cursor : PacketCursor π) : Nat :=
  if cursor.availableByte ≤ 0 then
    0
  else
    2 * cursor.availableByte.toNat + (if cursor.ptDecoder.bCompleteHeader = true then 1 else 0) +
      (if cursor.beginSection.isSome = true then 400 else 0)

variable {ptDecoder : PsiDecoder π} {cursor : PacketCursor π} {section_ : PsiSection}

theorem startSection_sound (env : PsiEnv π)
    (sound : PsiSound { ptDecoder with ptCurrentSection := none }) :
    PsiSound (ptDecoder.startSection env).1 ∧
      ((ptDecoder.startSection env).2 = true →
        (ptDecoder.startSection env).1.ptCurrentSection.isSome = true ∧
          (ptDecoder.startSection env).1.bCompleteHeader = false) := by
  rw [PsiDecoder.startSection]
  cases env.alloc ptDecoder.allocated with
  | none =>
    refine ⟨⟨sound.large, sound.small, by nofun, sound.delivered⟩, by nofun⟩
  | some garbage =>
    refine ⟨⟨sound.large, sound.small, ?_, sound.delivered⟩, fun _ => ⟨rfl, rfl⟩⟩
    intro section_ same
    obtain rfl := Option.some.inj same
    refine ⟨?_, rfl, fun _ => ⟨rfl, Nat.succ_pos 2⟩, by nofun⟩
    have large := sound.large
    exact large

theorem goOn_ok (env : PsiEnv π)
    (sound : PsiSound { cursor.ptDecoder with ptCurrentSection := none })
    (current : cursor.beginSection = none → cursor.ptDecoder.ptCurrentSection = none) :
    CursorOk (cursor.goOn env) ∧
      ((cursor.goOn env).availableByte = 0 ∨
        ∃ address, cursor.beginSection = some address ∧
          (cursor.goOn env).availableByte = (tsPacketSize : Int) - address ∧
          (cursor.goOn env).ptDecoder.bCompleteHeader = false ∧
          (cursor.goOn env).beginSection = none) := by
  rw [PacketCursor.goOn]
  cases begins : cursor.beginSection with
  | none =>
    refine ⟨⟨?_, by nofun, by nofun⟩, Or.inl rfl⟩
    have none_ := current begins
    refine ⟨sound.large, sound.small, ?_, sound.delivered⟩
    intro section_ same
    rw [none_] at same
    cases same
  | some address =>
    obtain ⟨soundNext, starts⟩ := startSection_sound env sound
    dsimp only
    cases started : cursor.ptDecoder.startSection env with
    | mk ptDecoder success =>
      rw [started] at soundNext starts
      cases success with
      | true =>
        obtain ⟨some_, header⟩ := starts rfl
        refine ⟨⟨soundNext, fun _ => some_, fun _ => ?_⟩, Or.inr ⟨address, rfl, rfl, header, rfl⟩⟩
        dsimp only
        omega
      | false =>
        exact ⟨⟨soundNext, by nofun, by nofun⟩, Or.inl rfl⟩

theorem turnsLeft_of_zero (ends : cursor.availableByte = 0) : turnsLeft cursor = 0 := by
  rw [turnsLeft, if_pos (Int.le_of_eq ends)]

theorem turnsLeft_of_pos (more : 0 < cursor.availableByte) :
    turnsLeft cursor =
      2 * cursor.availableByte.toNat +
        (if cursor.ptDecoder.bCompleteHeader = true then 1 else 0) +
        (if cursor.beginSection.isSome = true then 400 else 0) :=
  if_neg (by omega)

theorem turnsLeft_pos (more : 0 < cursor.availableByte) : 0 < turnsLeft cursor := by
  rw [turnsLeft_of_pos more]
  omega

theorem goOn_turnsLeft {cursor next : PacketCursor π}
    (sound : PsiSound { next.ptDecoder with ptCurrentSection := none })
    (current : next.beginSection = none → next.ptDecoder.ptCurrentSection = none)
    (more : 0 < cursor.availableByte)
    (nearer : ∀ address, next.beginSection = some address →
      cursor.beginSection = some address ∨
        ((tsPacketSize : Int) - address ≤ cursor.availableByte ∧
          cursor.ptDecoder.bCompleteHeader = true)) :
    turnsLeft (next.goOn env) < turnsLeft cursor := by
  obtain ⟨_, ends | ⟨address, begins, available, header, alone⟩⟩ := goOn_ok env sound current
  · rw [turnsLeft_of_zero ends]
    exact turnsLeft_pos more
  · rw [turnsLeft_of_pos more, turnsLeft]
    split
    · omega
    · rw [header, alone]
      rcases nearer address begins with same | ⟨less, complete⟩
      · have bound : (next.goOn env).availableByte ≤ 188 := by
          rw [available, tsPacketSize]
          omega
        rw [same]
        simp only [Bool.false_eq_true, ↓reduceIte, Option.isSome_none, Option.isSome_some]
        omega
      · rw [complete]
        simp only [Bool.false_eq_true, ↓reduceIte, Option.isSome_none]
        omega

theorem readBytes_inside {i count : Nat} (length : packet.length = tsPacketSize)
    (inside : i + count ≤ tsPacketSize) :
    ∃ bytes, readBytes packet i count = .ok bytes ∧ bytes.length = count := by
  rw [← length] at inside
  refine ⟨_, if_pos inside, ?_⟩
  rw [List.length_take, List.length_drop]
  omega

theorem copy_inside {sectionMaxSize i count : Nat}
    (length : packet.length = tsPacketSize) (inside : i + count ≤ tsPacketSize)
    (room : section_.data.length + count ≤ sectionMaxSize) :
    ∃ bytes, section_.copy sectionMaxSize packet i count =
      .ok (section_.append bytes) ∧ bytes.length = count := by
  obtain ⟨bytes, read, size⟩ := readBytes_inside length inside
  refine ⟨bytes, ?_, size⟩
  rw [PsiSection.copy, read]
  exact if_pos room

theorem readByte_inside {i : Nat} (length : packet.length = tsPacketSize)
    (inside : i < tsPacketSize) : readByte packet i = .ok (packet.getD i 0) := by
  rw [← length] at inside
  rw [readByte, List.getElem?_eq_getElem inside, List.getD_eq_getElem _ _ inside]

theorem PsiSound.drop (sound : PsiSound ptDecoder) :
    PsiSound { ptDecoder with ptCurrentSection := none } :=
  ⟨sound.large, sound.small, by nofun, sound.delivered⟩

theorem deliver_sound (env : PsiEnv π) (sound : PsiSound ptDecoder)
    (payloadEnd : section_.payloadEnd = section_.data.length)
    (length : section_.data.length = 3 + section_.sectionLength) :
    PsiSound { ptDecoder.deliver env section_ with ptCurrentSection := none } := by
  rw [PsiDecoder.deliver]
  cases decodes : section_.decode with
  | none => exact sound.drop
  | some decoded =>
    refine ⟨sound.large, sound.small, by nofun, ?_⟩
    intro other member
    rcases List.mem_append.mp member with before | here
    · exact sound.delivered other before
    · rw [List.mem_singleton.mp here]
      exact decode_valid payloadEnd length decodes

structure Moved (cursor moved : PacketCursor π) : Prop where
  sound : PsiSound { moved.ptDecoder with ptCurrentSection := none }
  beginSection : moved.beginSection = cursor.beginSection
  more : 0 < cursor.availableByte
  nonneg : 0 ≤ moved.availableByte
  inside : (moved.payload : Int) + moved.availableByte = tsPacketSize
  less : moved.availableByte ≤ cursor.availableByte

theorem endHeader_ok {cursor moved : PacketCursor π} (moves : Moved cursor moved)
    (less : moved.availableByte < cursor.availableByte)
    (header : section_.data.length = privateSectionHeaderSize)
    (payloadEnd : section_.payloadEnd = section_.data.length) :
    CursorOk (moved.endHeader env section_) ∧
      turnsLeft (moved.endHeader env section_) < turnsLeft cursor := by
  have large := moves.sound.large
  have small := moves.sound.small
  dsimp only at large small
  rw [PacketCursor.endHeader]
  dsimp only
  split
  · have sound : PsiSound
        { moved.ptDecoder with
          ptCurrentSection := none, bCompleteHeader := true
          needByte := section_.lengthField } :=
      ⟨large, small, by nofun, moves.sound.delivered⟩
    refine ⟨(goOn_ok env sound fun _ => rfl).1, ?_⟩
    refine goOn_turnsLeft sound (fun _ => rfl) moves.more fun address begins => ?_
    exact Or.inl (moves.beginSection.symm.trans begins)
  · rename_i fits
    refine ⟨⟨⟨large, small, ?_, moves.sound.delivered⟩, fun _ => rfl, fun _ => moves.inside⟩, ?_⟩
    · intro other same
      obtain rfl := Option.some.inj same
      refine ⟨?_, payloadEnd, by nofun, fun _ => ?_⟩
      · dsimp only
        rw [privateSectionHeaderSize] at large header fits
        omega
      · dsimp only
        rw [header]
    · have more := moves.more
      rw [turnsLeft_of_pos more, turnsLeft]
      dsimp only
      rw [moves.beginSection]
      split
      · omega
      · simp only [↓reduceIte]
        omega

section

variable (length : packet.length = tsPacketSize)

include length

theorem endSection_ok {cursor moved : PacketCursor π} (moves : Moved cursor moved)
    (complete : cursor.ptDecoder.bCompleteHeader = true) (soundHere : PsiSound moved.ptDecoder)
    (payloadEnd : section_.payloadEnd = section_.data.length)
    (whole : section_.data.length = 3 + section_.sectionLength) :
    ∃ next, moved.endSection env packet section_ = .ok next ∧
      CursorOk next ∧ turnsLeft next < turnsLeft cursor := by
  have sound := deliver_sound env soundHere payloadEnd whole
  rw [PacketCursor.endSection]
  dsimp only
  split
  · rename_i condition
    have positive : 0 < moved.availableByte := by
      have nonneg := moves.nonneg
      omega
    have here : moved.payload < tsPacketSize := by
      have inside := moves.inside
      omega
    rw [readByte_inside length here]
    refine ⟨_, rfl, (goOn_ok env sound fun _ => rfl).1, ?_⟩
    refine goOn_turnsLeft sound (fun _ => rfl) moves.more fun address begins => ?_
    dsimp only at begins
    split at begins
    · obtain rfl := Option.some.inj begins
      refine Or.inr ⟨?_, complete⟩
      have inside := moves.inside
      have less := moves.less
      omega
    · cases begins
  · refine ⟨_, rfl, (goOn_ok env sound fun _ => rfl).1, ?_⟩
    refine goOn_turnsLeft sound (fun _ => rfl) moves.more fun address begins => ?_
    exact Or.inl (moves.beginSection.symm.trans begins)

theorem turn_ok (ok : CursorOk cursor) (more : 0 < cursor.availableByte) :
    ∃ next, cursor.turn env packet = .ok next ∧ CursorOk next ∧
      turnsLeft next < turnsLeft cursor := by
  obtain ⟨section_, current⟩ := Option.isSome_iff_exists.mp (ok.current more)
  have gathering := ok.sound.gathering section_ current
  have inside := ok.inside more
  rw [PacketCursor.turn, current]
  dsimp only
  split
  · rename_i enough
    obtain ⟨bytes, read, count⟩ := copy_inside length
      (by omega : cursor.payload + cursor.ptDecoder.needByte ≤ tsPacketSize)
      gathering.room
    have moves : Moved cursor
        { cursor with
          payload := cursor.payload + cursor.ptDecoder.needByte
          availableByte := cursor.availableByte - cursor.ptDecoder.needByte } := by
      refine ⟨ok.sound.drop, rfl, more, ?_, ?_, ?_⟩
      · dsimp only
        omega
      · dsimp only
        omega
      · dsimp only
        omega
    have appended : (section_.append bytes).data.length =
        section_.data.length + cursor.ptDecoder.needByte := by
      rw [PsiSection.append, List.length_append, count]
    have payloadEnd : (section_.append bytes).payloadEnd =
        (section_.append bytes).data.length := by
      rw [appended, PsiSection.append, gathering.payloadEnd, count]
      rfl
    rw [read]
    cases complete : cursor.ptDecoder.bCompleteHeader with
    | false =>
      obtain ⟨three, positive⟩ := gathering.header complete
      have less : cursor.availableByte - cursor.ptDecoder.needByte < cursor.availableByte := by
        omega
      exact ⟨_, rfl, endHeader_ok moves less (appended.trans three) payloadEnd⟩
    | true =>
      have whole := gathering.body complete
      exact endSection_ok length moves complete
        (⟨ok.sound.large, ok.sound.small, ok.sound.gathering,
          ok.sound.delivered⟩) payloadEnd (appended.trans whole)
  · rename_i short
    have room := gathering.room
    have fits : section_.data.length + cursor.availableByte.toNat ≤
        cursor.ptDecoder.sectionMaxSize := by
      omega
    obtain ⟨bytes, read, count⟩ := copy_inside length
      (by omega : cursor.payload + cursor.availableByte.toNat ≤ tsPacketSize) fits
    rw [read]
    have appended : (section_.append bytes).data.length =
        section_.data.length + cursor.availableByte.toNat := by
      rw [PsiSection.append, List.length_append, count]
    refine ⟨_, rfl, ⟨⟨ok.sound.large, ok.sound.small, ?_, ok.sound.delivered⟩,
      by nofun, by nofun⟩, ?_⟩
    · intro other same
      obtain rfl := Option.some.inj same
      refine ⟨?_, ?_, fun header => ?_, fun body => ?_⟩
      · rw [appended]
        dsimp only
        omega
      · rw [appended, PsiSection.append, gathering.payloadEnd, count]
        rfl
      · obtain ⟨three, positive⟩ := gathering.header header
        rw [appended]
        dsimp only
        omega
      · have whole := gathering.body body
        rw [appended]
        dsimp only [PsiSection.append]
        omega
    · rw [turnsLeft_of_zero rfl]
      exact turnsLeft_pos more

theorem loop_ok {fuel : Nat} (ok : CursorOk cursor) (enough : turnsLeft cursor < fuel) :
    ∃ after, cursor.loop env packet fuel = .ok after ∧ PsiSound after := by
  induction fuel generalizing cursor with
  | zero =>
    omega
  | succ fuel ih =>
    rw [PacketCursor.loop]
    split
    · rename_i more
      obtain ⟨next, turns, okNext, nearer⟩ := turn_ok length ok more
      obtain ⟨after, loops, sound⟩ := ih okNext (by omega)
      refine ⟨after, ?_, sound⟩
      rw [turns]
      exact loops
    · exact ⟨_, rfl, ok.sound⟩

theorem decodePayload_ok (sound : PsiSound ptDecoder) (payload : Nat) (beginSection : Option Nat) :
    ∃ after,
      ptDecoder.decodePayload env packet payload beginSection = .ok after ∧ PsiSound after := by
  have enough (cursor : PacketCursor π) (inside : cursor.availableByte ≤ tsPacketSize) :
      turnsLeft cursor < packetTurns := by
    rw [tsPacketSize] at inside
    rw [turnsLeft, packetTurns]
    split
    · omega
    · split <;> split <;> omega
  unfold PsiDecoder.decodePayload
  split
  · rename_i section_ current
    refine loop_ok length ⟨sound, fun _ => ?_, fun _ => ?_⟩ (enough _ (by dsimp only; omega))
    · exact Option.isSome_iff_exists.mpr ⟨section_, current⟩
    · dsimp only
      omega
  · exact ⟨ptDecoder, rfl, sound⟩
  · rename_i address none_
    obtain ⟨soundNext, starts⟩ := startSection_sound env sound.drop
    cases started : ptDecoder.startSection env with
    | mk next success =>
      rw [started] at soundNext starts
      cases success with
      | true =>
        refine loop_ok length ⟨soundNext, fun _ => (starts rfl).1, fun _ => ?_⟩
          (enough _ (by dsimp only; omega))
        dsimp only
        omega
      | false =>
        exact ⟨next, rfl, soundNext⟩

end

/-! ## Packets -/

/-- `continuity_counter`. -/
def counterOf (packet : TsPacket) : Nat := (packet.getD 3 0).toNat % 16

def HasPayload (packet : TsPacket) : Prop := (packet.getD 3 0).toNat / 16 % 2 = 1
deriving Decidable

def StartsUnit (packet : TsPacket) : Prop := (packet.getD 1 0).toNat / 64 % 2 = 1
deriving Decidable

structure IsTsPacket (packet : TsPacket) : Prop where
  length : packet.length = tsPacketSize
  syncByte : packet.getD 0 0 = validSyncByte

def HasField (packet : TsPacket) : Prop := (packet.getD 3 0).toNat / 32 % 2 = 1
deriving Decidable

def payloadOffset (packet : TsPacket) : Nat :=
  if HasField packet then 5 + (packet.getD 4 0).toNat else 4

/-- A packet that is taken up, starts a unit, and has an adaptation field that
leaves no byte for the payload. -/
structure Overreads (ptDecoder : PsiDecoder π) (packet : TsPacket) : Prop where
  syncByte : packet.getD 0 0 = validSyncByte
  fresh : ¬(counterOf packet = ptDecoder.continuityCounter ∧ ptDecoder.bDiscontinuity = false)
  payload : HasPayload packet
  adaptationField : HasField packet
  unitStart : StartsUnit packet
  long : tsPacketSize ≤ 5 + (packet.getD 4 0).toNat

theorem follow_sound (sound : PsiSound ptDecoder)
    (continuityCounter : Nat) : PsiSound (ptDecoder.follow continuityCounter) := by
  rw [PsiDecoder.follow]
  split
  · refine ⟨sound.large, sound.small, fun section_ same => ?_, sound.delivered⟩
    have gathering := sound.gathering section_ same
    exact ⟨gathering.room, gathering.payloadEnd, gathering.header, gathering.body⟩
  · exact ⟨sound.large, sound.small, by nofun, sound.delivered⟩

section

variable (length : packet.length = tsPacketSize)

include length

theorem readByte_outside {i : Nat} (outside : tsPacketSize ≤ i) :
    readByte packet i = .error .outside := by
  rw [← length] at outside
  rw [readByte, List.getElem?_eq_none outside]

theorem payloadAddress_ok :
    payloadAddress packet (packet.getD 3 0) = .ok (payloadOffset packet) := by
  rw [payloadAddress, payloadOffset]
  change (if HasField packet then _ else _) = _
  by_cases field : HasField packet
  · rw [if_pos field, if_pos field, readByte_inside length (by decide)]
    rfl
  · rw [if_neg field, if_neg field]
    rfl

theorem payloadUnitStart_ok : payloadUnitStart packet = .ok (decide (StartsUnit packet)) := by
  rw [payloadUnitStart, readByte_inside length (by decide)]
  rfl

theorem decodeUnit_eq :
    ptDecoder.decodeUnit env packet (packet.getD 3 0) =
      if HasPayload packet then
        if StartsUnit packet then
          readByte packet (payloadOffset packet) >>= fun pointerField =>
            ptDecoder.decodePayload env packet (payloadOffset packet + 1)
              (some (payloadOffset packet + 1 + pointerField.toNat))
        else
          ptDecoder.decodePayload env packet (payloadOffset packet) none
      else
        .ok ptDecoder := by
  rw [PsiDecoder.decodeUnit]
  by_cases payload : HasPayload packet
  · rw [if_neg (Nat.mod_two_ne_zero.mpr payload), if_pos payload,
      payloadAddress_ok length, payloadUnitStart_ok length]
    by_cases starts : StartsUnit packet
    · rw [if_pos starts, decide_eq_true starts]
      rfl
    · rw [if_neg starts, decide_eq_false starts]
      rfl
  · rw [if_pos (Nat.mod_two_ne_one.mp payload), if_neg payload]
    rfl

theorem decodePacket_eq :
    ptDecoder.decodePacket env packet =
      if packet.getD 0 0 ≠ validSyncByte then
        .ok ptDecoder
      else if counterOf packet = ptDecoder.continuityCounter ∧
          ptDecoder.bDiscontinuity = false then
        .ok ptDecoder
      else
        (ptDecoder.follow (counterOf packet)).decodeUnit env packet (packet.getD 3 0) := by
  rw [PsiDecoder.decodePacket, readByte_inside length (by decide),
    readByte_inside length (by decide)]
  rfl

theorem decodePacket_outside (overreads : Overreads ptDecoder packet) :
    ptDecoder.decodePacket env packet = .error .outside := by
  have outside : tsPacketSize ≤ payloadOffset packet := by
    rw [payloadOffset, if_pos overreads.adaptationField]
    exact overreads.long
  rw [decodePacket_eq length, if_neg (not_not_intro overreads.syncByte),
    if_neg overreads.fresh, decodeUnit_eq length, if_pos overreads.payload,
    if_pos overreads.unitStart, readByte_outside length outside]
  rfl

end

theorem decodePacket_ok (env : PsiEnv π)
    (length : packet.length = tsPacketSize) (sound : PsiSound ptDecoder)
    (stays : ¬Overreads ptDecoder packet) :
    ∃ after, ptDecoder.decodePacket env packet = .ok after ∧ PsiSound after := by
  rw [decodePacket_eq length]
  split
  · exact ⟨ptDecoder, rfl, sound⟩
  rename_i syncByte
  split
  · exact ⟨ptDecoder, rfl, sound⟩
  rename_i fresh
  have followed := follow_sound sound (counterOf packet)
  rw [decodeUnit_eq length]
  split
  · rename_i payload
    split
    · rename_i unitStart
      have inside : payloadOffset packet < tsPacketSize := by
        rw [payloadOffset]
        split
        · rename_i field
          by_contra long
          exact stays ⟨not_not.mp syncByte, fresh, payload, field, unitStart, Nat.le_of_not_lt long⟩
        · decide
      rw [readByte_inside length inside]
      exact decodePayload_ok length followed _ _
    · exact decodePayload_ok length followed _ _
  · exact ⟨_, rfl, followed⟩

theorem attach_sound {sectionMaxSize : Nat} (privateDecoder : π)
    (large : privateSectionHeaderSize ≤ sectionMaxSize) (small : sectionMaxSize < 2 ^ 32) :
    PsiSound (PsiDecoder.attach sectionMaxSize privateDecoder) :=
  ⟨large, small, by nofun, by nofun⟩

def StaysInside (env : PsiEnv π) : PsiDecoder π → List TsPacket → Prop
  | _, [] => True
  | ptDecoder, packet :: rest =>
    ¬Overreads ptDecoder packet ∧
      ∀ after, ptDecoder.decodePacket env packet = .ok after → StaysInside env after rest

theorem decodePackets_ok {packets : List TsPacket} (sound : PsiSound ptDecoder)
    (lengths : ∀ packet ∈ packets, packet.length = tsPacketSize)
    (inside : StaysInside env ptDecoder packets) :
    ∃ after, ptDecoder.decodePackets env packets = .ok after ∧ PsiSound after := by
  induction packets generalizing ptDecoder with
  | nil =>
    exact ⟨ptDecoder, rfl, sound⟩
  | cons packet rest ih =>
    obtain ⟨here, later⟩ := inside
    have length := lengths packet List.mem_cons_self
    obtain ⟨next, decodes, soundNext⟩ := decodePacket_ok env length sound here
    obtain ⟨after, runs, soundAfter⟩ := ih soundNext
      (fun other member => lengths other (List.mem_cons_of_mem _ member))
      (later next decodes)
    refine ⟨after, ?_, soundAfter⟩
    rw [PsiDecoder.decodePackets, decodes]
    exact runs

theorem decodePackets_outside {packets : List TsPacket} (sound : PsiSound ptDecoder)
    (lengths : ∀ packet ∈ packets, packet.length = tsPacketSize)
    (leaves : ¬StaysInside env ptDecoder packets) :
    ptDecoder.decodePackets env packets = .error .outside := by
  induction packets generalizing ptDecoder with
  | nil =>
    exact absurd trivial leaves
  | cons packet rest ih =>
    have length := lengths packet List.mem_cons_self
    rw [PsiDecoder.decodePackets]
    by_cases here : Overreads ptDecoder packet
    · rw [decodePacket_outside length here]
      rfl
    · obtain ⟨next, decodes, soundNext⟩ := decodePacket_ok env length sound here
      have leavesLater : ¬StaysInside env next rest := by
        intro stays
        refine leaves ⟨here, fun after same => ?_⟩
        rw [decodes] at same
        rw [← Except.ok.inj same]
        exact stays
      rw [decodes]
      exact ih soundNext (fun other member => lengths other (List.mem_cons_of_mem _ member))
        leavesLater

/-- What the decoder does with arbitrary packets: every call ends, and a run fails
only by a byte behind a packet, which it reads exactly where a packet has no room
for its `pointer_field`. -/
theorem decodePackets_safe (env : PsiEnv π) (sectionMaxSize : Nat)
    (privateDecoder : π) (packets : List TsPacket)
    (large : privateSectionHeaderSize ≤ sectionMaxSize) (small : sectionMaxSize < 2 ^ 32)
    (lengths : ∀ packet ∈ packets, packet.length = tsPacketSize) :
    let start := PsiDecoder.attach sectionMaxSize privateDecoder
    ((∃ after, start.decodePackets env packets = .ok after) ↔ StaysInside env start packets) ∧
      (∀ stop, start.decodePackets env packets = .error stop → stop = .outside) ∧
      ∀ before, before <+: packets → StaysInside env start before →
        ∃ after, start.decodePackets env before = .ok after ∧ PsiSound after := by
  intro start
  have sound : PsiSound start := attach_sound privateDecoder large small
  refine ⟨⟨?_, fun inside => ?_⟩, ?_, fun before first inside => ?_⟩
  · rintro ⟨after, runs⟩
    by_contra leaves
    rw [decodePackets_outside sound lengths leaves] at runs
    cases runs
  · obtain ⟨after, runs, _⟩ := decodePackets_ok sound lengths inside
    exact ⟨after, runs⟩
  · intro stop runs
    by_cases inside : StaysInside env start packets
    · obtain ⟨after, ok, _⟩ := decodePackets_ok sound lengths inside
      rw [ok] at runs
      cases runs
    · rw [decodePackets_outside sound lengths inside] at runs
      exact (Except.error.inj runs).symm
  · exact decodePackets_ok sound (fun packet member => lengths packet (first.subset member)) inside

/-- A table decoder that clears `bDiscontinuity` with each section, or never. -/
def flagEnv (keeps : Bool) : PsiEnv Unit where
  alloc := fun _ => some fun _ => 0
  callback := fun decoder bDiscontinuity _ => (decoder, bDiscontinuity && keeps)

/-- A packet that starts a unit behind an adaptation field. -/
def longFieldPacket (adaptationFieldLength : UInt8) : TsPacket :=
  [0x47, 0x40, 0x00, 0x30, adaptationFieldLength] ++ List.replicate 183 0xFF

theorem decodePackets_safe_longField :
    ∃ after, (PsiDecoder.attach 1024 ()).decodePackets (flagEnv true)
      [longFieldPacket 182] = .ok after ∧ PsiSound after := by
  have lengths :
      ∀ packet ∈ [longFieldPacket 182], packet.length = tsPacketSize := by
    intro packet member
    rw [List.mem_singleton.mp member]
    rfl
  have inside : StaysInside (flagEnv true) (PsiDecoder.attach 1024 ()) [longFieldPacket 182] := by
    refine ⟨fun overreads => ?_, fun _ _ => trivial⟩
    have long := overreads.long
    revert long
    decide
  exact (decodePackets_safe (flagEnv true) 1024 () [longFieldPacket 182]
    (by decide) (by decide) lengths).2.2 _ List.prefix_rfl inside

/-- With an `adaptation_field_length` of 183, the `pointer_field` is read behind the
end of the packet. -/
theorem decodePacket_reads_behind :
    (longFieldPacket 183).length = tsPacketSize ∧
      ∀ env : PsiEnv Unit,
        (PsiDecoder.attach 1024 ()).decodePacket env (longFieldPacket 183) = .error .outside := by
  refine ⟨rfl, fun env => decodePacket_outside rfl ?_⟩
  exact ⟨by decide, fun duplicate => Bool.noConfusion duplicate.2, by decide,
    by decide, by decide, by decide⟩

end IteSdk.TsDemuxer
