import IteSdk.TsDemuxer.PsiPacketSafe
import Mathlib.Logic.Relation

/-!
# Sections in packets

How the concatenation of some sections is cut into packets: a packet in which a
section starts has a `pointer_field`, and behind the last section of a packet there
may be stuffing.
-/

namespace IteSdk.TsDemuxer

section

open Lib

structure IsSection (sectionMaxSize : Nat) (bytes : List UInt8) : Prop where
  first : bytes.getD 0 0 ≠ stuffByte
  length :
    bytes.length =
      privateSectionHeaderSize + ((bytes.getD 1 0).toNat % 16 * 256 + (bytes.getD 2 0).toNat)
  room : bytes.length ≤ sectionMaxSize
  checksum : (bytes.getD 1 0).toNat / 128 = 1 → crcOf bytes = 0

/-- What the table decoder sees of a section: its bytes, and the payload in them. -/
abbrev SectionWindow := List UInt8 × Nat × Int

def PsiSection.window (self : PsiSection) : SectionWindow :=
  (self.data, self.payloadStart, self.payloadEnd)

/-- The payload is behind the header, and in front of the checksum. -/
def sectionWindow (bytes : List UInt8) : SectionWindow :=
  if (bytes.getD 1 0).toNat / 128 = 1 then
    (bytes, 8, (bytes.length : Int) - 4)
  else
    (bytes, privateSectionHeaderSize, bytes.length)

structure Carries (packet : TsPacket) (counter : Nat) (unitStart : Prop)
    (payload : List UInt8) : Prop where
  ts : IsTsPacket packet
  counter : counterOf packet = counter % 16
  hasPayload : HasPayload packet
  startsUnit : StartsUnit packet ↔ unitStart
  carries : packet.drop (payloadOffset packet) = payload
  nonempty : payload ≠ []

/-- The packets, from a counter on, of the rest of a section that has begun before
and of some sections. -/
inductive Packetises :
    Nat → List UInt8 → List (List UInt8) → List TsPacket → Prop
  | done {counter : Nat} : Packetises counter [] [] []
  | inside {counter : Nat} {chunk rest : List UInt8}
      {sections : List (List UInt8)} {packet : TsPacket}
      {packets : List TsPacket} :
      rest ≠ [] →
      Carries packet counter False chunk →
      Packetises (counter + 1) rest sections packets →
      Packetises counter (chunk ++ rest) sections (packet :: packets)
  | ends {counter stuffing : Nat} {pending : List UInt8}
      {sections : List (List UInt8)} {packet : TsPacket}
      {packets : List TsPacket} :
      pending ≠ [] →
      Carries packet counter False (pending ++ List.replicate stuffing stuffByte) →
      Packetises (counter + 1) [] sections packets →
      Packetises counter pending sections (packet :: packets)
  | starts {counter stuffing : Nat} {pending last : List UInt8}
      {whole sections : List (List UInt8)} {packet : TsPacket}
      {packets : List TsPacket} :
      Carries packet counter True
        (UInt8.ofNat pending.length ::
          (pending ++ (whole.flatten ++ (last ++ List.replicate stuffing stuffByte)))) →
      Packetises (counter + 1) [] sections packets →
      Packetises counter pending (whole ++ last :: sections) (packet :: packets)
  | cuts {counter : Nat} {pending chunk rest : List UInt8}
      {whole sections : List (List UInt8)} {packet : TsPacket}
      {packets : List TsPacket} :
      chunk ≠ [] →
      rest ≠ [] →
      Carries packet counter True
        (UInt8.ofNat pending.length :: (pending ++ (whole.flatten ++ chunk))) →
      Packetises (counter + 1) rest sections packets →
      Packetises counter pending (whole ++ (chunk ++ rest) :: sections) (packet :: packets)

end

/-!
# Reassembling sections

The loop of the decoder over a packet that carries the rest of a section, some whole
sections, and the begin of one.
-/

section

open Lib Relation

variable {π : Type} {env : PsiEnv π} {packet : TsPacket} {sectionMaxSize : Nat}

/-- Some sections have been handed over, and one is being gathered. -/
structure Gathers (sectionMaxSize : Nat) (ptDecoder : PsiDecoder π)
    (done : List (List UInt8)) (gathered pending : List UInt8) : Prop where
  size : ptDecoder.sectionMaxSize = sectionMaxSize
  current :
    ∃ section_, ptDecoder.ptCurrentSection = some section_ ∧
      section_.data = gathered ∧ section_.payloadEnd = gathered.length
  header :
    gathered.length < privateSectionHeaderSize →
      ptDecoder.bCompleteHeader = false ∧
        ptDecoder.needByte = privateSectionHeaderSize - gathered.length
  body :
    privateSectionHeaderSize ≤ gathered.length →
      ptDecoder.bCompleteHeader = true ∧ ptDecoder.needByte = pending.length
  whole : IsSection sectionMaxSize (gathered ++ pending)
  delivered : ptDecoder.delivered.map PsiSection.window = done.map sectionWindow

structure Idle (sectionMaxSize : Nat) (ptDecoder : PsiDecoder π)
    (done : List (List UInt8)) : Prop where
  size : ptDecoder.sectionMaxSize = sectionMaxSize
  current : ptDecoder.ptCurrentSection = none
  delivered : ptDecoder.delivered.map PsiSection.window = done.map sectionWindow

def FreshSection (sectionMaxSize : Nat) (ptDecoder : PsiDecoder π)
    (done : List (List UInt8)) : Prop :=
  ∀ bytes, IsSection sectionMaxSize bytes → Gathers sectionMaxSize ptDecoder done [] bytes

structure Holding (packet : TsPacket) (cursor : PacketCursor π)
    (tail : List UInt8) : Prop where
  length : packet.length = tsPacketSize
  rest : packet.drop cursor.payload = tail
  available : cursor.availableByte = tail.length

def Turns (env : PsiEnv π) (packet : TsPacket) (cursor next : PacketCursor π) : Prop :=
  0 < cursor.availableByte ∧ cursor.turn env packet = .ok next

theorem loop_reaches {fuel : Nat} {cursor last : PacketCursor π}
    {after : PsiDecoder π} (loops : cursor.loop env packet fuel = .ok after)
    (reaches : ReflTransGen (Turns env packet) cursor last)
    (ends : last.availableByte ≤ 0) : after = last.ptDecoder := by
  induction fuel generalizing cursor with
  | zero =>
    cases loops
  | succ fuel ih =>
    rw [PacketCursor.loop] at loops
    rcases reaches.cases_head with rfl | ⟨next, ⟨more, turns⟩, later⟩
    · rw [if_neg (Int.not_lt.mpr ends)] at loops
      exact (Except.ok.inj loops).symm
    · rw [if_pos more, turns] at loops
      exact ih loops later

variable {bytes : List UInt8} {section_ : PsiSection} {done : List (List UInt8)}
  {cursor : PacketCursor π} {gathered pending more : List UInt8}

theorem IsSection.three_le (isSection : IsSection sectionMaxSize bytes) :
    privateSectionHeaderSize ≤ bytes.length := by
  rw [isSection.length]
  exact Nat.le_add_right _ _

theorem byte_of_lt {i : Nat} (inside : i < section_.data.length) :
    section_.byte i = section_.data.getD i 0 := by
  rw [PsiSection.byte, List.getD_eq_getElem _ _ inside, List.getD_eq_getElem _ _ inside]

theorem decode_window (isSection : IsSection sectionMaxSize bytes) (data : section_.data = bytes)
    (payloadEnd : section_.payloadEnd = bytes.length) :
    ∃ decoded, section_.decode = some decoded ∧ decoded.window = sectionWindow bytes := by
  have three := isSection.three_le
  rw [privateSectionHeaderSize] at three
  have one : section_.byte 1 = bytes.getD 1 0 := by rw [byte_of_lt (by rw [data]; omega), data]
  have small : (bytes.getD 1 0).toNat < 256 := UInt8.toNat_lt _
  rw [PsiSection.decode, PsiSection.readHeader, sectionWindow]
  dsimp only
  rw [one]
  by_cases generic : (bytes.getD 1 0).toNat / 128 = 1
  · have checksum : crcOf
        ((List.range (section_.payloadEnd - 4 + 4).toNat).map section_.byte) = 0 := by
      rw [Int.sub_add_cancel, payloadEnd, ← data, Int.toNat_natCast, map_byte_range, data]
      exact isSection.checksum generic
    rw [if_pos (by rw [generic]; decide), if_pos generic]
    rw [if_pos]
    · refine ⟨_, rfl, ?_⟩
      rw [PsiSection.window, PsiSection.cutChecksum]
      dsimp only
      rw [data, payloadEnd]
    · rw [PsiSection.verifySection, PsiSection.cutChecksum]
      dsimp only
      rw [generic, if_pos Nat.one_ne_zero]
      exact decide_eq_true checksum
  · rw [if_neg (by omega), if_neg generic]
    refine ⟨_, rfl, ?_⟩
    rw [PsiSection.window]
    dsimp only
    rw [data, payloadEnd]
    rfl

theorem deliver_window {ptDecoder : PsiDecoder π} (env : PsiEnv π)
    (isSection : IsSection sectionMaxSize bytes) (data : section_.data = bytes)
    (payloadEnd : section_.payloadEnd = bytes.length)
    (delivered : ptDecoder.delivered.map PsiSection.window = done.map sectionWindow) :
    (ptDecoder.deliver env section_).delivered.map PsiSection.window =
        (done ++ [bytes]).map sectionWindow ∧
      (ptDecoder.deliver env section_).sectionMaxSize = ptDecoder.sectionMaxSize := by
  obtain ⟨decoded, decodes, window⟩ := decode_window isSection data payloadEnd
  rw [PsiDecoder.deliver, decodes]
  refine ⟨?_, rfl⟩
  dsimp only
  rw [List.map_append, List.map_append, delivered, List.map_singleton, List.map_singleton, window]

theorem copy_tail {payload : Nat} (more : List UInt8)
    (tail : packet.drop payload = bytes ++ more) (nonempty : bytes ++ more ≠ [])
    (room : section_.data.length + bytes.length ≤ sectionMaxSize) :
    section_.copy sectionMaxSize packet payload bytes.length = .ok (section_.append bytes) := by
  have lengths := congrArg List.length tail
  have positive := List.length_pos_iff.mpr nonempty
  rw [List.length_drop] at lengths
  rw [List.length_append] at lengths positive
  rw [PsiSection.copy, readBytes, if_pos (by omega), tail, List.take_left]
  exact if_pos room

theorem turn_partial {gathered tail rest : List UInt8} (env : PsiEnv π)
    (gathers : Gathers sectionMaxSize cursor.ptDecoder done gathered (tail ++ rest))
    (holding : Holding packet cursor tail) (nonempty : tail ≠ [])
    (short : tail.length < cursor.ptDecoder.needByte) :
    ∃ next, Turns env packet cursor next ∧ next.availableByte = 0 ∧
      Gathers sectionMaxSize next.ptDecoder done (gathered ++ tail) rest := by
  obtain ⟨section_, current, data, payloadEnd⟩ := gathers.current
  have available := holding.available
  have positive := List.length_pos_iff.mpr nonempty
  have fits := gathers.whole.room
  rw [List.length_append, List.length_append] at fits
  have copies : section_.copy cursor.ptDecoder.sectionMaxSize packet
      cursor.payload cursor.availableByte.toNat = .ok (section_.append tail) := by
    rw [available, Int.toNat_natCast, gathers.size]
    refine copy_tail [] ?_ ?_ ?_
    · rw [List.append_nil, holding.rest]
    · rw [List.append_nil]
      exact nonempty
    · rw [data]
      omega
  refine ⟨{ cursor with
      ptDecoder :=
        { cursor.ptDecoder with
          ptCurrentSection := some (section_.append tail)
          needByte := cursor.ptDecoder.needByte - cursor.availableByte.toNat }
      availableByte := 0 }, ⟨by omega, ?_⟩, rfl, ?_⟩
  · rw [PacketCursor.turn, current]
    dsimp only
    rw [if_neg (by omega), copies]
    rfl
  · refine ⟨gathers.size, ⟨_, rfl, ?_, ?_⟩, fun few => ?_, fun many => ?_, ?_, gathers.delivered⟩
    · rw [PsiSection.append, data]
    · rw [PsiSection.append, payloadEnd, List.length_append]
      rfl
    · rw [List.length_append] at few ⊢
      obtain ⟨header, need⟩ := gathers.header (by omega)
      refine ⟨header, ?_⟩
      dsimp only
      omega
    · rw [List.length_append] at many
      by_cases before : gathered.length < privateSectionHeaderSize
      · have need := (gathers.header before).2
        omega
      · obtain ⟨header, need⟩ := gathers.body (by omega)
        rw [List.length_append] at need
        refine ⟨header, ?_⟩
        dsimp only
        omega
    · rw [List.append_assoc]
      exact gathers.whole

theorem Holding.forward {bytes more : List UInt8}
    (holding : Holding packet cursor (bytes ++ more)) (ptDecoder : PsiDecoder π) :
    Holding packet
      { cursor with
        ptDecoder := ptDecoder
        payload := cursor.payload + bytes.length
        availableByte := cursor.availableByte - bytes.length } more := by
  refine ⟨holding.length, ?_, ?_⟩
  · rw [← List.drop_drop, holding.rest, List.drop_left]
  · have available := holding.available
    rw [List.length_append] at available
    dsimp only
    omega

theorem lengthField_append {pending : List UInt8}
    (three : section_.data.length = privateSectionHeaderSize)
    (whole : IsSection sectionMaxSize (section_.data ++ pending)) :
    section_.lengthField = pending.length := by
  have length := whole.length
  rw [privateSectionHeaderSize] at three length
  rw [List.length_append, three, List.getD_append _ _ _ _ (by omega : 1 < section_.data.length),
    List.getD_append _ _ _ _ (by omega : 2 < section_.data.length)] at length
  rw [PsiSection.lengthField, byte_of_lt (by omega), byte_of_lt (by omega)]
  omega

theorem turn_header {gathered header pending more : List UInt8} (env : PsiEnv π)
    (gathers : Gathers sectionMaxSize cursor.ptDecoder done gathered (header ++ pending))
    (holding : Holding packet cursor (header ++ more)) (nonempty : header ≠ [])
    (three : gathered.length + header.length = privateSectionHeaderSize)
    (small : sectionMaxSize < 2 ^ 32) :
    ∃ next, Turns env packet cursor next ∧
      Gathers sectionMaxSize next.ptDecoder done (gathered ++ header) pending ∧
      Holding packet next more ∧ next.beginSection = cursor.beginSection := by
  obtain ⟨section_, current, data, payloadEnd⟩ := gathers.current
  have available := holding.available
  have positive := List.length_pos_iff.mpr nonempty
  obtain ⟨incomplete, need⟩ := gathers.header (by omega)
  have whole := gathers.whole
  rw [← List.append_assoc] at whole
  have fits := whole.room
  have large := whole.three_le
  rw [List.length_append] at available
  rw [List.length_append, List.length_append] at fits large
  have appended : (section_.append header).data = gathered ++ header := by
    rw [PsiSection.append, data]
  have field : (section_.append header).lengthField = pending.length := by
    have count : (section_.append header).data.length = privateSectionHeaderSize := by
      rw [appended, List.length_append, three]
    rw [← appended] at whole
    exact lengthField_append count whole
  have copies : section_.copy cursor.ptDecoder.sectionMaxSize packet
      cursor.payload cursor.ptDecoder.needByte = .ok (section_.append header) := by
    rw [need, gathers.size, show privateSectionHeaderSize - gathered.length =
      header.length by omega]
    refine copy_tail more holding.rest ?_ ?_
    · exact List.append_ne_nil_of_left_ne_nil nonempty more
    · rw [data]
      omega
  have forward := holding.forward
    { cursor.ptDecoder with
      ptCurrentSection :=
        some
          { section_.append header with
            sectionLength := (section_.append header).lengthField }
      bCompleteHeader := true
      needByte := (section_.append header).lengthField }
  refine ⟨_, ⟨by omega, ?_⟩, ?_, forward, rfl⟩
  · rw [PacketCursor.turn, current]
    dsimp only
    rw [if_pos (by omega), copies]
    change (if cursor.ptDecoder.bCompleteHeader = false then _ else _) = _
    rw [if_pos incomplete, PacketCursor.endHeader]
    dsimp only
    rw [privateSectionHeaderSize] at three large
    rw [if_neg (by rw [field, gathers.size, privateSectionHeaderSize]; omega),
      need, privateSectionHeaderSize, show 3 - gathered.length = header.length by omega]
    rfl
  · refine ⟨gathers.size, ⟨_, rfl, appended, ?_⟩, fun few => ?_,
      fun _ => ⟨rfl, field⟩, whole, gathers.delivered⟩
    · rw [PsiSection.append, payloadEnd, List.length_append]
      rfl
    · rw [List.length_append, three] at few
      exact absurd few (Nat.lt_irrefl _)

def Memory (env : PsiEnv π) : Prop := ∀ n, (env.alloc n).isSome = true

theorem startSection_fresh {ptDecoder : PsiDecoder π} (memory : Memory env)
    (size : ptDecoder.sectionMaxSize = sectionMaxSize)
    (delivered : ptDecoder.delivered.map PsiSection.window = done.map sectionWindow) :
    ∃ next, ptDecoder.startSection env = (next, true) ∧ FreshSection sectionMaxSize next done := by
  obtain ⟨garbage, allocates⟩ := Option.isSome_iff_exists.mp (memory ptDecoder.allocated)
  rw [PsiDecoder.startSection, allocates]
  refine ⟨_, rfl, fun bytes isSection => ?_⟩
  exact ⟨size, ⟨_, rfl, rfl, rfl⟩, fun _ => ⟨rfl, rfl⟩,
    fun many => absurd many (by decide), isSection, delivered⟩

theorem goOn_fresh {address : Nat} {more : List UInt8} (memory : Memory env)
    (length : packet.length = tsPacketSize)
    (size : cursor.ptDecoder.sectionMaxSize = sectionMaxSize)
    (delivered : cursor.ptDecoder.delivered.map PsiSection.window = done.map sectionWindow)
    (begins : cursor.beginSection = some address)
    (rest : packet.drop address = more) (nonempty : more ≠ []) :
    FreshSection sectionMaxSize (cursor.goOn env).ptDecoder done ∧
      Holding packet (cursor.goOn env) more ∧
      (cursor.goOn env).beginSection = none := by
  obtain ⟨next, starts, fresh⟩ := startSection_fresh memory size delivered
  have lengths := congrArg List.length rest
  have positive := List.length_pos_iff.mpr nonempty
  rw [List.length_drop] at lengths
  rw [PacketCursor.goOn, begins]
  dsimp only
  rw [starts]
  refine ⟨fresh, ⟨length, rest, ?_⟩, rfl⟩
  dsimp only
  omega

/-- The section ends in the packet: it is handed over, and the loop goes on where
the next one begins. -/
theorem turn_end (env : PsiEnv π)
    (gathers : Gathers sectionMaxSize cursor.ptDecoder done gathered pending)
    (holding : Holding packet cursor (pending ++ more)) (nonempty : pending ++ more ≠ [])
    (body : privateSectionHeaderSize ≤ gathered.length) :
    ∃ moved : PacketCursor π, Turns env packet cursor (moved.goOn env) ∧
      Idle sectionMaxSize moved.ptDecoder (done ++ [gathered ++ pending]) ∧
      moved.beginSection = match cursor.beginSection, more with
        | some address, _ => some address
        | none, [] => none
        | none, first :: _ =>
          if first ≠ stuffByte then
            some (cursor.payload + pending.length)
          else
            none := by
  obtain ⟨section_, current, data, payloadEnd⟩ := gathers.current
  obtain ⟨complete, need⟩ := gathers.body body
  have available := holding.available
  have positive := List.length_pos_iff.mpr nonempty
  have fits := gathers.whole.room
  rw [List.length_append] at available fits
  rw [List.length_append] at positive
  have copies : section_.copy cursor.ptDecoder.sectionMaxSize packet
      cursor.payload cursor.ptDecoder.needByte = .ok (section_.append pending) := by
    rw [need, gathers.size]
    refine copy_tail more holding.rest nonempty ?_
    rw [data]
    exact fits
  have appended : (section_.append pending).data = gathered ++ pending := by
    rw [PsiSection.append, data]
  have appendedEnd : (section_.append pending).payloadEnd = (gathered ++ pending).length := by
    rw [PsiSection.append, payloadEnd, List.length_append]
    rfl
  obtain ⟨delivered, size⟩ := deliver_window env gathers.whole appended
    appendedEnd gathers.delivered
  have turns : cursor.turn env packet =
      PacketCursor.endSection env packet
        { cursor with
          payload := cursor.payload + pending.length
          availableByte := cursor.availableByte - pending.length }
        (section_.append pending) := by
    rw [PacketCursor.turn, current]
    dsimp only
    rw [if_pos (by omega), copies]
    change (if cursor.ptDecoder.bCompleteHeader = false then _ else _) = _
    rw [complete, need]
    rfl
  let moved : PacketCursor π :=
    { cursor with
      ptDecoder :=
        { cursor.ptDecoder.deliver env (section_.append pending) with
          ptCurrentSection := none }
      payload := cursor.payload + pending.length
      availableByte := cursor.availableByte - pending.length }
  have idle : Idle sectionMaxSize moved.ptDecoder (done ++ [gathered ++ pending]) :=
    ⟨size.trans gathers.size, rfl, delivered⟩
  cases begins : cursor.beginSection with
  | some address =>
    refine ⟨moved, ⟨by omega, ?_⟩, idle, begins⟩
    rw [turns, PacketCursor.endSection]
    dsimp only
    rw [if_neg (by rw [begins]; exact fun condition => by cases condition.1)]
    rfl
  | none =>
    cases more with
    | nil =>
      rw [List.length_nil] at available positive
      have empty : cursor.availableByte - pending.length = 0 := by omega
      refine ⟨moved, ⟨by omega, ?_⟩, idle, begins⟩
      rw [turns, PacketCursor.endSection]
      dsimp only
      rw [if_neg (fun condition => condition.2 empty)]
      rfl
    | cons first rest =>
      rw [List.length_cons] at available
      have reads : readByte packet (cursor.payload + pending.length) = .ok first := by
        have forward := (holding.forward cursor.ptDecoder).rest
        have here := congrArg (fun bytes => bytes[0]?) forward
        dsimp only at here
        rw [List.getElem?_drop, Nat.add_zero, List.getElem?_cons_zero] at here
        rw [readByte, here]
      refine ⟨{ moved with
          beginSection :=
            if first ≠ stuffByte then
              some (cursor.payload + pending.length)
            else
              none }, ⟨by omega, ?_⟩, idle, rfl⟩
      rw [turns, PacketCursor.endSection]
      dsimp only
      rw [if_pos ⟨begins, by omega⟩, reads]
      rfl

theorem reaches_body (env : PsiEnv π) (small : sectionMaxSize < 2 ^ 32)
    (gathers : Gathers sectionMaxSize cursor.ptDecoder done gathered pending)
    (holding : Holding packet cursor (pending ++ more)) (nonempty : pending ++ more ≠ []) :
    ∃ (next : PacketCursor π) (header rest : List UInt8),
      ReflTransGen (Turns env packet) cursor next ∧
      pending = header ++ rest ∧
      Gathers sectionMaxSize next.ptDecoder done (gathered ++ header) rest ∧
      privateSectionHeaderSize ≤ (gathered ++ header).length ∧
      Holding packet next (rest ++ more) ∧
      next.beginSection = cursor.beginSection ∧
      (rest ++ more = [] → (gathered ++ header).length = privateSectionHeaderSize) := by
  have large := gathers.whole.three_le
  rw [List.length_append] at large
  by_cases body : privateSectionHeaderSize ≤ gathered.length
  · refine ⟨cursor, [], pending, .refl, rfl, ?_, ?_, holding, rfl,
      fun empty => absurd empty nonempty⟩
    · rw [List.append_nil]
      exact gathers
    · rw [List.append_nil]
      exact body
  · have splits : pending =
        pending.take (privateSectionHeaderSize - gathered.length) ++
          pending.drop (privateSectionHeaderSize - gathered.length) :=
      (List.take_append_drop _ _).symm
    have count :
        (pending.take (privateSectionHeaderSize - gathered.length)).length =
          privateSectionHeaderSize - gathered.length := by
      rw [List.length_take]
      omega
    generalize pending.take (privateSectionHeaderSize - gathered.length) = header at splits count
    generalize pending.drop (privateSectionHeaderSize - gathered.length) = rest at splits
    subst splits
    rw [List.append_assoc] at holding
    have three : gathered.length + header.length = privateSectionHeaderSize := by omega
    have some_ : header ≠ [] := List.length_pos_iff.mp (by omega)
    obtain ⟨next, turns, gathersNext, holdingNext, begins⟩ :=
      turn_header env gathers holding some_ three small
    rw [← List.length_append] at three
    exact ⟨next, header, rest, .single turns, rfl, gathersNext,
      Nat.le_of_eq three.symm, holdingNext, begins, fun _ => three⟩

theorem section_next (memory : Memory env) (small : sectionMaxSize < 2 ^ 32)
    (gathers : Gathers sectionMaxSize cursor.ptDecoder done gathered pending)
    (holding : Holding packet cursor (pending ++ more)) (nonempty : more ≠ [])
    (begins :
      (cursor.beginSection = none ∧ more.head? ≠ some stuffByte) ∨
        ∃ address, cursor.beginSection = some address ∧ packet.drop address = more) :
    ∃ next, ReflTransGen (Turns env packet) cursor next ∧
      FreshSection sectionMaxSize next.ptDecoder (done ++ [gathered ++ pending]) ∧
      Holding packet next more ∧ next.beginSection = none := by
  obtain ⟨before, header, rest, reaches, rfl, gathersBody, body, holdingBody,
    beginsBody, _⟩ := reaches_body env small gathers holding
      (List.append_ne_nil_of_right_ne_nil pending nonempty)
  obtain ⟨moved, turns, idle, beginsMoved⟩ := turn_end env gathersBody holdingBody
    (List.append_ne_nil_of_right_ne_nil rest nonempty) body
  rw [List.append_assoc] at idle
  have begun : ∃ address, moved.beginSection = some address ∧ packet.drop address = more := by
    rw [beginsBody] at beginsMoved
    rcases begins with ⟨none_, first⟩ | ⟨address, some_, tail⟩
    · cases more with
      | nil => exact absurd rfl nonempty
      | cons byte others =>
        rw [none_] at beginsMoved
        have different : byte ≠ stuffByte := fun same => first (congrArg some same)
        refine ⟨_, beginsMoved.trans (if_pos different), ?_⟩
        exact (holdingBody.forward before.ptDecoder).rest
    · rw [some_] at beginsMoved
      exact ⟨address, beginsMoved, tail⟩
  obtain ⟨address, some_, tail⟩ := begun
  obtain ⟨fresh, holds, alone⟩ := goOn_fresh memory holding.length idle.size
    idle.delivered some_ tail nonempty
  exact ⟨_, reaches.tail turns, fresh, holds, alone⟩

/-- All sections have come; the last one waits if it has a header only, and ends with
its packet. -/
def Comes (sectionMaxSize : Nat) (ptDecoder : PsiDecoder π)
    (done : List (List UInt8)) (last : List UInt8) (full : Prop) : Prop :=
  (full ∧ last.length = privateSectionHeaderSize ∧
      Gathers sectionMaxSize ptDecoder done last []) ∨
    (¬(full ∧ last.length = privateSectionHeaderSize) ∧
      Idle sectionMaxSize ptDecoder (done ++ [last]))

theorem section_comes {gathered pending : List UInt8} {stuffing : Nat} (env : PsiEnv π)
    (small : sectionMaxSize < 2 ^ 32)
    (gathers : Gathers sectionMaxSize cursor.ptDecoder done gathered pending)
    (holding : Holding packet cursor (pending ++ List.replicate stuffing stuffByte))
    (nonempty : pending ≠ []) (alone : cursor.beginSection = none) :
    ∃ next, ReflTransGen (Turns env packet) cursor next ∧ next.availableByte ≤ 0 ∧
      Comes sectionMaxSize next.ptDecoder done (gathered ++ pending) (stuffing = 0) := by
  obtain ⟨before, header, rest, reaches, rfl, gathersBody, body, holdingBody,
    beginsBody, late⟩ := reaches_body env small gathers holding
      (List.append_ne_nil_of_left_ne_nil nonempty _)
  rw [← List.append_assoc]
  by_cases empty : rest ++ List.replicate stuffing stuffByte = []
  · obtain ⟨rfl, unstuffed⟩ := List.append_eq_nil_iff.mp empty
    have full : stuffing = 0 := (List.replicate_eq_nil_iff _).mp unstuffed
    refine ⟨before, reaches, ?_, Or.inl ⟨full, ?_, ?_⟩⟩
    · rw [holdingBody.available, empty]
      exact Int.le_refl 0
    · rw [List.append_nil]
      exact late empty
    · rw [List.append_nil]
      exact gathersBody
  · obtain ⟨moved, turns, idle, beginsMoved⟩ := turn_end env gathersBody holdingBody empty body
    rw [beginsBody, alone] at beginsMoved
    have ends : moved.beginSection = none := by
      rw [beginsMoved]
      cases stuffing with
      | zero => rfl
      | succ count => exact if_neg (not_not_intro rfl)
    refine ⟨_, reaches.tail turns, ?_, Or.inr ⟨?_, ?_⟩⟩
    · rw [PacketCursor.goOn, ends]
    · rintro ⟨rfl, three⟩
      have some_ : rest ≠ [] := fun none_ => empty (by rw [none_]; rfl)
      have positive := List.length_pos_iff.mpr some_
      rw [List.length_append] at three
      omega
    · rw [PacketCursor.goOn, ends]
      exact idle

theorem section_partial
    {gathered chunk rest : List UInt8} (env : PsiEnv π) (small : sectionMaxSize < 2 ^ 32)
    (gathers : Gathers sectionMaxSize cursor.ptDecoder done gathered (chunk ++ rest))
    (holding : Holding packet cursor chunk) (nonempty : chunk ≠ []) (unfinished : rest ≠ []) :
    ∃ next, ReflTransGen (Turns env packet) cursor next ∧ next.availableByte ≤ 0 ∧
      Gathers sectionMaxSize next.ptDecoder done (gathered ++ chunk) rest := by
  have left := List.length_pos_iff.mpr unfinished
  by_cases short : chunk.length < cursor.ptDecoder.needByte
  · obtain ⟨next, turns, ends, gathersNext⟩ := turn_partial env gathers holding nonempty short
    exact ⟨next, .single turns, Int.le_of_eq ends, gathersNext⟩
  · have before : gathered.length < privateSectionHeaderSize := by
      by_contra many
      have need := (gathers.body (Nat.le_of_not_lt many)).2
      rw [List.length_append] at need
      omega
    have need := (gathers.header before).2
    have splits : chunk =
        chunk.take cursor.ptDecoder.needByte ++ chunk.drop cursor.ptDecoder.needByte :=
      (List.take_append_drop _ _).symm
    have count : (chunk.take cursor.ptDecoder.needByte).length = cursor.ptDecoder.needByte := by
      rw [List.length_take]
      omega
    generalize chunk.take cursor.ptDecoder.needByte = header at splits count
    generalize chunk.drop cursor.ptDecoder.needByte = more at splits
    subst splits
    have three : gathered.length + header.length = privateSectionHeaderSize := by omega
    rw [List.append_assoc] at gathers
    obtain ⟨next, turns, gathersNext, holdingNext, _⟩ := turn_header env gathers
      holding (List.length_pos_iff.mp (by omega)) three small
    rw [← List.append_assoc]
    by_cases empty : more = []
    · subst empty
      rw [List.append_nil]
      exact ⟨next, .single turns, Int.le_of_eq holdingNext.available, gathersNext⟩
    · have needNext := (gathersNext.body (by rw [List.length_append]; omega)).2
      rw [List.length_append] at needNext
      obtain ⟨last, turnsLast, ends, gathersLast⟩ :=
        turn_partial env gathersNext holdingNext empty (by omega)
      exact ⟨last, (ReflTransGen.single turns).tail turnsLast, Int.le_of_eq ends, gathersLast⟩

theorem sections_pass {done whole : List (List UInt8)} {more : List UInt8}
    (memory : Memory env) (small : sectionMaxSize < 2 ^ 32)
    (areSections : ∀ section_ ∈ whole, IsSection sectionMaxSize section_)
    (fresh : FreshSection sectionMaxSize cursor.ptDecoder done)
    (holding : Holding packet cursor (whole.flatten ++ more))
    (nonempty : more ≠ []) (first : more.head? ≠ some stuffByte)
    (alone : cursor.beginSection = none) :
    ∃ next, ReflTransGen (Turns env packet) cursor next ∧
      FreshSection sectionMaxSize next.ptDecoder (done ++ whole) ∧
      Holding packet next more ∧ next.beginSection = none := by
  induction whole generalizing cursor done with
  | nil =>
    refine ⟨cursor, .refl, ?_, holding, alone⟩
    rw [List.append_nil]
    exact fresh
  | cons section_ others ih =>
    rw [List.flatten_cons, List.append_assoc] at holding
    have later (other : List UInt8) (member : other ∈ others) :
        IsSection sectionMaxSize other :=
      areSections other (List.mem_cons_of_mem _ member)
    have begins : (others.flatten ++ more).head? ≠ some stuffByte := by
      cases others with
      | nil => exact first
      | cons other rest =>
        have isSection := later other List.mem_cons_self
        have three := isSection.three_le
        cases other with
        | nil => cases three
        | cons byte bytes =>
          exact fun same => isSection.first (Option.some.inj same)
    obtain ⟨next, reaches, freshNext, holdingNext, aloneNext⟩ :=
      section_next memory small (fresh section_ (areSections section_ List.mem_cons_self)) holding
        (List.append_ne_nil_of_right_ne_nil _ nonempty) (Or.inl ⟨alone, begins⟩)
    obtain ⟨last, reachesLast, freshLast, holdingLast, aloneLast⟩ :=
      ih later freshNext holdingNext aloneNext
    refine ⟨last, reaches.trans reachesLast, ?_, holdingLast, aloneLast⟩
    rw [List.nil_append, List.append_assoc] at freshLast
    exact freshLast

end

end IteSdk.TsDemuxer
