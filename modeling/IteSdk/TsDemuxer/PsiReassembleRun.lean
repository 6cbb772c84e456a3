import IteSdk.TsDemuxer.PsiReassemble
import IteSdk.TsDemuxer.PsiRedundant

/-!
# Reassembling a run of packets

The packets of some sections hand over these sections.  Only a last section that is
a header, and ends with its packet, is left behind: the loop stops when no byte is
left, although no byte is needed any more.
-/

namespace IteSdk.TsDemuxer

open Lib Relation

variable {π : Type} {env : PsiEnv π} {packet : TsPacket} {sectionMaxSize : Nat}

/-- The last section has a header only, and the last packet has no stuffing. -/
def EndsLate (sections : List (List UInt8)) (last : Option TsPacket) : Prop :=
  (∃ section_, sections.getLast? = some section_ ∧
      section_.length = privateSectionHeaderSize) ∧
    ∃ packet, last = some packet ∧ packet.getLast? ≠ some stuffByte

/-- The decoder behind a packet: which sections have begun, and what is pending. -/
inductive Between (sectionMaxSize : Nat) (ptDecoder : PsiDecoder π)
    (previous : Option TsPacket) : List (List UInt8) → List UInt8 → Prop
  | idle {begun : List (List UInt8)} :
      Idle sectionMaxSize ptDecoder begun →
      ¬EndsLate begun previous →
      Between sectionMaxSize ptDecoder previous begun []
  | gathering {done : List (List UInt8)} {gathered pending : List UInt8} :
      Gathers sectionMaxSize ptDecoder done gathered pending →
      (pending = [] → EndsLate (done ++ [gathered]) previous) →
      Between sectionMaxSize ptDecoder previous (done ++ [gathered ++ pending]) pending

theorem IsSection.getLast_header {bytes : List UInt8} (isSection : IsSection sectionMaxSize bytes)
    (three : bytes.length = privateSectionHeaderSize) :
    bytes.getLast? ≠ some stuffByte := by
  have length := isSection.length
  rw [three] at length
  obtain ⟨first, second, third, rfl⟩ := List.length_eq_three.mp three
  intro same
  have last : third = stuffByte := Option.some.inj same
  have zero : third.toNat = 0 := by
    change privateSectionHeaderSize = privateSectionHeaderSize +
      (second.toNat % 16 * 256 + third.toNat) at length
    omega
  rw [last] at zero
  exact absurd zero (by decide)

theorem getLast_stuffed {front : List UInt8} {stuffing : Nat} (some_ : stuffing ≠ 0) :
    (front ++ List.replicate stuffing stuffByte).getLast? = some stuffByte := by
  rw [List.getLast?_append, List.getLast?_replicate, if_neg some_]
  rfl

variable {ptDecoder : PsiDecoder π} {begun : List (List UInt8)} {counter : Nat}
  {pending : List UInt8} {previous : Option TsPacket} {payload : List UInt8}

variable {done : List (List UInt8)}

theorem comes_between {gathered tail : List UInt8} {stuffing : Nat}
    (comes : Comes sectionMaxSize ptDecoder done (gathered ++ tail) (stuffing = 0))
    (isSection : IsSection sectionMaxSize (gathered ++ tail)) (nonempty : tail ≠ [])
    (ends : ∃ front, packet = front ++ (tail ++ List.replicate stuffing stuffByte)) :
    Between sectionMaxSize ptDecoder (some packet) (done ++ [gathered ++ tail]) [] := by
  obtain ⟨front, ends⟩ := ends
  rcases comes with ⟨rfl, three, gathers⟩ | ⟨notLate, idle⟩
  · have late : EndsLate (done ++ [gathered ++ tail]) (some packet) := by
      refine ⟨⟨_, List.getLast?_concat, three⟩, packet, rfl, ?_⟩
      have last := isSection.getLast_header three
      rw [List.getLast?_append_of_ne_nil _ nonempty] at last
      rw [ends, List.replicate_zero, List.append_nil, List.getLast?_append_of_ne_nil _ nonempty]
      exact last
    have between := Between.gathering gathers fun _ => late
    rw [List.append_nil] at between
    exact between
  · refine .idle idle ?_
    rintro ⟨⟨section_, last, three⟩, other, same, unstuffed⟩
    rw [List.getLast?_concat] at last
    obtain rfl := Option.some.inj last
    obtain rfl := Option.some.inj same
    refine notLate ⟨?_, three⟩
    by_contra stuffed
    refine unstuffed ?_
    rw [ends, ← List.append_assoc]
    exact getLast_stuffed stuffed

def Follows (ptDecoder : PsiDecoder π) (counter : Nat) : Prop :=
  counter % 16 = (ptDecoder.continuityCounter + 1) % 16 ∨
    ptDecoder.bDiscontinuity = true ∧ ptDecoder.ptCurrentSection = none

theorem follow_between (follows : Follows ptDecoder counter)
    (between : Between sectionMaxSize ptDecoder previous begun pending) :
    Between sectionMaxSize (ptDecoder.follow (counter % 16)) previous begun pending := by
  rw [PsiDecoder.follow]
  cases between with
  | idle idle prompt =>
    refine .idle ?_ prompt
    split
    · exact ⟨idle.size, idle.current, idle.delivered⟩
    · exact ⟨idle.size, rfl, idle.delivered⟩
  | gathering gathers late =>
    refine .gathering ?_ late
    rcases follows with next | ⟨_, none_⟩
    · rw [if_pos next]
      exact ⟨gathers.size, gathers.current, gathers.header, gathers.body,
        gathers.whole, gathers.delivered⟩
    · obtain ⟨section_, current, _⟩ := gathers.current
      rw [none_] at current
      cases current

section

variable {unitStart : Prop} (carries : Carries packet counter unitStart payload)

include carries

theorem decodePacket_carries (follows : Follows ptDecoder counter) :
    ptDecoder.decodePacket env packet =
      (ptDecoder.follow (counter % 16)).decodeUnit env packet (packet.getD 3 0) := by
  rw [decodePacket_eq carries.ts.length,
    if_neg (not_not_intro carries.ts.syncByte), carries.counter, if_neg]
  rintro ⟨same, clear⟩
  rcases follows with next | ⟨pending, _⟩
  · omega
  · rw [clear] at pending
    cases pending

theorem Carries.inside : payloadOffset packet + payload.length = tsPacketSize := by
  have lengths := congrArg List.length carries.carries
  have positive := List.length_pos_iff.mpr carries.nonempty
  rw [List.length_drop, carries.ts.length] at lengths
  omega

theorem Carries.stays : ¬Overreads ptDecoder packet := by
  intro overreads
  have inside := carries.inside
  have positive := List.length_pos_iff.mpr carries.nonempty
  have long := overreads.long
  rw [payloadOffset, if_pos overreads.adaptationField] at inside
  omega

theorem Carries.split : packet = packet.take (payloadOffset packet) ++ payload := by
  rw [← carries.carries, List.take_append_drop]

end

variable {ptDecoder after : PsiDecoder π}

theorem carries_continue {gathered pending payload : List UInt8}
    (carries : Carries packet counter False payload)
    (gathers : Gathers sectionMaxSize ptDecoder done gathered pending)
    (decodes : ptDecoder.decodeUnit env packet (packet.getD 3 0) = .ok after) :
    ∃ cursor : PacketCursor π, cursor.loop env packet packetTurns = .ok after ∧
      cursor.ptDecoder = ptDecoder ∧ Holding packet cursor payload ∧
      cursor.beginSection = none := by
  obtain ⟨section_, current, _⟩ := gathers.current
  rw [decodeUnit_eq carries.ts.length, if_pos carries.hasPayload,
    if_neg carries.startsUnit.mp] at decodes
  unfold PsiDecoder.decodePayload at decodes
  rw [current] at decodes
  refine ⟨_, decodes, rfl, ⟨carries.ts.length, carries.carries, ?_⟩, rfl⟩
  have inside := carries.inside
  dsimp only
  omega

theorem carries_begin {pending more : List UInt8} (memory : Memory env)
    (small : sectionMaxSize < 2 ^ 32)
    (carries : Carries packet counter True (UInt8.ofNat pending.length :: (pending ++ more)))
    (nonempty : more ≠ []) (between : Between sectionMaxSize ptDecoder previous begun pending)
    (decodes : ptDecoder.decodeUnit env packet (packet.getD 3 0) = .ok after) :
    ∃ first cursor : PacketCursor π,
      first.loop env packet packetTurns = .ok after ∧
      ReflTransGen (Turns env packet) first cursor ∧
      FreshSection sectionMaxSize cursor.ptDecoder begun ∧
      Holding packet cursor more ∧ cursor.beginSection = none := by
  have inside := carries.inside
  have positive := List.length_pos_iff.mpr nonempty
  rw [List.length_cons, List.length_append, tsPacketSize] at inside
  have pointerField : readByte packet (payloadOffset packet) =
      .ok (UInt8.ofNat pending.length) := by
    have here := congrArg (fun bytes => bytes[0]?) carries.carries
    rw [List.getElem?_drop, Nat.add_zero, List.getElem?_cons_zero] at here
    rw [readByte, here]
  have pointer : (UInt8.ofNat pending.length).toNat = pending.length :=
    UInt8.toNat_ofNat_of_lt' (by rw [UInt8.size]; omega)
  have payload : packet.drop (payloadOffset packet + 1) = pending ++ more := by
    rw [← List.drop_drop, carries.carries]
    rfl
  have address :
      packet.drop (payloadOffset packet + 1 + pending.length) = more := by
    rw [← List.drop_drop, payload, List.drop_left]
  rw [decodeUnit_eq carries.ts.length, if_pos carries.hasPayload,
    if_pos (carries.startsUnit.mpr trivial), pointerField] at decodes
  change ptDecoder.decodePayload env packet (payloadOffset packet + 1)
    (some (payloadOffset packet + 1 + (UInt8.ofNat pending.length).toNat)) = .ok after at decodes
  rw [pointer] at decodes
  unfold PsiDecoder.decodePayload at decodes
  cases between with
  | idle idle _ =>
    obtain ⟨next, starts, fresh⟩ := startSection_fresh memory idle.size idle.delivered
    rw [idle.current] at decodes
    dsimp only at decodes
    rw [starts] at decodes
    refine ⟨_, _, decodes, .refl, fresh, ⟨carries.ts.length, address, ?_⟩, rfl⟩
    rw [List.length_nil] at inside
    dsimp only
    rw [tsPacketSize, List.length_nil]
    omega
  | gathering gathers _ =>
    obtain ⟨section_, current, _⟩ := gathers.current
    rw [current] at decodes
    have holding : Holding packet
        ⟨ptDecoder, payloadOffset packet + 1, some (payloadOffset packet + 1 + pending.length),
          (tsPacketSize : Int) - ((payloadOffset packet + 1 : Nat) : Int)⟩
        (pending ++ more) := by
      refine ⟨carries.ts.length, payload, ?_⟩
      rw [List.length_append, tsPacketSize]
      dsimp only
      omega
    obtain ⟨cursor, reaches, fresh, holds, alone⟩ :=
      section_next memory small gathers holding nonempty (Or.inr ⟨_, rfl, address⟩)
    exact ⟨_, cursor, decodes, reaches, fresh, holds, alone⟩

structure Left (sectionMaxSize : Nat) (ptDecoder : PsiDecoder π)
    (packet : TsPacket) (counter : Nat) (begun : List (List UInt8))
    (pending : List UInt8) : Prop where
  sound : PsiSound ptDecoder
  follows : Follows ptDecoder (counter + 1)
  between : Between sectionMaxSize ptDecoder (some packet) begun pending

theorem decodePacket_left
    {unitStart : Prop} {payload pending rest : List UInt8} {begun all : List (List UInt8)}
    (env : PsiEnv π) (sound : PsiSound ptDecoder) (follows : Follows ptDecoder counter)
    (between : Between sectionMaxSize ptDecoder previous begun pending)
    (carries : Carries packet counter unitStart payload)
    (unit : ∀ followed after : PsiDecoder π,
      Between sectionMaxSize followed previous begun pending →
      followed.decodeUnit env packet (packet.getD 3 0) = .ok after →
      Between sectionMaxSize after (some packet) all rest) :
    ∃ after, ptDecoder.decodePacket env packet = .ok after ∧
      Left sectionMaxSize after packet counter all rest := by
  obtain ⟨after, decodes, soundAfter⟩ := decodePacket_ok env carries.ts.length sound carries.stays
  have kept := decodePacket_counter carries.ts decodes
  refine ⟨after, decodes, soundAfter, Or.inl ?_, ?_⟩
  · rw [kept, carries.counter]
    omega
  · rw [decodePacket_carries carries follows] at decodes
    exact unit _ after (follow_between follows between) decodes

theorem left_inside {chunk rest : List UInt8} (env : PsiEnv π)
    (small : sectionMaxSize < 2 ^ 32) (sound : PsiSound ptDecoder)
    (follows : Follows ptDecoder counter)
    (between : Between sectionMaxSize ptDecoder previous begun (chunk ++ rest))
    (unfinished : rest ≠ []) (carries : Carries packet counter False chunk) :
    ∃ after, ptDecoder.decodePacket env packet = .ok after ∧
      Left sectionMaxSize after packet counter begun rest := by
  refine decodePacket_left env sound follows between carries fun followed after here decodes => ?_
  generalize pendingEq : chunk ++ rest = pending at here
  cases here with
  | idle _ _ =>
    exact absurd pendingEq (List.append_ne_nil_of_left_ne_nil carries.nonempty _)
  | gathering gathers _ =>
    subst pendingEq
    obtain ⟨cursor, loops, rfl, holding, _⟩ := carries_continue carries gathers decodes
    obtain ⟨last, reaches, ends, gathersLast⟩ :=
      section_partial env small gathers holding carries.nonempty unfinished
    rw [loop_reaches loops reaches ends, ← List.append_assoc]
    exact .gathering gathersLast fun none_ => absurd none_ unfinished

variable {counter stuffing : Nat}

theorem left_ends (env : PsiEnv π) (small : sectionMaxSize < 2 ^ 32) (sound : PsiSound ptDecoder)
    (follows : Follows ptDecoder counter)
    (between : Between sectionMaxSize ptDecoder previous begun pending) (nonempty : pending ≠ [])
    (carries : Carries packet counter False (pending ++ List.replicate stuffing stuffByte)) :
    ∃ after, ptDecoder.decodePacket env packet = .ok after ∧
      Left sectionMaxSize after packet counter begun [] := by
  refine decodePacket_left env sound follows between carries fun followed after here decodes => ?_
  cases here with
  | idle _ _ =>
    exact absurd rfl nonempty
  | gathering gathers _ =>
    obtain ⟨cursor, loops, rfl, holding, alone⟩ := carries_continue carries gathers decodes
    obtain ⟨last, reaches, ends, comes⟩ := section_comes env small gathers holding nonempty alone
    rw [loop_reaches loops reaches ends]
    exact comes_between comes gathers.whole nonempty ⟨_, carries.split⟩

theorem IsSection.head_ne {bytes : List UInt8}
    (isSection : IsSection sectionMaxSize bytes) (more : List UInt8) :
    (bytes ++ more).head? ≠ some stuffByte := by
  have three := isSection.three_le
  cases bytes with
  | nil => cases three
  | cons first rest =>
    exact fun same => isSection.first (Option.some.inj same)

variable {begun whole : List (List UInt8)}

theorem left_starts {pending last : List UInt8} (memory : Memory env)
    (small : sectionMaxSize < 2 ^ 32) (sound : PsiSound ptDecoder)
    (follows : Follows ptDecoder counter)
    (between : Between sectionMaxSize ptDecoder previous begun pending)
    (areSections : ∀ section_ ∈ whole, IsSection sectionMaxSize section_)
    (isSection : IsSection sectionMaxSize last)
    (carries : Carries packet counter True
      (UInt8.ofNat pending.length ::
        (pending ++ (whole.flatten ++ (last ++ List.replicate stuffing stuffByte))))) :
    ∃ after, ptDecoder.decodePacket env packet = .ok after ∧
      Left sectionMaxSize after packet counter (begun ++ whole ++ [last]) [] := by
  have nonempty : last ≠ [] := by
    have three := isSection.three_le
    exact List.length_pos_iff.mp (Nat.lt_of_lt_of_le (by decide) three)
  refine decodePacket_left env sound follows between carries fun followed after here decodes => ?_
  have begins := List.append_ne_nil_of_left_ne_nil nonempty (List.replicate stuffing stuffByte)
  obtain ⟨first, cursor, loops, reaches, fresh, holding, alone⟩ :=
    carries_begin memory small carries (List.append_ne_nil_of_right_ne_nil _ begins) here decodes
  obtain ⟨next, reachesNext, freshNext, holdingNext, aloneNext⟩ :=
    sections_pass memory small areSections fresh holding begins (isSection.head_ne _) alone
  obtain ⟨final, reachesFinal, ends, comes⟩ :=
    section_comes env small (freshNext last isSection) holdingNext nonempty aloneNext
  rw [loop_reaches loops ((reaches.trans reachesNext).trans reachesFinal) ends]
  refine comes_between comes isSection nonempty
    ⟨packet.take (payloadOffset packet) ++
      (UInt8.ofNat pending.length :: (pending ++ whole.flatten)), ?_⟩
  rw [List.append_assoc, List.cons_append, List.append_assoc]
  exact carries.split

theorem left_cuts {pending chunk rest : List UInt8} (memory : Memory env)
    (small : sectionMaxSize < 2 ^ 32) (sound : PsiSound ptDecoder)
    (follows : Follows ptDecoder counter)
    (between : Between sectionMaxSize ptDecoder previous begun pending)
    (areSections : ∀ section_ ∈ whole, IsSection sectionMaxSize section_)
    (isSection : IsSection sectionMaxSize (chunk ++ rest)) (nonempty : chunk ≠ [])
    (unfinished : rest ≠ [])
    (carries : Carries packet counter True
      (UInt8.ofNat pending.length :: (pending ++ (whole.flatten ++ chunk)))) :
    ∃ after, ptDecoder.decodePacket env packet = .ok after ∧
      Left sectionMaxSize after packet counter (begun ++ whole ++ [chunk ++ rest]) rest := by
  refine decodePacket_left env sound follows between carries fun followed after here decodes => ?_
  have first : chunk.head? ≠ some stuffByte := by
    have head := isSection.head_ne []
    rw [List.append_nil, List.head?_append_of_ne_nil _ nonempty] at head
    exact head
  obtain ⟨start, cursor, loops, reaches, fresh, holding, alone⟩ :=
    carries_begin memory small carries (List.append_ne_nil_of_right_ne_nil _ nonempty) here decodes
  obtain ⟨next, reachesNext, freshNext, holdingNext, aloneNext⟩ :=
    sections_pass memory small areSections fresh holding nonempty first alone
  obtain ⟨final, reachesFinal, ends, gathersFinal⟩ :=
    section_partial env small (freshNext (chunk ++ rest) isSection) holdingNext nonempty unfinished
  rw [loop_reaches loops ((reaches.trans reachesNext).trans reachesFinal) ends]
  exact .gathering gathersFinal fun none_ => absurd none_ unfinished

theorem getLast_or (packets : List TsPacket) (packet : TsPacket) (previous : Option TsPacket) :
    (packet :: packets).getLast?.or previous = packets.getLast?.or (some packet) := by
  cases packets with
  | nil => rfl
  | cons first rest =>
    rw [List.getLast?_cons_cons, List.getLast?_cons, Option.some_or, Option.some_or]

theorem decodePackets_between {sections : List (List UInt8)} {packets : List TsPacket}
    (memory : Memory env) (small : sectionMaxSize < 2 ^ 32)
    (packetises : Packetises counter pending sections packets) (sound : PsiSound ptDecoder)
    (follows : Follows ptDecoder counter)
    (between : Between sectionMaxSize ptDecoder previous begun pending)
    (areSections : ∀ section_ ∈ sections, IsSection sectionMaxSize section_) :
    ∃ after, ptDecoder.decodePackets env packets = .ok after ∧
      Between sectionMaxSize after (packets.getLast?.or previous) (begun ++ sections) [] := by
  induction packetises generalizing ptDecoder begun previous with
  | done =>
    refine ⟨ptDecoder, rfl, ?_⟩
    rw [List.append_nil]
    exact between
  | inside unfinished carries _ ih =>
    obtain ⟨next, decodes, left⟩ := left_inside env small sound follows between unfinished carries
    rw [PsiDecoder.decodePackets, decodes, getLast_or]
    exact ih left.sound left.follows left.between areSections
  | ends nonempty carries _ ih =>
    obtain ⟨next, decodes, left⟩ := left_ends env small sound follows between nonempty carries
    rw [PsiDecoder.decodePackets, decodes, getLast_or]
    exact ih left.sound left.follows left.between areSections
  | starts carries _ ih =>
    rw [List.forall_mem_append, List.forall_mem_cons] at areSections
    obtain ⟨areWhole, isLast, areLater⟩ := areSections
    obtain ⟨next, decodes, left⟩ :=
      left_starts memory small sound follows between areWhole isLast carries
    rw [PsiDecoder.decodePackets, decodes, getLast_or]
    have later := ih left.sound left.follows left.between areLater
    rw [List.append_assoc, List.append_assoc] at later
    exact later
  | cuts nonempty unfinished carries _ ih =>
    rw [List.forall_mem_append, List.forall_mem_cons] at areSections
    obtain ⟨areWhole, isCut, areLater⟩ := areSections
    obtain ⟨next, decodes, left⟩ := left_cuts memory small sound follows
      between areWhole isCut nonempty unfinished carries
    rw [PsiDecoder.decodePackets, decodes, getLast_or]
    have later := ih left.sound left.follows left.between areLater
    rw [List.append_assoc, List.append_assoc] at later
    exact later

/-- The packets of some sections hand over exactly these sections, except for a last
one that ends late. -/
theorem decodePackets_reassembles (env : PsiEnv π) (sectionMaxSize : Nat)
    (privateDecoder : π) (counter : Nat) (sections : List (List UInt8))
    (packets : List TsPacket) (memory : Memory env)
    (large : privateSectionHeaderSize ≤ sectionMaxSize) (small : sectionMaxSize < 2 ^ 32)
    (areSections : ∀ section_ ∈ sections, IsSection sectionMaxSize section_)
    (packetises : Packetises counter [] sections packets) :
    ∃ after, (PsiDecoder.attach sectionMaxSize privateDecoder).decodePackets env
        packets = .ok after ∧
      (after.delivered.map PsiSection.window = sections.map sectionWindow ↔
        ¬EndsLate sections packets.getLast?) ∧
      (EndsLate sections packets.getLast? →
        after.delivered.map PsiSection.window = sections.dropLast.map sectionWindow) := by
  have idle : Between sectionMaxSize
      (PsiDecoder.attach sectionMaxSize privateDecoder) none [] [] := by
    refine .idle ⟨rfl, rfl, rfl⟩ ?_
    rintro ⟨⟨_, last, _⟩, _⟩
    cases last
  obtain ⟨after, decodes, between⟩ := decodePackets_between memory small packetises
    (attach_sound privateDecoder large small) (Or.inr ⟨rfl, rfl⟩) idle areSections
  rw [List.nil_append, Option.or_none] at between
  refine ⟨after, decodes, ?_⟩
  generalize packets.getLast? = last at between
  generalize pendingEq : ([] : List UInt8) = pending at between
  cases between with
  | idle idle prompt =>
    exact ⟨⟨fun _ => prompt, fun _ => idle.delivered⟩, fun late => absurd late prompt⟩
  | gathering gathers late =>
    subst pendingEq
    rw [List.append_nil]
    have delivered := gathers.delivered
    refine ⟨⟨fun same => ?_, fun prompt => absurd (late rfl) prompt⟩, fun _ => ?_⟩
    · have lengths := congrArg List.length (delivered.symm.trans same)
      rw [List.length_map, List.length_map, List.length_append, List.length_singleton] at lengths
      omega
    · rw [List.dropLast_concat]
      exact delivered

/-- A section with one byte of payload, and a packet with nothing else. -/
def oneByteSection : List UInt8 := [0x00, 0x70, 0x01, 0xAA]

def oneBytePacket : TsPacket :=
  plainPacket 0x40 5 (0x00 :: oneByteSection ++ List.replicate 179 stuffByte)

theorem decodePackets_reassembles_oneByte :
    ∃ after, (PsiDecoder.attach 1024 ()).decodePackets (flagEnv true)
        [oneBytePacket] = .ok after ∧
      after.delivered.map PsiSection.window = [(oneByteSection, 3, 4)] := by
  have isSection : IsSection 1024 oneByteSection :=
    ⟨by decide, by decide, by decide, fun generic => absurd generic (by decide)⟩
  have packetises : Packetises 5 [] [oneByteSection] [oneBytePacket] := by
    have carries : Carries oneBytePacket 5 True
        (UInt8.ofNat ([] : List UInt8).length ::
          ([] ++ (([] : List (List UInt8)).flatten ++
            (oneByteSection ++ List.replicate 179 stuffByte)))) :=
      ⟨⟨rfl, rfl⟩, by decide, by decide, iff_of_true (by decide) trivial, rfl, List.cons_ne_nil _ _⟩
    exact .starts carries .done
  obtain ⟨after, decodes, exact_, _⟩ :=
    decodePackets_reassembles (flagEnv true) 1024 () 5 [oneByteSection]
      [oneBytePacket] (fun _ => rfl) (by decide) (by decide)
      (by rw [List.forall_mem_singleton]; exact isSection) packetises
  refine ⟨after, decodes, exact_.mpr ?_⟩
  rintro ⟨⟨section_, last, three⟩, _⟩
  rw [← Option.some.inj last] at three
  exact absurd three (by decide)

/-- A section without payload, in a packet that ends with it. -/
def headerSection : List UInt8 := [0x00, 0x70, 0x00]

def headerPacket : TsPacket :=
  [0x47, 0x40, 0x00, 0x35, 179] ++ List.replicate 179 0xFF ++ 0x00 :: headerSection

/-- The section is not handed over. -/
theorem headerPacket_lost :
    IsSection 1024 headerSection ∧ Packetises 5 [] [headerSection] [headerPacket] ∧
      deliveredCount true [headerPacket] = some 0 := by
  refine ⟨⟨by decide, by decide, by decide,
    fun generic => absurd generic (by decide)⟩, ?_, by decide +kernel⟩
  have carries : Carries headerPacket 5 True
      (UInt8.ofNat ([] : List UInt8).length ::
        ([] ++ (([] : List (List UInt8)).flatten ++
          (headerSection ++ List.replicate 0 stuffByte)))) :=
    ⟨⟨rfl, rfl⟩, by decide, by decide, iff_of_true (by decide) trivial, rfl, List.cons_ne_nil _ _⟩
  exact .starts carries .done

end IteSdk.TsDemuxer
