import IteSdk.TsDemuxer.PesPacket
import Mathlib.Data.List.Basic
import Mathlib.Tactic.Common

/-!
# The samples of PES packets

A payload that does not fit into what is left of the sample is dropped, and a later
one that does is gathered all the same.  `keptPositions` are the places of the packet
that the sample ends up with.
-/

namespace IteSdk.TsDemuxer

/-! ## Greedy gathering -/

/-- From `kept` on, after `arrived` bytes, the places of the payloads that fit. -/
@[grind =]
def keptPositions (queueSampleSize : Nat) : List Nat → Nat → List Nat → List Nat
  | kept, _, [] => kept
  | kept, arrived, size :: sizes =>
    if kept.length + size ≤ queueSampleSize then
      keptPositions queueSampleSize (kept ++ List.range' arrived size) (arrived + size) sizes
    else keptPositions queueSampleSize kept (arrived + size) sizes

/-- How much of the packet fits before the first payload that does not. -/
@[grind =]
def keptSize (queueSampleSize : Nat) : Nat → List Nat → Nat
  | kept, [] => kept
  | kept, size :: sizes =>
    if kept + size ≤ queueSampleSize then keptSize queueSampleSize (kept + size) sizes
    else kept

/-- Behind the first payload that does not fit no other one fits. -/
@[grind =]
def Contiguous (queueSampleSize : Nat) : Nat → List Nat → Prop
  | _, [] => True
  | kept, size :: sizes =>
    if kept + size ≤ queueSampleSize then Contiguous queueSampleSize (kept + size) sizes
    else ∀ later ∈ sizes, later = 0 ∨ queueSampleSize < kept + later

instance Contiguous.decidable (queueSampleSize : Nat) :
    ∀ (kept : Nat) (sizes : List Nat), Decidable (Contiguous queueSampleSize kept sizes)
  | _, [] => inferInstanceAs (Decidable True)
  | kept, size :: sizes =>
    have := Contiguous.decidable queueSampleSize (kept + size) sizes
    inferInstanceAs (Decidable (ite _ _ _))

section Greedy

variable {queueSampleSize arrived size kept : Nat} {positions sizes : List Nat}

theorem keptPositions_append (positions : List Nat) (arrived : Nat) (first later : List Nat) :
    keptPositions queueSampleSize positions arrived (first ++ later) =
      keptPositions queueSampleSize
        (keptPositions queueSampleSize positions arrived first) (arrived + first.sum)
        later := by
  induction first generalizing positions arrived with
  | nil => rfl
  | cons size first ih =>
    rw [List.cons_append, keptPositions, keptPositions, List.sum_cons, ← Nat.add_assoc]
    split
    · exact ih _ _
    · exact ih _ _

theorem prefix_keptPositions (positions : List Nat) (arrived : Nat) (sizes : List Nat) :
    positions <+: keptPositions queueSampleSize positions arrived sizes := by
  induction sizes generalizing positions arrived with
  | nil => exact List.prefix_rfl
  | cons size sizes ih =>
    rw [keptPositions]
    split
    · exact (List.prefix_append _ _).trans (ih _ _)
    · exact ih _ _

theorem length_keptPositions_le (positions : List Nat) (arrived : Nat) (sizes : List Nat) :
    (keptPositions queueSampleSize positions arrived sizes).length ≤
      positions.length + sizes.sum := by
  induction sizes generalizing positions arrived with
  | nil => exact Nat.le_refl _
  | cons size sizes ih =>
    rw [keptPositions, List.sum_cons]
    split
    · have rest := ih (positions ++ List.range' arrived size) (arrived + size)
      rw [List.length_append, List.length_range'] at rest
      omega
    · have rest := ih positions (arrived + size)
      omega

theorem keptPositions_fits (positions : List Nat) (arrived : Nat) (sizes : List Nat)
    (fits : positions.length ≤ queueSampleSize) :
    (keptPositions queueSampleSize positions arrived sizes).length ≤ queueSampleSize := by
  induction sizes generalizing positions arrived with
  | nil => exact fits
  | cons size sizes ih =>
    rw [keptPositions]
    split
    · apply ih
      rw [List.length_append, List.length_range']
      assumption
    · exact ih _ _ fits

theorem range_append_range' (kept size : Nat) :
    List.range kept ++ List.range' kept size = List.range (kept + size) := by
  rw [List.range_eq_range', List.range_eq_range', ← List.range'_append_1, Nat.zero_add]

theorem keptPositions_all (fits : kept + sizes.sum ≤ queueSampleSize) :
    keptPositions queueSampleSize (List.range kept) kept sizes = List.range (kept + sizes.sum) := by
  induction sizes generalizing kept with
  | nil => rfl
  | cons size sizes ih =>
    rw [List.sum_cons, ← Nat.add_assoc] at fits ⊢
    rw [keptPositions, List.length_range, if_pos (by omega), range_append_range']
    exact ih fits

theorem keptPositions_closed
    (closed : ∀ later ∈ sizes, later = 0 ∨ queueSampleSize < kept + later) (arrived : Nat) :
    keptPositions queueSampleSize (List.range kept) arrived sizes = List.range kept := by
  induction sizes generalizing arrived with
  | nil => rfl
  | cons size sizes ih =>
    obtain ⟨here, later⟩ := List.forall_mem_cons.mp closed
    rw [keptPositions, List.length_range]
    split
    · rename_i fits
      obtain rfl : size = 0 := here.resolve_right (by omega)
      rw [List.range'_zero, List.append_nil]
      exact ih later _
    · exact ih later _

theorem keptPositions_gap (opened : ¬ ∀ later ∈ sizes, later = 0 ∨ queueSampleSize < kept + later)
    (gap : kept < arrived) (count : Nat) :
    keptPositions queueSampleSize (List.range kept) arrived sizes ≠ List.range count := by
  induction sizes generalizing arrived with
  | nil => exact absurd (fun later member => by cases member) opened
  | cons size sizes ih =>
    rw [keptPositions, List.length_range]
    by_cases fits : kept + size ≤ queueSampleSize
    · rw [if_pos fits]
      cases size with
      | zero =>
        rw [List.range'_zero, List.append_nil]
        apply ih _ (by omega)
        exact fun closed => opened (List.forall_mem_cons.mpr ⟨Or.inl rfl, closed⟩)
      | succ size =>
        intro same
        have inside :
            List.range kept ++ List.range' arrived (size + 1) <+:
              keptPositions queueSampleSize _ (arrived + (size + 1)) sizes :=
          prefix_keptPositions _ _ _
        rw [same] at inside
        have long := inside.length_le
        simp only [List.length_append, List.length_range, List.length_range'] at long
        have place := inside.getElem (i := kept) (by simp)
        simp at place
        omega
    · rw [if_neg fits]
      apply ih _ (by omega)
      intro closed
      exact opened (List.forall_mem_cons.mpr ⟨Or.inr (by omega), closed⟩)

theorem keptPositions_range_iff (room : kept ≤ queueSampleSize) :
    (keptPositions queueSampleSize (List.range kept) kept sizes =
        List.range (keptPositions queueSampleSize (List.range kept) kept sizes).length) ↔
      Contiguous queueSampleSize kept sizes := by
  induction sizes generalizing kept with
  | nil => simp [keptPositions, Contiguous]
  | cons size sizes ih =>
    rw [keptPositions, Contiguous, List.length_range]
    by_cases fits : kept + size ≤ queueSampleSize
    · rw [if_pos fits, if_pos fits, range_append_range']
      exact ih fits
    · rw [if_neg fits, if_neg fits]
      constructor
      · intro same
        by_contra opened
        exact keptPositions_gap opened (by omega) _ same
      · intro closed
        rw [keptPositions_closed closed, List.length_range]

theorem length_keptPositions (contiguous : Contiguous queueSampleSize kept sizes) :
    (keptPositions queueSampleSize (List.range kept) kept sizes).length =
      keptSize queueSampleSize kept sizes := by
  induction sizes generalizing kept with
  | nil => exact List.length_range
  | cons size sizes ih =>
    rw [Contiguous] at contiguous
    rw [keptPositions, keptSize, List.length_range]
    by_cases fits : kept + size ≤ queueSampleSize
    · rw [if_pos fits] at contiguous
      rw [if_pos fits, if_pos fits, range_append_range']
      exact ih contiguous
    · rw [if_neg fits] at contiguous
      rw [if_neg fits, if_neg fits, keptPositions_closed contiguous, List.length_range]

end Greedy

/-! ## What is gathered -/

/-- The first six bytes are there, and the length is zero or right. -/
structure IsPes (pes : List UInt8) : Prop where
  header : pesPriorHeaderSize ≤ pes.length
  length :
    tsByte pes 4 * 2 ^ 8 + tsByte pes 5 = 0 ∨
      pes.length = tsByte pes 4 * 2 ^ 8 + tsByte pes 5 + pesPriorHeaderSize

def HasHeader (pes : List UInt8) : Prop :=
  tsByte pes 0 * 2 ^ 16 + tsByte pes 1 * 2 ^ 8 + tsByte pes 2 = 1 ∧ tsByte pes 3 ∉ headerlessStreams
deriving Decidable

structure InfoGathers (queueSampleSize serial : Nat) (pes : List UInt8) (sizes : List Nat)
    (info : PesInfo) : Prop where
  serial : info.serial = serial
  arrived : info.arrived = sizes.sum
  positions : info.positions = keptPositions queueSampleSize [] 0 sizes
  gathered : info.gathered = info.positions.map fun i => pes.getD i 0
  ends : info.payloadEnd = if info.gathered = [] then none else some info.gathered.length

section Info

variable {queueSampleSize serial : Nat} {pes payload tail : List UInt8} {sizes : List Nat}
  {info : PesInfo}

theorem InfoGathers.create (elementaryPid errorCount : Nat) (sample : Nat → UInt8) :
    InfoGathers queueSampleSize serial pes []
      (PesInfo.create elementaryPid errorCount serial sample) :=
  ⟨rfl, rfl, rfl, rfl, rfl⟩

theorem InfoGathers.length_gathered (gathers : InfoGathers queueSampleSize serial pes sizes info) :
    info.gathered.length = (keptPositions queueSampleSize [] 0 sizes).length := by
  rw [gathers.gathered, List.length_map, gathers.positions]

theorem map_range' (rest : pes.drop sizes.sum = payload ++ tail) :
    (List.range' sizes.sum payload.length).map (fun i => pes.getD i 0) = payload := by
  apply List.ext_getElem
  · rw [List.length_map, List.length_range']
  · intro i _ inside
    have place : pes[sizes.sum + i]? = some payload[i] := by
      rw [← List.getElem?_drop, rest, List.getElem?_append_left inside,
        List.getElem?_eq_getElem inside]
    rw [List.getElem_map, List.getElem_range', Nat.one_mul, List.getD_eq_getElem?_getD,
      place, Option.getD_some]

section

variable (gathers : InfoGathers queueSampleSize serial pes sizes info)

include gathers

theorem InfoGathers.collect (rest : pes.drop sizes.sum = payload ++ tail)
    (notEmpty : payload ≠ []) :
    InfoGathers queueSampleSize serial pes (sizes ++ [payload.length])
      (info.collect queueSampleSize payload) := by
  have length := gathers.length_gathered
  have room : (keptPositions queueSampleSize [] 0 sizes).length ≤ queueSampleSize :=
    keptPositions_fits [] 0 sizes (Nat.zero_le _)
  have step :
      keptPositions queueSampleSize [] 0 (sizes ++ [payload.length]) =
        if info.gathered.length + payload.length ≤ queueSampleSize then
          info.positions ++ List.range' info.arrived payload.length
        else info.positions := by
    rw [keptPositions_append, Nat.zero_add, keptPositions, keptPositions, keptPositions,
      ← gathers.positions, gathers.arrived, gathers.gathered, List.length_map]
  have total : (sizes ++ [payload.length]).sum = info.arrived + payload.length := by
    rw [List.sum_append, List.sum_singleton, gathers.arrived]
  rw [PesInfo.collect]
  by_cases full : queueSampleSize - info.gathered.length < payload.length
  · rw [if_neg (by omega)] at step
    rw [if_pos full]
    exact ⟨gathers.serial, total.symm, step.symm, gathers.gathered, gathers.ends⟩
  · rw [if_pos (by omega)] at step
    rw [if_neg full]
    have arrived : info.arrived + payload.length - payload.length = info.arrived :=
      Nat.add_sub_cancel _ _
    refine ⟨gathers.serial, total.symm, ?_, ?_, ?_⟩
    · rw [step]
      exact congrArg (fun i => info.positions ++ List.range' i payload.length) arrived
    · change info.gathered ++ payload = _
      dsimp only
      rw [List.map_append, arrived, gathers.arrived, map_range' rest, ← gathers.gathered]
    · change some (info.gathered.length + payload.length) = _
      dsimp only
      rw [if_neg (List.append_ne_nil_of_right_ne_nil _ notEmpty), List.length_append]

theorem InfoGathers.zero : InfoGathers queueSampleSize serial pes (sizes ++ [0]) info := by
  obtain ⟨number, arrived, positions, gathered, ends⟩ := gathers
  have total : (sizes ++ [0]).sum = sizes.sum := by
    rw [List.sum_append, List.sum_singleton, Nat.add_zero]
  have same :
      keptPositions queueSampleSize [] 0 (sizes ++ [0]) =
        keptPositions queueSampleSize [] 0 sizes := by
    rw [keptPositions_append, keptPositions]
    split
    · rw [List.range'_zero, List.append_nil]
      rfl
    · rfl
  exact ⟨number, arrived.trans total.symm, positions.trans same.symm, gathered, ends⟩

theorem InfoGathers.parsePriorHeader (header : List UInt8) :
    InfoGathers queueSampleSize serial pes sizes (info.parsePriorHeader header) :=
  ⟨gathers.serial, gathers.arrived, gathers.positions, gathers.gathered, gathers.ends⟩

end

structure HeaderParsed (pes : List UInt8) (info : PesInfo) : Prop where
  startCode :
    info.packetStartCodePrefix = tsByte pes 0 * 2 ^ 16 + tsByte pes 1 * 2 ^ 8 + tsByte pes 2
  streamId : info.streamId = tsByte pes 3
  length : info.pesPacketLength = tsByte pes 4 * 2 ^ 8 + tsByte pes 5

theorem headerParsed_take (info : PesInfo) (pes : List UInt8) :
    HeaderParsed pes (info.parsePriorHeader (pes.take pesPriorHeaderSize)) := by
  have byte (i : Nat) (small : i < pesPriorHeaderSize) :
      tsByte (pes.take pesPriorHeaderSize) i = tsByte pes i := by
    rw [tsByte, tsByte, List.getD_eq_getElem?_getD, List.getD_eq_getElem?_getD,
      List.getElem?_take_of_lt small]
  rw [PesInfo.parsePriorHeader, byte 0 (by decide), byte 1 (by decide), byte 2 (by decide),
    byte 3 (by decide), byte 4 (by decide), byte 5 (by decide)]
  exact ⟨rfl, rfl, rfl⟩

theorem HeaderParsed.collect (parsed : HeaderParsed pes info) (bytes : List UInt8) :
    HeaderParsed pes (info.collect queueSampleSize bytes) := by
  rw [PesInfo.collect]
  dsimp only
  split
  · exact ⟨parsed.startCode, parsed.streamId, parsed.length⟩
  · exact ⟨parsed.startCode, parsed.streamId, parsed.length⟩

structure SampleOf (queueSampleSize serial : Nat) (pes : List UInt8) (sizes : List Nat)
    (info : PesInfo) : Prop where
  gathers : InfoGathers queueSampleSize serial pes sizes info
  parsed : HeaderParsed pes info
  starts : info.payloadStart = some (9 + (info.dataAt 8).toNat)

end Info

def handedOf (decoder : PesDecoder) (serial : Nat) : List PesInfo :=
  decoder.handed.filter fun info => info.serial = serial

/-- The decoder has begun the packet with this number last, and not handed it over. -/
structure PesGathering (queueSampleSize serial : Nat) (pes : List UInt8) (sizes : List Nat)
    (decoder : PesDecoder) (info : PesInfo) : Prop where
  size : decoder.queueSampleSize = queueSampleSize
  created : decoder.created = serial + 1
  notHanded : handedOf decoder serial = []
  gathers : InfoGathers queueSampleSize serial pes sizes info
  header : decoder.priorHeader = pes.take (min pesPriorHeaderSize sizes.sum)
  parsed : pesPriorHeaderSize ≤ sizes.sum → HeaderParsed pes info

/-- The packet has been handed over, or dropped because of its header. -/
structure Finished (queueSampleSize serial : Nat) (pes : List UInt8) (sizes : List Nat)
    (decoder : PesDecoder) : Prop where
  building : decoder.building = none
  created : decoder.created = serial + 1
  whole : sizes.sum = pes.length
  handed :
    HasHeader pes →
      ∃ info, handedOf decoder serial = [info] ∧ SampleOf queueSampleSize serial pes sizes info
  dropped : ¬ HasHeader pes → handedOf decoder serial = []

def AfterPayloads (queueSampleSize serial : Nat) (pes : List UInt8) (sizes : List Nat)
    (decoder : PesDecoder) : Prop :=
  (∃ info, decoder.building = some info ∧
      PesGathering queueSampleSize serial pes sizes decoder info) ∨
    Finished queueSampleSize serial pes sizes decoder

section Decoder

variable {queueSampleSize serial : Nat} {pes payload tail : List UInt8} {sizes : List Nat}
  {info : PesInfo} {decoder : PesDecoder}

theorem handedOf_append (handed : List PesInfo) :
    handedOf { decoder with handed := decoder.handed ++ handed } serial =
      handedOf decoder serial ++ handed.filter fun info => info.serial = serial :=
  List.filter_append _ _

theorem PesGathering.finished
    (gathering : PesGathering queueSampleSize serial pes sizes decoder info)
    (isPes : IsPes pes) (whole : sizes.sum = pes.length) :
    Finished queueSampleSize serial pes sizes (decoder.parsePes info).reinit := by
  have parsed := gathering.parsed (whole ▸ isPes.header)
  refine ⟨rfl, ?_, whole, fun has => ?_, fun hasNot => ?_⟩
  · rw [PesDecoder.parsePes]
    split
    · exact gathering.created
    · split
      · exact gathering.created
      · exact gathering.created
  · have isOne : ¬ info.packetStartCodePrefix ≠ 1 := not_not.mpr (parsed.startCode.trans has.1)
    have hasPayload : info.streamId ∉ headerlessStreams := by
      rw [parsed.streamId]
      exact has.2
    rw [PesDecoder.parsePes, if_neg isOne, if_neg hasPayload]
    refine ⟨decoder.ready info, (handedOf_append _).trans ?_, ?_⟩
    · have number : (decoder.ready info).serial = serial := gathering.gathers.serial
      rw [gathering.notHanded, List.nil_append]
      exact List.filter_cons_of_pos (decide_eq_true number)
    · obtain ⟨serial, arrived, positions, gathered, ends⟩ := gathering.gathers
      exact
        ⟨⟨serial, arrived, positions, gathered, ends⟩,
          ⟨parsed.startCode, parsed.streamId, parsed.length⟩, rfl⟩
  · rw [PesDecoder.parsePes]
    split
    · exact gathering.notHanded
    · rename_i isOne
      rw [if_pos]
      · exact gathering.notHanded
      · by_contra notIn
        rw [not_not, parsed.startCode] at isOne
        rw [parsed.streamId] at notIn
        exact hasNot ⟨isOne, notIn⟩

theorem gatherBody_spec (size : decoder.queueSampleSize = queueSampleSize)
    (created : decoder.created = serial + 1) (notHanded : handedOf decoder serial = [])
    (gathers : InfoGathers queueSampleSize serial pes sizes info)
    (header : decoder.priorHeader = pes.take pesPriorHeaderSize)
    (parsed : HeaderParsed pes info) (isPes : IsPes pes)
    (rest : pes.drop sizes.sum = payload ++ tail) (notEmpty : payload ≠ [])
    (complete : pesPriorHeaderSize ≤ sizes.sum + payload.length) :
    AfterPayloads queueSampleSize serial pes (sizes ++ [payload.length])
      (decoder.gatherBody info payload) := by
  subst size
  have collected := gathers.collect rest notEmpty
  have total : (sizes ++ [payload.length]).sum = sizes.sum + payload.length := by
    rw [List.sum_append, List.sum_singleton]
  have gathering :
      PesGathering decoder.queueSampleSize serial pes (sizes ++ [payload.length]) decoder
        (info.collect decoder.queueSampleSize payload) := by
    refine ⟨rfl, created, notHanded, collected, ?_, fun _ => parsed.collect payload⟩
    rw [header, total, Nat.min_eq_left complete]
  rw [PesDecoder.gatherBody]
  split
  · rename_i ends
    obtain ⟨notZero, enough⟩ := ends
    right
    -- Nothing has been dropped, and this is the rest of the packet.
    have length : pes.length = info.pesPacketLength + pesPriorHeaderSize := by
      rw [parsed.length] at notZero ⊢
      exact isPes.length.resolve_left notZero
    have kept :
        (keptPositions decoder.queueSampleSize [] 0 sizes).length ≤ [].length + sizes.sum :=
      length_keptPositions_le [] 0 sizes
    rw [← gathers.length_gathered, List.length_nil, Nat.zero_add] at kept
    have left : pes.length - sizes.sum = payload.length + tail.length := by
      rw [← List.length_drop, rest, List.length_append]
    have positive := List.length_pos_of_ne_nil notEmpty
    have short : pes.length < 2 ^ 32 := by
      have high := (pes.getD 4 0).toNat_lt
      have low := (pes.getD 5 0).toNat_lt
      rw [length, parsed.length, tsByte, tsByte, pesPriorHeaderSize]
      omega
    have remaining :
        (info.pesPacketLength + pesPriorHeaderSize + (2 ^ 32 - info.gathered.length)) % 2 ^ 32 =
          payload.length := by
      omega
    have whole : (sizes ++ [payload.length]).sum = pes.length := by
      rw [total]
      omega
    rw [remaining]
    dsimp only
    rw [List.take_length]
    exact gathering.finished isPes whole
  · left
    exact
      ⟨_, rfl, gathering.size, gathering.created, gathering.notHanded, collected,
        gathering.header, gathering.parsed⟩

theorem PesGathering.gather (gathering : PesGathering queueSampleSize serial pes sizes decoder info)
    (isPes : IsPes pes) (rest : pes.drop sizes.sum = payload ++ tail) :
    AfterPayloads queueSampleSize serial pes (sizes ++ [payload.length])
      (decoder.gather info payload) := by
  have total : (sizes ++ [payload.length]).sum = sizes.sum + payload.length := by
    rw [List.sum_append, List.sum_singleton]
  rw [PesDecoder.gather]
  by_cases empty : payload = []
  · -- The loop is not entered.
    subst empty
    obtain ⟨size, created, notHanded, gathers, header, parsed⟩ := gathering
    rw [List.length_nil, Nat.add_zero] at total
    rw [if_pos rfl]
    left
    refine ⟨info, rfl, size, created, notHanded, gathers.zero, ?_, ?_⟩
    · rw [List.length_nil, total]
      exact header
    · rw [List.length_nil, total]
      exact parsed
  · have positive := List.length_pos_of_ne_nil empty
    have headerLength :
        decoder.priorHeader.length = min pesPriorHeaderSize sizes.sum := by
      have long := isPes.header
      rw [gathering.header, List.length_take]
      omega
    rw [if_neg empty]
    by_cases short : decoder.priorHeader.length < pesPriorHeaderSize
    · rw [if_pos short]
      have early : sizes.sum < pesPriorHeaderSize := by omega
      have headerSum : decoder.priorHeader = pes.take sizes.sum := by
        rw [gathering.header, Nat.min_eq_right (by omega)]
      have lengthSum : decoder.priorHeader.length = sizes.sum := by omega
      -- What has come before, and the next bytes of this payload.
      have extended (count : Nat) (inside : count ≤ payload.length) :
          decoder.priorHeader ++ payload.take count = pes.take (sizes.sum + count) := by
        rw [headerSum, List.take_add, rest, List.take_append_of_le_length inside]
      dsimp only
      by_cases completes : pesPriorHeaderSize - decoder.priorHeader.length ≤ payload.length
      · rw [if_pos completes, extended _ completes, lengthSum, Nat.add_sub_cancel' (by omega)]
        exact
          gatherBody_spec gathering.size gathering.created gathering.notHanded
            (gathering.gathers.parsePriorHeader _) rfl (headerParsed_take info pes) isPes
            rest empty (by omega)
      · rw [if_neg completes]
        left
        obtain ⟨rfl, created, notHanded, gathers, header, parsed⟩ := gathering
        refine ⟨_, rfl, rfl, created, notHanded, gathers.collect rest empty, ?_, fun late => ?_⟩
        · have whole := extended payload.length (Nat.le_refl _)
          rw [List.take_length] at whole
          rw [total, Nat.min_eq_right (by omega)]
          exact whole
        · omega
    · rw [if_neg short]
      have late : pesPriorHeaderSize ≤ sizes.sum := by omega
      have header := gathering.header
      rw [Nat.min_eq_left late] at header
      exact
        gatherBody_spec gathering.size gathering.created gathering.notHanded
          gathering.gathers header (gathering.parsed late) isPes rest empty (by omega)

end Decoder

/-! ## Other packets -/

/-- The packets that have been handed over or are being built have numbers that were
given before. -/
structure Reached (queueSampleSize : Nat) (decoder : PesDecoder) : Prop where
  size : decoder.queueSampleSize = queueSampleSize
  handed : ∀ info ∈ decoder.handed, info.serial < decoder.created
  building : ∀ info, decoder.building = some info → info.serial < decoder.created
  fresh : decoder.building = none → decoder.priorHeader = []

section Reached

variable {queueSampleSize serial : Nat} {decoder : PesDecoder} {info : PesInfo}

theorem same_parsePes (decoder : PesDecoder) (info : PesInfo) :
    (decoder.parsePes info).created = decoder.created ∧
      (decoder.parsePes info).queueSampleSize = decoder.queueSampleSize ∧
        (decoder.parsePes info).continuityCounter = decoder.continuityCounter := by
  rw [PesDecoder.parsePes]
  split
  · exact ⟨rfl, rfl, rfl⟩
  · split
    · exact ⟨rfl, rfl, rfl⟩
    · exact ⟨rfl, rfl, rfl⟩

theorem handed_parsePes (decoder : PesDecoder) (info : PesInfo) :
    ∀ ready ∈ (decoder.parsePes info).handed,
      ready ∈ decoder.handed ∨ ready.serial = info.serial := by
  rw [PesDecoder.parsePes]
  split
  · exact fun ready member => Or.inl member
  · split
    · exact fun ready member => Or.inl member
    · intro ready member
      rcases List.mem_append.mp member with old | new
      · exact Or.inl old
      · obtain rfl := List.mem_singleton.mp new
        exact Or.inr rfl

theorem handedOf_parsePes (other : info.serial ≠ serial) :
    handedOf (decoder.parsePes info) serial = handedOf decoder serial := by
  rw [PesDecoder.parsePes]
  split
  · rfl
  · split
    · rfl
    · have notReady : ¬ (decoder.ready info).serial = serial := other
      refine (handedOf_append _).trans ?_
      rw [List.filter_cons_of_neg (by simpa using notReady), List.filter_nil, List.append_nil]

theorem reached_parsePes (size : decoder.queueSampleSize = queueSampleSize)
    (handed : ∀ info ∈ decoder.handed, info.serial < decoder.created)
    (given : info.serial < decoder.created) :
    Reached queueSampleSize (decoder.parsePes info).reinit := by
  obtain ⟨created, sameSize, -⟩ := same_parsePes decoder info
  refine ⟨sameSize.trans size, fun ready member => ?_, fun _ none => ?_, fun _ => rfl⟩
  · change ready.serial < (decoder.parsePes info).created
    rw [created]
    rcases handed_parsePes decoder info ready member with old | same
    · exact handed ready old
    · rw [same]
      exact given
  · cases none

theorem serial_collect (queueSampleSize : Nat) (info : PesInfo) (bytes : List UInt8) :
    (info.collect queueSampleSize bytes).serial = info.serial := by
  rw [PesInfo.collect]
  dsimp only
  split
  · rfl
  · rfl

/-- Gathering a payload, one way or the other: the packet goes on being built, or it
ends. -/
theorem gather_cases (decoder : PesDecoder) (info : PesInfo) (payload : List UInt8) :
    (∃ priorHeader info',
        decoder.gather info payload =
            { decoder with priorHeader := priorHeader, building := some info' } ∧
          info'.serial = info.serial) ∨
      ∃ priorHeader info',
        decoder.gather info payload =
            (PesDecoder.parsePes { decoder with priorHeader := priorHeader } info').reinit ∧
          info'.serial = info.serial := by
  have body (priorHeader : List UInt8) (info₀ : PesInfo) (same : info₀.serial = info.serial) :
      (∃ info',
          PesDecoder.gatherBody { decoder with priorHeader := priorHeader } info₀ payload =
              { decoder with priorHeader := priorHeader, building := some info' } ∧
            info'.serial = info.serial) ∨
        ∃ info',
          PesDecoder.gatherBody { decoder with priorHeader := priorHeader } info₀ payload =
              (PesDecoder.parsePes { decoder with priorHeader := priorHeader } info').reinit ∧
            info'.serial = info.serial := by
    rw [PesDecoder.gatherBody]
    split
    · exact Or.inr ⟨_, rfl, (serial_collect _ _ _).trans same⟩
    · exact Or.inl ⟨_, rfl, (serial_collect _ _ _).trans same⟩
  rw [PesDecoder.gather]
  split
  · exact Or.inl ⟨decoder.priorHeader, info, rfl, rfl⟩
  · split
    · dsimp only
      split
      · rcases body _ (info.parsePriorHeader _) rfl with
          ⟨info', goesOn, same⟩ | ⟨info', ends, same⟩
        · exact Or.inl ⟨_, info', goesOn, same⟩
        · exact Or.inr ⟨_, info', ends, same⟩
      · exact Or.inl ⟨_, _, rfl, serial_collect _ _ _⟩
    · rcases body decoder.priorHeader info rfl with
        ⟨info', goesOn, same⟩ | ⟨info', ends, same⟩
      · exact Or.inl ⟨_, info', goesOn, same⟩
      · exact Or.inr ⟨_, info', ends, same⟩

theorem reached_gather (size : decoder.queueSampleSize = queueSampleSize)
    (handed : ∀ info ∈ decoder.handed, info.serial < decoder.created)
    (given : info.serial < decoder.created) (payload : List UInt8) :
    Reached queueSampleSize (decoder.gather info payload) := by
  rcases gather_cases decoder info payload with
    ⟨priorHeader, info', goesOn, same⟩ | ⟨priorHeader, info', ends, same⟩
  · rw [goesOn]
    refine ⟨size, handed, fun _ isInfo => ?_, fun none => ?_⟩
    · obtain rfl := Option.some.inj isInfo
      exact same ▸ given
    · cases none
  · rw [ends]
    exact reached_parsePes size handed (same ▸ given)

theorem handedOf_gather (other : info.serial ≠ serial) (payload : List UInt8) :
    handedOf (decoder.gather info payload) serial = handedOf decoder serial := by
  rcases gather_cases decoder info payload with
    ⟨priorHeader, info', goesOn, same⟩ | ⟨priorHeader, info', ends, same⟩
  · rw [goesOn]
    rfl
  · rw [ends]
    exact handedOf_parsePes (same ▸ other)

theorem Reached.finish (reached : Reached queueSampleSize decoder) :
    Reached queueSampleSize decoder.finish ∧ decoder.finish.created = decoder.created ∧
      decoder.finish.building = none := by
  rw [PesDecoder.finish]
  cases built : decoder.building with
  | none => exact ⟨reached, rfl, built⟩
  | some info =>
    exact
      ⟨reached_parsePes reached.size reached.handed (reached.building info built),
        (same_parsePes decoder info).1, rfl⟩

theorem counter_gather (decoder : PesDecoder) (info : PesInfo) (payload : List UInt8) :
    (decoder.gather info payload).continuityCounter = decoder.continuityCounter := by
  rcases gather_cases decoder info payload with
    ⟨priorHeader, info', goesOn, -⟩ | ⟨priorHeader, info', ends, -⟩
  · rw [goesOn]
  · rw [ends]
    exact (same_parsePes _ _).2.2

theorem counter_decodePayload (decoder : PesDecoder) (input : PesDecoder.Input) (errorCount : Nat) :
    (decoder.decodePayload input errorCount).continuityCounter = decoder.continuityCounter := by
  rw [PesDecoder.decodePayload]
  split
  · rfl
  · split
    · refine (counter_gather _ _ _).trans ?_
      change decoder.finish.continuityCounter = _
      rw [PesDecoder.finish]
      split
      · rfl
      · exact (same_parsePes _ _).2.2
    · split
      · rfl
      · exact counter_gather _ _ _

section

variable (reached : Reached queueSampleSize decoder)

include reached

theorem Reached.mark (continuityCounter : Nat)
    (bDiscontinuity bErrorIndicator bFirstPacket : Bool) :
    Reached queueSampleSize
      { decoder with
        continuityCounter := continuityCounter
        bDiscontinuity := bDiscontinuity
        bErrorIndicator := bErrorIndicator
        bFirstPacket := bFirstPacket } :=
  ⟨reached.size, reached.handed, reached.building, reached.fresh⟩

theorem Reached.begin (input : PesDecoder.Input) (errorCount : Nat) :
    Reached queueSampleSize (decoder.begin input errorCount) := by
  obtain ⟨finished, -, -⟩ := reached.finish
  have size :
      { decoder.finish with created := decoder.finish.created + 1 }.queueSampleSize =
        queueSampleSize :=
    finished.size
  have given :
      (PesInfo.create (tsPid input.packet) errorCount decoder.finish.created
          input.sample).serial <
        decoder.finish.created + 1 :=
    Nat.lt_succ_self _
  refine reached_gather size (fun info member => ?_) given _
  exact Nat.lt_succ_of_lt (finished.handed info member)

theorem Reached.decodePayload (input : PesDecoder.Input) (errorCount : Nat) :
    Reached queueSampleSize (decoder.decodePayload input errorCount) := by
  rw [PesDecoder.decodePayload]
  split
  · exact reached
  · split
    · exact reached.begin input errorCount
    · split
      · exact reached
      · rename_i info built
        have given :
            { info with errorCount := info.errorCount + errorCount }.serial < decoder.created :=
          reached.building info built
        exact reached_gather reached.size reached.handed given _

theorem Reached.decodePacket (input : PesDecoder.Input) :
    Reached queueSampleSize (decoder.decodePacket input) := by
  rw [PesDecoder.decodePacket]
  dsimp only
  split
  · exact reached.mark _ _ _ _
  · split
    · exact (reached.mark _ _ _ _).decodePayload input _
    · split
      · exact reached.mark _ _ _ _
      · split
        · exact (reached.mark _ _ _ _).decodePayload input _
        · exact (reached.mark _ _ _ _).decodePayload input _

end

theorem reached_run (queueSampleSize : Nat) (past : List PesDecoder.Input) :
    Reached queueSampleSize (pesRun queueSampleSize past) := by
  have start : Reached queueSampleSize (PesDecoder.attach queueSampleSize) := by
    refine ⟨rfl, fun info member => ?_, fun info none => ?_, fun _ => rfl⟩
    · cases member
    · cases none
  have kept (decoder : PesDecoder) (reached : Reached queueSampleSize decoder)
      (past : List PesDecoder.Input) :
      Reached queueSampleSize (past.foldl PesDecoder.decodePacket decoder) := by
    induction past generalizing decoder with
    | nil => exact reached
    | cons input past ih =>
      exact ih _ (reached.decodePacket input)
  exact kept _ start past

end Reached

/-! ## A packet in the payloads of TS packets -/

def Consecutive : Nat → List PesDecoder.Input → Prop
  | _, [] => True
  | last, input :: rest =>
    tsCounter input.packet = (last + 1) % 16 ∧ Consecutive (tsCounter input.packet) rest

instance Consecutive.decidable :
    ∀ (last : Nat) (inputs : List PesDecoder.Input), Decidable (Consecutive last inputs)
  | _, [] => inferInstanceAs (Decidable True)
  | _, input :: rest =>
    have := Consecutive.decidable (tsCounter input.packet) rest
    inferInstanceAs (Decidable (_ ∧ _))

/-- `pes` comes in the payloads of `first` and `rest`, and `next` begins the packet
behind it. -/
structure PesSplit (decoder : PesDecoder) (pes : List UInt8) (first : PesDecoder.Input)
    (rest : List PesDecoder.Input) (next : PesDecoder.Input) : Prop where
  sound :
    ∀ input ∈ first :: (rest ++ [next]),
      tsByte input.packet 0 = validSyncByte.toNat ∧ tsHasPayload input.packet = true
  begins : tsUnitStart first.packet = true ∧ tsUnitStart next.packet = true
  continues : ∀ input ∈ rest, tsUnitStart input.packet = false
  follows :
    decoder.bFirstPacket = true ∨ tsCounter first.packet = (decoder.continuityCounter + 1) % 16
  counters : Consecutive (tsCounter first.packet) (rest ++ [next])
  payloads : ((first :: rest).map fun input => tsPayload input.packet).flatten = pes

def payloadSizes (inputs : List PesDecoder.Input) : List Nat :=
  inputs.map fun input => (tsPayload input.packet).length

/-- The sample holds the beginning of the packet, all of it if there is room, with the
fields of the header and addresses in order. -/
structure SampleRight (queueSampleSize : Nat) (pes : List UInt8) (info : PesInfo) :
    Prop where
  contiguous : info.positions = List.range info.gathered.length
  data : info.gathered = pes.take info.gathered.length
  whole : pes.length ≤ queueSampleSize → info.gathered = pes
  parsed : HeaderParsed pes info
  addresses :
    ∃ payloadStart payloadEnd,
      info.payloadStart = some payloadStart ∧ info.payloadEnd = some payloadEnd ∧
        payloadStart ≤ payloadEnd ∧ payloadEnd ≤ queueSampleSize

section Split

variable {queueSampleSize serial : Nat} {pes payload tail : List UInt8} {sizes : List Nat}
  {info : PesInfo} {decoder : PesDecoder} {input : PesDecoder.Input}

/-- A packet with the next counter is not a duplicate, and nothing is missing before
it. -/
theorem decodePacket_follows (sync : tsByte input.packet 0 = validSyncByte.toNat)
    (follows :
      decoder.bFirstPacket = true ∨ tsCounter input.packet = (decoder.continuityCounter + 1) % 16) :
    ∃ bErrorIndicator bFirstPacket errorCount,
      decoder.decodePacket input =
        { decoder with
          bErrorIndicator := bErrorIndicator
          bFirstPacket := bFirstPacket
          continuityCounter := tsCounter input.packet }.decodePayload input errorCount := by
  rw [PesDecoder.decodePacket]
  dsimp only
  rw [if_neg (not_not.mpr sync)]
  by_cases first : decoder.bFirstPacket = true
  · rw [if_pos first]
    exact ⟨_, false, _, rfl⟩
  · have next := follows.resolve_left first
    rw [if_neg first, if_neg (by omega), if_pos next]
    exact ⟨_, decoder.bFirstPacket, _, rfl⟩

section

variable (after : AfterPayloads queueSampleSize serial pes sizes decoder)

include after

theorem AfterPayloads.mark (continuityCounter : Nat) (bErrorIndicator bFirstPacket : Bool) :
    AfterPayloads queueSampleSize serial pes sizes
      { decoder with
        continuityCounter := continuityCounter
        bErrorIndicator := bErrorIndicator
        bFirstPacket := bFirstPacket } := by
  rcases after with ⟨info, built, gathering⟩ | finished
  · left
    exact
      ⟨info, built, gathering.size, gathering.created, gathering.notHanded,
        gathering.gathers, gathering.header, gathering.parsed⟩
  · right
    exact ⟨finished.building, finished.created, finished.whole, finished.handed, finished.dropped⟩

theorem AfterPayloads.decodePayload (isPes : IsPes pes)
    (hasPayload : tsHasPayload input.packet = true) (continues : tsUnitStart input.packet = false)
    (rest : pes.drop sizes.sum = tsPayload input.packet ++ tail) (errorCount : Nat) :
    AfterPayloads queueSampleSize serial pes (sizes ++ [(tsPayload input.packet).length])
      (decoder.decodePayload input errorCount) := by
  have isThere : ¬ tsHasPayload input.packet = false := by simp [hasPayload]
  have goesOn : ¬ tsUnitStart input.packet = true := Bool.eq_false_iff.mp continues
  rw [PesDecoder.decodePayload, if_neg isThere, if_neg goesOn]
  rcases after with ⟨info, built, gathering⟩ | finished
  · rw [built]
    obtain ⟨size, created, notHanded, gathers, header, parsed⟩ := gathering
    obtain ⟨number, arrived, positions, gathered, ends⟩ := gathers
    refine PesGathering.gather ?_ isPes rest
    exact
      ⟨size, created, notHanded, ⟨number, arrived, positions, gathered, ends⟩, header,
        fun late => ⟨(parsed late).startCode, (parsed late).streamId, (parsed late).length⟩⟩
  · -- The packet has ended, and nothing of it is left.
    have empty : tsPayload input.packet = [] := by
      rw [finished.whole, List.drop_length] at rest
      exact (List.append_eq_nil_iff.mp rest.symm).1
    have total : (sizes ++ [0]).sum = sizes.sum := by
      rw [List.sum_append, List.sum_singleton, Nat.add_zero]
    rw [finished.building, empty, List.length_nil]
    right
    refine
      ⟨finished.building, finished.created, total.trans finished.whole, fun has => ?_,
        finished.dropped⟩
    obtain ⟨info, handed, gathers, parsed, starts⟩ := finished.handed has
    exact ⟨info, handed, gathers.zero, parsed, starts⟩

theorem AfterPayloads.run {inputs : List PesDecoder.Input} {next : PesDecoder.Input}
    (isPes : IsPes pes)
    (sound :
      ∀ input ∈ inputs,
        tsByte input.packet 0 = validSyncByte.toNat ∧ tsHasPayload input.packet = true)
    (continues : ∀ input ∈ inputs, tsUnitStart input.packet = false)
    (counters : Consecutive decoder.continuityCounter (inputs ++ [next]))
    (rest : pes.drop sizes.sum = (inputs.map fun input => tsPayload input.packet).flatten) :
    AfterPayloads queueSampleSize serial pes (sizes ++ payloadSizes inputs)
        (inputs.foldl PesDecoder.decodePacket decoder) ∧
      tsCounter next.packet =
        ((inputs.foldl PesDecoder.decodePacket decoder).continuityCounter + 1) % 16 := by
  induction inputs generalizing decoder sizes with
  | nil =>
    rw [payloadSizes, List.map_nil, List.append_nil]
    exact ⟨after, counters.1⟩
  | cons input inputs ih =>
    obtain ⟨⟨sync, hasPayload⟩, soundLater⟩ := List.forall_mem_cons.mp sound
    obtain ⟨goesOn, continuesLater⟩ := List.forall_mem_cons.mp continues
    obtain ⟨counter, countersLater⟩ := counters
    rw [List.map_cons, List.flatten_cons] at rest
    obtain ⟨bErrorIndicator, bFirstPacket, errorCount, decodes⟩ :=
      decodePacket_follows sync (Or.inr counter)
    have later :=
      (after.mark (tsCounter input.packet) bErrorIndicator bFirstPacket).decodePayload
        isPes hasPayload goesOn rest errorCount
    rw [← decodes] at later
    have sizesLater :
        sizes ++ payloadSizes (input :: inputs) =
          sizes ++ [(tsPayload input.packet).length] ++ payloadSizes inputs :=
      List.append_cons _ _ _
    rw [sizesLater]
    apply ih later soundLater continuesLater
    · rw [decodes, counter_decodePayload]
      exact countersLater
    · rw [List.sum_append, List.sum_singleton, ← List.drop_drop, rest, List.drop_left]

end

theorem Reached.firstPayload (reached : Reached queueSampleSize decoder)
    (isPes : IsPes pes) (hasPayload : tsHasPayload input.packet = true)
    (begins : tsUnitStart input.packet = true) (rest : pes = tsPayload input.packet ++ tail)
    (errorCount : Nat) :
    AfterPayloads queueSampleSize decoder.created pes [(tsPayload input.packet).length]
      (decoder.decodePayload input errorCount) := by
  obtain ⟨finished, created, building⟩ := reached.finish
  have isThere : ¬ tsHasPayload input.packet = false := by simp [hasPayload]
  rw [PesDecoder.decodePayload, if_neg isThere, if_pos begins, PesDecoder.begin]
  have gathering :
      PesGathering queueSampleSize decoder.created pes []
        { decoder.finish with created := decoder.finish.created + 1 }
        (PesInfo.create (tsPid input.packet) errorCount decoder.finish.created input.sample) := by
    refine ⟨finished.size, congrArg (· + 1) created, ?_, ?_, ?_, fun late => ?_⟩
    · apply List.filter_eq_nil_iff.mpr
      intro info member
      have before := finished.handed info member
      rw [created] at before
      simpa using Nat.ne_of_lt before
    · rw [created]
      exact InfoGathers.create _ _ _
    · rw [List.sum_nil, Nat.min_zero, List.take_zero]
      exact finished.fresh building
    · cases late
  exact gathering.gather isPes rest

theorem AfterPayloads.next (after : AfterPayloads queueSampleSize serial pes sizes decoder)
    (isPes : IsPes pes) (whole : sizes.sum = pes.length)
    (hasPayload : tsHasPayload input.packet = true)
    (begins : tsUnitStart input.packet = true) (errorCount : Nat) :
    ∃ ended,
      Finished queueSampleSize serial pes sizes ended ∧
        handedOf (decoder.decodePayload input errorCount) serial = handedOf ended serial := by
  have isThere : ¬ tsHasPayload input.packet = false := by simp [hasPayload]
  have ended : Finished queueSampleSize serial pes sizes decoder.finish := by
    rw [PesDecoder.finish]
    rcases after with ⟨info, built, gathering⟩ | finished
    · rw [built]
      exact gathering.finished isPes whole
    · rw [finished.building]
      exact finished
  refine ⟨decoder.finish, ended, ?_⟩
  rw [PesDecoder.decodePayload, if_neg isThere, if_pos begins]
  apply handedOf_gather
  have created := ended.created
  change decoder.finish.created ≠ serial
  omega

theorem PesSplit.finished {first next : PesDecoder.Input} {rest : List PesDecoder.Input}
    (reached : Reached queueSampleSize decoder) (isPes : IsPes pes)
    (split : PesSplit decoder pes first rest next) :
    ∃ ended,
      Finished queueSampleSize decoder.created pes (payloadSizes (first :: rest)) ended ∧
        handedOf ((first :: (rest ++ [next])).foldl PesDecoder.decodePacket decoder)
            decoder.created =
          handedOf ended decoder.created := by
  obtain ⟨⟨sync, hasPayload⟩, soundLater⟩ := List.forall_mem_cons.mp split.sound
  obtain ⟨soundRest, soundNext⟩ := List.forall_mem_append.mp soundLater
  obtain ⟨nextSync, nextPayload⟩ := soundNext next (List.mem_singleton_self next)
  have payloads := split.payloads
  rw [List.map_cons, List.flatten_cons] at payloads
  obtain ⟨bErrorIndicator, bFirstPacket, errorCount, decodes⟩ :=
    decodePacket_follows sync split.follows
  have start :=
    (reached.mark (tsCounter first.packet) decoder.bDiscontinuity bErrorIndicator
      bFirstPacket).firstPayload isPes hasPayload split.begins.1 payloads.symm errorCount
  obtain ⟨all, counter⟩ :=
    start.run isPes soundRest split.continues
      (by rw [counter_decodePayload]; exact split.counters)
      (by rw [List.sum_singleton, ← payloads, List.drop_left])
  obtain ⟨bErrorIndicator', bFirstPacket', errorCount', decodesNext⟩ :=
    decodePacket_follows nextSync (Or.inr counter)
  have whole : (payloadSizes (first :: rest)).sum = pes.length := by
    rw [← split.payloads, List.length_flatten, payloadSizes, List.map_map]
    rfl
  obtain ⟨ended, finished, same⟩ :=
    (all.mark (tsCounter next.packet) bErrorIndicator' bFirstPacket').next isPes whole
      nextPayload split.begins.2 errorCount'
  refine ⟨ended, finished, ?_⟩
  rw [List.foldl_cons, List.foldl_append, List.foldl_cons, List.foldl_nil, decodes, decodesNext]
  exact same

end Split

section Sample

variable {queueSampleSize serial : Nat} {pes : List UInt8} {sizes : List Nat}
  {info : PesInfo}

theorem map_range (count : Nat) (inside : count ≤ pes.length) :
    (List.range count).map (fun i => pes.getD i 0) = pes.take count := by
  apply List.ext_getElem
  · rw [List.length_map, List.length_range, List.length_take, Nat.min_eq_left inside]
  · intro i _ short
    rw [List.length_take] at short
    rw [List.getElem_map, List.getElem_range, List.getElem_take,
      List.getD_eq_getElem?_getD, List.getElem?_eq_getElem (by omega), Option.getD_some]

theorem SampleOf.contiguous_iff (sample : SampleOf queueSampleSize serial pes sizes info) :
    info.positions = List.range info.gathered.length ↔ Contiguous queueSampleSize 0 sizes := by
  rw [sample.gathers.length_gathered, sample.gathers.positions]
  exact keptPositions_range_iff (Nat.zero_le _)

theorem SampleOf.right_iff (sample : SampleOf queueSampleSize serial pes sizes info)
    (whole : sizes.sum = pes.length) :
    SampleRight queueSampleSize pes info ↔
      Contiguous queueSampleSize 0 sizes ∧
        9 + (pes.getD 8 0).toNat ≤ keptSize queueSampleSize 0 sizes := by
  have gathers := sample.gathers
  have length := gathers.length_gathered
  have fits : info.gathered.length ≤ queueSampleSize := by
    rw [length]
    exact keptPositions_fits [] 0 sizes (Nat.zero_le _)
  have inside : info.gathered.length ≤ pes.length := by
    have kept :
        (keptPositions queueSampleSize [] 0 sizes).length ≤ [].length + sizes.sum :=
      length_keptPositions_le [] 0 sizes
    rw [length, ← whole]
    simpa using kept
  -- A beginning that is long enough has the length of the header at its place.
  have dataAt (contiguous : Contiguous queueSampleSize 0 sizes)
      (long : 9 ≤ info.gathered.length) : info.dataAt 8 = pes.getD 8 0 := by
    have data := gathers.gathered
    rw [sample.contiguous_iff.mpr contiguous, map_range _ inside] at data
    rw [PesInfo.dataAt, List.getD_eq_getElem?_getD, List.getD_eq_getElem?_getD, data,
      List.getElem?_take_of_lt (by omega), List.getElem?_eq_getElem (by omega)]
    rfl
  constructor
  · intro right
    have contiguous := sample.contiguous_iff.mp right.contiguous
    refine ⟨contiguous, ?_⟩
    obtain ⟨payloadStart, payloadEnd, starts, ends, ordered, -⟩ := right.addresses
    rw [sample.starts] at starts
    rw [gathers.ends] at ends
    split at ends
    · cases ends
    · obtain rfl := Option.some.inj starts
      obtain rfl := Option.some.inj ends
      rw [← length_keptPositions contiguous]
      rw [dataAt contiguous (by omega)] at ordered
      exact length ▸ ordered
  · rintro ⟨contiguous, header⟩
    rw [← length_keptPositions contiguous] at header
    have long : 9 + (pes.getD 8 0).toNat ≤ info.gathered.length := by
      rw [length]
      exact header
    have positions := sample.contiguous_iff.mpr contiguous
    have data : info.gathered = pes.take info.gathered.length := by
      rw [← map_range _ inside, ← positions]
      exact gathers.gathered
    have notEmpty : info.gathered ≠ [] := by
      intro empty
      rw [empty, List.length_nil] at long
      omega
    refine ⟨positions, data, fun room => ?_, sample.parsed, ?_⟩
    · have all : keptPositions queueSampleSize (List.range 0) 0 sizes = _ :=
        keptPositions_all (by omega)
      have count : info.gathered.length = pes.length := by
        rw [length]
        refine (congrArg List.length all).trans ?_
        rw [List.length_range]
        omega
      rw [data, count, List.take_length]
    · refine ⟨_, _, sample.starts, gathers.ends.trans (if_neg notEmpty), ?_, fits⟩
      rw [dataAt contiguous (by omega)]
      exact long

/-- Whatever came before, the sample of a packet is right exactly if its payloads fit up
to a place behind which none fits any more, and the header is before that place. -/
theorem pesPacket_sample_iff (queueSampleSize : Nat) (past : List PesDecoder.Input)
    {pes : List UInt8} (isPes : IsPes pes) {first next : PesDecoder.Input}
    {rest : List PesDecoder.Input}
    (split : PesSplit (pesRun queueSampleSize past) pes first rest next) :
    (∀ info ∈ handedOf (pesRun queueSampleSize (past ++ first :: (rest ++ [next])))
        (pesRun queueSampleSize past).created,
      SampleRight queueSampleSize pes info) ↔
      (HasHeader pes →
        Contiguous queueSampleSize 0 (payloadSizes (first :: rest)) ∧
          9 + (pes.getD 8 0).toNat ≤
            keptSize queueSampleSize 0 (payloadSizes (first :: rest))) := by
  obtain ⟨ended, finished, same⟩ := split.finished (reached_run queueSampleSize past) isPes
  have handed :
      handedOf (pesRun queueSampleSize (past ++ first :: (rest ++ [next])))
          (pesRun queueSampleSize past).created =
        handedOf ended (pesRun queueSampleSize past).created := by
    rw [← same, pesRun, List.foldl_append]
    rfl
  rw [handed]
  by_cases has : HasHeader pes
  · obtain ⟨info, only, sample⟩ := finished.handed has
    rw [only, List.forall_mem_singleton, sample.right_iff finished.whole]
    exact ⟨fun right _ => right, fun right => right has⟩
  · rw [finished.dropped has]
    refine iff_of_true (fun info member => ?_) fun isHeader => absurd isHeader has
    cases member

end Sample

/-- A packet whose adaptation field leaves room for the payload. -/
def inputOf (unitStart : Bool) (counter : Nat) (payload : List UInt8) : PesDecoder.Input where
  packet :=
    [0x47, if unitStart then 0x40 else 0, 0, 0x30 + UInt8.ofNat counter,
        UInt8.ofNat (183 - payload.length)] ++
      List.replicate (183 - payload.length) 0xFF ++ payload
  sample _ := 0

/-- The first payload has half of the six bytes, and everything fits. -/
theorem pesPacket_sample_iff_whole :
    List.Forall (SampleRight 32 [0, 0, 1, 0xC0, 0, 6, 0x80, 0, 0, 1, 2, 3])
      (handedOf
        (pesRun 32
          [inputOf true 0 [0, 0, 1], inputOf false 1 [0xC0, 0, 6, 0x80, 0, 0, 1, 2, 3],
            inputOf true 2 [0, 0, 1]])
        0) :=
  List.forall_iff_forall_mem.mpr
    ((pesPacket_sample_iff 32 [] ⟨by decide, by decide⟩
      (@PesSplit.mk _ _ (inputOf true 0 [0, 0, 1])
        [inputOf false 1 [0xC0, 0, 6, 0x80, 0, 0, 1, 2, 3]] (inputOf true 2 [0, 0, 1])
        (by decide) (by decide) (by decide) (by decide) (by decide) (by decide))).mpr
      (by decide))

/-- The eight bytes in the middle do not fit into what is left, and the last three do. -/
theorem pesPacket_gap :
    IsPes [0, 0, 1, 0xE0, 0, 0, 0x80, 0, 0, 1, 2, 3, 4, 5, 6, 7, 8, 9, 10, 11, 12, 13, 14] ∧
      PesSplit (pesRun 16 [])
        [0, 0, 1, 0xE0, 0, 0, 0x80, 0, 0, 1, 2, 3, 4, 5, 6, 7, 8, 9, 10, 11, 12, 13, 14]
        (inputOf true 0 [0, 0, 1, 0xE0, 0, 0, 0x80, 0, 0, 1, 2, 3])
        [inputOf false 1 [4, 5, 6, 7, 8, 9, 10, 11], inputOf false 2 [12, 13, 14]]
        (inputOf true 3 [0, 0, 1]) ∧
      ∃ info ∈ handedOf
          (pesRun 16
            [inputOf true 0 [0, 0, 1, 0xE0, 0, 0, 0x80, 0, 0, 1, 2, 3],
              inputOf false 1 [4, 5, 6, 7, 8, 9, 10, 11], inputOf false 2 [12, 13, 14],
              inputOf true 3 [0, 0, 1]])
          0,
        info.gathered = [0, 0, 1, 0xE0, 0, 0, 0x80, 0, 0, 1, 2, 3, 12, 13, 14] ∧
          ¬ SampleRight 16
            [0, 0, 1, 0xE0, 0, 0, 0x80, 0, 0, 1, 2, 3, 4, 5, 6, 7, 8, 9, 10, 11, 12, 13, 14]
            info := by
  refine ⟨⟨by decide, by decide⟩, ⟨by decide, by decide, by decide, by decide, by decide,
    by decide⟩, ?_⟩
  have gathered :
      (handedOf
          (pesRun 16
            [inputOf true 0 [0, 0, 1, 0xE0, 0, 0, 0x80, 0, 0, 1, 2, 3],
              inputOf false 1 [4, 5, 6, 7, 8, 9, 10, 11], inputOf false 2 [12, 13, 14],
              inputOf true 3 [0, 0, 1]])
          0).map PesInfo.gathered =
        [[0, 0, 1, 0xE0, 0, 0, 0x80, 0, 0, 1, 2, 3, 12, 13, 14]] := by
    decide +kernel
  obtain ⟨info, member, bytes⟩ := List.mem_map.mp (gathered ▸ List.mem_singleton_self _)
  refine ⟨info, member, bytes, fun right => ?_⟩
  have data := right.data
  rw [bytes] at data
  revert data
  decide

end IteSdk.TsDemuxer
