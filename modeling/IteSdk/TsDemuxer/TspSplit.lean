import IteSdk.Lib.Memory
import IteSdk.Lib.Packetiser
import IteSdk.Lib.Transition

/-!
# Cutting a byte stream into transport packets

`tspParseStream` is the loop of `tsp_ParseStream`.  The packets it hands to
`TS_Decode` are collected in its result; the branches that the source compiles
out with `#if 0` are left out.
-/

namespace IteSdk.TsDemuxer

section

open Lib

def tsPacketSize : Nat := 188

def validSyncByte : UInt8 := 0x47

inductive TspStatus
  | idle
  | busy
  | fail
  deriving DecidableEq

inductive TspBsStatus
  | searchPacket
  | lessThan188
  deriving DecidableEq

/-- The fields of `ITE_TSP_DEV` that cutting the stream uses. -/
structure ITETspDev where
  tspStatus : TspStatus
  tsFECLength : Nat
  tspBsStatus : TspBsStatus
  incompleteTsPacket : List UInt8
  collectedByte : Nat
  deriving DecidableEq

/-- The device as `tsp_CreateHandle` leaves it. -/
def tspCreateHandle : ITETspDev where
  tspStatus := .idle
  tsFECLength := 0
  tspBsStatus := .searchPacket
  incompleteTsPacket := List.replicate tsPacketSize 0
  collectedByte := 0

/-- The conversion of a 32-bit `dataSize` to `int32_t`. -/
def int32OfUInt32 (value : Nat) : Int :=
  if value % 2 ^ 32 < 2 ^ 31 then (value % 2 ^ 32 : Nat)
  else (value % 2 ^ 32 : Nat) - 2 ^ 32

/-- The `while( remainSize > 0 )` loop; `pData` is what lies behind the cursor.
A turn either consumes input or leaves the search state, so that twice the input
length and one more turn are enough. -/
def tspParseLoop : Nat → ITETspDev → List UInt8 → Int → List (List UInt8) × ITETspDev
  | 0, pTspDev, _, _ => ([], pTspDev)
  | fuel + 1, pTspDev, pData, remainSize =>
    if remainSize ≤ 0 then
      ([], pTspDev)
    else
      match pTspDev.tspBsStatus with
      | .searchPacket =>
        if pData.head? = some validSyncByte then
          if remainSize < tsPacketSize then
            tspParseLoop fuel { pTspDev with tspBsStatus := .lessThan188 } pData remainSize
          else
            let skipped := tsPacketSize + pTspDev.tsFECLength
            let later := tspParseLoop fuel pTspDev (pData.drop skipped) (remainSize - skipped)
            (pData.take tsPacketSize :: later.1, later.2)
        else
          tspParseLoop fuel pTspDev (pData.drop 1) (remainSize - 1)
      | .lessThan188 =>
        let missing := tsPacketSize - pTspDev.collectedByte
        if 0 < pTspDev.collectedByte ∧ (missing : Int) ≤ remainSize then
          let packet :=
            overwrite pTspDev.collectedByte (pData.take missing) pTspDev.incompleteTsPacket
          let skipped := missing + pTspDev.tsFECLength
          let later :=
            tspParseLoop fuel
              { pTspDev with
                incompleteTsPacket := packet
                collectedByte := 0
                tspBsStatus := .searchPacket }
              (pData.drop skipped) (remainSize - skipped)
          (packet :: later.1, later.2)
        else
          ([],
            { pTspDev with
              incompleteTsPacket :=
                overwrite pTspDev.collectedByte
                  (pData.take remainSize.toNat)
                  pTspDev.incompleteTsPacket
              collectedByte := pTspDev.collectedByte + remainSize.toNat })

/-- `tsp_ParseStream` on the buffer `dataBuf`: the packets decoded and the
device afterwards. -/
def tspParseStream (pTspDev : ITETspDev) (dataBuf : List UInt8) : List (List UInt8) × ITETspDev :=
  if pTspDev.tspStatus = .fail then
    ([], pTspDev)
  else
    tspParseLoop (2 * dataBuf.length + 1) pTspDev dataBuf (int32OfUInt32 dataBuf.length)

end

/-!
# Packets do not depend on how the stream was cut into buffers

The loop works on whole buffers, with a direct path for a packet that lies in
one buffer.  It simulates a collector that looks at one byte at a time, and the
collector has no notion of a buffer.
-/

section

open Lib

/-- The purpose of the parser: wait for a sync byte, then take 188 bytes. -/
def collectByte : List UInt8 → UInt8 → List (List UInt8) × List UInt8
  | [], byte => if byte = validSyncByte then ([], [byte]) else ([], [])
  | first :: rest, byte =>
    if rest.length + 2 = tsPacketSize then
      ([first :: rest ++ [byte]], [])
    else
      ([], first :: rest ++ [byte])

theorem collectByte_eq : collectByte = packetise tsPacketSize validSyncByte := by
  funext collected byte
  cases collected <;> rfl

/-- What a call leaves behind: a partial packet shorter than a whole one, and a
search state exactly when there is none. -/
structure ITETspDev.Ready (pTspDev : ITETspDev) : Prop where
  noFEC : pTspDev.tsFECLength = 0
  packetLength : pTspDev.incompleteTsPacket.length = tsPacketSize
  collectedShort : pTspDev.collectedByte < tsPacketSize
  searching : pTspDev.tspBsStatus = .searchPacket ↔ pTspDev.collectedByte = 0

def ITETspDev.partialPacket (pTspDev : ITETspDev) : List UInt8 :=
  pTspDev.incompleteTsPacket.take pTspDev.collectedByte

theorem ready_tspCreateHandle : tspCreateHandle.Ready where
  noFEC := rfl
  packetLength := List.length_replicate
  collectedShort := by decide
  searching := by decide

variable {pTspDev : ITETspDev} {pData : List UInt8}

theorem ITETspDev.Ready.length_partialPacket (ready : pTspDev.Ready) :
    pTspDev.partialPacket.length = pTspDev.collectedByte := by
  have packetLength := ready.packetLength
  have collectedShort := ready.collectedShort
  simp only [ITETspDev.partialPacket, List.length_take]
  omega

theorem tspParseLoop_nil (fuel : Nat) (pTspDev : ITETspDev) :
    tspParseLoop fuel pTspDev [] 0 = ([], pTspDev) := by
  cases fuel <;> simp [tspParseLoop]

theorem ready_stored (state : pTspDev.tspBsStatus = .lessThan188) (nonempty : pData ≠ [])
    (noFEC : pTspDev.tsFECLength = 0)
    (packetLength : pTspDev.incompleteTsPacket.length = tsPacketSize)
    (short : pTspDev.collectedByte + pData.length < tsPacketSize) :
    let stored : ITETspDev :=
      { pTspDev with
        incompleteTsPacket := overwrite pTspDev.collectedByte pData pTspDev.incompleteTsPacket
        collectedByte := pTspDev.collectedByte + pData.length }
    stored.Ready ∧ stored.partialPacket = pTspDev.partialPacket ++ pData := by
  have positive : 0 < pData.length := List.length_pos_iff.mpr nonempty
  have taken :
      (pTspDev.incompleteTsPacket.take pTspDev.collectedByte).length = pTspDev.collectedByte := by
    simp only [List.length_take]
    omega
  refine ⟨⟨noFEC, ?_, short, ?_⟩, ?_⟩
  · exact (length_overwrite (by omega)).trans packetLength
  · simp only [state, reduceCtorEq, false_iff]
    omega
  · simp only [ITETspDev.partialPacket, overwrite]
    apply List.take_left'
    rw [List.length_append, taken]

theorem tspParseLoop_store
    (fuel : Nat) (state : pTspDev.tspBsStatus = .lessThan188) (nonempty : pData ≠ [])
    (short : pTspDev.collectedByte + pData.length < tsPacketSize) :
    tspParseLoop (fuel + 1) pTspDev pData pData.length =
      ([],
        { pTspDev with
          incompleteTsPacket := overwrite pTspDev.collectedByte pData pTspDev.incompleteTsPacket
          collectedByte := pTspDev.collectedByte + pData.length }) := by
  have positive : 0 < pData.length := List.length_pos_iff.mpr nonempty
  have more : ¬ ((pData.length : Int) ≤ 0) := by omega
  have missing :
      ¬ (0 < pTspDev.collectedByte ∧
        ((tsPacketSize - pTspDev.collectedByte : Nat) : Int) ≤ pData.length) := by
    omega
  simp only [tspParseLoop, if_neg more, state, if_neg missing, Int.toNat_natCast, List.take_length]

theorem remainSize_drop {skipped : Nat} (available : skipped ≤ pData.length) :
    (pData.length : Int) - (skipped : Nat) = (pData.drop skipped).length := by
  rw [List.length_drop]
  omega

/-- The outcome of the loop is that of the collector on the same bytes. -/
structure Collects (result : List (List UInt8) × ITETspDev)
    (collected bytes : List UInt8) : Prop where
  ready : result.2.Ready
  packets : result.1 = (transduce collectByte collected bytes).1
  rest : result.2.partialPacket = (transduce collectByte collected bytes).2

theorem Collects.emit
    {later : List (List UInt8) × ITETspDev} {packet collected first second : List UInt8}
    (emits : transduce collectByte collected first = ([packet], []))
    (collects : Collects later [] second) :
    Collects (packet :: later.1, later.2) collected (first ++ second) := by
  refine ⟨collects.ready, ?_, ?_⟩
  · rw [transduce_append, emits, collects.packets, List.singleton_append]
  · rw [transduce_append, emits, collects.rest]

theorem collects_store
    (fuel : Nat) (state : pTspDev.tspBsStatus = .lessThan188) (nonempty : pData ≠ [])
    (noFEC : pTspDev.tsFECLength = 0)
    (packetLength : pTspDev.incompleteTsPacket.length = tsPacketSize)
    (short : pTspDev.collectedByte + pData.length < tsPacketSize) {collected : List UInt8}
    (stores : transduce collectByte collected pData = ([], pTspDev.partialPacket ++ pData)) :
    Collects (tspParseLoop (fuel + 1) pTspDev pData pData.length) collected pData := by
  rw [tspParseLoop_store fuel state nonempty short]
  obtain ⟨ready, stored⟩ := ready_stored state nonempty noFEC packetLength short
  exact ⟨ready, by rw [stores], by rw [stores]; exact stored⟩

/-- The turns on a sync byte: one changes the state when the buffer is too short
for the packet, otherwise the packet is decoded from the buffer itself. -/
theorem collects_sync
    {fuel : Nat} (ready : pTspDev.Ready) (state : pTspDev.tspBsStatus = .searchPacket)
    (sync : pData.head? = some validSyncByte) (enough : 2 * pData.length < fuel + 1)
    (later :
      ∀ rest : List UInt8, 2 * rest.length < fuel →
        Collects (tspParseLoop fuel pTspDev rest rest.length) pTspDev.partialPacket rest) :
    Collects (tspParseLoop (fuel + 1) pTspDev pData pData.length) pTspDev.partialPacket pData := by
  have noFEC := ready.noFEC
  have noneCollected : pTspDev.collectedByte = 0 := ready.searching.mp state
  have emptyPacket : pTspDev.partialPacket = [] := by
    rw [ITETspDev.partialPacket, noneCollected, List.take_zero]
  have nonempty : pData ≠ [] := by
    rintro rfl
    simp at sync
  have positive : 0 < pData.length := List.length_pos_iff.mpr nonempty
  have more : ¬ ((pData.length : Int) ≤ 0) := by omega
  rw [emptyPacket] at later ⊢
  by_cases short : pData.length < tsPacketSize
  · -- The packet starts here but does not end in this buffer.
    have shortInt : (pData.length : Int) < tsPacketSize := by omega
    obtain ⟨turns, rfl⟩ : ∃ turns, fuel = turns + 1 := ⟨fuel - 1, by omega⟩
    have stores : transduce collectByte [] pData = ([], pData) := by
      obtain ⟨rest, rfl⟩ : ∃ rest, pData = validSyncByte :: rest :=
        ⟨pData.tail, (List.cons_head?_tail sync).symm⟩
      have restShort : [validSyncByte].length + rest.length < tsPacketSize := by
        simp only [List.length_cons, List.length_nil] at short ⊢
        omega
      rw [collectByte_eq, packetise_sync, packetise_appends rest (by simp) restShort]
      rfl
    rw [tspParseLoop, if_neg more]
    simp only [state, if_pos sync, if_pos shortInt]
    let started : ITETspDev := { pTspDev with tspBsStatus := .lessThan188 }
    have startedShort : started.collectedByte + pData.length < tsPacketSize := by
      show pTspDev.collectedByte + pData.length < tsPacketSize
      omega
    have startedStores :
        transduce collectByte [] pData = ([], started.partialPacket ++ pData) := by
      show _ = ([], pTspDev.partialPacket ++ pData)
      rw [stores, emptyPacket, List.nil_append]
    exact collects_store turns (rfl : started.tspBsStatus = .lessThan188)
      nonempty noFEC ready.packetLength startedShort startedStores
  · have enoughInt : ¬ ((pData.length : Int) < tsPacketSize) := by omega
    have skipped := remainSize_drop (Nat.not_lt.mp short)
    have emits :
        transduce collectByte [] (pData.take tsPacketSize) = ([pData.take tsPacketSize], []) := by
      rw [collectByte_eq]
      refine packetise_packet ?_ ?_ (by decide)
      · rw [List.head?_take, if_neg (by decide), sync]
      · rw [List.length_take]
        omega
    have whole :=
      (later (pData.drop tsPacketSize) (by rw [List.length_drop, tsPacketSize]; omega)).emit emits
    rw [List.take_append_drop] at whole
    rw [tspParseLoop, if_neg more]
    simp only [state, if_pos sync, if_neg enoughInt, noFEC, Nat.add_zero, skipped]
    exact whole

theorem collects_noSync {byte : UInt8} {rest : List UInt8} {fuel : Nat} (ready : pTspDev.Ready)
    (state : pTspDev.tspBsStatus = .searchPacket) (noSync : byte ≠ validSyncByte)
    (later : Collects (tspParseLoop fuel pTspDev rest rest.length) pTspDev.partialPacket rest) :
    Collects (tspParseLoop (fuel + 1) pTspDev (byte :: rest) (byte :: rest).length)
      pTspDev.partialPacket (byte :: rest) := by
  have emptyPacket : pTspDev.partialPacket = [] := by
    rw [ITETspDev.partialPacket, ready.searching.mp state, List.take_zero]
  have ignores :
      transduce collectByte pTspDev.partialPacket (byte :: rest) =
        transduce collectByte pTspDev.partialPacket rest := by
    rw [emptyPacket, collectByte_eq, packetise_noSync noSync]
  have more : ¬ (((byte :: rest).length : Int) ≤ 0) := by
    rw [List.length_cons]
    omega
  have headNoSync : ¬ (byte :: rest).head? = some validSyncByte := by simpa using noSync
  have shorter : ((byte :: rest).length : Int) - 1 = rest.length := by
    rw [List.length_cons]
    omega
  rw [tspParseLoop, if_neg more]
  simp only [state, if_neg headNoSync, List.drop_one, List.tail_cons, shorter]
  exact ⟨later.ready, later.packets.trans (by rw [ignores]), later.rest.trans (by rw [ignores])⟩

theorem collects_complete
    {fuel : Nat} (ready : pTspDev.Ready) (state : pTspDev.tspBsStatus = .lessThan188)
    (started : 0 < pTspDev.collectedByte)
    (complete : tsPacketSize - pTspDev.collectedByte ≤ pData.length)
    (enough : 2 * pData.length < fuel + 1)
    (later :
      ∀ (searching : ITETspDev) (rest : List UInt8), searching.Ready → 2 * rest.length < fuel →
        Collects (tspParseLoop fuel searching rest rest.length) searching.partialPacket rest) :
    Collects (tspParseLoop (fuel + 1) pTspDev pData pData.length) pTspDev.partialPacket pData := by
  obtain ⟨noFEC, packetLength, collectedShort, _⟩ := id ready
  have lengthPartial := ready.length_partialPacket
  have more : ¬ ((pData.length : Int) ≤ 0) := by omega
  have guard :
      0 < pTspDev.collectedByte ∧
        ((tsPacketSize - pTspDev.collectedByte : Nat) : Int) ≤ pData.length := by
    omega
  have skipped := remainSize_drop complete
  have lengthTake :
      (pData.take (tsPacketSize - pTspDev.collectedByte)).length =
        tsPacketSize - pTspDev.collectedByte := by
    rw [List.length_take]
    omega
  have packet :
      overwrite pTspDev.collectedByte (pData.take (tsPacketSize - pTspDev.collectedByte))
          pTspDev.incompleteTsPacket =
        pTspDev.partialPacket ++ pData.take (tsPacketSize - pTspDev.collectedByte) := by
    rw [overwrite, List.drop_of_length_le (by omega), List.append_nil]
    rfl
  have emits :
      transduce collectByte pTspDev.partialPacket
          (pData.take (tsPacketSize - pTspDev.collectedByte)) =
        ([pTspDev.partialPacket ++ pData.take (tsPacketSize - pTspDev.collectedByte)], []) := by
    rw [collectByte_eq]
    exact packetise_complete (List.ne_nil_of_length_pos (by omega)) (by omega) (by omega)
  have readyAfter :
      ({ pTspDev with
          incompleteTsPacket :=
            pTspDev.partialPacket ++ pData.take (tsPacketSize - pTspDev.collectedByte)
          collectedByte := 0
          tspBsStatus := .searchPacket } : ITETspDev).Ready := by
    refine ⟨noFEC, ?_, Nat.succ_pos 187, by simp⟩
    rw [List.length_append, lengthTake]
    omega
  have whole :=
    (later _ (pData.drop (tsPacketSize - pTspDev.collectedByte)) readyAfter
      (by rw [List.length_drop]; omega)).emit emits
  rw [List.take_append_drop] at whole
  rw [tspParseLoop, if_neg more]
  simp only [state, if_pos guard, packet]
  rw [noFEC, Nat.add_zero, skipped]
  simpa only [noFEC] using whole

/-- From a state between two calls, the loop does to the rest of the buffer what
the collector does to its bytes. -/
theorem tspParseLoop_collects (fuel : Nat) :
    ∀ (pTspDev : ITETspDev) (pData : List UInt8), pTspDev.Ready → 2 * pData.length < fuel →
      Collects (tspParseLoop fuel pTspDev pData pData.length) pTspDev.partialPacket pData := by
  induction fuel with
  | zero =>
    intro _ _ _ enough
    omega
  | succ turns ih =>
    intro pTspDev pData ready enough
    cases pData with
    | nil =>
      rw [List.length_nil, Nat.cast_zero, tspParseLoop_nil]
      exact ⟨ready, rfl, rfl⟩
    | cons byte rest =>
      cases state : pTspDev.tspBsStatus with
      | searchPacket =>
        by_cases sync : byte = validSyncByte
        · exact collects_sync ready state (by rw [sync]; rfl) enough
            (fun later fits => ih pTspDev later ready fits)
        · refine collects_noSync ready state sync (ih pTspDev rest ready ?_)
          rw [List.length_cons] at enough
          omega
      | lessThan188 =>
        have started : 0 < pTspDev.collectedByte := by
          refine Nat.pos_of_ne_zero fun none => ?_
          rw [ready.searching.mpr none] at state
          cases state
        have lengthPartial := ready.length_partialPacket
        by_cases complete : tsPacketSize - pTspDev.collectedByte ≤ (byte :: rest).length
        · exact collects_complete ready state started complete enough ih
        · have short :
              pTspDev.collectedByte + (byte :: rest).length < tsPacketSize := by
            omega
          refine collects_store turns state (List.cons_ne_nil byte rest)
            ready.noFEC ready.packetLength short ?_
          rw [collectByte_eq]
          exact packetise_appends (byte :: rest) (List.ne_nil_of_length_pos (by omega)) (by omega)

theorem tspParseLoop_tspStatus
    (fuel : Nat) (pTspDev : ITETspDev) (pData : List UInt8) (remainSize : Int) :
    (tspParseLoop fuel pTspDev pData remainSize).2.tspStatus = pTspDev.tspStatus := by
  fun_induction tspParseLoop fuel pTspDev pData remainSize <;> grind

/-! ## Runs of the parser -/

/-- A buffer handed to the parser.  Its size is a C object's, which a 32-bit
target keeps below `2 ^ 31`. -/
structure TsBuffer where
  bytes : List UInt8
  fits : bytes.length < 2 ^ 31

/-- What happens to a device: a buffer is parsed, or another function of the
parser sets its status. -/
inductive TspEvent
  | parseStream (dataBuf : TsBuffer)
  | setStatus (tspStatus : TspStatus)

def tspStep (pTspDev : ITETspDev) : TspEvent → ITETspDev
  | .parseStream dataBuf => (tspParseStream pTspDev dataBuf.bytes).2
  | .setStatus tspStatus => { pTspDev with tspStatus }

/-- `tsp_ParseStream` on one buffer after the other. -/
def tspParseBuffers : ITETspDev → List TsBuffer → List (List UInt8) × ITETspDev :=
  transduce fun pTspDev dataBuf => tspParseStream pTspDev dataBuf.bytes

theorem tspParseStream_collects
    (ready : pTspDev.Ready) (healthy : pTspDev.tspStatus ≠ .fail) (dataBuf : TsBuffer) :
    Collects (tspParseStream pTspDev dataBuf.bytes) pTspDev.partialPacket dataBuf.bytes := by
  have fits := dataBuf.fits
  have exactSize :
      int32OfUInt32 dataBuf.bytes.length = dataBuf.bytes.length := by
    rw [int32OfUInt32, Nat.mod_eq_of_lt (by omega), if_pos fits]
  rw [tspParseStream, if_neg healthy, exactSize]
  exact tspParseLoop_collects _ pTspDev dataBuf.bytes ready (Nat.lt_succ_self _)

theorem tspParseStream_tspStatus (pTspDev : ITETspDev) (dataBuf : List UInt8) :
    (tspParseStream pTspDev dataBuf).2.tspStatus = pTspDev.tspStatus := by
  rw [tspParseStream]
  split
  · rfl
  · exact tspParseLoop_tspStatus _ _ _ _

theorem ready_tspStep (event : TspEvent)
    (ready : pTspDev.Ready) : (tspStep pTspDev event).Ready := by
  cases event with
  | parseStream dataBuf =>
    by_cases failed : pTspDev.tspStatus = .fail
    · rwa [tspStep, tspParseStream, if_pos failed]
    · exact (tspParseStream_collects ready failed dataBuf).ready
  | setStatus tspStatus =>
    exact ⟨ready.noFEC, ready.packetLength, ready.collectedShort, ready.searching⟩

theorem ready_history (history : List TspEvent) : (history.foldl tspStep tspCreateHandle).Ready :=
  (Run.graph_foldl tspStep tspCreateHandle history).invariant ready_tspCreateHandle
    (by
      rintro before event _ ready rfl
      exact ready_tspStep event ready)

theorem tspParseBuffers_failed (failed : pTspDev.tspStatus = .fail) (buffers : List TsBuffer) :
    tspParseBuffers pTspDev buffers = ([], pTspDev) := by
  induction buffers with
  | nil => rfl
  | cons dataBuf rest ih =>
    have returns :
        tspParseStream pTspDev dataBuf.bytes = ([], pTspDev) := by
      rw [tspParseStream, if_pos failed]
    unfold tspParseBuffers at ih ⊢
    rw [transduce_cons, returns, ih, List.nil_append]

/-- Any number of calls does to the buffers what the collector does to their
concatenation. -/
theorem tspParseBuffers_collects (ready : pTspDev.Ready)
    (healthy : pTspDev.tspStatus ≠ .fail) (buffers : List TsBuffer) :
    Collects (tspParseBuffers pTspDev buffers) pTspDev.partialPacket
      (buffers.flatMap TsBuffer.bytes) := by
  obtain ⟨⟨readyAfter, _⟩, packets, rest⟩ :=
    transduce_pieces TsBuffer.bytes ITETspDev.partialPacket
      (fun pTspDev => pTspDev.Ready ∧ pTspDev.tspStatus ≠ .fail)
      (fun before dataBuf inv =>
        have collects := tspParseStream_collects inv.1 inv.2 dataBuf
        have kept := tspParseStream_tspStatus before dataBuf.bytes
        ⟨⟨collects.ready, kept ▸ inv.2⟩, collects.packets, collects.rest⟩)
      ⟨ready, healthy⟩ buffers
  exact ⟨readyAfter, packets, rest⟩

/-- However a stream is cut into buffers, a device in any state it can be in
decodes the same packets and keeps the same partial one. -/
theorem tspParseStream_split_independent
    (history : List TspEvent) (first second : List TsBuffer)
    (sameStream : first.flatMap TsBuffer.bytes = second.flatMap TsBuffer.bytes) :
    let pTspDev := history.foldl tspStep tspCreateHandle
    (tspParseBuffers pTspDev first).1 = (tspParseBuffers pTspDev second).1 ∧
      (tspParseBuffers pTspDev first).2.partialPacket =
          (tspParseBuffers pTspDev second).2.partialPacket ∧
        (tspParseBuffers pTspDev first).2.collectedByte =
            (tspParseBuffers pTspDev second).2.collectedByte ∧
          (∀ packet ∈ (tspParseBuffers pTspDev first).1, packet.length = tsPacketSize) ∧
          (tspParseBuffers pTspDev first).2.collectedByte < tsPacketSize := by
  intro pTspDev
  have ready : pTspDev.Ready := ready_history history
  by_cases failed : pTspDev.tspStatus = .fail
  · rw [tspParseBuffers_failed failed first, tspParseBuffers_failed failed second]
    exact ⟨rfl, rfl, rfl, by simp, ready.collectedShort⟩
  · have one := tspParseBuffers_collects ready failed first
    have other := tspParseBuffers_collects ready failed second
    rw [← sameStream] at other
    have samePartial := one.rest.trans other.rest.symm
    refine ⟨one.packets.trans other.packets.symm, samePartial, ?_, ?_, one.ready.collectedShort⟩
    · rw [← one.ready.length_partialPacket, samePartial, other.ready.length_partialPacket]
    · rw [one.packets, collectByte_eq]
      exact packetise_length _ _

/-- A sync byte at the end of one buffer and at the start of the next. -/
theorem tspParseStream_split_independent_resync :
    (tspParseBuffers tspCreateHandle [⟨[0x00, 0x47], by decide⟩, ⟨[0x10, 0x11], by decide⟩]).1 =
      (tspParseBuffers tspCreateHandle [⟨[0x00], by decide⟩, ⟨[0x47, 0x10, 0x11], by decide⟩]).1 :=
  (tspParseStream_split_independent [] [⟨[0x00, 0x47], by decide⟩, ⟨[0x10, 0x11], by decide⟩]
    [⟨[0x00], by decide⟩, ⟨[0x47, 0x10, 0x11], by decide⟩] rfl).1

end

end IteSdk.TsDemuxer
