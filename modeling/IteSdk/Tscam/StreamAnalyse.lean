import IteSdk.Lib.Packetiser
import IteSdk.Tscam.CmdPkt

/-!
# The received stream

`tscam_Stream_Analyse` gets the stream in pieces of any size, cuts it into packets
and hands each packet to `_tscam_cmd_analyse`, from its leading tag on.
-/

namespace IteSdk.Tscam

open Lib

inductive TscamStreamState
  | searchPktStart
  | lessPktSize
  deriving DecidableEq

inductive TscmPktFmt
  | ts
  | rs232
  deriving DecidableEq

def TscmPktFmt.actPktSize : TscmPktFmt → Nat
  | .ts => 188
  | .rs232 => 184

def TscmPktFmt.syncByte : TscmPktFmt → UInt8
  | .ts => 0x47
  | .rs232 => leadingTag

def TscmPktFmt.offset : TscmPktFmt → Nat
  | .ts => 4
  | .rs232 => 0

/-- `TSCAM_TS_PKT_SIZE`, the size of `pIncompletePktCache`. -/
def tscamTsPktSize : Nat := 188

structure TscamStream where
  streamState : TscamStreamState
  collectedByte : Nat
  pIncompletePktCache : List UInt8
  deriving DecidableEq

def TscamStream.create : TscamStream := ⟨.searchPktStart, 0, List.replicate tscamTsPktSize 0⟩

/-- A `memcpy` into `pIncompletePktCache`. -/
def cacheCopy (stream : TscamStream) (pData : List UInt8) : Except TscmStop (List UInt8) :=
  if stream.collectedByte + pData.length ≤ stream.pIncompletePktCache.length then
    .ok (overwrite stream.collectedByte pData stream.pIncompletePktCache)
  else
    .error .cache

variable (fmt : TscmPktFmt)

/-- The `while( remainSize > 0 )` loop, with the packets that it hands over.  A
turn consumes input or leaves the search state. -/
@[grind =]
def streamLoop : Nat → TscamStream → List UInt8 → Except TscmStop (List (List UInt8) × TscamStream)
  | 0, _, _ => .error .endless
  | _ + 1, stream, [] => .ok ([], stream)
  | fuel + 1, stream, byte :: rest =>
    match stream.streamState with
    | .searchPktStart =>
      if byte = fmt.syncByte then
        if (byte :: rest).length < fmt.actPktSize then
          streamLoop fuel { stream with streamState := .lessPktSize } (byte :: rest)
        else do
          let later ← streamLoop fuel stream ((byte :: rest).drop fmt.actPktSize)
          .ok (((byte :: rest).take fmt.actPktSize).drop fmt.offset :: later.1, later.2)
      else
        streamLoop fuel stream rest
    | .lessPktSize =>
      if 0 < stream.collectedByte ∧
          fmt.actPktSize - stream.collectedByte ≤ (byte :: rest).length then do
        let cache ← cacheCopy stream ((byte :: rest).take (fmt.actPktSize - stream.collectedByte))
        let later ←
          streamLoop fuel ⟨.searchPktStart, 0, cache⟩
            ((byte :: rest).drop (fmt.actPktSize - stream.collectedByte))
        .ok ((cache.take fmt.actPktSize).drop fmt.offset :: later.1, later.2)
      else do
        let cache ← cacheCopy stream (byte :: rest)
        .ok
          ([],
            { stream with
              collectedByte := stream.collectedByte + (byte :: rest).length
              pIncompletePktCache := cache })

/-- What `malloc` answers while the packets of a run are analysed, one after the
other. -/
abbrev StreamMalloc := Nat → PktMalloc

/-- The receiver, with the number of packets that were analysed. -/
structure TscamRecv where
  dev : TscamDev
  stream : TscamStream
  analysed : Nat

def TscamRecv.create : TscamRecv := ⟨.create, .create, 0⟩

def analyseNext (malloc : StreamMalloc) (attr : RecvTable)
    (state : TscamDev × Nat) (pkt : List UInt8) :
    Except TscmStop (TscamDev × Nat) := do
  let pTscamDev ← tscamCmdAnalyse (malloc state.2) attr state.1 pkt
  .ok (pTscamDev, state.2 + 1)

/-- `tscam_Stream_Analyse` on one piece of the stream. -/
def tscamStreamAnalyse (malloc : StreamMalloc) (attr : RecvTable)
    (recv : TscamRecv) (pSteamBuf : List UInt8) : Except TscmStop TscamRecv := do
  let cut ← streamLoop fmt (2 * pSteamBuf.length + 2) recv.stream pSteamBuf
  let after ← cut.1.foldlM (analyseNext malloc attr) (recv.dev, recv.analysed)
  .ok ⟨after.1, cut.2, after.2⟩

/-! ## The packets do not depend on the pieces -/

theorem actPktSize_pos : 1 < fmt.actPktSize := by cases fmt <;> decide

theorem actPktSize_le : fmt.actPktSize ≤ tscamTsPktSize := by cases fmt <;> decide

variable {fmt}

/-- What a call leaves behind: less than a packet, and a search state exactly when
nothing is collected. -/
structure TscamStream.Ready (fmt : TscmPktFmt) (stream : TscamStream) : Prop where
  cacheLength : stream.pIncompletePktCache.length = tscamTsPktSize
  short : stream.collectedByte < fmt.actPktSize
  searching : stream.streamState = .searchPktStart ↔ stream.collectedByte = 0

def TscamStream.collected (stream : TscamStream) : List UInt8 :=
  stream.pIncompletePktCache.take stream.collectedByte

theorem TscamStream.Ready.create : TscamStream.create.Ready fmt where
  cacheLength := List.length_replicate
  short := by cases fmt <;> decide
  searching := by decide

structure Cuts (fmt : TscmPktFmt)
    (result : Except TscmStop (List (List UInt8) × TscamStream))
    (collected bytes : List UInt8) : Prop where
  ends :
    ∃ after, result =
        .ok
          ((transduce (packetise fmt.actPktSize fmt.syncByte) collected
              bytes).1.map (List.drop fmt.offset),
            after) ∧
      after.Ready fmt ∧
        after.collected = (transduce (packetise fmt.actPktSize fmt.syncByte) collected bytes).2

variable {stream : TscamStream} {pData collected first second packet : List UInt8}
  {fuel : Nat}

theorem Cuts.emit {later : Except TscmStop (List (List UInt8) × TscamStream)}
    (emits : transduce (packetise fmt.actPktSize fmt.syncByte) collected first = ([packet], []))
    (cuts : Cuts fmt later [] second) :
    Cuts fmt
      (later >>= fun result =>
        .ok (packet.drop fmt.offset :: result.1, result.2))
      collected (first ++ second) := by
  obtain ⟨after, returns, ready, rest⟩ := cuts.ends
  refine ⟨after, ?_, ready, ?_⟩
  · rw [returns, transduce_append, emits]
    rfl
  · rw [transduce_append, emits]
    exact rest

section

variable (ready : stream.Ready fmt)

include ready

theorem cacheCopy_eq (room : stream.collectedByte + pData.length ≤ fmt.actPktSize) :
    cacheCopy stream pData =
      .ok (overwrite stream.collectedByte pData stream.pIncompletePktCache) := by
  have inside := actPktSize_le fmt
  rw [cacheCopy, if_pos]
  rw [ready.cacheLength]
  omega

theorem TscamStream.Ready.take_copied (pData : List UInt8) :
    (overwrite stream.collectedByte pData stream.pIncompletePktCache).take
        (stream.collectedByte + pData.length) =
      stream.collected ++ pData := by
  have inside := actPktSize_le fmt
  have short := ready.short
  have taken : stream.collected.length = stream.collectedByte := by
    rw [TscamStream.collected, List.length_take, ready.cacheLength]
    omega
  rw [overwrite]
  apply List.take_left'
  rw [List.length_append]
  exact congrArg (· + _) taken

theorem TscamStream.Ready.collected_length : stream.collected.length = stream.collectedByte := by
  have inside := actPktSize_le fmt
  have short := ready.short
  rw [TscamStream.collected, List.length_take, ready.cacheLength]
  omega

theorem TscamStream.Ready.copied (room : stream.collectedByte + pData.length ≤ fmt.actPktSize) :
    (overwrite stream.collectedByte pData stream.pIncompletePktCache).length = tscamTsPktSize := by
  have inside := actPktSize_le fmt
  rw [length_overwrite, ready.cacheLength]
  rw [ready.cacheLength]
  omega

end

variable {rest : List UInt8}

theorem streamLoop_store {byte : UInt8} (state : stream.streamState = .lessPktSize)
    (cacheLength : stream.pIncompletePktCache.length = tscamTsPktSize)
    (short : stream.collectedByte + (byte :: rest).length < fmt.actPktSize)
    (stores :
      transduce (packetise fmt.actPktSize fmt.syncByte) collected (byte :: rest) =
        ([], stream.collected ++ byte :: rest)) :
    Cuts fmt (streamLoop fmt (fuel + 1) stream (byte :: rest)) collected (byte :: rest) := by
  have inside := actPktSize_le fmt
  have missing :
      ¬ (0 < stream.collectedByte ∧
        fmt.actPktSize - stream.collectedByte ≤ (byte :: rest).length) := by
    omega
  have copied :
      cacheCopy stream (byte :: rest) =
        .ok (overwrite stream.collectedByte (byte :: rest) stream.pIncompletePktCache) := by
    rw [cacheCopy, if_pos]
    omega
  have ready :
      TscamStream.Ready fmt
        { stream with
          collectedByte := stream.collectedByte + (byte :: rest).length
          pIncompletePktCache :=
            overwrite stream.collectedByte (byte :: rest) stream.pIncompletePktCache } := by
    refine ⟨?_, short, ?_⟩
    · rw [length_overwrite, cacheLength]
      omega
    · simp [state]
  have kept :
      (overwrite stream.collectedByte (byte :: rest) stream.pIncompletePktCache).take
          (stream.collectedByte + (byte :: rest).length) =
        stream.collected ++ byte :: rest := by
    rw [overwrite]
    apply List.take_left'
    rw [List.length_append, List.length_take]
    omega
  refine ⟨_, ?_, ready, ?_⟩
  · rw [streamLoop]
    simp only [state, if_neg missing, copied]
    rw [stores]
    rfl
  · rw [stores]
    exact kept

theorem streamLoop_complete {byte : UInt8}
    (ready : stream.Ready fmt) (state : stream.streamState = .lessPktSize)
    (started : 0 < stream.collectedByte)
    (complete : fmt.actPktSize - stream.collectedByte ≤ (byte :: rest).length)
    (later :
      ∀ searching : TscamStream, searching.Ready fmt →
        Cuts fmt
          (streamLoop fmt fuel searching
            ((byte :: rest).drop (fmt.actPktSize - stream.collectedByte)))
          searching.collected
          ((byte :: rest).drop (fmt.actPktSize - stream.collectedByte))) :
    Cuts fmt (streamLoop fmt (fuel + 1) stream (byte :: rest)) stream.collected (byte :: rest) := by
  have short := ready.short
  have lengthTake :
      ((byte :: rest).take (fmt.actPktSize - stream.collectedByte)).length =
        fmt.actPktSize - stream.collectedByte := by
    rw [List.length_take]
    omega
  have whole :
      stream.collectedByte +
          ((byte :: rest).take (fmt.actPktSize - stream.collectedByte)).length =
        fmt.actPktSize := by
    omega
  have readyAfter :
      TscamStream.Ready fmt
        ⟨.searchPktStart, 0,
          overwrite stream.collectedByte
            ((byte :: rest).take (fmt.actPktSize - stream.collectedByte))
            stream.pIncompletePktCache⟩ :=
    ⟨ready.copied (Nat.le_of_eq whole), Nat.zero_lt_of_lt (actPktSize_pos fmt), by simp⟩
  have packet := ready.take_copied ((byte :: rest).take (fmt.actPktSize - stream.collectedByte))
  rw [whole] at packet
  have emits :
      transduce (packetise fmt.actPktSize fmt.syncByte) stream.collected
          ((byte :: rest).take (fmt.actPktSize - stream.collectedByte)) =
        ([stream.collected ++
          (byte :: rest).take (fmt.actPktSize - stream.collectedByte)], []) := by
    have length := ready.collected_length
    exact packetise_complete (List.ne_nil_of_length_pos (by omega)) (by omega) (by omega)
  have cuts := (later _ readyAfter).emit emits
  rw [List.take_append_drop] at cuts
  rw [streamLoop]
  simp only [state, if_pos (And.intro started complete), cacheCopy_eq ready (Nat.le_of_eq whole)]
  rw [← packet] at cuts
  exact cuts

theorem streamLoop_sync (ready : stream.Ready fmt) (state : stream.streamState = .searchPktStart)
    (enough : 2 * (fmt.syncByte :: rest).length < fuel)
    (later :
      ∀ behind : List UInt8, 2 * behind.length + 1 < fuel →
        Cuts fmt (streamLoop fmt fuel stream behind) stream.collected behind) :
    Cuts fmt (streamLoop fmt (fuel + 1) stream (fmt.syncByte :: rest))
      stream.collected (fmt.syncByte :: rest) := by
  have zero : stream.collectedByte = 0 := ready.searching.mp state
  have empty : stream.collected = [] := by rw [TscamStream.collected, zero, List.take_zero]
  rw [empty] at later ⊢
  by_cases short : (fmt.syncByte :: rest).length < fmt.actPktSize
  · -- The packet does not end in this piece.
    obtain ⟨turns, rfl⟩ : ∃ turns, fuel = turns + 1 := ⟨fuel - 1, by omega⟩
    have stores :
        transduce (packetise fmt.actPktSize fmt.syncByte) [] (fmt.syncByte :: rest) =
          ([], fmt.syncByte :: rest) := by
      rw [packetise_sync, packetise_appends rest (by simp)]
      · rfl
      · simp only [List.length_cons, List.length_nil] at short ⊢
        omega
    rw [streamLoop]
    simp only [state, if_pos short]
    have started :
        TscamStream.streamState { stream with streamState := .lessPktSize } = .lessPktSize := rfl
    refine streamLoop_store started ready.cacheLength ?_ ?_
    · simpa only [zero, Nat.zero_add] using short
    · rw [stores]
      change _ = ([], stream.collected ++ _)
      rw [empty, List.nil_append]
  · have more := actPktSize_pos fmt
    have emits :
        transduce (packetise fmt.actPktSize fmt.syncByte) []
            ((fmt.syncByte :: rest).take fmt.actPktSize) =
          ([(fmt.syncByte :: rest).take fmt.actPktSize], []) := by
      refine packetise_packet ?_ ?_ more
      · rw [List.head?_take, if_neg (by omega)]
        rfl
      · rw [List.length_take]
        omega
    have cuts :=
      (later ((fmt.syncByte :: rest).drop fmt.actPktSize)
        (by rw [List.length_drop]; omega)).emit emits
    rw [List.take_append_drop] at cuts
    rw [streamLoop]
    simp only [state, if_neg short]
    exact cuts

/-- The loop does to the bytes what the packetiser does, from any state between
two calls. -/
theorem streamLoop_cuts (fuel : Nat) (stream : TscamStream) (pData : List UInt8)
    (ready : stream.Ready fmt) (enough : 2 * pData.length + 1 < fuel) :
    Cuts fmt (streamLoop fmt fuel stream pData) stream.collected pData := by
  induction fuel generalizing stream pData with
  | zero => omega
  | succ turns ih =>
    cases pData with
    | nil => exact ⟨stream, by rw [streamLoop]; rfl, ready, rfl⟩
    | cons byte rest =>
      rw [List.length_cons] at enough
      cases state : stream.streamState with
      | searchPktStart =>
        by_cases sync : byte = fmt.syncByte
        · subst sync
          refine streamLoop_sync ready state ?_ fun behind fits => ih stream behind ready fits
          rw [List.length_cons]
          omega
        · have zero : stream.collectedByte = 0 := ready.searching.mp state
          have empty : stream.collected = [] := by rw [TscamStream.collected, zero, List.take_zero]
          have cuts := ih stream rest ready (by omega)
          rw [streamLoop]
          simp only [state, if_neg sync]
          rw [empty] at cuts ⊢
          refine ⟨?_⟩
          rw [packetise_noSync sync]
          exact cuts.ends
      | lessPktSize =>
        have started : 0 < stream.collectedByte := by
          refine Nat.pos_of_ne_zero fun none => ?_
          rw [ready.searching.mpr none] at state
          cases state
        have short := ready.short
        by_cases complete : fmt.actPktSize - stream.collectedByte ≤ (byte :: rest).length
        · refine streamLoop_complete ready state started complete
            fun searching readyAfter => ih searching _ readyAfter ?_
          rw [List.length_drop, List.length_cons]
          omega
        · have length := ready.collected_length
          refine streamLoop_store state ready.cacheLength (by omega) ?_
          exact packetise_appends (byte :: rest) (List.ne_nil_of_length_pos (by omega)) (by omega)

def streamPackets (fmt : TscmPktFmt) (stream : List UInt8) : List (List UInt8) :=
  (transduce (packetise fmt.actPktSize fmt.syncByte) [] stream).1.map (List.drop fmt.offset)

theorem streamPackets_length (stream : List UInt8) :
    ∀ pkt ∈ streamPackets fmt stream, pkt.length = 184 := by
  intro pkt member
  obtain ⟨packet, emitted, rfl⟩ := List.mem_map.mp member
  rw [List.length_drop, packetise_length _ _ packet emitted]
  cases fmt <;> rfl

/-- `tscam_Stream_Analyse` on one piece after the other. -/
def analyseStream (fmt : TscmPktFmt) (malloc : StreamMalloc) (attr : RecvTable)
    (recv : TscamRecv) (pieces : List (List UInt8)) : Except TscmStop TscamRecv :=
  pieces.foldlM (tscamStreamAnalyse fmt malloc attr) recv

theorem analyseStream_from {malloc : StreamMalloc} {attr : RecvTable}
    {recv : TscamRecv} (ready : recv.stream.Ready fmt) (pieces : List (List UInt8)) :
    (analyseStream fmt malloc attr recv pieces).map (fun recv => (recv.dev, recv.analysed)) =
      ((transduce (packetise fmt.actPktSize fmt.syncByte) recv.stream.collected
          pieces.flatten).1.map (List.drop fmt.offset)).foldlM
        (analyseNext malloc attr) (recv.dev, recv.analysed) := by
  induction pieces generalizing recv with
  | nil => rfl
  | cons piece rest ih =>
    obtain ⟨after, cut, readyAfter, collected⟩ :=
      (streamLoop_cuts (2 * piece.length + 2) recv.stream piece ready (by omega)).ends
    rw [List.flatten_cons, transduce_append, List.map_append,
      List.foldlM_append, analyseStream, List.foldlM_cons, tscamStreamAnalyse,
      cut]
    cases ran :
        ((transduce (packetise fmt.actPktSize fmt.syncByte)
          recv.stream.collected piece).1.map (List.drop fmt.offset)).foldlM
            (analyseNext malloc attr) (recv.dev, recv.analysed) with
    | error stop =>
      simp [bind, Except.bind, ran, Except.map]
    | ok state =>
      have later := @ih ⟨state.1, after, state.2⟩ readyAfter
      rw [collected] at later
      simp only [bind, Except.bind, ran]
      exact later

/-- The packets of the stream are analysed one after the other, however it was
cut. -/
theorem analyseStream_eq (fmt : TscmPktFmt) (malloc : StreamMalloc)
    (attr : RecvTable) (pieces : List (List UInt8)) :
    (analyseStream fmt malloc attr .create pieces).map (fun recv => (recv.dev, recv.analysed)) =
      (streamPackets fmt pieces.flatten).foldlM (analyseNext malloc attr) (.create, 0) :=
  analyseStream_from .create pieces

end IteSdk.Tscam
