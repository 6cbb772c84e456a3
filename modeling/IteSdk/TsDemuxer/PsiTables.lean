import IteSdk.TsDemuxer.PsiSectionKit

/-!
# Decoding PMT, EIT and NIT sections

`_PMT_DecodeSection`, `_EIT_DecodeSection` and `_NIT_DecodeSection`.  The addresses
are offsets from `pData`, and a byte can be read if it is one of those that were
stored, which are all bytes in front of `pPayloadEndAddress + 4`: the buffer of an
EIT section has just this size.  Memory is asked for once for every entry and every
descriptor, so the answer is a function of the section and the place in it.
-/

namespace IteSdk.TsDemuxer

/-- A byte outside the section is read, or a loop does not end. -/
inductive TableStop
  | outside
  | fuel
  deriving DecidableEq

/-- Whether there is memory for what is made at some place. -/
abbrev TableMemory := Nat → Bool

def storedBytes (data : List UInt8) (i count : Nat) : Except TableStop (List UInt8) :=
  if i + count ≤ data.length then
    .ok ((data.drop i).take count)
  else
    .error .outside

def length12 (bytes : List UInt8) (i : Nat) : Nat :=
  (bytes.getD i 0).toNat % 16 * 256 + (bytes.getD (i + 1) 0).toNat

def pid13 (bytes : List UInt8) (i : Nat) : Nat :=
  (bytes.getD i 0).toNat % 32 * 256 + (bytes.getD (i + 1) 0).toNat

def word16 (bytes : List UInt8) (i : Nat) : Nat :=
  (bytes.getD i 0).toNat * 256 + (bytes.getD (i + 1) 0).toNat

def word24 (bytes : List UInt8) (i : Nat) : Nat :=
  (bytes.getD i 0).toNat * 65536 + word16 bytes (i + 1)

/-! ## Descriptors -/

/-- `descriptor_tag`, from the two bytes of a header. -/
def headerTag (header : List UInt8) : Nat := (header.getD 0 0).toNat

/-- `descriptor_length`. -/
def headerLength (header : List UInt8) : Nat := (header.getD 1 0).toNat

/-- `PSI_DESCRIPTOR`, with its payload. -/
structure PsiDescriptor where
  descriptorTag : Nat
  descriptorLength : Nat
  payload : List UInt8
  deriving DecidableEq

/-- `DescriptorKit_CreateDescriptor`: one descriptor, or none. -/
def createDescriptor (memory : Bool) (data : List UInt8) (tag length i : Nat) :
    Except TableStop (List PsiDescriptor) :=
  if memory = true then do
    let payload ← storedBytes data i length
    pure [⟨tag, length, payload⟩]
  else
    pure []

/-- `INVALID_DESCRIPTOR_TAG`, and `INVALID_DESCRIPTOR_LENGTH`. -/
def invalidDescriptor : Nat := 255

/-- `_PMT_AddDescriptor`, and `_PMT_EsAddDescriptor`. -/
def pmtAddDescriptor (memory : Bool) (data : List UInt8)
    (tag length i : Nat) : Except TableStop (List PsiDescriptor) :=
  if invalidDescriptor ≤ tag ∨ invalidDescriptor ≤ length then
    pure []
  else
    createDescriptor memory data tag length i

def pmtDescriptors (memory : TableMemory) (data : List UInt8) :
    Nat → Int → Nat → List PsiDescriptor → Except TableStop (List PsiDescriptor)
  | 0, _, _, _ => .error .fuel
  | fuel + 1, loopLength, i, descriptors =>
    if 0 < loopLength then do
      let header ← storedBytes data i 2
      if (2 + headerLength header : Int) ≤ loopLength then do
        let added ←
          pmtAddDescriptor (memory i) data (headerTag header) (headerLength header) (i + 2)
        pmtDescriptors memory data fuel (loopLength - (2 + headerLength header))
          (i + 2 + headerLength header) (descriptors ++ added)
      else
        pmtDescriptors memory data fuel (loopLength - (2 + headerLength header)) i descriptors
    else
      .ok descriptors

/-- The descriptors of an event, or of a transport stream, up to `pEnd`; where the
address is in the end. -/
def entryDescriptors (memory : TableMemory) (data : List UInt8) (pEnd : Nat) :
    Nat → Nat → List PsiDescriptor → Except TableStop (List PsiDescriptor × Nat)
  | 0, _, _ => .error .fuel
  | fuel + 1, i, descriptors =>
    if i + 2 ≤ pEnd then do
      let header ← storedBytes data i 2
      if i + 2 + headerLength header ≤ pEnd then do
        let added ←
          createDescriptor (memory i) data (headerTag header) (headerLength header) (i + 2)
        entryDescriptors memory data pEnd fuel (i + 2 + headerLength header) (descriptors ++ added)
      else
        entryDescriptors memory data pEnd fuel (i + 2 + headerLength header) descriptors
    else
      .ok (descriptors, i)

/-- The end of an entry, which has its length in the last bytes of its header. -/
def entryEnd (size i : Nat) (header : List UInt8) : Nat := i + size + length12 header (size - 2)

/-- The loop over the entries of an EIT or NIT section.  Whether the next section is
decoded, too. -/
def entryLoop {ι : Type} (size : Nat) (addEntry : ι → List UInt8 → List PsiDescriptor → ι)
    (memory : TableMemory) (data : List UInt8) (payloadEnd : Int) :
    Nat → Nat → ι → Except TableStop (ι × Bool)
  | 0, _, _ => .error .fuel
  | fuel + 1, i, info =>
    if (i : Int) + 4 ≤ payloadEnd then do
      let header ← storedBytes data i size
      if memory i = false then
        pure (info, false)
      else if payloadEnd < entryEnd size i header then
        pure (addEntry info header [], true)
      else do
        let entry ←
          entryDescriptors memory data (entryEnd size i header)
            (entryEnd size i header + 1) (i + size) []
        entryLoop size addEntry memory data payloadEnd fuel entry.2 (addEntry info header entry.1)
    else
      .ok (info, true)

/-- `while (ptSection)`. -/
def decodeSections {ι : Type} (decode : Nat → PsiSection → ι → Except TableStop (ι × Bool)) :
    Nat → List PsiSection → ι → Except TableStop ι
  | _, [], info => .ok info
  | k, section_ :: rest, info => do
      let decoded ← decode k section_ info
      if decoded.2 = true then
        decodeSections decode (k + 1) rest decoded.1
      else
        pure decoded.1

/-- `PSI_PMT_ES_INFO`. -/
structure PmtEsInfo where
  streamType : Nat
  elementaryPid : Nat
  descriptors : List PsiDescriptor
  deriving DecidableEq

/-- What `_PMT_DecodeSection` adds to a `PSI_PMT_INFO`. -/
structure PmtInfo where
  descriptors : List PsiDescriptor
  totalEsCount : Nat
  esInfos : List PmtEsInfo
  deriving DecidableEq

def invalidElementaryPid : Nat := 0x1FFF

/-- `_PMT_AddEsInfo`, when there is memory. -/
def PmtInfo.addEsInfo (self : PmtInfo) (esInfo : PmtEsInfo) : PmtInfo :=
  { self with
    totalEsCount := if self.esInfos = [] then 1 else self.totalEsCount + 1
    esInfos := self.esInfos ++ [esInfo] }

def pmtEsLoop (memory : TableMemory) (data : List UInt8) :
    Nat → Int → Nat → PmtInfo → Except TableStop (PmtInfo × Bool)
  | 0, _, _, _ => .error .fuel
  | fuel + 1, restSectionSize, i, info =>
    if 0 < restSectionSize then do
      let header ← storedBytes data i 5
      if invalidElementaryPid ≤ pid13 header 1 ∨ memory i = false then
        pure (info, false)
      else do
        let descriptors ←
          pmtDescriptors memory data (length12 header 3 + 1) (length12 header 3) (i + 5) []
        pmtEsLoop memory data fuel (restSectionSize - (5 + length12 header 3))
          (i + 5 + length12 header 3)
          (info.addEsInfo
            { streamType := (header.getD 0 0).toNat
              elementaryPid := pid13 header 1
              descriptors := descriptors })
    else
      .ok (info, true)

def pmtSection (memory : Nat → TableMemory) (k : Nat) (section_ : PsiSection)
    (info : PmtInfo) : Except TableStop (PmtInfo × Bool) := do
  let lengths ← storedBytes section_.data 10 2
  let descriptors ←
    pmtDescriptors (memory k) section_.data (length12 lengths 0 + 1)
      (length12 lengths 0) 12 info.descriptors
  pmtEsLoop (memory k) section_.data (section_.payloadEnd.toNat + 1)
    (section_.payloadEnd - (12 + length12 lengths 0))
    (12 + length12 lengths 0) { info with descriptors := descriptors }

def pmtDecodeSection (memory : Nat → TableMemory) (sections : List PsiSection)
    (info : PmtInfo) : Except TableStop PmtInfo :=
  decodeSections (pmtSection memory) 0 sections info

/-- `PSI_EIT_EVENT`. -/
structure EitEvent where
  eventId : Nat
  startTimeHigh16 : Nat
  startTimeLow24 : Nat
  duration : Nat
  runningStatus : Nat
  freeCaMode : Nat
  descriptors : List PsiDescriptor
  deriving DecidableEq

/-- What `_EIT_DecodeSection` adds to a `PSI_EIT_INFO`. -/
structure EitInfo where
  totalEventCount : Nat
  events : List EitEvent
  deriving DecidableEq

/-- `_EIT_AddEvent`, when there is memory. -/
def EitInfo.addEvent (self : EitInfo) (header : List UInt8)
    (descriptors : List PsiDescriptor) : EitInfo where
  totalEventCount := if self.events = [] then 1 else self.totalEventCount + 1
  events :=
    self.events ++
      [{ eventId := word16 header 0
         startTimeHigh16 := word16 header 2
         startTimeLow24 := word24 header 4
         duration := word24 header 7
         runningStatus := (header.getD 10 0).toNat / 32
         freeCaMode := (header.getD 10 0).toNat / 16 % 2
         descriptors := descriptors }]

def eitSection (memory : Nat → TableMemory) (k : Nat) (section_ : PsiSection)
    (info : EitInfo) : Except TableStop (EitInfo × Bool) :=
  entryLoop 12 EitInfo.addEvent (memory k) section_.data section_.payloadEnd
    (section_.payloadEnd.toNat + 1) (section_.payloadStart + 6) info

def eitDecodeSection (memory : Nat → TableMemory) (sections : List PsiSection)
    (info : EitInfo) : Except TableStop EitInfo :=
  decodeSections (eitSection memory) 0 sections info

/-- `PSI_NIT_TRANSPORT_STREAM`. -/
structure NitTransportStream where
  transportStreamId : Nat
  originalNetworkId : Nat
  descriptors : List PsiDescriptor
  deriving DecidableEq

/-- What `_NIT_DecodeSection` adds to a `PSI_NIT_INFO`. -/
structure NitInfo where
  transportStreams : List NitTransportStream
  deriving DecidableEq

/-- `_NIT_AddTransportStream`, when there is memory. -/
def NitInfo.addTransportStream (self : NitInfo) (header : List UInt8)
    (descriptors : List PsiDescriptor) : NitInfo where
  transportStreams :=
    self.transportStreams ++
      [{ transportStreamId := word16 header 0
         originalNetworkId := word16 header 2
         descriptors := descriptors }]

def nitSection (memory : Nat → TableMemory) (k : Nat) (section_ : PsiSection)
    (info : NitInfo) : Except TableStop (NitInfo × Bool) := do
  let lengths ← storedBytes section_.data section_.payloadStart 2
  entryLoop 6 NitInfo.addTransportStream (memory k) section_.data
    section_.payloadEnd (section_.payloadEnd.toNat + 1)
    (section_.payloadStart + (4 + length12 lengths 0)) info

def nitDecodeSection (memory : Nat → TableMemory) (sections : List PsiSection)
    (info : NitInfo) : Except TableStop NitInfo :=
  decodeSections (nitSection memory) 0 sections info

end IteSdk.TsDemuxer
