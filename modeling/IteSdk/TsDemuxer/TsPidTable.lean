import IteSdk.TsDemuxer.PatTable
import IteSdk.TsDemuxer.PsiTables

/-!
# The table of PIDs

`_TS_CreateTsPid`, `_TS_DestroyTsPid`, `_TS_PatCallBack` and `_TS_PmtCallBack` of
`ts.c`.  An entry is created with the PID of its place, so the place stands for the
field `PID`.  `table` is a union in the source; the PMT that is laid over the table
of a static PID is all zeros, and no program number that is looked for is 0.
-/

namespace IteSdk.TsDemuxer

/-- A null pointer is followed, or what has been freed is used. -/
inductive TsStop
  | nullPointer
  | freed
  deriving DecidableEq

/-! ## Entries -/

/-- `PMT_TBL_SECTION`: `totalEsPidCount` is the length of `pEsPid`. -/
structure PmtTblSection where
  programNumber : Nat
  versionNumber : Option Nat
  pEsPid : Option (List Nat)
  deriving DecidableEq

inductive PsiHandler
  | pat
  | demux
  | pmt (programNumber : Nat)
  deriving DecidableEq

/-- `TS_PSI`: `pmts` begins with `table.PMT` and goes on along `ptNextPmt`. -/
structure TsPsi where
  ptPsiDecoder : Option PsiHandler
  versionNumber : Option Nat
  pPmtPid : Option (List Nat)
  pmts : List PmtTblSection
  deriving DecidableEq

inductive PesPidType
  | video
  | audio
  | subtitle
  | teletext
  deriving DecidableEq

structure TsPes where
  ptPesDecoder : Option PesPidType
  deriving DecidableEq

/-- Only one of `ptPsi` and `ptPes` is set. -/
inductive TsContent
  | psi (ptPsi : TsPsi)
  | pes (ptPes : TsPes)
  deriving DecidableEq

structure TsPid where
  bValid : Bool
  content : TsContent
  deriving DecidableEq

/-- `ptTsPid`. -/
abbrev TsPidTable := Nat → Option TsPid

namespace TsPidTable

def set (table : TsPidTable) (pid : Nat) (entry : Option TsPid) : TsPidTable :=
  fun place => if place = pid then entry else table place

def ptPsi (table : TsPidTable) (pid : Nat) : Option TsPsi :=
  match table pid with
  | some ⟨_, .psi ptPsi⟩ => some ptPsi
  | _ => none

def ptPes (table : TsPidTable) (pid : Nat) : Option TsPes :=
  match table pid with
  | some ⟨_, .pes ptPes⟩ => some ptPes
  | _ => none

end TsPidTable

def maxPidNumber : Nat := 8192

def patPid : Nat := 0x00

def nitPid : Nat := 0x10

def sdtPid : Nat := 0x11

def eitPid : Nat := 0x12

def tdtTotPid : Nat := 0x14

/-- The PIDs with a `TS_PSI` that is not that of a PMT. -/
def staticPids : List Nat := [patPid, nitPid, sdtPid, eitPid, tdtTotPid]

/-- `_TS_CreateTsPid` with `TS_PID_PSI`. -/
def createPsi (memory : Bool) : Option TsPid :=
  if memory = true then
    some ⟨true, .psi ⟨none, none, none, [⟨0, some 0, none⟩]⟩⟩
  else
    none

/-- `_TS_CreateTsPid` with `TS_PID_PES`. -/
def createPes (memory bPidValid : Bool) : Option TsPid :=
  if memory = true then
    some ⟨bPidValid, .pes ⟨none⟩⟩
  else
    none

/-- The PIDs that `_TS_CleanPatPid` and `_TS_CleanPmtPid` destroy. -/
def TsPsi.held (self : TsPsi) (pid : Nat) : List Nat :=
  if pid = patPid then
    self.pPmtPid.getD []
  else if pid ∈ staticPids then
    []
  else
    self.pmts.flatMap fun pmt => pmt.pEsPid.getD []

def TsPid.held (self : TsPid) (pid : Nat) : List Nat :=
  match self.content with
  | .psi ptPsi => ptPsi.held pid
  | .pes _ => []

/-- `_TS_DestroyTsPid`.  The entry stays in the table until what it holds has been
destroyed: where the calls are nested deeper than there are entries, one is destroyed
in its own destruction. -/
def destroyTsPid : Nat → TsPidTable → Nat → Except TsStop TsPidTable
  | 0, _, _ => .error .freed
  | fuel + 1, table, pid =>
    match table pid with
    | none => .ok table
    | some tsPid => do
        let cleaned ← (tsPid.held pid).foldlM (destroyTsPid fuel) table
        pure (cleaned.set pid none)

def destroy (table : TsPidTable) (pid : Nat) : Except TsStop TsPidTable :=
  destroyTsPid (maxPidNumber + 1) table pid

structure TsDemux where
  ptTsPid : TsPidTable
  bReceivePat : Bool
  bReceiveSdt : Bool
  bWaitNitReady : Bool
  transportStreamId : Option Nat
  bEnableEsPid : Bool
  bOnPesOut : Bool

/-- The static entries of `TS_Init`. -/
def initTable (bCollectEit : Bool) : TsPidTable := fun pid =>
  if pid = patPid then
    some ⟨true, .psi ⟨some .pat, none, none, [⟨0, some 0, none⟩]⟩⟩
  else if pid = nitPid ∨ pid = sdtPid ∨ pid = tdtTotPid ∨ pid = eitPid ∧ bCollectEit = true then
    some ⟨true, .psi ⟨some .demux, none, none, [⟨0, some 0, none⟩]⟩⟩
  else
    none

/-- `TS_Init`, when there is memory. -/
def TsDemux.init (bWaitNit bInScan bCollectEit : Bool) : TsDemux where
  ptTsPid := initTable bCollectEit
  bReceivePat := !bInScan
  bReceiveSdt := !bInScan
  bWaitNitReady := bWaitNit
  transportStreamId := if bInScan = true then none else some 0
  bEnableEsPid := false
  bOnPesOut := false

/-- `TS_InsertEsPid`, when there is memory. -/
def TsDemux.insertEsPid (self : TsDemux) (pid : Nat) (pesIndex : PesPidType) : TsDemux :=
  match self.ptTsPid pid with
  | some _ => self
  | none =>
    { self with
      ptTsPid := self.ptTsPid.set pid (some ⟨false, .pes ⟨some pesIndex⟩⟩) }

/-! ## PAT -/

structure ProgramMemory where
  tsPid : Bool
  decoder : Bool
  pmt : Bool

/-- Whether there is memory, and `bReceivePat` as the upper layer leaves it. -/
structure PatAnswers where
  pmtPids : Bool
  programs : Nat → ProgramMemory
  bReceivePat : Bool

/-- Whether some program of the table is one of the PMTs of a PID. -/
def keepsPmt (pid : Nat) (content : TsContent) : List PatProgram → Except TsStop Bool
  | [] => .ok false
  | program :: rest =>
    if program.programNumber = 0 then
      keepsPmt pid content rest
    else
      match content with
      | .pes _ => .error .nullPointer
      | .psi ptPsi =>
        if program.programMapPid = pid ∧
            program.programNumber ∈ ptPsi.pmts.map PmtTblSection.programNumber
          then .ok true
        else
          keepsPmt pid content rest

/-- The old PMT entries that do not match the table: the loop is left behind the
first one that is destroyed. -/
def cleanOldPmts (table : TsPidTable) (programs : List PatProgram) :
    List Nat → Except TsStop TsPidTable
  | [] => .ok table
  | oldPmtPid :: rest =>
    if oldPmtPid ∈ staticPids then
      cleanOldPmts table programs rest
    else
      match table oldPmtPid with
      | none => cleanOldPmts table programs rest
      | some tsPid => do
          let bKeep ← keepsPmt oldPmtPid tsPid.content programs
          if bKeep = true then
            cleanOldPmts table programs rest
          else
            destroy table oldPmtPid

def attachPmt (memory : ProgramMemory) (table : TsPidTable)
    (program : PatProgram) : Except TsStop TsPidTable :=
  match table program.programMapPid with
  | none =>
    match createPsi memory.tsPid with
    | none => .error .nullPointer
    | some tsPid =>
      .ok (table.set program.programMapPid (some
        { tsPid with
          content := .psi
            { ptPsiDecoder :=
                if memory.decoder = true then
                  some (.pmt program.programNumber)
                else
                  none
              versionNumber := none
              pPmtPid := none
              pmts := [⟨program.programNumber, none, none⟩] } }))
  | some ⟨_, .pes _⟩ => .ok table
  | some ⟨bValid, .psi ptPsi⟩ =>
    if program.programNumber ∈ ptPsi.pmts.map PmtTblSection.programNumber then
      .ok table
    else if memory.pmt = true then
      .ok (table.set program.programMapPid (some
        ⟨bValid, .psi
          { ptPsi with
            pmts := ptPsi.pmts ++ [⟨program.programNumber, none, none⟩] }⟩))
    else
      .error .nullPointer

/-- The loop over the programs, with the new `pPmtPid`. -/
def addPrograms (memory : Nat → ProgramMemory) (totalProgramCount : Nat) :
    Nat → List PatProgram → TsPidTable × List Nat → Except TsStop (TsPidTable × List Nat)
  | _, [], state => .ok state
  | k, program :: rest, (table, pPmtPid) =>
    if pPmtPid.length < totalProgramCount then
      if program.programNumber = 0 then
        addPrograms memory totalProgramCount (k + 1) rest (table, pPmtPid)
      else do
        let attached ← attachPmt (memory k) table program
        addPrograms memory totalProgramCount (k + 1) rest
          (attached, pPmtPid ++ [program.programMapPid])
    else
      .ok (table, pPmtPid)

/-- A change behind `ptPatPid->ptPsi`. -/
def changePat (change : TsPsi → TsPsi) (table : TsPidTable) : Except TsStop TsPidTable :=
  match table patPid with
  | some ⟨bValid, .psi ptPsi⟩ =>
    .ok (table.set patPid (some ⟨bValid, .psi (change ptPsi)⟩))
  | _ => .error .freed

/-- The entries are brought in line with the table.  The second says whether the
table has been applied. -/
def applyPat (answers : PatAnswers) (demux : TsDemux) (patPsi : TsPsi)
    (patInfo : PatInfo) : Except TsStop (TsDemux × Bool) := do
  let cleaned ← cleanOldPmts demux.ptTsPid patInfo.programs (patPsi.pPmtPid.getD [])
  let emptied ← changePat (fun ptPsi => { ptPsi with pPmtPid := none }) cleaned
  if answers.pmtPids = true then do
    let added ←
      addPrograms answers.programs patInfo.totalProgramCount 0 patInfo.programs (emptied, [])
    let changed ←
      changePat
        (fun ptPsi =>
          { ptPsi with
            pPmtPid := some added.2
            versionNumber := some patInfo.versionNumber })
        added.1
    pure ({ demux with ptTsPid := changed, bReceivePat := answers.bReceivePat }, true)
  else
    pure ({ demux with ptTsPid := emptied }, false)

/-- A table that is not current yet, or that has been applied. -/
def patUnchanged (demux : TsDemux) (patPsi : TsPsi) (patInfo : PatInfo) : Bool :=
  patPsi.versionNumber.isSome &&
    (patInfo.currentNextIndicator == 0 ||
      patPsi.versionNumber == some patInfo.versionNumber) &&
        demux.transportStreamId == some patInfo.transportStreamId

/-- `_TS_PatCallBack`. -/
def patCallBack (answers : PatAnswers) (demux : TsDemux) (patInfo : PatInfo) :
    Except TsStop (TsDemux × Bool) :=
  if demux.bWaitNitReady = true ∨ demux.bReceiveSdt = false then
    if demux.bReceivePat = false then
      .ok ({ demux with bReceivePat := answers.bReceivePat }, false)
    else
      .ok (demux, false)
  else
    match demux.ptTsPid.ptPsi patPid with
    | none => .error .nullPointer
    | some patPsi =>
      if patUnchanged demux patPsi patInfo = true then
        .ok (demux, false)
      else
        match demux.transportStreamId with
        | none =>
          applyPat answers { demux with transportStreamId := some patInfo.transportStreamId }
            patPsi patInfo
        | some transportStreamId =>
          if patInfo.transportStreamId = transportStreamId then
            applyPat answers demux patPsi patInfo
          else
            .ok (demux, false)

/-! ## PMT -/

structure PsiPmtInfo extends PmtInfo where
  programNumber : Nat
  versionNumber : Nat
  currentNextIndicator : Nat
  deriving DecidableEq

/-- Whether there is memory for what an elementary stream needs: for its entry, and
for the entry and the decoder of every attachment. -/
structure EsMemory where
  tsPid : Bool
  attach : Nat → Bool × Bool

structure PmtMemory where
  esPids : Bool
  streams : Nat → EsMemory

/-- The types of the decoders behind the descriptors of a stream.  The count of the
descriptors that stand for AC-3 is looked at behind the loop, too. -/
def descriptorTypes (streamType : Nat) : Nat → List PsiDescriptor → List PesPidType
  | audioAc3ChkNum, [] => if 0 < audioAc3ChkNum then [.audio] else []
  | audioAc3ChkNum, descriptor :: rest =>
    if descriptor.descriptorTag = 0x59 ∧ streamType = 0x06 then
      .subtitle :: if 0 < audioAc3ChkNum then [.audio] else []
    else if descriptor.descriptorTag = 0x56 ∧ streamType = 0x06 then
      .teletext :: if 0 < audioAc3ChkNum then [.audio] else []
    else if descriptor.descriptorTag = 0x6A ∨ descriptor.descriptorTag = 0x7A then
      descriptorTypes streamType (audioAc3ChkNum + 1) rest
    else if descriptor.descriptorTag = 0x50 then
      if (descriptor.payload.getD 0 0).toNat % 16 = 4 then
        descriptorTypes streamType (audioAc3ChkNum + 1) rest
      else
        descriptorTypes streamType audioAc3ChkNum rest
    else if descriptor.descriptorTag = 0x05 ∧ 4 ≤ descriptor.descriptorLength then
      if descriptor.payload.take 4 = [0x41, 0x43, 0x2D, 0x33] then
        descriptorTypes streamType (audioAc3ChkNum + 1) rest
      else
        descriptorTypes streamType audioAc3ChkNum rest
    else
      descriptorTypes streamType audioAc3ChkNum rest

/-- The types of the decoders that a stream gets, one after another. -/
def esTypes (esInfo : PmtEsInfo) : List PesPidType :=
  if esInfo.streamType ∈ [0x01, 0x02, 0x1B] then
    [.video]
  else if esInfo.streamType ∈ [0x03, 0x04, 0x0F, 0x11] then
    [.audio]
  else
    descriptorTypes esInfo.streamType 0 esInfo.descriptors

/-- An entry with a PES decoder is made anew before it gets one. -/
def freshPes (memory bEnableEsPid : Bool) (table : TsPidTable) (esPid : Nat) :
    Except TsStop TsPidTable :=
  match table.ptPes esPid with
  | some ⟨some _⟩ => do
      let dropped ← destroy table esPid
      pure (dropped.set esPid (createPes memory bEnableEsPid))
  | _ => .ok table

def attachPes (memory : Bool × Bool) (bEnableEsPid : Bool) (table : TsPidTable)
    (esPid : Nat) (pesIndex : PesPidType) : Except TsStop TsPidTable := do
  let fresh ← freshPes memory.1 bEnableEsPid table esPid
  match fresh esPid with
  | some ⟨bValid, .pes _⟩ =>
    pure (fresh.set esPid (some ⟨bValid, .pes ⟨if memory.2 = true then some pesIndex else none⟩⟩))
  | _ => throw .nullPointer

def attachTypes (memory : Nat → Bool × Bool) (bEnableEsPid : Bool) (esPid : Nat) :
    Nat → List PesPidType → TsPidTable → Except TsStop TsPidTable
  | _, [], table => .ok table
  | k, pesIndex :: rest, table => do
      let attached ← attachPes (memory k) bEnableEsPid table esPid pesIndex
      attachTypes memory bEnableEsPid esPid (k + 1) rest attached

/-- An entry with PSI data is destroyed, and an entry is made where there is none. -/
def makeEsPid (memory bEnableEsPid : Bool) (table : TsPidTable) (esPid : Nat) :
    Except TsStop TsPidTable :=
  match table esPid with
  | none => .ok (table.set esPid (createPes memory bEnableEsPid))
  | some ⟨_, .pes _⟩ => .ok table
  | some ⟨_, .psi _⟩ => do
      let dropped ← destroy table esPid
      pure (dropped.set esPid (createPes memory bEnableEsPid))

def changePmts (programNumber : Nat) (change : PmtTblSection → PmtTblSection) :
    List PmtTblSection → List PmtTblSection
  | [] => []
  | pmt :: rest =>
    if pmt.programNumber = programNumber then
      change pmt :: rest
    else
      pmt :: changePmts programNumber change rest

/-- A change behind `ptCurrentPmt`, in the entry of a PID. -/
def changePmt (pmtPid programNumber : Nat) (change : PmtTblSection → PmtTblSection)
    (table : TsPidTable) : Except TsStop TsPidTable :=
  match table pmtPid with
  | some ⟨bValid, .psi ptPsi⟩ =>
    .ok (table.set pmtPid (some
      ⟨bValid, .psi { ptPsi with pmts := changePmts programNumber change ptPsi.pmts }⟩))
  | _ => .error .freed

def addEsPid (memory : EsMemory) (demux : TsDemux) (pmtPid programNumber : Nat)
    (table : TsPidTable) (esInfo : PmtEsInfo) : Except TsStop TsPidTable := do
  let made ← makeEsPid memory.tsPid demux.bEnableEsPid table esInfo.elementaryPid
  let attached ←
    attachTypes memory.attach demux.bEnableEsPid esInfo.elementaryPid 0
      (if demux.bOnPesOut = true then esTypes esInfo else []) made
  changePmt pmtPid programNumber
    (fun pmt =>
      { pmt with
        pEsPid := pmt.pEsPid.map fun esPids => esPids ++ [esInfo.elementaryPid] })
    attached

/-- The loop, with `totalEsPidCount`. -/
def addEsPids (memory : Nat → EsMemory) (demux : TsDemux)
    (pmtPid programNumber totalEsCount : Nat) :
    Nat → List PmtEsInfo → TsPidTable → Except TsStop TsPidTable
  | _, [], table => .ok table
  | totalEsPidCount, esInfo :: rest, table =>
    if totalEsPidCount < totalEsCount then do
      let added ← addEsPid (memory totalEsPidCount) demux pmtPid programNumber table esInfo
      addEsPids memory demux pmtPid programNumber totalEsCount (totalEsPidCount + 1) rest added
    else
      .ok table

/-- `pEsPid` before the loop: freed where the count differs, allocated where it is
null, and counted from 0. -/
def resetEsPids (memory : Bool) (totalEsCount : Nat) (pmt : PmtTblSection) : PmtTblSection :=
  if totalEsCount = 0 then
    pmt
  else if memory = true ∨ pmt.pEsPid.map List.length = some totalEsCount then
    { pmt with pEsPid := some [] }
  else
    { pmt with pEsPid := none }

/-- The first PID of the PAT that has a PMT with the program number. -/
def declaredPmt (table : TsPidTable) (programNumber : Nat) (pPmtPid : List Nat) :
    Option (Nat × PmtTblSection) :=
  pPmtPid.findSome? fun pmtPid =>
    if pmtPid ∈ staticPids ∨ programNumber = 0 then
      none
    else
      match table.ptPsi pmtPid with
      | none => none
      | some ptPsi =>
        (ptPsi.pmts.find? fun pmt => pmt.programNumber == programNumber).map
          fun pmt => (pmtPid, pmt)

/-- A table that is not current yet, or that has been applied. -/
def pmtUnchanged (pmt : PmtTblSection) (pmtInfo : PsiPmtInfo) : Bool :=
  pmt.versionNumber.isSome &&
    (pmtInfo.currentNextIndicator == 0 || pmt.versionNumber == some pmtInfo.versionNumber)

/-- `ptCurrentPmt`, with its PID, of a table that is taken up. -/
def currentPmt (demux : TsDemux) (patPsi : TsPsi) (pmtInfo : PsiPmtInfo) :
    Option (Nat × PmtTblSection) :=
  (declaredPmt demux.ptTsPid pmtInfo.programNumber (patPsi.pPmtPid.getD [])).filter
    fun current => !pmtUnchanged current.2 pmtInfo

def applyPmt (memory : PmtMemory) (demux : TsDemux) (pmtInfo : PsiPmtInfo)
    (current : Nat × PmtTblSection) : Except TsStop TsDemux := do
  let reset ←
    changePmt current.1 pmtInfo.programNumber
      (resetEsPids memory.esPids pmtInfo.totalEsCount) demux.ptTsPid
  if 0 < pmtInfo.totalEsCount ∧
      (resetEsPids memory.esPids pmtInfo.totalEsCount current.2).pEsPid = none then
    pure { demux with ptTsPid := reset }
  else do
    let added ←
      addEsPids memory.streams demux current.1 pmtInfo.programNumber
        pmtInfo.totalEsCount 0 pmtInfo.esInfos reset
    let changed ←
      changePmt current.1 pmtInfo.programNumber
        (fun pmt => { pmt with versionNumber := some pmtInfo.versionNumber }) added
    pure { demux with ptTsPid := changed }

/-- `_TS_PmtCallBack`. -/
def pmtCallBack (memory : PmtMemory) (demux : TsDemux) (pmtInfo : PsiPmtInfo) :
    Except TsStop TsDemux :=
  match demux.ptTsPid patPid with
  | none => .ok demux
  | some ⟨_, .pes _⟩ => .error .nullPointer
  | some ⟨_, .psi patPsi⟩ =>
    match currentPmt demux patPsi pmtInfo with
    | none => .ok demux
    | some current => applyPmt memory demux pmtInfo current

end IteSdk.TsDemuxer
