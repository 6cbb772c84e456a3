import IteSdk.Lib.Transition

/-!
# The section filter of the event information

Of each service the bitmaps of the sections received are kept, with the versions of their
tables.  `tsEpg_Eit_SectionFilter_CallBack` tests them and then does not filter.
-/

namespace IteSdk.TsDemuxer

open Lib

/-- What `PSI_SECTION` and `PSI_EIT_INFO` say of an EIT section; the service is
`table_id_extension`. -/
structure EitSection where
  tableId : BitVec 32
  serviceId : BitVec 32
  versionNumber : BitVec 32
  sectionNumber : BitVec 32

/-- `TS_1_SRVC_EIT` without the events, which the filter does not read. -/
structure SrvcEit where
  frequency : BitVec 32
  serviceId : BitVec 32
  versionNumPf : BitVec 8
  rxSectionPf : BitVec 8
  versionNumSch : List (BitVec 8)
  rxSectionSch : List (List (BitVec 32))

/-- `TS_EPG_DB` -/
structure EpgDb where
  bSkip : Bool
  bSkipEitSchedule : Bool
  currFreq : BitVec 32
  services : List SrvcEit

def epgMaxScheduleTbl : Nat := 3

def newService (frequency serviceId : BitVec 32) : SrvcEit :=
  ⟨frequency, serviceId, 0, 0, List.replicate epgMaxScheduleTbl 0,
    List.replicate epgMaxScheduleTbl (List.replicate 8 0)⟩

/-- `_Get_Cur_Srvc_Eits`, then a change of the service that it returns; `allocated` says
whether `tsd_malloc` succeeds. -/
def EpgDb.changeService (db : EpgDb) (allocated : Bool) (serviceId : BitVec 32)
    (change : SrvcEit → SrvcEit) : EpgDb :=
  let isService (service : SrvcEit) :=
    service.frequency == db.currFreq && service.serviceId == serviceId
  if db.services.any isService then
    { db with
      services := db.services.map fun service =>
        if isService service then change service else service }
  else if allocated then
    { db with services := db.services ++ [change (newService db.currFreq serviceId)] }
  else db

/-- `table_id - SCHEDULE_BASE_TBL_ID`, where it is the index of a schedule table. -/
def scheduleIndex (tableId : BitVec 32) : Option Nat :=
  if (tableId - 0x50).toNat < epgMaxScheduleTbl then some (tableId - 0x50).toNat else none

/-- What the filter does to the service of a section: the bitmap is cleared where the test
fails. -/
def SrvcEit.filter (eits : SrvcEit) (ptSection : EitSection) : SrvcEit :=
  if ptSection.tableId = 0x4E then
    if eits.versionNumPf.setWidth 32 = ptSection.sectionNumber ∧
        eits.rxSectionPf.getLsbD (ptSection.sectionNumber &&& 1).toNat = true then
      eits
    else { eits with rxSectionPf := 0 }
  else
    match scheduleIndex ptSection.tableId with
    | none => eits
    | some tableIdx =>
      if 255 < ptSection.sectionNumber.toNat then eits
      else if (eits.versionNumSch.getD tableIdx 0).setWidth 32 = ptSection.versionNumber ∧
          ((eits.rxSectionSch.getD tableIdx []).getD (ptSection.versionNumber >>> 5).toNat
            0).getLsbD (ptSection.sectionNumber &&& 0x1F).toNat = true then
        eits
      else { eits with rxSectionSch := eits.rxSectionSch.set tableIdx (List.replicate 8 0) }

/-- `tsEpg_Eit_SectionFilter_CallBack`.  A section that was received leaves the test by
the same `break` as one without a service, in front of `bFilterOn = false`. -/
def eitSectionFilter (allocated : Bool) (db : EpgDb) (ptSection : EitSection) : Bool × EpgDb :=
  if db.bSkip then (true, db)
  else
    (false, db.changeService allocated ptSection.serviceId fun eits => eits.filter ptSection)

/-- `tsEpg_Eit_P_F_CallBack` -/
def eitPfCallBack (allocated : Bool) (db : EpgDb) (ptEitInfo : EitSection) : EpgDb :=
  if db.bSkip then db
  else
    db.changeService allocated ptEitInfo.serviceId fun eits =>
      { eits with
        versionNumPf := ptEitInfo.versionNumber.setWidth 8
        rxSectionPf := eits.rxSectionPf ||| (1 <<< (ptEitInfo.sectionNumber &&& 1).toNat) }

/-- `tsEpg_Eit_Schedule_CallBack` -/
def eitScheduleCallBack (allocated : Bool) (db : EpgDb) (ptEitInfo : EitSection) : EpgDb :=
  if db.bSkip || db.bSkipEitSchedule then db
  else
    db.changeService allocated ptEitInfo.serviceId fun eits =>
      match scheduleIndex ptEitInfo.tableId with
      | none => eits
      | some tableIdx =>
        if 7 < (ptEitInfo.sectionNumber >>> 5).toNat then eits
        else
          { eits with
            versionNumSch := eits.versionNumSch.set tableIdx (ptEitInfo.versionNumber.setWidth 8)
            rxSectionSch := eits.rxSectionSch.modify tableIdx fun words =>
              words.modify (ptEitInfo.sectionNumber >>> 5).toNat
                (· ||| 1 <<< (ptEitInfo.sectionNumber &&& 0x1F).toNat) }

/-! ## Sections offered one after the other -/

/-- A section that comes in at a frequency, and whether memory is left for its service. -/
structure EitOffer where
  frequency : BitVec 32
  ptSection : EitSection
  filterAllocated : Bool
  callBackAllocated : Bool

/-- The database, and the sections processed so far with their frequencies. -/
structure EitHistory where
  db : EpgDb
  processed : List (BitVec 32 × EitSection)

/-- The database that the filter meets, with the frequency that is tuned to. -/
def EitHistory.tuned (history : EitHistory) (offer : EitOffer) : EpgDb :=
  { history.db with currFreq := offer.frequency }

/-- A section that is not filtered goes to the callback of its table. -/
def EitHistory.offer (history : EitHistory) (offer : EitOffer) : EitHistory :=
  let (bFilterOn, db) := eitSectionFilter offer.filterAllocated (history.tuned offer) offer.ptSection
  if bFilterOn then { history with db }
  else
    ⟨if offer.ptSection.tableId = 0x4E then
        eitPfCallBack offer.callBackAllocated db offer.ptSection
      else eitScheduleCallBack offer.callBackAllocated db offer.ptSection,
      history.processed ++ [(offer.frequency, offer.ptSection)]⟩

def eitStart : EitHistory := ⟨⟨false, false, 0, []⟩, []⟩

/-- The other section is of the same table of the same service. -/
def EitOffer.SameTable (offer : EitOffer) (other : BitVec 32 × EitSection) : Prop :=
  other.1 = offer.frequency ∧ other.2.serviceId = offer.ptSection.serviceId ∧
    other.2.tableId = offer.ptSection.tableId

/-- The section was processed with this version, and no other version of its table since. -/
def EitHistory.Seen (history : EitHistory) (offer : EitOffer) : Prop :=
  ∃ before same since, history.processed = before ++ same :: since ∧ offer.SameTable same ∧
    same.2.sectionNumber = offer.ptSection.sectionNumber ∧
      same.2.versionNumber = offer.ptSection.versionNumber ∧
        ∀ other ∈ since, offer.SameTable other →
          other.2.versionNumber = offer.ptSection.versionNumber

def EitHistory.FilterRight (history : EitHistory) (offer : EitOffer) : Prop :=
  (eitSectionFilter offer.filterAllocated (history.tuned offer) offer.ptSection).1 = true ↔
    history.Seen offer

theorem changeService_flags (db : EpgDb) (allocated : Bool) (serviceId : BitVec 32)
    (change : SrvcEit → SrvcEit) :
    (db.changeService allocated serviceId change).bSkip = db.bSkip := by
  unfold EpgDb.changeService
  dsimp only
  split_ifs <;> rfl

theorem offer_bSkip {history : EitHistory} (offer : EitOffer)
    (receives : history.db.bSkip = false) : (history.offer offer).db.bSkip = false := by
  have tuned : (history.tuned offer).bSkip = false := receives
  have filtered := changeService_flags (history.tuned offer) offer.filterAllocated
    offer.ptSection.serviceId fun eits => eits.filter offer.ptSection
  rw [tuned] at filtered
  simp only [EitHistory.offer, eitSectionFilter, tuned, Bool.false_eq_true, if_false]
  split
  · rw [eitPfCallBack, filtered, if_neg Bool.false_ne_true, changeService_flags, filtered]
  · rw [eitScheduleCallBack]
    split
    · exact filtered
    · rw [changeService_flags, filtered]

/-- Without skipping the filter lets every section pass. -/
theorem filterRight_iff {history : EitHistory} (offer : EitOffer)
    (receives : history.db.bSkip = false) :
    history.FilterRight offer ↔ ¬ history.Seen offer := by
  have tuned : (history.tuned offer).bSkip = false := receives
  simp [EitHistory.FilterRight, eitSectionFilter, tuned]

/-- The filter is right along a run exactly if no section comes in that was already
processed, with no other version of its table since. -/
theorem eitSectionFilter_right_iff (offers : List EitOffer) :
    AllowedAlong EitHistory.FilterRight EitHistory.offer eitStart offers ↔
      AllowedAlong (fun history offer => ¬ history.Seen offer) EitHistory.offer eitStart offers := by
  have receives : eitStart.db.bSkip = false := rfl
  generalize eitStart = history at receives ⊢
  induction offers generalizing history with
  | nil => exact Iff.rfl
  | cons offer offers ih =>
    exact and_congr (filterRight_iff offer receives) (ih _ (offer_bSkip offer receives))

def presentOffer : EitOffer := ⟨0, ⟨0x4E, 1, 0, 0⟩, true, true⟩

/-- The section is offered twice. -/
theorem eitSectionFilter_repeated :
    ¬ ∀ offers : List EitOffer,
        AllowedAlong EitHistory.FilterRight EitHistory.offer eitStart offers := by
  intro right
  have again := (right [presentOffer, presentOffer]).2.1
  rw [filterRight_iff presentOffer (offer_bSkip presentOffer rfl)] at again
  exact again ⟨[], (presentOffer.frequency, presentOffer.ptSection), [], rfl, ⟨rfl, rfl, rfl⟩, rfl,
    rfl, fun _ member => absurd member List.not_mem_nil⟩

end IteSdk.TsDemuxer
