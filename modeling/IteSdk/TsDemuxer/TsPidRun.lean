import IteSdk.TsDemuxer.PatTable
import IteSdk.TsDemuxer.TsPidInvariant

/-!
# The table over a run

PAT and PMT tables in any order: the invariant is kept, and every PAT that is taken
up is applied, in every run in which no PAT drops more than the first PMT that it does
not match and no PMT has a stream with the PID of a PSI entry or loses one.
-/

namespace IteSdk.TsDemuxer

open Lib TsPidTable

variable {table : TsPidTable} {pid : Nat} {inserted : List Nat}

/-! ## The streams of a PMT -/

/-- Only the entry of a stream is changed, and it has PES data then. -/
structure PesMade (esPid : Nat) (before after : TsPidTable) : Prop where
  entry : ∃ ptPes, after.ptPes esPid = some ptPes
  rest : ∀ place, place ≠ esPid → after place = before place

variable {esPid : Nat} {ptPes : TsPes} {ptPsi : TsPsi}
  {change : PmtTblSection → PmtTblSection} {programNumber : Nat} {pmt : PmtTblSection}
  {pmts : List PmtTblSection}

theorem PesMade.trans {before between after : TsPidTable}
    (first : PesMade esPid before between) (second : PesMade esPid between after) :
    PesMade esPid before after where
  entry := second.entry
  rest := fun place other => (second.rest place other).trans (first.rest place other)

theorem PesMade.set (table : TsPidTable) (esPid : Nat) (bValid : Bool) (ptPes : TsPes) :
    PesMade esPid table (table.set esPid (some ⟨bValid, .pes ptPes⟩)) where
  entry := ⟨ptPes, ptPes_set_pes _ _ _ _⟩
  rest := fun _ other => set_of_ne _ _ other

theorem PesMade.same (entry : table.ptPes esPid = some ptPes) : PesMade esPid table table where
  entry := ⟨ptPes, entry⟩
  rest := fun _ _ => rfl

theorem makeEsPid_made (bEnableEsPid : Bool) (absent : table.ptPsi esPid = none) :
    ∃ after, makeEsPid true bEnableEsPid table esPid = .ok after ∧ PesMade esPid table after := by
  rw [makeEsPid]
  split
  · exact ⟨_, rfl, .set _ _ _ _⟩
  · rename_i bValid ptPes entry
    exact ⟨table, rfl, .same (ptPes_eq_some.mpr ⟨bValid, entry⟩)⟩
  · rename_i bValid ptPsi entry
    rw [ptPsi_eq_some.mpr ⟨bValid, entry⟩] at absent
    cases absent

theorem freshPes_made (bEnableEsPid : Bool) (entry : table.ptPes esPid = some ptPes) :
    ∃ after, freshPes true bEnableEsPid table esPid = .ok after ∧ PesMade esPid table after := by
  rw [freshPes]
  split
  · rename_i pesIndex present
    rw [destroy_pes present]
    refine ⟨_, rfl, ⟨⟨none⟩, ptPes_set_pes _ _ _ _⟩, fun place other => ?_⟩
    rw [set_of_ne _ _ other, set_of_ne _ _ other]
  · exact ⟨table, rfl, .same entry⟩

theorem attachTypes_made (bEnableEsPid : Bool) (k : Nat) (types : List PesPidType)
    (entry : table.ptPes esPid = some ptPes) :
    ∃ after,
      attachTypes (fun _ => (true, true)) bEnableEsPid esPid k types table =
        .ok after ∧ PesMade esPid table after := by
  induction types generalizing k table ptPes with
  | nil =>
    exact ⟨table, rfl, .same entry⟩
  | cons pesIndex rest ih =>
    obtain ⟨fresh, freshens, freshMade⟩ := freshPes_made bEnableEsPid entry
    obtain ⟨freshPes_, freshEntry⟩ := freshMade.entry
    obtain ⟨bValid, present⟩ := ptPes_eq_some.mp freshEntry
    have attaches : attachPes (true, true) bEnableEsPid table esPid pesIndex =
        .ok (fresh.set esPid (some ⟨bValid, .pes ⟨some pesIndex⟩⟩)) := by
      rw [attachPes, freshens]
      dsimp only [bind, Except.bind]
      rw [present]
      rfl
    obtain ⟨after, runs, made⟩ := ih (k + 1) (ptPes_set_pes fresh esPid bValid ⟨some pesIndex⟩)
    refine ⟨after, ?_, freshMade.trans ((PesMade.set _ _ _ _).trans made)⟩
    rw [attachTypes, attaches]
    exact runs

theorem changePmt_eq (programNumber : Nat) (change : PmtTblSection → PmtTblSection) {bValid : Bool}
    (entry : table pid = some ⟨bValid, .psi ptPsi⟩) :
    changePmt pid programNumber change table =
      .ok (table.set pid (some ⟨bValid, .psi
        { ptPsi with pmts := changePmts programNumber change ptPsi.pmts }⟩)) := by
  rw [changePmt, entry]

theorem changePmts_comp (programNumber : Nat) {first : PmtTblSection → PmtTblSection}
    (second : PmtTblSection → PmtTblSection)
    (keeps : ∀ pmt, (first pmt).programNumber = pmt.programNumber) (pmts : List PmtTblSection) :
    changePmts programNumber second (changePmts programNumber first pmts) =
      changePmts programNumber (fun pmt => second (first pmt)) pmts := by
  induction pmts with
  | nil => rfl
  | cons pmt rest ih =>
    rw [changePmts]
    split
    · rename_i same
      rw [changePmts, if_pos ((keeps pmt).trans same), changePmts, if_pos same]
    · rename_i other
      rw [changePmts, if_neg other, ih, changePmts, if_neg other]

/-- One PMT has been changed, and the entries of streams have been made. -/
structure Streamed (pmtPid programNumber : Nat)
    (change : PmtTblSection → PmtTblSection) (esPids : List Nat) (ptPsi : TsPsi)
    (before after : TsPidTable) : Prop where
  pmt : after.ptPsi pmtPid = some { ptPsi with pmts := changePmts programNumber change ptPsi.pmts }
  rest : ∀ place, place ≠ pmtPid → place ∉ esPids → after place = before place
  streams : ∀ esPid ∈ esPids, after.ptPsi esPid = none

def appendStreams (esPids : List Nat) (pmt : PmtTblSection) : PmtTblSection :=
  { pmt with pEsPid := pmt.pEsPid.map fun older => older ++ esPids }

theorem appendStreams_number (esPids : List Nat) (pmt : PmtTblSection) :
    (appendStreams esPids pmt).programNumber = pmt.programNumber :=
  rfl

theorem addEsPid_streamed (demux : TsDemux) (programNumber : Nat) {pmtPid : Nat}
    {esInfo : PmtEsInfo} (psi : table.ptPsi pmtPid = some ptPsi)
    (absent : table.ptPsi esInfo.elementaryPid = none) :
    ∃ after,
      addEsPid ⟨true, fun _ => (true, true)⟩ demux pmtPid programNumber table esInfo = .ok after ∧
      Streamed pmtPid programNumber (appendStreams [esInfo.elementaryPid])
        [esInfo.elementaryPid] ptPsi table after := by
  obtain ⟨made, makes, madeHere⟩ := makeEsPid_made demux.bEnableEsPid absent
  obtain ⟨madePes, madeEntry⟩ := madeHere.entry
  obtain ⟨attached, attaches, attachedHere⟩ :=
    attachTypes_made demux.bEnableEsPid 0
      (if demux.bOnPesOut = true then esTypes esInfo else []) madeEntry
  have both := madeHere.trans attachedHere
  have other : pmtPid ≠ esInfo.elementaryPid := by
    intro same
    rw [← same, psi] at absent
    cases absent
  obtain ⟨bValid, entry⟩ := ptPsi_eq_some.mp psi
  have there : attached pmtPid = some ⟨bValid, .psi ptPsi⟩ := (both.rest pmtPid other).trans entry
  have changes := changePmt_eq programNumber (appendStreams [esInfo.elementaryPid]) there
  refine
    ⟨attached.set pmtPid (some ⟨bValid, .psi
        { ptPsi with
          pmts := changePmts programNumber (appendStreams [esInfo.elementaryPid]) ptPsi.pmts }⟩),
      ?_, ptPsi_set_psi _ _ _ _, fun place different missing => ?_,
      fun esPid member => ?_⟩
  · rw [addEsPid, makes]
    change (attachTypes _ _ _ _ _ made >>= _) = _
    rw [attaches]
    exact changes
  · rw [set_of_ne _ _ different]
    exact both.rest place fun same => missing (List.mem_singleton.mpr same)
  · rw [List.mem_singleton.mp member, ptPsi_set_of_ne _ _ other.symm]
    obtain ⟨ptPes, pes⟩ := both.entry
    exact ptPsi_of_ptPes pes

theorem appendStreams_nil (pmt : PmtTblSection) : appendStreams [] pmt = pmt := by
  rw [appendStreams]
  simp only [List.append_nil, Option.map_id']

theorem appendStreams_append (first second : List Nat) (pmt : PmtTblSection) :
    appendStreams second (appendStreams first pmt) = appendStreams (first ++ second) pmt := by
  simp only [appendStreams, Option.map_map, Function.comp_def, List.append_assoc]

theorem changePmts_id (same : ∀ pmt, change pmt = pmt) (pmts : List PmtTblSection) :
    changePmts programNumber change pmts = pmts := by
  induction pmts with
  | nil => rfl
  | cons pmt rest ih =>
    rw [changePmts, same, ih, ite_self]

theorem Streamed.nothing {pmtPid programNumber : Nat} (psi : table.ptPsi pmtPid = some ptPsi) :
    Streamed pmtPid programNumber (appendStreams []) [] ptPsi table table where
  pmt := by rw [changePmts_id appendStreams_nil, psi]
  rest := fun _ _ _ => rfl
  streams := fun _ never => absurd never List.not_mem_nil

def takenPids (count : Nat) (esInfos : List PmtEsInfo) : List Nat :=
  (esInfos.take count).map PmtEsInfo.elementaryPid

theorem addEsPids_streamed (demux : TsDemux) (programNumber : Nat)
    {pmtPid totalEsCount totalEsPidCount : Nat} {esInfos : List PmtEsInfo}
    (psi : table.ptPsi pmtPid = some ptPsi)
    (absent : ∀ esPid ∈ takenPids (totalEsCount - totalEsPidCount) esInfos,
      table.ptPsi esPid = none) :
    ∃ after,
      addEsPids (fun _ => ⟨true, fun _ => (true, true)⟩) demux pmtPid
        programNumber totalEsCount totalEsPidCount esInfos table = .ok after ∧
      Streamed pmtPid programNumber
        (appendStreams (takenPids (totalEsCount - totalEsPidCount) esInfos))
        (takenPids (totalEsCount - totalEsPidCount) esInfos) ptPsi table after := by
  induction esInfos generalizing totalEsPidCount table ptPsi with
  | nil =>
    rw [takenPids, List.take_nil, List.map_nil]
    exact ⟨table, rfl, .nothing psi⟩
  | cons esInfo rest ih =>
    rw [addEsPids]
    split
    · rename_i more
      have taken : takenPids (totalEsCount - totalEsPidCount) (esInfo :: rest) =
          esInfo.elementaryPid :: takenPids (totalEsCount - (totalEsPidCount + 1)) rest := by
        rw [takenPids, ← Nat.succ_pred_eq_of_pos (Nat.sub_pos_of_lt more),
          List.take_succ_cons, List.map_cons]
        rfl
      rw [taken] at absent ⊢
      obtain ⟨here, later⟩ := List.forall_mem_cons.mp absent
      obtain ⟨added, adds, streamed⟩ := addEsPid_streamed demux programNumber psi here
      have still : ∀ esPid ∈
          takenPids (totalEsCount - (totalEsPidCount + 1)) rest, added.ptPsi esPid = none := by
        intro esPid member
        by_cases same : esPid = esInfo.elementaryPid
        · rw [same]
          exact streamed.streams _ List.mem_cons_self
        · have other : esPid ≠ pmtPid := by
            rintro rfl
            cases psi.symm.trans (later esPid member)
          rw [ptPsi_congr (streamed.rest esPid other
            fun listed => same (List.mem_singleton.mp listed))]
          exact later esPid member
      obtain ⟨after, runs, goesOn⟩ := ih streamed.pmt still
      refine ⟨after, ?_, ?_, fun place other missing => ?_,
        List.forall_mem_cons.mpr ⟨?_, goesOn.streams⟩⟩
      · rw [adds]
        exact runs
      · rw [goesOn.pmt]
        have joined := changePmts_comp programNumber
          (appendStreams (takenPids (totalEsCount - (totalEsPidCount + 1)) rest))
          (appendStreams_number [esInfo.elementaryPid]) ptPsi.pmts
        simp only [appendStreams_append, List.singleton_append] at joined
        simp only [joined]
      · rw [List.mem_cons, not_or] at missing
        rw [goesOn.rest place other missing.2]
        exact streamed.rest place other fun listed => missing.1 (List.mem_singleton.mp listed)
      · by_cases again : esInfo.elementaryPid ∈
            takenPids (totalEsCount - (totalEsPidCount + 1)) rest
        · exact goesOn.streams _ again
        · have other : esInfo.elementaryPid ≠ pmtPid := by
            intro same
            rw [same, psi] at here
            cases here
          rw [ptPsi_congr (goesOn.rest _ other again)]
          exact streamed.streams _ List.mem_cons_self
    · rename_i done
      rw [Nat.sub_eq_zero_of_le (Nat.le_of_not_lt done), takenPids, List.take_zero, List.map_nil]
      exact ⟨table, rfl, .nothing psi⟩

/-! ## A PMT -/

def takenPmt (pmtInfo : PsiPmtInfo) (pmt : PmtTblSection) : PmtTblSection :=
  { pmt with
    versionNumber := some pmtInfo.versionNumber
    pEsPid :=
      if pmtInfo.totalEsCount = 0 then
        pmt.pEsPid
      else
        some (takenPids pmtInfo.totalEsCount pmtInfo.esInfos) }

theorem takenPmt_eq (pmtInfo : PsiPmtInfo) (pmt : PmtTblSection) :
    { appendStreams (takenPids pmtInfo.totalEsCount pmtInfo.esInfos)
        (resetEsPids true pmtInfo.totalEsCount pmt) with
      versionNumber := some pmtInfo.versionNumber } = takenPmt pmtInfo pmt := by
  rw [resetEsPids, takenPmt]
  split
  · rename_i zero
    rw [zero, takenPids, List.take_zero, List.map_nil, appendStreams_nil]
  · rw [if_pos (Or.inl rfl), appendStreams]
    rfl

theorem applyPmt_streamed {demux : TsDemux} {pmtInfo : PsiPmtInfo}
    {current : Nat × PmtTblSection} (psi : demux.ptTsPid.ptPsi current.1 = some ptPsi)
    (absent : ∀ esPid ∈ takenPids pmtInfo.totalEsCount pmtInfo.esInfos,
      demux.ptTsPid.ptPsi esPid = none) :
    ∃ after, applyPmt .all demux pmtInfo current = .ok after ∧
      Streamed current.1 pmtInfo.programNumber (takenPmt pmtInfo)
        (takenPids pmtInfo.totalEsCount pmtInfo.esInfos) ptPsi demux.ptTsPid
        after.ptTsPid := by
  obtain ⟨bValid, entry⟩ := ptPsi_eq_some.mp psi
  have resets := changePmt_eq pmtInfo.programNumber (resetEsPids true pmtInfo.totalEsCount) entry
  generalize resetIs : demux.ptTsPid.set current.1 (some ⟨bValid, .psi
    { ptPsi with
      pmts := changePmts pmtInfo.programNumber
        (resetEsPids true pmtInfo.totalEsCount) ptPsi.pmts }⟩) = reset at resets
  have resetPsi : reset.ptPsi current.1 = some
      { ptPsi with
        pmts := changePmts pmtInfo.programNumber
          (resetEsPids true pmtInfo.totalEsCount) ptPsi.pmts } := by
    rw [← resetIs, ptPsi_set_psi]
  have resetRest (place : Nat) (other : place ≠ current.1) :
      reset place = demux.ptTsPid place := by
    rw [← resetIs, set_of_ne _ _ other]
  have still : ∀ esPid ∈ takenPids (pmtInfo.totalEsCount - 0) pmtInfo.esInfos,
      reset.ptPsi esPid = none := by
    intro esPid member
    have other : esPid ≠ current.1 := by
      rintro rfl
      cases psi.symm.trans (absent _ member)
    rw [ptPsi_congr (resetRest esPid other)]
    exact absent esPid member
  obtain ⟨added, adds, streamed⟩ := addEsPids_streamed demux pmtInfo.programNumber resetPsi still
  obtain ⟨addedValid, addedEntry⟩ := ptPsi_eq_some.mp streamed.pmt
  have changes := changePmt_eq pmtInfo.programNumber
    (fun pmt => { pmt with versionNumber := some pmtInfo.versionNumber })
    addedEntry
  have keeps (pmt : PmtTblSection) :
      (resetEsPids true pmtInfo.totalEsCount pmt).programNumber = pmt.programNumber := by
    rw [resetEsPids]
    split
    · rfl
    · split <;> rfl
  have pmts : changePmts pmtInfo.programNumber
      (fun pmt => { pmt with versionNumber := some pmtInfo.versionNumber })
      (changePmts pmtInfo.programNumber
        (appendStreams (takenPids (pmtInfo.totalEsCount - 0) pmtInfo.esInfos))
        (changePmts pmtInfo.programNumber (resetEsPids true pmtInfo.totalEsCount) ptPsi.pmts)) =
      changePmts pmtInfo.programNumber (takenPmt pmtInfo) ptPsi.pmts := by
    rw [changePmts_comp _ _ (appendStreams_number _), changePmts_comp _ _ keeps]
    exact congrArg (fun change => changePmts pmtInfo.programNumber change ptPsi.pmts)
      (funext fun pmt => takenPmt_eq pmtInfo pmt)
  rw [pmts] at changes
  refine
    ⟨{ demux with
        ptTsPid := added.set current.1 (some ⟨addedValid, .psi
          { ptPsi with
            pmts := changePmts pmtInfo.programNumber (takenPmt pmtInfo) ptPsi.pmts }⟩) },
      ?_, ptPsi_set_psi _ _ _ _, fun place other missing => ?_,
      fun esPid member => ?_⟩
  · have finished : ¬(0 < pmtInfo.totalEsCount ∧
        (resetEsPids true pmtInfo.totalEsCount current.2).pEsPid = none) := by
      rintro ⟨positive, none_⟩
      rw [resetEsPids, if_neg (Nat.ne_of_gt positive), if_pos (Or.inl rfl)] at none_
      cases none_
    rw [applyPmt, PmtMemory.all, resets]
    change (if _ then _ else _) = _
    rw [if_neg finished, adds]
    change (changePmt _ _ _ added >>= _) = _
    rw [changes]
    rfl
  · change added.set current.1 _ place = _
    rw [set_of_ne _ _ other, streamed.rest place other missing]
    exact resetRest place other
  · have other : esPid ≠ current.1 := by
      rintro rfl
      cases psi.symm.trans (absent _ member)
    change (added.set current.1 _).ptPsi esPid = none
    rw [ptPsi_set_of_ne _ _ other]
    exact streamed.streams esPid member

def StreamListedBesides (table : TsPidTable) (pmtPid programNumber esPid : Nat) : Prop :=
  ∃ pid number, (pid, number) ≠ (pmtPid, programNumber) ∧ HasStream table pid number esPid

/-- What is asked of a PMT that is taken up: no stream has the PID of an entry with
PSI data, and the streams that the PMT had before are in it, too, unless there is no
entry, the upper layer has inserted it, or another PMT has it. -/
structure PmtSuits (inserted : List Nat) (table : TsPidTable) (pmtInfo : PsiPmtInfo)
    (current : Nat × PmtTblSection) : Prop where
  streams : ∀ esPid ∈ takenPids pmtInfo.totalEsCount pmtInfo.esInfos, table.ptPsi esPid = none
  kept :
    0 < pmtInfo.totalEsCount → ∀ esPid ∈ current.2.pEsPid.getD [],
      table.ptPes esPid ≠ none →
        esPid ∈ takenPids pmtInfo.totalEsCount pmtInfo.esInfos ∨
          esPid ∈ inserted ∨ StreamListedBesides table current.1 pmtInfo.programNumber esPid

theorem mem_changePmts (member : pmt ∈ changePmts programNumber change pmts) :
    pmt ∈ pmts ∨ ∃ old ∈ pmts, old.programNumber = programNumber ∧ pmt = change old := by
  induction pmts with
  | nil => exact .inl member
  | cons first rest ih =>
    rw [changePmts] at member
    split at member
    · rename_i same
      rcases List.mem_cons.mp member with rfl | later
      · exact .inr ⟨first, List.mem_cons_self, same, rfl⟩
      · exact .inl (List.mem_cons_of_mem _ later)
    · rcases List.mem_cons.mp member with rfl | later
      · exact .inl List.mem_cons_self
      · rcases ih later with here | ⟨old, present, there⟩
        · exact .inl (List.mem_cons_of_mem _ here)
        · exact .inr ⟨old, List.mem_cons_of_mem _ present, there⟩

theorem changePmts_mem_of_ne (member : pmt ∈ pmts) (other : pmt.programNumber ≠ programNumber) :
    pmt ∈ changePmts programNumber change pmts := by
  induction pmts with
  | nil => exact member
  | cons first rest ih =>
    rw [changePmts]
    split
    · rename_i same
      rcases List.mem_cons.mp member with rfl | later
      · exact absurd same other
      · exact List.mem_cons_of_mem _ later
    · rcases List.mem_cons.mp member with rfl | later
      · exact List.mem_cons_self
      · exact List.mem_cons_of_mem _ (ih later)

theorem changePmts_mem (nodup : (pmts.map PmtTblSection.programNumber).Nodup)
    (member : pmt ∈ pmts) (same : pmt.programNumber = programNumber) :
    change pmt ∈ changePmts programNumber change pmts := by
  induction pmts with
  | nil => exact absurd member List.not_mem_nil
  | cons first rest ih =>
    rw [List.map_cons, List.nodup_cons] at nodup
    rw [changePmts]
    rcases List.mem_cons.mp member with rfl | later
    · rw [if_pos same]
      exact List.mem_cons_self
    · have other : first.programNumber ≠ programNumber := fun here =>
        nodup.1 (List.mem_map.mpr ⟨pmt, later, same.trans here.symm⟩)
      rw [if_neg other]
      exact List.mem_cons_of_mem _ (ih nodup.2 later)

theorem eq_of_programNumber {first second : PmtTblSection}
    (nodup : (pmts.map PmtTblSection.programNumber).Nodup)
    (firstMember : first ∈ pmts) (secondMember : second ∈ pmts)
    (same : first.programNumber = second.programNumber) : first = second :=
  List.inj_on_of_nodup_map nodup firstMember secondMember same

theorem takenPmts_programs (pmtInfo : PsiPmtInfo) (pmts : List PmtTblSection) :
    (changePmts pmtInfo.programNumber (takenPmt pmtInfo) pmts).map
      PmtTblSection.programNumber = pmts.map PmtTblSection.programNumber := by
  have keeps (pmt : PmtTblSection) : (takenPmt pmtInfo pmt).programNumber = pmt.programNumber := rfl
  exact changePmts_programs _ keeps pmts

structure PmtResult (before after : TsPidTable) (pmtInfo : PsiPmtInfo)
    (current : Nat × PmtTblSection) (ptPsi : TsPsi) : Prop where
  dynamic : current.1 ∉ staticPids
  psi : before.ptPsi current.1 = some ptPsi
  present : current.2 ∈ ptPsi.pmts
  number : current.2.programNumber = pmtInfo.programNumber
  streamed :
    Streamed current.1 pmtInfo.programNumber (takenPmt pmtInfo)
      (takenPids pmtInfo.totalEsCount pmtInfo.esInfos) ptPsi before after

namespace PmtResult

variable {before after : TsPidTable} {pmtInfo : PsiPmtInfo}
  {current : Nat × PmtTblSection} {ptPsi : TsPsi}
  (result : PmtResult before after pmtInfo current ptPsi)
  (inv : TsInv inserted before) (fits : PmtSuits inserted before pmtInfo current)

include result fits

theorem psi_eq (other : pid ≠ current.1) : after.ptPsi pid = before.ptPsi pid := by
  by_cases taken : pid ∈ takenPids pmtInfo.totalEsCount pmtInfo.esInfos
  · rw [result.streamed.streams pid taken, fits.streams pid taken]
  · exact ptPsi_congr (result.streamed.rest pid other taken)

theorem psi_iff : after.ptPsi pid ≠ none ↔ before.ptPsi pid ≠ none := by
  by_cases same : pid = current.1
  · rw [same, result.streamed.pmt, result.psi]
    exact iff_of_true (by nofun) (by nofun)
  · rw [result.psi_eq fits same]

theorem pat_eq : after.ptPsi patPid = before.ptPsi patPid :=
  result.psi_eq fits (dynamic_ne result.dynamic).symm

theorem hasStream_cases {programNumber esPid : Nat}
    (has : HasStream after pid programNumber esPid) :
    HasStream before pid programNumber esPid ∨
      esPid ∈ takenPids pmtInfo.totalEsCount pmtInfo.esInfos := by
  obtain ⟨dynamic, changed, psi, pmt, present, number, streams⟩ := has
  by_cases same : pid = current.1
  · rw [same, result.streamed.pmt] at psi
    obtain rfl := Option.some.inj psi
    rw [same]
    rcases mem_changePmts present with here | ⟨old, member, oldNumber, rfl⟩
    · exact .inl ⟨result.dynamic, ptPsi, result.psi, pmt, here, number, streams⟩
    · by_cases zero : pmtInfo.totalEsCount = 0
      · rw [takenPmt, if_pos zero] at streams
        exact .inl ⟨result.dynamic, ptPsi, result.psi, old, member, number, streams⟩
      · rw [takenPmt, if_neg zero] at streams
        exact .inr streams
  · rw [result.psi_eq fits same] at psi
    exact .inl ⟨dynamic, changed, psi, pmt, present, number, streams⟩

theorem hasStream_of_ne {programNumber esPid : Nat} (has : HasStream before pid programNumber esPid)
    (other : (pid, programNumber) ≠ (current.1, pmtInfo.programNumber)) :
    HasStream after pid programNumber esPid := by
  obtain ⟨dynamic, old, psi, pmt, present, number, streams⟩ := has
  by_cases same : pid = current.1
  · rw [same, result.psi] at psi
    obtain rfl := Option.some.inj psi
    have different : pmt.programNumber ≠ pmtInfo.programNumber := fun here =>
      other (by rw [same, ← number, here])
    rw [same]
    exact ⟨result.dynamic, _, result.streamed.pmt, pmt,
      changePmts_mem_of_ne present different, number, streams⟩
  · rw [← result.psi_eq fits same] at psi
    exact ⟨dynamic, old, psi, pmt, present, number, streams⟩

include inv

theorem entry : PmtEntry
    { ptPsi with
      pmts := changePmts pmtInfo.programNumber (takenPmt pmtInfo) ptPsi.pmts } := by
  have old := inv.pmt current.1 ptPsi result.dynamic result.psi
  refine
    { decoder := old.decoder
      nonempty := by
        rw [takenPmts_programs]
        exact old.nonempty
      nodup := by
        rw [takenPmts_programs]
        exact old.nodup
      positive := by
        rw [takenPmts_programs]
        exact old.positive
      noPat := fun pmt member streams => ?_ }
  have has : HasStream after current.1 pmt.programNumber patPid :=
    ⟨result.dynamic, _, result.streamed.pmt, pmt, member, rfl, streams⟩
  rcases result.hasStream_cases fits has with here | taken
  · exact inv.noPat here.holds rfl
  · exact inv.pat (fits.streams patPid taken)

omit fits in
theorem hasStream_current {esPid : Nat}
    (streams : esPid ∈ (takenPmt pmtInfo current.2).pEsPid.getD []) :
    HasStream after current.1 pmtInfo.programNumber esPid := by
  have nodup := (inv.pmt current.1 ptPsi result.dynamic result.psi).nodup
  exact ⟨result.dynamic, _, result.streamed.pmt, takenPmt pmtInfo current.2,
    changePmts_mem nodup result.present result.number, result.number, streams⟩

theorem streams_listed {esPid : Nat} (pes : after.ptPes esPid ≠ none) :
    esPid ∈ inserted ∨ StreamListed after esPid := by
  by_cases taken : esPid ∈ takenPids pmtInfo.totalEsCount pmtInfo.esInfos
  · have some_ : pmtInfo.totalEsCount ≠ 0 := by
      intro zero
      rw [zero, takenPids, List.take_zero] at taken
      exact List.not_mem_nil taken
    refine .inr ⟨_, _, result.hasStream_current inv ?_⟩
    rw [takenPmt, if_neg some_]
    exact taken
  · have other : esPid ≠ current.1 := by
      rintro rfl
      obtain ⟨ptPes, entry⟩ := Option.ne_none_iff_exists'.mp pes
      cases result.streamed.pmt.symm.trans (ptPsi_of_ptPes entry)
    have there : before.ptPes esPid ≠ none := by
      rw [TsPidTable.ptPes, result.streamed.rest esPid other taken] at pes
      exact pes
    rcases inv.streams esPid there with here | ⟨pid, programNumber, has⟩
    · exact .inl here
    · by_cases same : (pid, programNumber) = (current.1, pmtInfo.programNumber)
      · obtain ⟨rfl, rfl⟩ := Prod.mk.inj same
        obtain ⟨_, old, psi, pmt, present, number, streams⟩ := has
        obtain rfl := Option.some.inj (result.psi.symm.trans psi)
        have nodup := (inv.pmt current.1 ptPsi result.dynamic result.psi).nodup
        have itself : pmt = current.2 :=
          eq_of_programNumber nodup present result.present (number.trans result.number.symm)
        rw [itself] at streams
        by_cases zero : pmtInfo.totalEsCount = 0
        · refine .inr ⟨_, _, result.hasStream_current inv ?_⟩
          rw [takenPmt, if_pos zero]
          exact streams
        · rcases fits.kept (Nat.pos_of_ne_zero zero) esPid streams there with
            again | here | ⟨otherPid, otherNumber, different, has⟩
          · exact absurd again taken
          · exact .inl here
          · exact .inr ⟨otherPid, otherNumber, result.hasStream_of_ne fits has different⟩
      · exact .inr ⟨pid, programNumber, result.hasStream_of_ne fits has same⟩

theorem inv_after : TsInv inserted after where
  pat := by
    rw [result.pat_eq fits]
    exact inv.pat
  listed := fun pid => by
    have pids : pmtPids after = pmtPids before := by rw [pmtPids, pmtPids, result.pat_eq fits]
    rw [pids, inv.listed, result.psi_iff fits]
  fixed := fun pid static_ other psi => by
    have different : pid ≠ current.1 := fun same => result.dynamic (same ▸ static_)
    rw [result.psi_eq fits different] at psi
    exact inv.fixed pid static_ other psi
  pmt := fun pid other dynamic psi => by
    by_cases same : pid = current.1
    · rw [same, result.streamed.pmt] at psi
      rw [← Option.some.inj psi]
      exact result.entry inv fits
    · rw [result.psi_eq fits same] at psi
      exact inv.pmt pid other dynamic psi
  inside := fun pid dynamic present => inv.inside pid dynamic ((result.psi_iff fits).mp present)
  aged := by
    obtain ⟨rank, bound, aged⟩ := inv.aged
    refine ⟨rank, bound, aged.pat, fun pid dynamic present =>
      aged.between pid dynamic ((result.psi_iff fits).mp present),
      fun pid programNumber esPid has dynamic present => ?_⟩
    have there := (result.psi_iff fits).mp present
    rcases result.hasStream_cases fits has with here | taken
    · exact aged.up pid programNumber esPid here dynamic there
    · exact absurd (fits.streams esPid taken) there
  streams := fun _ pes => result.streams_listed inv fits pes

end PmtResult

/-! ## Runs -/

def PatTaken (demux : TsDemux) (patInfo : PatInfo) : Prop :=
  demux.bWaitNitReady = false ∧ demux.bReceiveSdt = true ∧
    (∀ patPsi, demux.ptTsPid.ptPsi patPid = some patPsi →
      patUnchanged demux patPsi patInfo = false) ∧
    (demux.transportStreamId = none ∨ demux.transportStreamId = some patInfo.transportStreamId)

/-- A demultiplexer as the upper layer sets it up, with the PIDs it inserts. -/
def startDemux (bWaitNit bInScan bCollectEit bOnPesOut : Bool)
    (insertions : List (Nat × PesPidType)) : TsDemux :=
  { insertions.foldl (fun demux insertion =>
      demux.insertEsPid insertion.1 insertion.2) (TsDemux.init bWaitNit bInScan bCollectEit) with
    bOnPesOut := bOnPesOut }

/-- What a run that keeps to the conditions reaches: any PAT and PMT tables, and what
other tables and the upper layer do to the rest of the state. -/
inductive TsReached (insertions : List (Nat × PesPidType)) : TsDemux → Prop
  | start (bWaitNit bInScan bCollectEit bOnPesOut : Bool) :
      TsReached insertions (startDemux bWaitNit bInScan bCollectEit bOnPesOut insertions)
  | other {demux after : TsDemux} :
      TsReached insertions demux → after.ptTsPid = demux.ptTsPid →
      TsReached insertions after
  | pat {demux after : TsDemux} {answers : PatAnswers} {patInfo : PatInfo} {applied : Bool} :
      TsReached insertions demux → answers.Works →
      (PatTaken demux patInfo → PatSuits demux.ptTsPid patInfo) →
      patCallBack answers demux patInfo = .ok (after, applied) →
      TsReached insertions after
  | pmt {demux after : TsDemux} {pmtInfo : PsiPmtInfo} :
      TsReached insertions demux →
      (∀ patPsi current, demux.ptTsPid.ptPsi patPid = some patPsi →
        currentPmt demux patPsi pmtInfo = some current →
          PmtSuits (insertions.map Prod.fst) demux.ptTsPid pmtInfo current) →
      pmtCallBack .all demux pmtInfo = .ok after →
      TsReached insertions after

variable {bCollectEit : Bool} {demux : TsDemux}

theorem initTable_psi {ptPsi : TsPsi} (psi : (initTable bCollectEit).ptPsi pid = some ptPsi) :
    pid ∈ staticPids ∧ ptPsi.pPmtPid = none ∧
      ∀ programNumber, ptPsi.ptPsiDecoder ≠ some (.pmt programNumber) := by
  obtain ⟨bValid, entry⟩ := ptPsi_eq_some.mp psi
  rw [initTable] at entry
  split at entry
  · rename_i pat
    cases entry
    exact ⟨pat ▸ patPid_static, rfl, by nofun⟩
  · split at entry
    · rename_i place
      cases entry
      refine ⟨?_, rfl, by nofun⟩
      rcases place with rfl | rfl | rfl | ⟨rfl, _⟩ <;> decide
    · cases entry

/-- The table before the first PAT: static entries, and what has been inserted. -/
structure FreshTable (bCollectEit : Bool) (inserted : List Nat) (table : TsPidTable) :
    Prop where
  psi : ∀ pid, table.ptPsi pid = (initTable bCollectEit).ptPsi pid
  pes : ∀ pid, table.ptPes pid ≠ none → pid ∈ inserted

theorem initTable_pes (bCollectEit : Bool) (pid : Nat) :
    (initTable bCollectEit).ptPes pid = none := by
  rw [TsPidTable.ptPes, initTable]
  split
  · rename_i entry
    split at entry
    · cases entry
    · split at entry <;> cases entry
  · rfl

theorem insertEsPid_fresh {pid : Nat} {pesIndex : PesPidType} (member : pid ∈ inserted)
    (fresh : FreshTable bCollectEit inserted demux.ptTsPid) :
    FreshTable bCollectEit inserted (demux.insertEsPid pid pesIndex).ptTsPid := by
  rw [TsDemux.insertEsPid]
  split
  · exact fresh
  · rename_i absent
    have none_ : demux.ptTsPid.ptPsi pid = none := by rw [TsPidTable.ptPsi, absent]
    refine ⟨fun place => ?_, fun place present => ?_⟩
    · rw [← fresh.psi place]
      by_cases same : place = pid
      · rw [same, none_]
        exact ptPsi_set_pes _ _ _ _
      · exact ptPsi_set_of_ne _ _ same
    · by_cases same : place = pid
      · exact same ▸ member
      · exact fresh.pes place fun gone =>
          present ((ptPes_congr (set_of_ne _ _ same)).trans gone)

theorem startDemux_fresh (bWaitNit bInScan bCollectEit bOnPesOut : Bool)
    (insertions : List (Nat × PesPidType)) :
    FreshTable bCollectEit (insertions.map Prod.fst)
      (startDemux bWaitNit bInScan bCollectEit bOnPesOut insertions).ptTsPid := by
  have all (rest : List (Nat × PesPidType)) (demux : TsDemux)
      (listed : ∀ insertion ∈ rest, insertion.1 ∈ insertions.map Prod.fst)
      (fresh : FreshTable bCollectEit (insertions.map Prod.fst) demux.ptTsPid) :
      FreshTable bCollectEit (insertions.map Prod.fst)
        (rest.foldl (fun demux insertion =>
          demux.insertEsPid insertion.1 insertion.2) demux).ptTsPid := by
    induction rest generalizing demux with
    | nil => exact fresh
    | cons insertion rest ih =>
      obtain ⟨here, later⟩ := List.forall_mem_cons.mp listed
      exact ih _ later (insertEsPid_fresh here fresh)
  refine all insertions _ (fun insertion member =>
    List.mem_map_of_mem member) ⟨fun _ => rfl, fun pid present => ?_⟩
  exact absurd (initTable_pes bCollectEit pid) present

theorem FreshTable.inv (fresh : FreshTable bCollectEit inserted table) : TsInv inserted table := by
  have noPmt : ∀ pid, pid ∉ staticPids → table.ptPsi pid = none := by
    intro pid dynamic
    by_contra present
    obtain ⟨ptPsi, psi⟩ := Option.ne_none_iff_exists'.mp present
    rw [fresh.psi] at psi
    exact dynamic (initTable_psi psi).1
  have pat : table.ptPsi patPid ≠ none := by
    rw [fresh.psi, TsPidTable.ptPsi, initTable, if_pos rfl]
    exact Option.some_ne_none _
  refine
    { pat := pat
      listed := fun pid => ?_
      fixed := fun pid _ ptPsi psi => (initTable_psi (fresh.psi pid ▸ psi)).2.2
      pmt := fun pid ptPsi dynamic psi => ?_
      inside := fun pid dynamic present => absurd (noPmt pid dynamic) present
      aged := ⟨fun _ => 0, 1, Nat.zero_lt_one, fun pid dynamic present =>
        absurd (noPmt pid dynamic) present, fun _ _ esPid _ dynamic present =>
          absurd (noPmt esPid dynamic) present⟩
      streams := fun esPid present => .inl (fresh.pes esPid present) }
  · obtain ⟨patPsi, psi⟩ := Option.ne_none_iff_exists'.mp pat
    have none_ := (initTable_psi (fresh.psi patPid ▸ psi)).2.1
    rw [pmtPids, psi]
    change pid ∈ patPsi.pPmtPid.getD [] ↔ _
    rw [none_]
    exact iff_of_false List.not_mem_nil fun here => here.2 (noPmt pid here.1)
  · rw [noPmt pid dynamic] at psi
    cases psi

theorem patCallBack_cases {answers : PatAnswers}
    {patInfo : PatInfo} (inv : TsInv inserted demux.ptTsPid) (works : answers.Works)
    (fits : PatTaken demux patInfo → PatSuits demux.ptTsPid patInfo) :
    ∃ after applied, patCallBack answers demux patInfo = .ok (after, applied) ∧
      (applied = false ∧ after.ptTsPid = demux.ptTsPid ∨
        PatTaken demux patInfo ∧ ∃ cleaned,
          PatResult demux.ptTsPid cleaned after.ptTsPid patInfo) := by
  rw [patCallBack]
  by_cases waits : demux.bWaitNitReady = true ∨ demux.bReceiveSdt = false
  · rw [if_pos waits]
    split
    · exact ⟨_, false, rfl, .inl ⟨rfl, rfl⟩⟩
    · exact ⟨demux, false, rfl, .inl ⟨rfl, rfl⟩⟩
  · rw [if_neg waits]
    rw [not_or, Bool.not_eq_true, Bool.not_eq_false] at waits
    obtain ⟨patPsi, psi⟩ := Option.ne_none_iff_exists'.mp inv.pat
    rw [psi]
    change ∃ after applied, (if patUnchanged demux patPsi patInfo = true then _ else _) = _ ∧ _
    by_cases unchanged : patUnchanged demux patPsi patInfo = true
    · rw [if_pos unchanged]
      exact ⟨demux, false, rfl, .inl ⟨rfl, rfl⟩⟩
    · rw [if_neg unchanged]
      have new : ∀ other, demux.ptTsPid.ptPsi patPid = some other →
          patUnchanged demux other patInfo = false := by
        intro other psi'
        rw [← Option.some.inj (psi.symm.trans psi')]
        exact Bool.eq_false_of_not_eq_true unchanged
      -- The identifier of the transport stream is not looked at behind this point.
      have applies (same : TsDemux) (table : same.ptTsPid = demux.ptTsPid)
          (taken : PatTaken demux patInfo) :
          ∃ after applied, applyPat answers same patPsi patInfo = .ok (after, applied) ∧
            (applied = false ∧ after.ptTsPid = demux.ptTsPid ∨
              PatTaken demux patInfo ∧ ∃ cleaned,
                PatResult demux.ptTsPid cleaned after.ptTsPid patInfo) := by
        have here := fits taken
        obtain ⟨rank, ranked⟩ := inv.ranked
        have pids : pmtPids demux.ptTsPid = patPsi.pPmtPid.getD [] := by rw [pmtPids, psi]
        have stays : ¬Removed demux.ptTsPid patInfo.programs (patPsi.pPmtPid.getD []) patPid := by
          rintro ⟨first, dropped, reaches⟩
          rcases Relation.ReflTransGen.cases_tail reaches with same | ⟨_, _, holds⟩
          · have listed := List.mem_of_find?_eq_some dropped
            rw [← same] at listed
            exact (inv.old psi patPid listed).1 patPid_static
          · exact inv.noPat holds rfl
        rw [← table] at ranked psi stays
        have old := inv.old (table ▸ psi)
        rw [← table] at old
        obtain ⟨after, cleaned, runs, shrunk, gone, pat, rest⟩ :=
          applyPat_spec works here.count ranked psi old stays (here.dynamic patPid patPid_static)
        rw [table] at shrunk gone psi
        refine ⟨after, true, runs, .inr ⟨taken, cleaned, shrunk, ?_, ⟨patPsi, psi, pat⟩, rest⟩⟩
        rw [pids]
        exact gone
      cases identifier : demux.transportStreamId with
      | none =>
        exact applies _ rfl ⟨waits.1, waits.2, new, .inl identifier⟩
      | some transportStreamId =>
        change ∃ after applied,
          (if patInfo.transportStreamId = transportStreamId then _ else _) = _ ∧ _
        split
        · rename_i same
          exact applies demux rfl ⟨waits.1, waits.2, new, .inr (same ▸ identifier)⟩
        · exact ⟨demux, false, rfl, .inl ⟨rfl, rfl⟩⟩

theorem pmtCallBack_inv {pmtInfo : PsiPmtInfo} (inv : TsInv inserted demux.ptTsPid)
    (fits : ∀ patPsi current, demux.ptTsPid.ptPsi patPid = some patPsi →
      currentPmt demux patPsi pmtInfo = some current →
        PmtSuits inserted demux.ptTsPid pmtInfo current) :
    ∃ after, pmtCallBack .all demux pmtInfo = .ok after ∧ TsInv inserted after.ptTsPid := by
  obtain ⟨patPsi, psi⟩ := Option.ne_none_iff_exists'.mp inv.pat
  obtain ⟨bValid, entry⟩ := ptPsi_eq_some.mp psi
  rw [pmtCallBack, entry]
  cases found : currentPmt demux patPsi pmtInfo with
  | none =>
    simp only [found]
    exact ⟨demux, rfl, inv⟩
  | some current =>
    simp only [found]
    have here := fits patPsi current psi found
    obtain ⟨_, dynamic, _, ptPsi, pmtPsi, present, number⟩ :=
      declaredPmt_present (Option.filter_eq_some_iff.mp found).1
    obtain ⟨after, runs, streamed⟩ := applyPmt_streamed pmtPsi here.streams
    have result : PmtResult demux.ptTsPid after.ptTsPid pmtInfo current ptPsi :=
      ⟨dynamic, pmtPsi, present, number, streamed⟩
    exact ⟨after, runs, result.inv_after inv here⟩

theorem TsReached.inv {insertions : List (Nat × PesPidType)}
    (reached : TsReached insertions demux) :
    TsInv (insertions.map Prod.fst) demux.ptTsPid := by
  induction reached with
  | start bWaitNit bInScan bCollectEit bOnPesOut =>
    exact (startDemux_fresh bWaitNit bInScan bCollectEit bOnPesOut insertions).inv
  | other _ same ih =>
    rw [same]
    exact ih
  | pat _ works fits runs ih =>
    obtain ⟨after, applied, again, cases_⟩ := patCallBack_cases ih works fits
    cases runs.symm.trans again
    rcases cases_ with ⟨_, same⟩ | ⟨taken, cleaned, result⟩
    · rw [same]
      exact ih
    · exact result.inv_after ih (fits taken)
  | pmt _ fits runs ih =>
    obtain ⟨after, again, inv⟩ := pmtCallBack_inv ih fits
    cases runs.symm.trans again
    exact inv

def versionedPat (versionNumber : Nat) (programs : List PatProgram) : PatInfo where
  transportStreamId := 0
  versionNumber := versionNumber
  currentNextIndicator := 1
  totalProgramCount := programs.length
  programs := programs

end IteSdk.TsDemuxer
