import IteSdk.Lib.Outcome
import IteSdk.TsDemuxer.TsPidTable

/-!
# What a PMT leaves in place

A table that is taken up leaves the PSI entries alone exactly where none of its
elementary streams has the PID of one.
-/

namespace IteSdk.TsDemuxer

open Lib

variable {table : TsPidTable} {pid : Nat}

/-! ## The table -/

namespace TsPidTable

theorem set_self (table : TsPidTable) (pid : Nat) (entry : Option TsPid) :
    table.set pid entry pid = entry :=
  if_pos rfl

variable {place : Nat}

theorem set_of_ne (table : TsPidTable) (entry : Option TsPid)
    (different : place ≠ pid) : table.set pid entry place = table place :=
  if_neg different

theorem ptPsi_eq_some {ptPsi : TsPsi} :
    table.ptPsi pid = some ptPsi ↔ ∃ bValid, table pid = some ⟨bValid, .psi ptPsi⟩ := by
  rw [TsPidTable.ptPsi]
  split
  · rename_i bValid other entry
    rw [entry]
    constructor
    · intro same
      exact ⟨bValid, by rw [Option.some.inj same]⟩
    · rintro ⟨_, same⟩
      cases same
      rfl
  · rename_i never
    constructor
    · nofun
    · rintro ⟨bValid, entry⟩
      exact absurd entry (never bValid ptPsi)

theorem ptPes_eq_some {ptPes : TsPes} :
    table.ptPes pid = some ptPes ↔ ∃ bValid, table pid = some ⟨bValid, .pes ptPes⟩ := by
  rw [TsPidTable.ptPes]
  split
  · rename_i bValid other entry
    rw [entry]
    constructor
    · intro same
      exact ⟨bValid, by rw [Option.some.inj same]⟩
    · rintro ⟨_, same⟩
      cases same
      rfl
  · rename_i never
    constructor
    · nofun
    · rintro ⟨bValid, entry⟩
      exact absurd entry (never bValid ptPes)

theorem ptPsi_congr {other : TsPidTable}
    (same : other place = table place) : other.ptPsi place = table.ptPsi place := by
  rw [TsPidTable.ptPsi, TsPidTable.ptPsi, same]

theorem ptPes_congr {other : TsPidTable}
    (same : other place = table place) : other.ptPes place = table.ptPes place := by
  rw [TsPidTable.ptPes, TsPidTable.ptPes, same]

theorem ptPsi_set_of_ne (table : TsPidTable) (entry : Option TsPid) (different : place ≠ pid) :
    (table.set pid entry).ptPsi place = table.ptPsi place :=
  ptPsi_congr (table.set_of_ne entry different)

theorem ptPsi_set_none (table : TsPidTable) (pid : Nat) :
    (table.set pid none).ptPsi pid = none := by
  rw [TsPidTable.ptPsi, set_self]

theorem ptPsi_set_pes (table : TsPidTable) (pid : Nat) (bValid : Bool) (ptPes : TsPes) :
    (table.set pid (some ⟨bValid, .pes ptPes⟩)).ptPsi pid = none := by
  rw [TsPidTable.ptPsi, set_self]

theorem ptPsi_set_psi (table : TsPidTable) (pid : Nat) (bValid : Bool) (ptPsi : TsPsi) :
    (table.set pid (some ⟨bValid, .psi ptPsi⟩)).ptPsi pid = some ptPsi := by
  rw [TsPidTable.ptPsi, set_self]

theorem ptPsi_set_createPes (table : TsPidTable) (pid : Nat) (memory bPidValid : Bool) :
    (table.set pid (createPes memory bPidValid)).ptPsi pid = none := by
  rw [createPes]
  split
  · exact table.ptPsi_set_pes pid bPidValid ⟨none⟩
  · exact table.ptPsi_set_none pid

end TsPidTable

open TsPidTable

def Shrunk (before after : TsPidTable) : Prop := ∀ pid, after pid = none ∨ after pid = before pid

theorem Shrunk.refl (table : TsPidTable) : Shrunk table table := fun _ => .inr rfl

variable {before after : TsPidTable}

theorem Shrunk.set_none (shrunk : Shrunk before after) (pid : Nat) :
    Shrunk before (after.set pid none) := by
  intro place
  by_cases same : place = pid
  · rw [same, set_self]
    exact .inl rfl
  · rw [set_of_ne _ _ same]
    exact shrunk place

variable {before between after : TsPidTable} {ptPes : TsPes} {demux : TsDemux}

theorem Shrunk.trans (first : Shrunk before between) (second : Shrunk between after) :
    Shrunk before after := by
  intro pid
  rcases second pid with gone | same
  · exact .inl gone
  · rw [same]
    exact first pid

theorem destroyTsPid_shrunk (fuel : Nat) (table : TsPidTable) (pid : Nat) :
    Ends (· = .freed) (fun after => Shrunk table after ∧ after pid = none)
      (destroyTsPid fuel table pid) := by
  induction fuel generalizing table pid with
  | zero =>
    exact rfl
  | succ fuel ih =>
    rw [destroyTsPid]
    split
    · rename_i absent
      exact ⟨.refl table, absent⟩
    · rename_i tsPid _
      have cleans : Ends (· = .freed) (Shrunk table)
          ((tsPid.held pid).foldlM (destroyTsPid fuel) table) :=
        Ends.foldlM
          (fun state shrunk item _ =>
            (ih state item).mono fun after both => shrunk.trans both.1)
          (.refl table)
      refine cleans.bind fun cleaned shrunk => ?_
      exact ⟨shrunk.set_none pid, set_self _ _ _⟩

theorem destroy_pes (entry : table.ptPes pid = some ptPes) :
    destroy table pid = .ok (table.set pid none) := by
  obtain ⟨bValid, present⟩ := ptPes_eq_some.mp entry
  rw [destroy, destroyTsPid, present]
  rfl

def TsPsi.kept (self : TsPsi) : Option PsiHandler × Option Nat × Option (List Nat) × List Nat :=
  (self.ptPsiDecoder, self.versionNumber, self.pPmtPid, self.pmts.map PmtTblSection.programNumber)

/-- The PSI entries are in place with their decoders and programs, and there is no
new one. -/
def InPlace (before after : TsPidTable) : Prop :=
  ∀ pid, (after.ptPsi pid).map TsPsi.kept = (before.ptPsi pid).map TsPsi.kept

theorem InPlace.refl (table : TsPidTable) : InPlace table table := fun _ => rfl

theorem InPlace.trans (first : InPlace before between) (second : InPlace between after) :
    InPlace before after :=
  fun pid => (second pid).trans (first pid)

theorem InPlace.none_iff (inPlace : InPlace before after) (pid : Nat) :
    after.ptPsi pid = none ↔ before.ptPsi pid = none := by
  rw [← Option.map_eq_none_iff (f := TsPsi.kept), inPlace pid, Option.map_eq_none_iff]

variable {entry : Option TsPid}

theorem InPlace.set (absent : table.ptPsi pid = none)
    (other : (table.set pid entry).ptPsi pid = none) :
    InPlace table (table.set pid entry) := by
  intro place
  by_cases same : place = pid
  · rw [same, absent, other]
  · rw [ptPsi_set_of_ne _ _ same]

theorem changePmts_programs (programNumber : Nat) {change : PmtTblSection → PmtTblSection}
    (keeps : ∀ pmt, (change pmt).programNumber = pmt.programNumber) (pmts : List PmtTblSection) :
    (changePmts programNumber change pmts).map PmtTblSection.programNumber =
      pmts.map PmtTblSection.programNumber := by
  induction pmts with
  | nil => rfl
  | cons pmt rest ih =>
    rw [changePmts]
    split
    · rw [List.map_cons, List.map_cons, keeps]
    · rw [List.map_cons, List.map_cons, ih]

theorem changePmt_inPlace {pmtPid : Nat} (programNumber : Nat)
    (change : PmtTblSection → PmtTblSection)
    (keeps : ∀ pmt, (change pmt).programNumber = pmt.programNumber)
    (present : table.ptPsi pmtPid ≠ none) :
    ∃ after, changePmt pmtPid programNumber change table = .ok after ∧ InPlace table after := by
  obtain ⟨ptPsi, psi⟩ := Option.ne_none_iff_exists'.mp present
  obtain ⟨bValid, entry⟩ := ptPsi_eq_some.mp psi
  rw [changePmt, entry]
  refine ⟨_, rfl, fun place => ?_⟩
  by_cases same : place = pmtPid
  · rw [same, ptPsi_set_psi, psi]
    exact congrArg some (by rw [TsPsi.kept, TsPsi.kept, changePmts_programs programNumber keeps])
  · rw [ptPsi_set_of_ne _ _ same]

variable {esPid : Nat}

theorem makeEsPid_inPlace (memory bEnableEsPid : Bool) (absent : table.ptPsi esPid = none) :
    ∃ after, makeEsPid memory bEnableEsPid table esPid = .ok after ∧ InPlace table after := by
  rw [makeEsPid]
  split
  · exact ⟨_, rfl, .set absent (ptPsi_set_createPes _ _ _ _)⟩
  · exact ⟨table, rfl, .refl table⟩
  · rename_i bValid ptPsi entry
    rw [ptPsi_eq_some.mpr ⟨bValid, entry⟩] at absent
    cases absent

theorem freshPes_inPlace (memory bEnableEsPid : Bool) (absent : table.ptPsi esPid = none) :
    ∃ after, freshPes memory bEnableEsPid table esPid = .ok after ∧ InPlace table after := by
  rw [freshPes]
  split
  · rename_i pesIndex entry
    rw [destroy_pes entry]
    have dropped : InPlace table (table.set esPid none) := .set absent (ptPsi_set_none _ _)
    exact ⟨_, rfl, dropped.trans (.set (ptPsi_set_none _ _) (ptPsi_set_createPes _ _ _ _))⟩
  · exact ⟨table, rfl, .refl table⟩

variable {types : List PesPidType}

theorem attachTypes_inPlace {memory : Nat → Bool × Bool} {bEnableEsPid : Bool} {esPid k : Nat}
    (absent : table.ptPsi esPid = none) :
    Ends (· = .nullPointer) (InPlace table)
      (attachTypes memory bEnableEsPid esPid k types table) := by
  induction types generalizing k table with
  | nil =>
    exact .refl table
  | cons pesIndex rest ih =>
    rw [attachTypes]
    have attaches : Ends (· = .nullPointer) (InPlace table)
        (attachPes (memory k) bEnableEsPid table esPid pesIndex) := by
      obtain ⟨fresh, runs, inPlace⟩ := freshPes_inPlace (memory k).1 bEnableEsPid absent
      rw [attachPes, runs]
      dsimp only [bind, Except.bind]
      split
      · refine inPlace.trans (.set ((inPlace.none_iff esPid).mpr absent) ?_)
        exact ptPsi_set_pes _ _ _ _
      · exact rfl
    refine attaches.bind fun attached inPlace => ?_
    exact (ih ((inPlace.none_iff esPid).mpr absent)).mono fun after later => inPlace.trans later

theorem addEsPid_inPlace {memory : EsMemory}
    {pmtPid programNumber : Nat} {esInfo : PmtEsInfo} (present : table.ptPsi pmtPid ≠ none)
    (absent : table.ptPsi esInfo.elementaryPid = none) :
    Ends (· = .nullPointer) (InPlace table)
      (addEsPid memory demux pmtPid programNumber table esInfo) := by
  obtain ⟨made, makes, madeInPlace⟩ := makeEsPid_inPlace memory.tsPid demux.bEnableEsPid absent
  rw [addEsPid]
  refine Ends.bind (Ends.of_ok makes madeInPlace) fun made madeInPlace => ?_
  refine Ends.bind (attachTypes_inPlace
    ((madeInPlace.none_iff _).mpr absent)) fun attached attachedInPlace => ?_
  have inPlace := madeInPlace.trans attachedInPlace
  obtain ⟨after, changes, last⟩ :=
    changePmt_inPlace programNumber
      (fun pmt =>
        { pmt with
          pEsPid := pmt.pEsPid.map fun esPids => esPids ++ [esInfo.elementaryPid] })
      (fun _ => rfl) (fun none_ => present ((inPlace.none_iff pmtPid).mp none_))
  exact Ends.of_ok changes (inPlace.trans last)

variable {pmtPid programNumber totalEsCount totalEsPidCount : Nat} {esInfos : List PmtEsInfo}

theorem addEsPids_inPlace {memory : Nat → EsMemory} (present : table.ptPsi pmtPid ≠ none)
    (absent : ∀ esInfo ∈ esInfos.take (totalEsCount - totalEsPidCount),
      table.ptPsi esInfo.elementaryPid = none) :
    Ends (· = .nullPointer) (InPlace table)
      (addEsPids memory demux pmtPid programNumber totalEsCount totalEsPidCount esInfos table) := by
  induction esInfos generalizing totalEsPidCount table with
  | nil =>
    exact .refl table
  | cons esInfo rest ih =>
    rw [addEsPids]
    split
    · rename_i more
      rw [← Nat.succ_pred_eq_of_pos (Nat.sub_pos_of_lt more), List.take_succ_cons]
        at absent
      refine Ends.bind (addEsPid_inPlace present
        (absent esInfo List.mem_cons_self)) fun added inPlace => ?_
      have later : ∀ other ∈ rest.take (totalEsCount - (totalEsPidCount + 1)),
          added.ptPsi other.elementaryPid = none := fun other listed =>
        (inPlace.none_iff _).mpr (absent other (List.mem_cons_of_mem _ listed))
      refine (ih ?_ later).mono fun after goesOn => inPlace.trans goesOn
      exact fun none_ => present ((inPlace.none_iff pmtPid).mp none_)
    · exact .refl table

/-! ## Streams of any kind, when there is memory -/

def PmtMemory.all : PmtMemory where
  esPids := true
  streams := fun _ => ⟨true, fun _ => (true, true)⟩

def NoPsiAdded (before after : TsPidTable) : Prop :=
  ∀ pid, before.ptPsi pid = none → after.ptPsi pid = none

theorem NoPsiAdded.trans (first : NoPsiAdded before between) (second : NoPsiAdded between after) :
    NoPsiAdded before after :=
  fun pid absent => second pid (first pid absent)

theorem NoPsiAdded.set (other : (table.set pid entry).ptPsi pid = none) :
    NoPsiAdded table (table.set pid entry) := by
  intro place absent
  by_cases same : place = pid
  · rw [same, other]
  · rw [ptPsi_set_of_ne _ _ same, absent]

theorem Shrunk.noPsiAdded (shrunk : Shrunk before after) : NoPsiAdded before after := by
  intro pid absent
  rcases shrunk pid with gone | same
  · rw [TsPidTable.ptPsi, gone]
  · rw [ptPsi_congr same, absent]

theorem ptPes_set_pes (table : TsPidTable) (pid : Nat) (bValid : Bool) (ptPes : TsPes) :
    (table.set pid (some ⟨bValid, .pes ptPes⟩)).ptPes pid = some ptPes := by
  rw [TsPidTable.ptPes, set_self]

theorem ptPsi_of_ptPes (entry : table.ptPes pid = some ptPes) : table.ptPsi pid = none := by
  obtain ⟨bValid, present⟩ := ptPes_eq_some.mp entry
  rw [TsPidTable.ptPsi, present]

structure HasPes (before after : TsPidTable) (esPid : Nat) : Prop where
  added : NoPsiAdded before after
  entry : ∃ ptPes, after.ptPes esPid = some ptPes

theorem HasPes.set {before between : TsPidTable} (added : NoPsiAdded before between)
    (bValid : Bool) (ptPes : TsPes) :
    HasPes before (between.set esPid (some ⟨bValid, .pes ptPes⟩)) esPid where
  added := added.trans (.set (ptPsi_set_pes _ _ _ _))
  entry := ⟨ptPes, ptPes_set_pes _ _ _ _⟩

theorem makeEsPid_hasPes (table : TsPidTable) (bEnableEsPid : Bool) (esPid : Nat) :
    Ends (· = .freed) (fun after => HasPes table after esPid)
      (makeEsPid true bEnableEsPid table esPid) := by
  rw [makeEsPid]
  split
  · exact HasPes.set (fun _ absent => absent) bEnableEsPid ⟨none⟩
  · rename_i bValid ptPes entry
    exact
      { added := fun _ absent => absent, entry := ⟨ptPes, ptPes_eq_some.mpr ⟨bValid, entry⟩⟩ }
  · refine (destroyTsPid_shrunk _ table esPid).bind fun dropped both => ?_
    exact HasPes.set both.1.noPsiAdded bEnableEsPid ⟨none⟩

theorem attachTypes_hasPes {bEnableEsPid : Bool} {esPid k : Nat}
    (entry : table.ptPes esPid = some ptPes) :
    Ends (· = .freed) (fun after => HasPes table after esPid)
      (attachTypes (fun _ => (true, true)) bEnableEsPid esPid k types table) := by
  induction types generalizing k table ptPes with
  | nil =>
    exact ⟨fun _ absent => absent, ptPes, entry⟩
  | cons pesIndex rest ih =>
    rw [attachTypes]
    have fresh : Ends (· = .freed) (fun after => HasPes table after esPid)
        (freshPes true bEnableEsPid table esPid) := by
      rw [freshPes]
      split
      · rename_i other present
        rw [destroy_pes present]
        have dropped : NoPsiAdded table (table.set esPid none) := .set (ptPsi_set_none _ _)
        exact HasPes.set dropped bEnableEsPid ⟨none⟩
      · exact ⟨fun _ absent => absent, ptPes, entry⟩
    have attaches : Ends (· = .freed) (fun after => HasPes table after esPid)
        (attachPes (true, true) bEnableEsPid table esPid pesIndex) := by
      rw [attachPes]
      refine fresh.bind fun made hasPes => ?_
      obtain ⟨madePes, madeEntry⟩ := hasPes.entry
      obtain ⟨bValid, present⟩ := ptPes_eq_some.mp madeEntry
      rw [present]
      exact HasPes.set hasPes.added bValid _
    refine attaches.bind fun attached hasPes => ?_
    obtain ⟨_, attachedEntry⟩ := hasPes.entry
    exact (ih attachedEntry).mono fun after later => ⟨hasPes.added.trans later.added, later.entry⟩

theorem changePmt_noPsiAdded (table : TsPidTable) (pmtPid programNumber : Nat)
    (change : PmtTblSection → PmtTblSection) :
    Ends (· = .freed) (NoPsiAdded table) (changePmt pmtPid programNumber change table) := by
  rw [changePmt]
  split
  · rename_i bValid ptPsi entry
    intro place absent
    by_cases same : place = pmtPid
    · rw [same, ptPsi_eq_some.mpr ⟨bValid, entry⟩] at absent
      cases absent
    · rw [ptPsi_set_of_ne _ _ same, absent]
  · exact rfl

theorem addEsPid_noPsi (table : TsPidTable) (demux : TsDemux)
    (pmtPid programNumber : Nat) (esInfo : PmtEsInfo) :
    Ends (· = .freed)
      (fun after => NoPsiAdded table after ∧ after.ptPsi esInfo.elementaryPid = none)
      (addEsPid ⟨true, fun _ => (true, true)⟩ demux pmtPid programNumber table esInfo) := by
  rw [addEsPid]
  refine Ends.bind (makeEsPid_hasPes table _ _) fun made hasPes => ?_
  obtain ⟨_, entry⟩ := hasPes.entry
  refine Ends.bind (attachTypes_hasPes entry) fun attached attaches => ?_
  obtain ⟨_, attachedEntry⟩ := attaches.entry
  refine (changePmt_noPsiAdded attached pmtPid programNumber _).mono fun after added => ?_
  exact ⟨(hasPes.added.trans attaches.added).trans added, added _ (ptPsi_of_ptPes attachedEntry)⟩

theorem addEsPids_noPsi :
    Ends (· = .freed)
      (fun after => NoPsiAdded table after ∧
        ∀ esInfo ∈ esInfos.take (totalEsCount - totalEsPidCount),
          after.ptPsi esInfo.elementaryPid = none)
      (addEsPids (fun _ => ⟨true, fun _ => (true, true)⟩) demux pmtPid
        programNumber totalEsCount totalEsPidCount esInfos table) := by
  induction esInfos generalizing totalEsPidCount table with
  | nil =>
    refine ⟨fun _ absent => absent, ?_⟩
    rw [List.take_nil]
    exact fun _ never => absurd never List.not_mem_nil
  | cons esInfo rest ih =>
    rw [addEsPids]
    split
    · rename_i more
      rw [← Nat.succ_pred_eq_of_pos (Nat.sub_pos_of_lt more), List.take_succ_cons]
      refine (addEsPid_noPsi table demux pmtPid programNumber esInfo).bind fun added turn => ?_
      refine ih.mono fun after later => ⟨turn.1.trans later.1, ?_⟩
      rw [List.forall_mem_cons]
      exact ⟨later.1 _ turn.2, later.2⟩
    · rename_i done
      rw [Nat.sub_eq_zero_of_le (Nat.le_of_not_lt done), List.take_zero]
      exact ⟨fun _ absent => absent, fun _ never => absurd never List.not_mem_nil⟩

/-- Nothing is used after it has been freed, and the PSI entries stay in place. -/
structure PmtHarmless (demux : TsDemux) (run : Except TsStop TsDemux) : Prop where
  notFreed : run ≠ .error .freed
  inPlace : ∀ after, run = .ok after → InPlace demux.ptTsPid after.ptTsPid

variable {current : Nat × PmtTblSection}

theorem declaredPmt_present {programNumber : Nat} {pPmtPid : List Nat}
    (declared : declaredPmt table programNumber pPmtPid = some current) :
    current.1 ∈ pPmtPid ∧ current.1 ∉ staticPids ∧ programNumber ≠ 0 ∧
      ∃ ptPsi, table.ptPsi current.1 = some ptPsi ∧ current.2 ∈ ptPsi.pmts ∧
        current.2.programNumber = programNumber := by
  obtain ⟨pmtPid, listed, found⟩ := List.exists_of_findSome?_eq_some declared
  split at found
  · cases found
  · rename_i dynamic
    rw [not_or] at dynamic
    split at found
    · cases found
    · rename_i ptPsi entry
      obtain ⟨pmt, finds, rfl⟩ := Option.map_eq_some_iff.mp found
      have same : (pmt.programNumber == programNumber) = true :=
        List.find?_some (p := fun pmt : PmtTblSection => pmt.programNumber == programNumber) finds
      exact ⟨listed, dynamic.1, dynamic.2, ptPsi, entry,
        List.mem_of_find?_eq_some finds, beq_iff_eq.mp same⟩

theorem applyPmt_harmless (demux : TsDemux) (pmtInfo : PsiPmtInfo)
    (present : demux.ptTsPid.ptPsi current.1 ≠ none) :
    (∀ memory, PmtHarmless demux (applyPmt memory demux pmtInfo current)) ↔
      ∀ esInfo ∈ pmtInfo.esInfos.take pmtInfo.totalEsCount,
        demux.ptTsPid.ptPsi esInfo.elementaryPid = none := by
  have resets (memory : PmtMemory) : ∃ reset,
      changePmt current.1 pmtInfo.programNumber
        (resetEsPids memory.esPids pmtInfo.totalEsCount) demux.ptTsPid =
          .ok reset ∧ InPlace demux.ptTsPid reset := by
    refine changePmt_inPlace _ _ (fun pmt => ?_) present
    rw [resetEsPids]
    split
    · rfl
    · split <;> rfl
  constructor
  · intro harmless
    obtain ⟨reset, runs, inPlace⟩ := resets .all
    have finished : ¬(0 < pmtInfo.totalEsCount ∧
        (resetEsPids true pmtInfo.totalEsCount current.2).pEsPid = none) := by
      rintro ⟨positive, none_⟩
      rw [resetEsPids, if_neg (Nat.ne_of_gt positive), if_pos (Or.inl rfl)] at none_
      cases none_
    have ends : Ends (· = .freed)
        (fun after : TsDemux =>
          ∀ esInfo ∈ pmtInfo.esInfos.take pmtInfo.totalEsCount,
            after.ptTsPid.ptPsi esInfo.elementaryPid = none)
        (applyPmt .all demux pmtInfo current) := by
      rw [applyPmt]
      refine Ends.bind (Ends.of_ok runs inPlace) fun reset _ => ?_
      rw [PmtMemory.all, if_neg finished]
      refine Ends.bind addEsPids_noPsi fun added streams => ?_
      refine Ends.bind (changePmt_noPsiAdded added _ _ _) fun changed last => ?_
      exact fun esInfo listed => last _ (streams.2 esInfo listed)
    cases run : applyPmt .all demux pmtInfo current with
    | error stop =>
      have freed : stop = .freed := ends.error run
      rw [freed] at run
      exact absurd run (harmless .all).notFreed
    | ok after =>
      intro esInfo listed
      exact (((harmless .all).inPlace after run).none_iff _).mp (ends.ok run esInfo listed)
  · intro absent memory
    obtain ⟨reset, runs, inPlace⟩ := resets memory
    have ends : Ends (· = .nullPointer)
        (fun after : TsDemux => InPlace demux.ptTsPid after.ptTsPid)
        (applyPmt memory demux pmtInfo current) := by
      rw [applyPmt]
      refine Ends.bind (Ends.of_ok runs inPlace) fun reset inPlace => ?_
      split
      · exact inPlace
      · have streams : ∀ esInfo ∈
            pmtInfo.esInfos.take (pmtInfo.totalEsCount - 0),
              reset.ptPsi esInfo.elementaryPid = none := fun esInfo listed =>
          (inPlace.none_iff _).mpr (absent esInfo listed)
        refine Ends.bind (addEsPids_inPlace
          (fun none_ => present ((inPlace.none_iff _).mp none_)) streams)
          fun added adds => ?_
        have here := inPlace.trans adds
        obtain ⟨changed, changes, last⟩ :=
          changePmt_inPlace pmtInfo.programNumber
            (fun pmt =>
              { pmt with versionNumber := some pmtInfo.versionNumber })
            (fun _ => rfl)
            (fun none_ => present ((here.none_iff current.1).mp none_))
        exact Ends.bind (Ends.of_ok changes (here.trans last)) fun changed all => all
    exact
      { notFreed := fun freed => TsStop.noConfusion (ends.error freed)
        inPlace := fun after run => ends.ok run }

def PatAnswers.all : PatAnswers where
  pmtPids := true
  programs := fun _ => ⟨true, true, true⟩
  bReceivePat := true

def oneProgramPat : PatInfo where
  transportStreamId := 0
  versionNumber := 1
  currentNextIndicator := 1
  totalProgramCount := 1
  programs := [⟨1, 0x100⟩]

def oneStreamPmt (elementaryPid : Nat) : PsiPmtInfo where
  descriptors := []
  totalEsCount := 1
  esInfos := [⟨0x02, elementaryPid, []⟩]
  programNumber := 1
  versionNumber := 1
  currentNextIndicator := 1

end IteSdk.TsDemuxer
