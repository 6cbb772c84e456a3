import IteSdk.TsDemuxer.TsPidPat

/-!
# The invariant of the table

What holds of the entries between the tables, and what a PAT makes of it: the PIDs
with a PMT decoder are those of its programs, each with its program numbers, and what
has been dropped is destroyed with its elementary streams.
-/

namespace IteSdk.TsDemuxer

open Lib TsPidTable

variable {table : TsPidTable} {pid : Nat} {inserted : List Nat}

def CarriesPmt (table : TsPidTable) (pid : Nat) : Prop :=
  ∃ ptPsi programNumber, table.ptPsi pid = some ptPsi ∧
    ptPsi.ptPsiDecoder = some (.pmt programNumber)

def HasStream (table : TsPidTable) (pid programNumber esPid : Nat) : Prop :=
  pid ∉ staticPids ∧ ∃ ptPsi, table.ptPsi pid = some ptPsi ∧
    ∃ pmt ∈ ptPsi.pmts, pmt.programNumber = programNumber ∧ esPid ∈ pmt.pEsPid.getD []

def StreamListed (table : TsPidTable) (esPid : Nat) : Prop :=
  ∃ pid programNumber, HasStream table pid programNumber esPid

/-- A table has been applied: which PIDs carry a PMT decoder, with which programs, and
that nothing is left of the PMTs that were dropped.  `inserted` are the PIDs that the
upper layer has inserted itself. -/
structure PatApplied (inserted : List Nat) (before after : TsPidTable)
    (patInfo : PatInfo) : Prop where
  carries : ∀ pid, CarriesPmt after pid ↔ programsAt patInfo.programs pid ≠ []
  dynamic : ∀ pid ∈ staticPids, ¬CarriesPmt after pid
  programs :
    ∀ pid ptPsi, CarriesPmt after pid → after.ptPsi pid = some ptPsi →
      (ptPsi.pmts.map PmtTblSection.programNumber).Nodup ∧
        ∀ programNumber, programNumber ∈ ptPsi.pmts.map PmtTblSection.programNumber ↔
          programNumber ∈ programsAt patInfo.programs pid
  dropped :
    ∀ pid, CarriesPmt before pid → ¬CarriesPmt after pid →
      after pid = none ∧ ∀ programNumber esPid,
        HasStream before pid programNumber esPid → after.ptPes esPid = none
  streams : ∀ esPid, after.ptPes esPid ≠ none → esPid ∈ inserted ∨ StreamListed after esPid

/-! ## The invariant -/

structure PmtEntry (ptPsi : TsPsi) : Prop where
  decoder : ∃ programNumber, ptPsi.ptPsiDecoder = some (.pmt programNumber)
  nonempty : ptPsi.pmts.map PmtTblSection.programNumber ≠ []
  nodup : (ptPsi.pmts.map PmtTblSection.programNumber).Nodup
  positive : 0 ∉ ptPsi.pmts.map PmtTblSection.programNumber
  noPat : ∀ pmt ∈ ptPsi.pmts, patPid ∉ pmt.pEsPid.getD []

/-- `pPmtPid` of the PAT. -/
def pmtPids (table : TsPidTable) : List Nat :=
  match table.ptPsi patPid with
  | some patPsi => patPsi.pPmtPid.getD []
  | none => []

/-- Older PMT entries have smaller ranks than newer ones, also among those whose PIDs
they hold; `bound` is the rank of the next one. -/
structure Aged (rank : Nat → Nat) (bound : Nat) (table : TsPidTable) : Prop where
  pat : rank patPid < bound
  between :
    ∀ pid, pid ∉ staticPids → table.ptPsi pid ≠ none → rank patPid < rank pid ∧ rank pid < bound
  up :
    ∀ pid programNumber esPid, HasStream table pid programNumber esPid →
      esPid ∉ staticPids → table.ptPsi esPid ≠ none → rank pid < rank esPid

structure TsInv (inserted : List Nat) (table : TsPidTable) : Prop where
  pat : table.ptPsi patPid ≠ none
  listed : ∀ pid, pid ∈ pmtPids table ↔ pid ∉ staticPids ∧ table.ptPsi pid ≠ none
  fixed :
    ∀ pid ∈ staticPids, ∀ ptPsi, table.ptPsi pid = some ptPsi →
      ∀ programNumber, ptPsi.ptPsiDecoder ≠ some (.pmt programNumber)
  pmt : ∀ pid ptPsi, pid ∉ staticPids → table.ptPsi pid = some ptPsi → PmtEntry ptPsi
  inside : ∀ pid, pid ∉ staticPids → table.ptPsi pid ≠ none → pid < maxPidNumber
  aged : ∃ rank bound, Aged rank bound table
  streams : ∀ esPid, table.ptPes esPid ≠ none → esPid ∈ inserted ∨ StreamListed table esPid

theorem patPid_static : patPid ∈ staticPids := List.mem_cons_self

theorem holds_cases {held : Nat} (holds : Holds table pid held) :
    (pid = patPid ∧ held ∈ pmtPids table) ∨
      ∃ programNumber, HasStream table pid programNumber held := by
  obtain ⟨⟨bValid, content⟩, entry, member⟩ := holds
  cases content with
  | pes ptPes => exact absurd member List.not_mem_nil
  | psi ptPsi =>
    have psi := ptPsi_eq_some.mpr ⟨bValid, entry⟩
    change held ∈ ptPsi.held pid at member
    rw [TsPsi.held] at member
    split at member
    · rename_i pat
      left
      rw [pat] at psi
      rw [pmtPids, psi]
      exact ⟨pat, member⟩
    · split at member
      · exact absurd member List.not_mem_nil
      · rename_i dynamic
        obtain ⟨pmt, present, streams⟩ := List.mem_flatMap.mp member
        exact .inr ⟨pmt.programNumber, dynamic, ptPsi, psi, pmt, present, rfl, streams⟩

theorem HasStream.holds {programNumber esPid : Nat}
    (has : HasStream table pid programNumber esPid) : Holds table pid esPid := by
  obtain ⟨dynamic, ptPsi, psi, pmt, present, _, streams⟩ := has
  obtain ⟨bValid, entry⟩ := ptPsi_eq_some.mp psi
  refine ⟨_, entry, ?_⟩
  change esPid ∈ ptPsi.held pid
  have other : pid ≠ patPid := fun same => dynamic (same ▸ patPid_static)
  rw [TsPsi.held, if_neg other, if_neg dynamic]
  exact List.mem_flatMap.mpr ⟨pmt, present, streams⟩

theorem HasStream.psi {programNumber esPid : Nat}
    (has : HasStream table pid programNumber esPid) : table.ptPsi pid ≠ none := by
  obtain ⟨_, ptPsi, psi, _⟩ := has
  rw [psi]
  nofun

namespace TsInv

section

variable (inv : TsInv inserted table)

include inv

theorem noPat {held : Nat} (holds : Holds table pid held) : held ≠ patPid := by
  rintro rfl
  rcases holds_cases holds with ⟨_, member⟩ | ⟨_, dynamic, ptPsi, psi, pmt, present, _, streams⟩
  · exact ((inv.listed patPid).mp member).1 patPid_static
  · exact (inv.pmt pid ptPsi dynamic psi).noPat pmt present streams

theorem ranked : ∃ rank, Ranked rank table := by
  obtain ⟨rank, bound, aged⟩ := inv.aged
  refine ⟨rank, fun pid held holds => ?_, fun pid held next holds further => ?_⟩
  · rcases holds_cases holds with ⟨pat, _⟩ | ⟨_, has⟩
    · rw [pat]
      decide
    · exact inv.inside pid has.1 has.psi
  · have newer : held ∉ staticPids ∧ table.ptPsi held ≠ none := by
      rcases holds_cases further with ⟨pat, _⟩ | ⟨_, has⟩
      · exact absurd pat (inv.noPat holds)
      · exact ⟨has.1, has.psi⟩
    rcases holds_cases holds with ⟨pat, _⟩ | ⟨programNumber, has⟩
    · rw [pat]
      exact (aged.between held newer.1 newer.2).1
    · exact aged.up pid programNumber held has newer.1 newer.2

theorem carries_iff : CarriesPmt table pid ↔ pid ∉ staticPids ∧ table.ptPsi pid ≠ none := by
  constructor
  · rintro ⟨ptPsi, programNumber, psi, decoder⟩
    refine ⟨fun static_ => inv.fixed pid static_ ptPsi psi programNumber decoder, ?_⟩
    rw [psi]
    nofun
  · rintro ⟨dynamic, present⟩
    obtain ⟨ptPsi, psi⟩ := Option.ne_none_iff_exists'.mp present
    obtain ⟨programNumber, decoder⟩ := (inv.pmt pid ptPsi dynamic psi).decoder
    exact ⟨ptPsi, programNumber, psi, decoder⟩

theorem old {patPsi : TsPsi} (pat : table.ptPsi patPid = some patPsi) :
    ∀ pid ∈ patPsi.pPmtPid.getD [], pid ∉ staticPids ∧ table.ptPsi pid ≠ none := by
  intro pid member
  apply (inv.listed pid).mp
  rw [pmtPids, pat]
  exact member

end

end TsInv

/-! ## A PAT -/

/-- What is asked of a PAT that is taken up: its count and PIDs are right, no program
has a static PID, all PMTs that are not destroyed with the first one that is dropped
are in the table with all their programs, and no program has the PID of an elementary
stream that stays. -/
structure PatSuits (table : TsPidTable) (patInfo : PatInfo) : Prop where
  count : patInfo.totalProgramCount = patInfo.programs.length
  inside : ∀ program ∈ patInfo.programs, program.programMapPid < maxPidNumber
  dynamic : ∀ pid ∈ staticPids, programsAt patInfo.programs pid = []
  pmts :
    ∀ pid ptPsi, pid ∉ staticPids → table.ptPsi pid = some ptPsi →
      ¬Removed table patInfo.programs (pmtPids table) pid →
        ∀ programNumber ∈ ptPsi.pmts.map PmtTblSection.programNumber,
          programNumber ∈ programsAt patInfo.programs pid
  streams :
    ∀ pid, table.ptPes pid ≠ none →
      ¬Removed table patInfo.programs (pmtPids table) pid → programsAt patInfo.programs pid = []

/-- The table before a PAT, after the old entries have been cleaned, and at the end. -/
structure PatResult (before cleaned after : TsPidTable) (patInfo : PatInfo) :
    Prop where
  shrunk : Shrunk before cleaned
  gone :
    ∀ place, cleaned place = none ↔
      before place = none ∨ Removed before patInfo.programs (pmtPids before) place
  pat :
    ∃ patPsi, before.ptPsi patPid = some patPsi ∧
      after.ptPsi patPid = some (patApplied patPsi patInfo)
  rest : ∀ place, place ≠ patPid → after place = attached cleaned patInfo.programs place

theorem dynamic_ne (dynamic : pid ∉ staticPids) : pid ≠ patPid :=
  fun same => dynamic (same ▸ patPid_static)

namespace PatResult

variable {before cleaned after : TsPidTable} {patInfo : PatInfo}

theorem kept (result : PatResult before cleaned after patInfo) {tsPid : TsPid}
    (entry : cleaned pid = some tsPid) :
    before pid = some tsPid ∧ ¬Removed before patInfo.programs (pmtPids before) pid := by
  constructor
  · rcases result.shrunk pid with absent | same
    · rw [absent] at entry
      cases entry
    · exact same.symm.trans entry
  · intro removed
    rw [(result.gone pid).mpr (.inr removed)] at entry
    cases entry

theorem stays (result : PatResult before cleaned after patInfo) (present : before pid ≠ none)
    (still : ¬Removed before patInfo.programs (pmtPids before) pid) :
    cleaned pid = before pid := by
  rcases result.shrunk pid with absent | same
  · exact absurd ((result.gone pid).mp absent) (not_or.mpr ⟨present, still⟩)
  · exact same

variable {ptPsi : TsPsi} {grown : TsPsi}

section

variable (result : PatResult before cleaned after patInfo)

include result

theorem psi_kept (psi : cleaned.ptPsi pid = some ptPsi) :
    before.ptPsi pid = some ptPsi ∧ ¬Removed before patInfo.programs (pmtPids before) pid := by
  obtain ⟨bValid, entry⟩ := ptPsi_eq_some.mp psi
  obtain ⟨same, still⟩ := result.kept entry
  exact ⟨ptPsi_eq_some.mpr ⟨bValid, same⟩, still⟩

theorem pes_kept (pes : cleaned.ptPes pid ≠ none) :
    before.ptPes pid ≠ none ∧ ¬Removed before patInfo.programs (pmtPids before) pid := by
  obtain ⟨ptPes, present⟩ := Option.ne_none_iff_exists'.mp pes
  obtain ⟨bValid, entry⟩ := ptPes_eq_some.mp present
  obtain ⟨same, still⟩ := result.kept entry
  refine ⟨?_, still⟩
  rw [ptPes_eq_some.mpr ⟨bValid, same⟩]
  nofun

theorem psi_cases (other : pid ≠ patPid) (psi : after.ptPsi pid = some grown) :
    (∃ ptPsi, before.ptPsi pid = some ptPsi ∧
      ¬Removed before patInfo.programs (pmtPids before) pid ∧
        cleaned.ptPsi pid = some ptPsi ∧ Grown ptPsi grown (programsAt patInfo.programs pid)) ∨
    (cleaned pid = none ∧ ∃ first rest,
      programsAt patInfo.programs pid = first :: rest ∧
        Grown ⟨some (.pmt first), none, none, [⟨first, none, none⟩]⟩ grown rest) := by
  obtain ⟨bValid, entry⟩ := ptPsi_eq_some.mp psi
  rw [result.rest pid other] at entry
  cases there : cleaned pid with
  | none =>
    right
    cases programs : programsAt patInfo.programs pid with
    | nil =>
      rw [attached_nil programs, there] at entry
      cases entry
    | cons first rest =>
      obtain ⟨made, makes, grows⟩ := attached_none there programs
      rw [makes] at entry
      cases entry
      exact ⟨rfl, first, rest, rfl, grows⟩
  | some tsPid =>
    left
    obtain ⟨kept, still⟩ := result.kept there
    obtain ⟨oldValid, content⟩ := tsPid
    rw [attached, there] at entry
    cases content with
    | pes ptPes =>
      rw [foldl_attachEntry_pes] at entry
      cases entry
    | psi ptPsi =>
      obtain ⟨made, makes, grows⟩ := foldl_attachEntry_psi oldValid ptPsi
        (programsAt patInfo.programs pid)
      rw [makes] at entry
      cases entry
      exact ⟨ptPsi, ptPsi_eq_some.mpr ⟨bValid, kept⟩, still,
        ptPsi_eq_some.mpr ⟨bValid, there⟩, grows⟩

end

theorem grows (result : PatResult before cleaned after patInfo)
    (other : pid ≠ patPid) (psi : before.ptPsi pid = some ptPsi)
    (still : ¬Removed before patInfo.programs (pmtPids before) pid) :
    ∃ grown, after.ptPsi pid = some grown ∧
      Grown ptPsi grown (programsAt patInfo.programs pid) := by
  obtain ⟨bValid, entry⟩ := ptPsi_eq_some.mp psi
  have present : before pid ≠ none := by
    rw [entry]
    nofun
  have there := (result.stays present still).trans entry
  obtain ⟨grown, makes, grows⟩ := foldl_attachEntry_psi bValid ptPsi
    (programsAt patInfo.programs pid)
  refine ⟨grown, ptPsi_eq_some.mpr ⟨bValid, ?_⟩, grows⟩
  rw [result.rest pid other, attached, there, makes]

theorem pes_eq (result : PatResult before cleaned after patInfo)
    (other : pid ≠ patPid) : after.ptPes pid = cleaned.ptPes pid := by
  rw [TsPidTable.ptPes, TsPidTable.ptPes, result.rest pid other]
  cases there : cleaned pid with
  | none =>
    cases programs : programsAt patInfo.programs pid with
    | nil => rw [attached_nil programs, there]
    | cons first rest =>
      obtain ⟨made, makes, _⟩ := attached_none there programs
      rw [makes]
  | some tsPid =>
    obtain ⟨bValid, content⟩ := tsPid
    rw [attached, there]
    cases content with
    | pes ptPes => rw [foldl_attachEntry_pes]
    | psi ptPsi =>
      obtain ⟨made, makes, _⟩ := foldl_attachEntry_psi bValid ptPsi
        (programsAt patInfo.programs pid)
      rw [makes]

theorem pat_pes (result : PatResult before cleaned after patInfo) : after.ptPes patPid = none := by
  obtain ⟨_, _, psi⟩ := result.pat
  obtain ⟨bValid, entry⟩ := ptPsi_eq_some.mp psi
  rw [TsPidTable.ptPes, entry]

/-! ### What holds then -/

variable (result : PatResult before cleaned after patInfo)
  (inv : TsInv inserted before) (fits : PatSuits before patInfo)

include result inv fits

omit inv in
theorem programs_eq (dynamic : pid ∉ staticPids)
    (psi : after.ptPsi pid = some grown) (programNumber : Nat) :
    programNumber ∈ grown.pmts.map PmtTblSection.programNumber ↔
      programNumber ∈ programsAt patInfo.programs pid := by
  rcases result.psi_cases (dynamic_ne dynamic) psi with
    ⟨ptPsi, old, still, _, grows⟩ | ⟨_, first, rest, programs, grows⟩
  · rw [grows.mem]
    exact ⟨fun here => here.elim (fits.pmts pid ptPsi dynamic old still programNumber) id, .inr⟩
  · rw [grows.mem, programs, List.mem_cons, List.map_cons, List.map_nil, List.mem_singleton]

theorem pmtEntry (dynamic : pid ∉ staticPids)
    (psi : after.ptPsi pid = some grown) : PmtEntry grown := by
  have positive : 0 ∉ grown.pmts.map PmtTblSection.programNumber := by
    rw [result.programs_eq fits dynamic psi, mem_programsAt]
    rintro ⟨_, _, _, never, _⟩
    exact never rfl
  rcases result.psi_cases (dynamic_ne dynamic) psi with
    ⟨ptPsi, old, _, _, grows⟩ | ⟨_, first, rest, programs, grows⟩
  · have entry := inv.pmt pid ptPsi dynamic old
    obtain ⟨programNumber, decoder⟩ := entry.decoder
    obtain ⟨number, member⟩ := List.exists_mem_of_ne_nil _ entry.nonempty
    refine
      { decoder := ⟨programNumber, grows.decoder.trans decoder⟩
        nonempty := List.ne_nil_of_mem ((grows.mem number).mpr (.inl member))
        nodup := grows.nodup entry.nodup
        positive := positive
        noPat := fun pmt present => ?_ }
    rcases grows.streams pmt present with here | none_
    · exact entry.noPat pmt here
    · rw [none_]
      exact List.not_mem_nil
  · refine
      { decoder := ⟨first, grows.decoder⟩
        nonempty := List.ne_nil_of_mem ((grows.mem first).mpr (.inl List.mem_cons_self))
        nodup := grows.nodup (List.nodup_singleton first)
        positive := positive
        noPat := fun pmt present => ?_ }
    rcases grows.streams pmt present with here | none_
    · rw [List.mem_singleton.mp here]
      exact List.not_mem_nil
    · rw [none_]
      exact List.not_mem_nil

theorem psi_iff (dynamic : pid ∉ staticPids) :
    after.ptPsi pid ≠ none ↔ programsAt patInfo.programs pid ≠ [] := by
  constructor
  · intro present
    obtain ⟨grown, psi⟩ := Option.ne_none_iff_exists'.mp present
    obtain ⟨number, member⟩ := List.exists_mem_of_ne_nil _
      (result.pmtEntry inv fits dynamic psi).nonempty
    exact List.ne_nil_of_mem ((result.programs_eq fits dynamic psi number).mp member)
  · intro some_
    have other := dynamic_ne dynamic
    cases there : cleaned pid with
    | none =>
      obtain ⟨first, rest, programs⟩ := List.exists_cons_of_ne_nil some_
      obtain ⟨made, makes, _⟩ := attached_none there programs
      have psi : after.ptPsi pid = some made :=
        ptPsi_eq_some.mpr ⟨true, (result.rest pid other).trans makes⟩
      rw [psi]
      nofun
    | some tsPid =>
      obtain ⟨kept, still⟩ := result.kept there
      obtain ⟨bValid, content⟩ := tsPid
      cases content with
      | pes ptPes =>
        refine absurd (fits.streams pid ?_ still) some_
        rw [ptPes_eq_some.mpr ⟨bValid, kept⟩]
        nofun
      | psi ptPsi =>
        obtain ⟨grown, psi, _⟩ := result.grows other (ptPsi_eq_some.mpr ⟨bValid, kept⟩) still
        rw [psi]
        nofun

theorem fixed (static_ : pid ∈ staticPids)
    (psi : after.ptPsi pid = some ptPsi) (programNumber : Nat) :
    ptPsi.ptPsiDecoder ≠ some (.pmt programNumber) := by
  by_cases pat : pid = patPid
  · obtain ⟨patPsi, old, new⟩ := result.pat
    rw [pat, new] at psi
    rw [← Option.some.inj psi]
    exact inv.fixed patPid patPid_static patPsi old programNumber
  · rcases result.psi_cases pat psi with
      ⟨old, before_, _, _, grows⟩ | ⟨_, first, rest, programs, _⟩
    · rw [grows.decoder]
      exact inv.fixed pid static_ old before_ programNumber
    · rw [fits.dynamic pid static_] at programs
      cases programs

theorem listed : pid ∈ pmtPids after ↔ pid ∉ staticPids ∧ after.ptPsi pid ≠ none := by
  have member : pid ∈ pmtPids after ↔ programsAt patInfo.programs pid ≠ [] := by
    obtain ⟨patPsi, _, new⟩ := result.pat
    rw [pmtPids, new]
    change pid ∈ (realPrograms patInfo.programs).map PatProgram.programMapPid ↔ _
    rw [List.mem_map]
    constructor
    · rintro ⟨program, real, place⟩
      obtain ⟨present, positive⟩ := List.mem_filter.mp real
      exact List.ne_nil_of_mem (mem_programsAt.mpr
        ⟨program, present, rfl, of_decide_eq_true positive, place⟩)
    · intro some_
      obtain ⟨number, here⟩ := List.exists_mem_of_ne_nil _ some_
      obtain ⟨program, present, rfl, positive, place⟩ := mem_programsAt.mp here
      exact ⟨program, List.mem_filter.mpr ⟨present, decide_eq_true positive⟩, place⟩
  rw [member]
  constructor
  · intro some_
    have dynamic : pid ∉ staticPids := fun static_ => some_ (fits.dynamic pid static_)
    exact ⟨dynamic, (result.psi_iff inv fits dynamic).mpr some_⟩
  · exact fun here => (result.psi_iff inv fits here.1).mp here.2

omit inv fits in
theorem hasStream_kept {programNumber esPid : Nat} (has : HasStream after pid programNumber esPid) :
    HasStream before pid programNumber esPid ∧ cleaned.ptPsi pid ≠ none := by
  obtain ⟨dynamic, grown, psi, pmt, present, number, streams⟩ := has
  have some_ : pmt.pEsPid ≠ none := by
    intro none_
    rw [none_] at streams
    exact List.not_mem_nil streams
  rcases result.psi_cases (dynamic_ne dynamic) psi with
    ⟨ptPsi, old, _, there, grows⟩ | ⟨_, first, rest, _, grows⟩
  · have here := (grows.streams pmt present).resolve_right some_
    refine ⟨⟨dynamic, ptPsi, old, pmt, here, number, streams⟩, ?_⟩
    rw [there]
    nofun
  · have here := (grows.streams pmt present).resolve_right some_
    rw [List.mem_singleton.mp here] at some_
    exact absurd rfl some_

omit fits in
theorem streams_listed {esPid : Nat} (pes : after.ptPes esPid ≠ none) :
    esPid ∈ inserted ∨ StreamListed after esPid := by
  have other : esPid ≠ patPid := by
    rintro rfl
    exact pes result.pat_pes
  rw [result.pes_eq other] at pes
  obtain ⟨old, still⟩ := result.pes_kept pes
  refine (inv.streams esPid old).imp_right ?_
  rintro ⟨pid, programNumber, has⟩
  have holds := has.holds
  obtain ⟨dynamic, ptPsi, psi, pmt, present, number, streams⟩ := has
  have here : ¬Removed before patInfo.programs (pmtPids before) pid := by
    rintro ⟨first, dropped, reaches⟩
    exact still ⟨first, dropped, reaches.tail holds⟩
  obtain ⟨grown, after_, grows⟩ := result.grows (dynamic_ne dynamic) psi here
  exact ⟨pid, programNumber, dynamic, grown, after_, pmt, grows.old pmt present, number, streams⟩

omit inv fits in
theorem aged_psi {rank : Nat → Nat} {bound : Nat} (aged : Aged rank bound before)
    (dynamic : pid ∉ staticPids) (present : cleaned.ptPsi pid ≠ none) :
    rank patPid < rank pid ∧ rank pid < bound := by
  obtain ⟨ptPsi, psi⟩ := Option.ne_none_iff_exists'.mp present
  refine aged.between pid dynamic ?_
  rw [(result.psi_kept psi).1]
  nofun

omit fits in
theorem aged : ∃ rank bound, Aged rank bound after := by
  obtain ⟨rank, bound, aged⟩ := inv.aged
  refine ⟨fun pid => if pid = patPid ∨ (cleaned.ptPsi pid).isSome = true then
    rank pid else bound, bound + 1, ?_, fun pid dynamic _ => ?_,
    fun pid programNumber esPid has dynamic _ => ?_⟩
  · change (if _ then _ else _) < _
    rw [if_pos (Or.inl rfl)]
    exact Nat.lt_succ_of_lt aged.pat
  · have other := dynamic_ne dynamic
    change (if _ then _ else _) < (if _ then _ else _) ∧ (if _ then _ else _) < _
    rw [if_pos (Or.inl rfl)]
    by_cases there : (cleaned.ptPsi pid).isSome = true
    · have here := result.aged_psi aged dynamic (Option.isSome_iff_ne_none.mp there)
      rw [if_pos (Or.inr there)]
      exact ⟨here.1, Nat.lt_succ_of_lt here.2⟩
    · rw [if_neg (not_or.mpr ⟨other, there⟩)]
      exact ⟨aged.pat, Nat.lt_succ_self bound⟩
  · obtain ⟨old, there⟩ := result.hasStream_kept has
    have some_ : (cleaned.ptPsi pid).isSome = true := Option.isSome_iff_ne_none.mpr there
    change (if _ then _ else _) < (if _ then _ else _)
    rw [if_pos (Or.inr some_)]
    by_cases held : (cleaned.ptPsi esPid).isSome = true
    · rw [if_pos (Or.inr held)]
      refine aged.up pid programNumber esPid old dynamic ?_
      obtain ⟨ptPsi, psi⟩ := Option.isSome_iff_exists.mp held
      rw [(result.psi_kept psi).1]
      nofun
    · rw [if_neg (not_or.mpr ⟨dynamic_ne dynamic, held⟩)]
      exact (result.aged_psi aged has.1 there).2

theorem inv_after : TsInv inserted after where
  pat := by
    obtain ⟨_, _, new⟩ := result.pat
    rw [new]
    nofun
  listed := fun _ => result.listed inv fits
  fixed := fun _ static_ _ psi => result.fixed inv fits static_ psi
  pmt := fun _ _ dynamic psi => result.pmtEntry inv fits dynamic psi
  inside := fun pid dynamic present => by
    obtain ⟨number, here⟩ := List.exists_mem_of_ne_nil _
      ((result.psi_iff inv fits dynamic).mp present)
    obtain ⟨program, member, _, _, place⟩ := mem_programsAt.mp here
    rw [← place]
    exact fits.inside program member
  aged := result.aged inv
  streams := fun _ pes => result.streams_listed inv pes

theorem applied : PatApplied inserted before after patInfo := by
  have now := result.inv_after inv fits
  have carries (pid : Nat) : CarriesPmt after pid ↔ programsAt patInfo.programs pid ≠ [] := by
    rw [now.carries_iff]
    constructor
    · exact fun here => (result.psi_iff inv fits here.1).mp here.2
    · intro some_
      have dynamic : pid ∉ staticPids := fun static_ => some_ (fits.dynamic pid static_)
      exact ⟨dynamic, (result.psi_iff inv fits dynamic).mpr some_⟩
  refine
    { carries := carries
      dynamic := fun pid static_ here => (now.carries_iff.mp here).1 static_
      programs := fun pid ptPsi here psi => ?_
      dropped := fun pid here gone => ?_
      streams := now.streams }
  · have dynamic := (now.carries_iff.mp here).1
    exact ⟨(now.pmt pid ptPsi dynamic psi).nodup, result.programs_eq fits dynamic psi⟩
  · obtain ⟨dynamic, present⟩ := inv.carries_iff.mp here
    have nothing : programsAt patInfo.programs pid = [] :=
      not_not.mp fun some_ => gone ((carries pid).mpr some_)
    have removed : Removed before patInfo.programs (pmtPids before) pid := by
      by_contra still
      obtain ⟨ptPsi, psi⟩ := Option.ne_none_iff_exists'.mp present
      obtain ⟨number, member⟩ := List.exists_mem_of_ne_nil _
        (inv.pmt pid ptPsi dynamic psi).nonempty
      have listed := fits.pmts pid ptPsi dynamic psi still number member
      rw [nothing] at listed
      exact List.not_mem_nil listed
    refine ⟨?_, fun programNumber esPid has => ?_⟩
    · rw [result.rest pid (dynamic_ne dynamic), attached_nil nothing]
      exact (result.gone pid).mpr (.inr removed)
    · have other : esPid ≠ patPid := inv.noPat has.holds
      obtain ⟨first, dropped, reaches⟩ := removed
      have absent : cleaned esPid = none :=
        (result.gone esPid).mpr (.inr ⟨first, dropped, reaches.tail has.holds⟩)
      rw [result.pes_eq other, TsPidTable.ptPes, absent]

end PatResult

end IteSdk.TsDemuxer
