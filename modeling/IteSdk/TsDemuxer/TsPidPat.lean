import IteSdk.TsDemuxer.TsPidFrame
import Mathlib.Data.List.Nodup
import Mathlib.Logic.Relation

/-!
# What `_TS_DestroyTsPid` destroys

The entries that can be reached from one over what they hold.  The calls end where
the PIDs can be ordered so that every PMT stands behind those that hold it.
-/

namespace IteSdk.TsDemuxer

section

open Lib TsPidTable

variable {table : TsPidTable} {pid : Nat}

def Holds (table : TsPidTable) (pid held : Nat) : Prop :=
  ∃ tsPid, table pid = some tsPid ∧ held ∈ tsPid.held pid

def Reaches (table : TsPidTable) : Nat → Nat → Prop := Relation.ReflTransGen (Holds table)

/-! ## Which entries -/

variable {before after : TsPidTable} {rank : Nat → Nat}

theorem Shrunk.holds (shrunk : Shrunk before after)
    {held : Nat} (holds : Holds after pid held) : Holds before pid held := by
  obtain ⟨tsPid, entry, member⟩ := holds
  rcases shrunk pid with gone | same
  · rw [gone] at entry
    cases entry
  · exact ⟨tsPid, same.symm.trans entry, member⟩

theorem Shrunk.reaches (shrunk : Shrunk before after)
    {place : Nat} (reaches : Reaches after pid place) : Reaches before pid place :=
  Relation.ReflTransGen.lift id (fun _ _ => shrunk.holds) _ _ reaches

/-- What is gone can be reached, and what it held is gone, too. -/
structure Destroyed (start : Nat → Prop) (before after : TsPidTable) : Prop where
  shrunk : Shrunk before after
  reached :
    ∀ place, before place ≠ none → after place = none →
      ∃ first, start first ∧ Reaches before first place
  closed : ∀ place held, Holds before place held → after place = none → after held = none

theorem Destroyed.refl (start : Nat → Prop) (table : TsPidTable) : Destroyed start table table where
  shrunk := .refl table
  reached := fun _ present gone => absurd gone present
  closed := by
    intro place held holds gone
    obtain ⟨tsPid, entry, _⟩ := holds
    rw [gone] at entry
    cases entry

theorem Destroyed.trans {start : Nat → Prop} {before between after : TsPidTable}
    (first : Destroyed start before between)
    (second : Destroyed start between after) : Destroyed start before after where
  shrunk := first.shrunk.trans second.shrunk
  reached := by
    intro place present gone
    by_cases there : between place = none
    · exact first.reached place present there
    · obtain ⟨begins, starts, reaches⟩ := second.reached place there gone
      exact ⟨begins, starts, first.shrunk.reaches reaches⟩
  closed := by
    intro place held holds gone
    by_cases there : between place = none
    · rcases second.shrunk held with absent | same
      · exact absent
      · rw [same]
        exact first.closed place held holds there
    · obtain ⟨tsPid, entry, member⟩ := holds
      rcases first.shrunk place with absent | same
      · exact absurd absent there
      · exact second.closed place held ⟨tsPid, same.trans entry, member⟩ gone

theorem Destroyed.imp {start other : Nat → Prop} (destroyed : Destroyed start before after)
    (reaches : ∀ first, start first → ∃ second, other second ∧
      Reaches before second first) : Destroyed other before after where
  shrunk := destroyed.shrunk
  reached := by
    intro place present gone
    obtain ⟨first, starts, further⟩ := destroyed.reached place present gone
    obtain ⟨second, begins, goes⟩ := reaches first starts
    exact ⟨second, begins, goes.trans further⟩
  closed := destroyed.closed

theorem Destroyed.last {before cleaned : TsPidTable} {tsPid : TsPid}
    (entry : before pid = some tsPid) (destroyed : Destroyed (· ∈ tsPid.held pid) before cleaned)
    (all : ∀ held ∈ tsPid.held pid, cleaned held = none) :
    Destroyed (· = pid) before (cleaned.set pid none) where
  shrunk := destroyed.shrunk.set_none pid
  reached := by
    intro place present gone
    by_cases same : place = pid
    · exact ⟨pid, rfl, same ▸ Relation.ReflTransGen.refl⟩
    · rw [set_of_ne _ _ same] at gone
      obtain ⟨first, held, reaches⟩ := destroyed.reached place present gone
      exact ⟨pid, rfl, .head ⟨tsPid, entry, held⟩ reaches⟩
  closed := by
    intro place held holds gone
    by_cases itself : held = pid
    · rw [itself, set_self]
    · rw [set_of_ne _ _ itself]
      by_cases same : place = pid
      · rw [same] at holds
        obtain ⟨other, present, member⟩ := holds
        obtain rfl := Option.some.inj (entry.symm.trans present)
        exact all held member
      · rw [set_of_ne _ _ same] at gone
        exact destroyed.closed place held holds gone

theorem foldlM_destroyed {step : TsPidTable → Nat → Except TsStop TsPidTable}
    {stop : TsStop → Prop} {pids : List Nat}
    (each : ∀ state, ∀ item ∈ pids, Ends stop
      (fun after => Destroyed (· = item) state after ∧ after item = none)
      (step state item)) (table : TsPidTable) :
    Ends stop (fun after => Destroyed (· ∈ pids) table after ∧ ∀ held ∈ pids, after held = none)
      (pids.foldlM step table) := by
  induction pids generalizing table with
  | nil =>
    exact ⟨.refl _ table, fun _ never => absurd never List.not_mem_nil⟩
  | cons item rest ih =>
    rw [List.foldlM_cons]
    refine (each table item List.mem_cons_self).bind fun state first => ?_
    refine (ih (fun state other present =>
      each state other (List.mem_cons_of_mem _ present)) state).mono fun after later => ⟨?_, ?_⟩
    · have firstHeld : Destroyed (· ∈ item :: rest) table state :=
        first.1.imp fun held same => ⟨held, same ▸ List.mem_cons_self, .refl⟩
      exact firstHeld.trans (later.1.imp fun held present =>
        ⟨held, List.mem_cons_of_mem _ present, .refl⟩)
    · rw [List.forall_mem_cons]
      refine ⟨?_, later.2⟩
      rcases later.1.shrunk item with gone | same
      · exact gone
      · exact same.trans first.2

theorem destroyTsPid_destroyed (fuel : Nat) (table : TsPidTable) (pid : Nat) :
    Ends (· = .freed) (fun after => Destroyed (· = pid) table after ∧ after pid = none)
      (destroyTsPid fuel table pid) := by
  induction fuel generalizing table pid with
  | zero =>
    exact rfl
  | succ fuel ih =>
    rw [destroyTsPid]
    split
    · rename_i absent
      exact ⟨.refl _ table, absent⟩
    · rename_i tsPid entry
      refine (foldlM_destroyed (fun state item _ =>
        ih state item) table).bind fun cleaned both => ?_
      exact ⟨.last entry both.1 both.2, set_self _ _ _⟩

theorem Destroyed.gone_iff (destroyed : Destroyed (· = pid) before after) (last : after pid = none)
    (place : Nat) : after place = none ↔ before place = none ∨ Reaches before pid place := by
  constructor
  · intro gone
    by_cases absent : before place = none
    · exact .inl absent
    · obtain ⟨first, rfl, reaches⟩ := destroyed.reached place absent gone
      exact .inr reaches
  · rintro (absent | reaches)
    · rcases destroyed.shrunk place with gone | same
      · exact gone
      · exact same.trans absent
    · induction reaches with
      | refl => exact last
      | tail _ holds ih =>
        exact destroyed.closed _ _ holds ih

structure Ranked (rank : Nat → Nat) (table : TsPidTable) : Prop where
  inside : ∀ pid held, Holds table pid held → pid < maxPidNumber
  up : ∀ pid held next, Holds table pid held → Holds table held next → rank pid < rank held

theorem Ranked.shrunk (ranked : Ranked rank before) (shrunk : Shrunk before after) :
    Ranked rank after where
  inside := fun pid held holds => ranked.inside pid held (shrunk.holds holds)
  up := fun pid held next holds further =>
    ranked.up pid held next (shrunk.holds holds) (shrunk.holds further)

theorem length_le_of_inside {stack : List Nat} (nodup : stack.Nodup)
    (inside : ∀ place ∈ stack, place < maxPidNumber) :
    stack.length ≤ maxPidNumber := by
  have bound := nodup.length_le_of_subset fun place member =>
    List.mem_range.mpr (inside place member)
  rwa [List.length_range] at bound

theorem destroyTsPid_ends {fuel : Nat} {stack : List Nat}
    (ranked : Ranked rank table) (nodup : stack.Nodup)
    (inside : ∀ place ∈ stack, place < maxPidNumber)
    (below : ∀ held, Holds table pid held → ∀ place ∈ stack, rank place < rank pid)
    (enough : fuel + stack.length = maxPidNumber + 1) :
    destroyTsPid fuel table pid ≠ .error .freed := by
  induction fuel generalizing table pid stack with
  | zero =>
    have bound := length_le_of_inside nodup inside
    omega
  | succ fuel ih =>
    rw [destroyTsPid]
    split
    · intro impossible
      cases impossible
    · rename_i tsPid entry
      have cleans : Ends (fun _ => False) (Shrunk table)
          ((tsPid.held pid).foldlM (destroyTsPid fuel) table) := by
        refine Ends.foldlM (fun state shrunk held member => ?_) (.refl table)
        have holds : Holds table pid held := ⟨tsPid, entry, member⟩
        have fresh : pid ∉ stack := fun present => Nat.lt_irrefl _ (below held holds pid present)
        have notFreed : destroyTsPid fuel state held ≠ .error .freed := by
          refine ih (ranked.shrunk shrunk) (List.nodup_cons.mpr ⟨fresh, nodup⟩) ?_ ?_ ?_
          · rw [List.forall_mem_cons]
            exact ⟨ranked.inside pid held holds, inside⟩
          · intro next further
            have step := ranked.up pid held next holds (shrunk.holds further)
            rw [List.forall_mem_cons]
            exact ⟨step, fun place present => Nat.lt_trans (below held holds place present) step⟩
          · rw [List.length_cons]
            omega
        have ends := destroyTsPid_destroyed fuel state held
        cases run : destroyTsPid fuel state held with
        | ok after => exact shrunk.trans (ends.ok run).1.shrunk
        | error stop =>
          have freed : stop = .freed := ends.error run
          rw [freed] at run
          exact notFreed run
      obtain ⟨cleaned, runs, _⟩ := cleans.value
      rw [runs]
      intro impossible
      cases impossible

theorem destroy_spec (ranked : Ranked rank table) (pid : Nat) :
    ∃ after, destroy table pid = .ok after ∧ Shrunk table after ∧
      ∀ place, after place = none ↔ table place = none ∨ Reaches table pid place := by
  have notFreed : destroy table pid ≠ .error .freed :=
    destroyTsPid_ends ranked List.nodup_nil (fun _ never => absurd never List.not_mem_nil)
      (fun _ _ _ never => absurd never List.not_mem_nil) rfl
  have ends := destroyTsPid_destroyed (maxPidNumber + 1) table pid
  cases run : destroy table pid with
  | ok after =>
    obtain ⟨destroyed, last⟩ := ends.ok run
    exact ⟨after, rfl, destroyed.shrunk, destroyed.gone_iff last⟩
  | error stop =>
    have freed : stop = .freed := ends.error run
    rw [freed] at run
    exact absurd run notFreed

end

/-!
# The table after a PAT

What `_TS_PatCallBack` makes of the entries, one PID at a time, when there is memory.
-/

section

open Lib TsPidTable

variable {table : TsPidTable} {pid : Nat}

def matchesPmt (programs : List PatProgram) (pid : Nat) (ptPsi : TsPsi) : Bool :=
  programs.any fun program =>
    program.programNumber ≠ 0 ∧ program.programMapPid = pid ∧
      program.programNumber ∈ ptPsi.pmts.map PmtTblSection.programNumber

theorem keepsPmt_psi (programs : List PatProgram) (pid : Nat) (ptPsi : TsPsi) :
    keepsPmt pid (.psi ptPsi) programs = .ok (matchesPmt programs pid ptPsi) := by
  induction programs with
  | nil => rfl
  | cons program rest ih =>
    rw [keepsPmt, matchesPmt, List.any_cons]
    split
    · rename_i zero
      rw [ih, matchesPmt, decide_eq_false, Bool.false_or]
      exact fun found => found.1 zero
    · rename_i positive
      split
      · rename_i found
        rw [decide_eq_true, Bool.true_or]
        exact ⟨positive, found⟩
      · rename_i other
        rw [ih, matchesPmt, decide_eq_false, Bool.false_or]
        exact fun found => other found.2

/-- The first old PMT entry that no program of the table matches. -/
def droppedPmt (table : TsPidTable) (programs : List PatProgram)
    (pPmtPid : List Nat) : Option Nat :=
  pPmtPid.find? fun pid =>
    match table.ptPsi pid with
    | some ptPsi => !matchesPmt programs pid ptPsi
    | none => false

def Removed (table : TsPidTable) (programs : List PatProgram) (pPmtPid : List Nat)
    (place : Nat) : Prop :=
  ∃ pid, droppedPmt table programs pPmtPid = some pid ∧ Reaches table pid place

variable {pPmtPid : List Nat} {programs : List PatProgram}

theorem cleanOldPmts_eq (old : ∀ pid ∈ pPmtPid, pid ∉ staticPids ∧ table.ptPsi pid ≠ none) :
    cleanOldPmts table programs pPmtPid = match droppedPmt table programs pPmtPid with
      | none => .ok table
      | some pid => destroy table pid := by
  induction pPmtPid with
  | nil => rfl
  | cons oldPmtPid rest ih =>
    obtain ⟨dynamic, present⟩ := old oldPmtPid List.mem_cons_self
    obtain ⟨ptPsi, psi⟩ := Option.ne_none_iff_exists'.mp present
    obtain ⟨bValid, entry⟩ := ptPsi_eq_some.mp psi
    have later := ih fun pid listed => old pid (List.mem_cons_of_mem _ listed)
    rw [cleanOldPmts, if_neg dynamic, entry]
    simp only [keepsPmt_psi]
    cases found : matchesPmt programs oldPmtPid ptPsi with
    | true =>
      have skipped : droppedPmt table programs (oldPmtPid :: rest) =
          droppedPmt table programs rest := by
        refine List.find?_cons_of_neg ?_
        simp only [psi, found]
        decide
      rw [skipped]
      exact later
    | false =>
      have here : droppedPmt table programs (oldPmtPid :: rest) = some oldPmtPid := by
        refine List.find?_cons_of_pos ?_
        simp only [psi, found]
        decide
      rw [here]
      rfl

theorem cleanOldPmts_spec {rank : Nat → Nat} (ranked : Ranked rank table)
    (old : ∀ pid ∈ pPmtPid, pid ∉ staticPids ∧ table.ptPsi pid ≠ none) :
    ∃ cleaned, cleanOldPmts table programs pPmtPid = .ok cleaned ∧ Shrunk table cleaned ∧
      ∀ place, cleaned place = none ↔
        table place = none ∨ Removed table programs pPmtPid place := by
  rw [cleanOldPmts_eq old]
  cases dropped : droppedPmt table programs pPmtPid with
  | none =>
    refine ⟨table, rfl, .refl table, fun place => ?_⟩
    refine ⟨.inl, fun gone => gone.resolve_right ?_⟩
    rintro ⟨pid, found, _⟩
    rw [dropped] at found
    cases found
  | some pid =>
    obtain ⟨after, runs, shrunk, gone⟩ := destroy_spec ranked pid
    refine ⟨after, runs, shrunk, fun place => ?_⟩
    rw [gone, Removed, dropped]
    refine or_congr_right ⟨fun reaches => ⟨pid, rfl, reaches⟩, ?_⟩
    rintro ⟨_, same, reaches⟩
    rw [Option.some.inj same]
    exact reaches

def attachEntry (entry : Option TsPid) (programNumber : Nat) : Option TsPid :=
  match entry with
  | none =>
    some ⟨true, .psi ⟨some (.pmt programNumber), none, none, [⟨programNumber, none, none⟩]⟩⟩
  | some ⟨bValid, .pes ptPes⟩ => some ⟨bValid, .pes ptPes⟩
  | some ⟨bValid, .psi ptPsi⟩ =>
    if programNumber ∈ ptPsi.pmts.map PmtTblSection.programNumber then
      some ⟨bValid, .psi ptPsi⟩
    else
      some ⟨bValid, .psi { ptPsi with pmts := ptPsi.pmts ++ [⟨programNumber, none, none⟩] }⟩

def realPrograms (programs : List PatProgram) : List PatProgram :=
  programs.filter fun program => program.programNumber ≠ 0

def programsAt (programs : List PatProgram) (pid : Nat) : List Nat :=
  ((realPrograms programs).filter fun program =>
    program.programMapPid = pid).map PatProgram.programNumber

theorem mem_programsAt {programNumber : Nat} :
    programNumber ∈ programsAt programs pid ↔
      ∃ program ∈ programs, program.programNumber = programNumber ∧
        programNumber ≠ 0 ∧ program.programMapPid = pid := by
  rw [programsAt, List.mem_map]
  constructor
  · rintro ⟨program, listed, rfl⟩
    obtain ⟨real, place⟩ := List.mem_filter.mp listed
    obtain ⟨present, positive⟩ := List.mem_filter.mp real
    exact ⟨program, present, rfl, of_decide_eq_true positive, of_decide_eq_true place⟩
  · rintro ⟨program, present, rfl, positive, place⟩
    have real : program ∈ realPrograms programs :=
      List.mem_filter.mpr ⟨present, decide_eq_true positive⟩
    exact ⟨program, List.mem_filter.mpr ⟨real, decide_eq_true place⟩, rfl⟩

theorem set_entry (table : TsPidTable) (pid : Nat) : table.set pid (table pid) = table := by
  funext place
  by_cases same : place = pid
  · rw [same, set_self]
  · rw [set_of_ne _ _ same]

theorem attachPmt_eq (table : TsPidTable) (program : PatProgram) :
    attachPmt ⟨true, true, true⟩ table program =
      .ok (table.set program.programMapPid
        (attachEntry (table program.programMapPid) program.programNumber)) := by
  rw [attachPmt]
  split
  · rename_i entry
    rw [entry]
    rfl
  · rename_i bValid ptPes entry
    rw [entry, attachEntry, ← entry, set_entry]
  · rename_i bValid ptPsi entry
    rw [entry, attachEntry]
    split
    · rw [← entry, set_entry]
    · rfl

def attached (table : TsPidTable) (programs : List PatProgram) : TsPidTable :=
  fun pid => (programsAt programs pid).foldl attachEntry (table pid)

theorem attached_cons (table : TsPidTable) {program : PatProgram}
    (positive : program.programNumber ≠ 0) (rest : List PatProgram) :
    attached (table.set program.programMapPid
        (attachEntry (table program.programMapPid) program.programNumber)) rest =
      attached table (program :: rest) := by
  funext pid
  have real : realPrograms (program :: rest) = program :: realPrograms rest :=
    List.filter_cons_of_pos (decide_eq_true positive)
  rw [attached, attached]
  by_cases same : pid = program.programMapPid
  · have first : programsAt (program :: rest) pid =
        program.programNumber :: programsAt rest pid := by
      rw [programsAt, real, List.filter_cons,
        if_pos (decide_eq_true same.symm), List.map_cons, programsAt]
    rw [first, List.foldl_cons, same, set_self]
  · have other : programsAt (program :: rest) pid = programsAt rest pid := by
      rw [programsAt, real, List.filter_cons_of_neg, programsAt]
      exact fun here => same (of_decide_eq_true here).symm
    rw [other, set_of_ne _ _ same]

theorem addPrograms_eq (table : TsPidTable) (k : Nat) {totalProgramCount : Nat}
    (fits : pPmtPid.length + programs.length ≤ totalProgramCount) :
    addPrograms (fun _ => ⟨true, true, true⟩) totalProgramCount k programs (table, pPmtPid) =
      .ok (attached table programs,
        pPmtPid ++ (realPrograms programs).map PatProgram.programMapPid) := by
  induction programs generalizing k table pPmtPid with
  | nil =>
    rw [addPrograms, realPrograms, List.filter_nil, List.map_nil, List.append_nil]
    rfl
  | cons program rest ih =>
    rw [List.length_cons] at fits
    rw [addPrograms, if_pos (by omega)]
    by_cases zero : program.programNumber = 0
    · have skipped : realPrograms (program :: rest) = realPrograms rest :=
        List.filter_cons_of_neg fun positive => of_decide_eq_true positive zero
      have same : attached table (program :: rest) = attached table rest := by
        funext pid
        rw [attached, programsAt, skipped, attached, programsAt]
      rw [if_pos zero, ih table (k + 1) (by omega), skipped, same]
    · have real : realPrograms (program :: rest) = program :: realPrograms rest :=
        List.filter_cons_of_pos (decide_eq_true zero)
      rw [if_neg zero, attachPmt_eq, real, List.map_cons]
      refine (ih _ (k + 1) ?_).trans ?_
      · rw [List.length_append, List.length_singleton]
        omega
      · rw [attached_cons table zero rest, List.append_assoc, List.singleton_append]

/-- The data of a PMT entry: what it had, and PMTs without streams. -/
structure Grown (ptPsi grown : TsPsi) (numbers : List Nat) : Prop where
  decoder : grown.ptPsiDecoder = ptPsi.ptPsiDecoder
  mem : ∀ programNumber, programNumber ∈ grown.pmts.map PmtTblSection.programNumber ↔
    programNumber ∈ ptPsi.pmts.map PmtTblSection.programNumber ∨ programNumber ∈ numbers
  nodup : (ptPsi.pmts.map PmtTblSection.programNumber).Nodup →
    (grown.pmts.map PmtTblSection.programNumber).Nodup
  old : ∀ pmt ∈ ptPsi.pmts, pmt ∈ grown.pmts
  streams : ∀ pmt ∈ grown.pmts, pmt ∈ ptPsi.pmts ∨ pmt.pEsPid = none

theorem Grown.refl (ptPsi : TsPsi) : Grown ptPsi ptPsi [] where
  decoder := rfl
  mem := fun programNumber => by rw [or_iff_left List.not_mem_nil]
  nodup := id
  old := fun _ => id
  streams := fun _ => .inl

theorem foldl_attachEntry_psi (bValid : Bool) (ptPsi : TsPsi) (numbers : List Nat) :
    ∃ grown, numbers.foldl attachEntry (some ⟨bValid, .psi ptPsi⟩) =
      some ⟨bValid, .psi grown⟩ ∧ Grown ptPsi grown numbers := by
  induction numbers generalizing ptPsi with
  | nil =>
    exact ⟨ptPsi, rfl, .refl ptPsi⟩
  | cons first rest ih =>
    rw [List.foldl_cons, attachEntry]
    split
    · rename_i known
      obtain ⟨grown, runs, grows⟩ := ih ptPsi
      refine ⟨grown, runs, grows.decoder, fun programNumber => ?_, grows.nodup,
        grows.old, grows.streams⟩
      rw [grows.mem, List.mem_cons]
      constructor
      · exact fun here => here.imp_right .inr
      · rintro (here | rfl | here)
        · exact .inl here
        · exact .inl known
        · exact .inr here
    · rename_i fresh
      obtain ⟨grown, runs, grows⟩ := ih { ptPsi with pmts := ptPsi.pmts ++ [⟨first, none, none⟩] }
      have programs :
          (ptPsi.pmts ++ [(⟨first, none, none⟩ : PmtTblSection)]).map
            PmtTblSection.programNumber =
            ptPsi.pmts.map PmtTblSection.programNumber ++ [first] :=
        List.map_append
      refine ⟨grown, runs, grows.decoder, fun programNumber => ?_,
        fun nodup => grows.nodup ?_, fun pmt present => ?_, fun pmt present => ?_⟩
      · rw [grows.mem, programs, List.mem_append, List.mem_singleton, List.mem_cons, or_assoc]
      · rw [programs]
        exact List.nodup_append.mpr ⟨nodup, List.nodup_singleton first,
          fun programNumber here other there same =>
            fresh (List.mem_singleton.mp there ▸ same ▸ here)⟩
      · exact grows.old pmt (List.mem_append_left _ present)
      · rcases grows.streams pmt present with here | none_
        · rcases List.mem_append.mp here with old | new
          · exact .inl old
          · rw [List.mem_singleton.mp new]
            exact .inr rfl
        · exact .inr none_

theorem foldl_attachEntry_pes (bValid : Bool) (ptPes : TsPes) (numbers : List Nat) :
    numbers.foldl attachEntry (some ⟨bValid, .pes ptPes⟩) = some ⟨bValid, .pes ptPes⟩ := by
  induction numbers with
  | nil => rfl
  | cons first rest ih => exact ih

theorem attached_nil (nothing : programsAt programs pid = []) :
    attached table programs pid = table pid := by
  rw [attached, nothing, List.foldl_nil]

theorem attached_none {first : Nat} {rest : List Nat}
    (absent : table pid = none) (some_ : programsAt programs pid = first :: rest) :
    ∃ grown, attached table programs pid = some ⟨true, .psi grown⟩ ∧
      Grown ⟨some (.pmt first), none, none, [⟨first, none, none⟩]⟩ grown rest := by
  rw [attached, some_, List.foldl_cons, absent]
  exact foldl_attachEntry_psi true _ rest

def PatAnswers.Works (answers : PatAnswers) : Prop :=
  answers.pmtPids = true ∧ answers.programs = fun _ => ⟨true, true, true⟩

def patApplied (patPsi : TsPsi) (patInfo : PatInfo) : TsPsi :=
  { patPsi with
    pPmtPid := some ((realPrograms patInfo.programs).map PatProgram.programMapPid)
    versionNumber := some patInfo.versionNumber }

theorem changePat_eq (change : TsPsi → TsPsi) {bValid : Bool} {ptPsi : TsPsi}
    (entry : table patPid = some ⟨bValid, .psi ptPsi⟩) :
    changePat change table = .ok (table.set patPid (some ⟨bValid, .psi (change ptPsi)⟩)) := by
  rw [changePat, entry]

theorem applyPat_spec {answers : PatAnswers} {demux : TsDemux} {patPsi : TsPsi}
    {patInfo : PatInfo} {rank : Nat → Nat} (works : answers.Works)
    (count : patInfo.totalProgramCount = patInfo.programs.length)
    (ranked : Ranked rank demux.ptTsPid) (pat : demux.ptTsPid.ptPsi patPid = some patPsi)
    (old : ∀ pid ∈ patPsi.pPmtPid.getD [], pid ∉ staticPids ∧ demux.ptTsPid.ptPsi pid ≠ none)
    (stays : ¬Removed demux.ptTsPid patInfo.programs (patPsi.pPmtPid.getD []) patPid)
    (other : programsAt patInfo.programs patPid = []) :
    ∃ after cleaned, applyPat answers demux patPsi patInfo = .ok (after, true) ∧
      Shrunk demux.ptTsPid cleaned ∧
      (∀ place, cleaned place = none ↔ demux.ptTsPid place = none ∨
        Removed demux.ptTsPid patInfo.programs (patPsi.pPmtPid.getD []) place) ∧
      after.ptTsPid.ptPsi patPid = some (patApplied patPsi patInfo) ∧
      ∀ place, place ≠ patPid → after.ptTsPid place = attached cleaned patInfo.programs place := by
  obtain ⟨cleaned, cleans, shrunk, gone⟩ := cleanOldPmts_spec ranked old
  obtain ⟨bValid, entry⟩ := ptPsi_eq_some.mp pat
  have kept : cleaned patPid = some ⟨bValid, .psi patPsi⟩ := by
    rcases shrunk patPid with absent | same
    · rcases (gone patPid).mp absent with never | removed
      · rw [entry] at never
        cases never
      · exact absurd removed stays
    · exact same.trans entry
  have emptied := changePat_eq (fun ptPsi => { ptPsi with pPmtPid := none }) kept
  generalize emptiedIs : cleaned.set patPid
    (some ⟨bValid, .psi { patPsi with pPmtPid := none }⟩) = empty at emptied
  have fits : ([] : List Nat).length + patInfo.programs.length ≤ patInfo.totalProgramCount := by
    rw [count, List.length_nil, Nat.zero_add]
  have adds := addPrograms_eq empty 0 fits
  rw [List.nil_append] at adds
  have there : attached empty patInfo.programs patPid =
      some ⟨bValid, .psi { patPsi with pPmtPid := none }⟩ := by
    rw [attached_nil other, ← emptiedIs, set_self]
  refine
    ⟨{ demux with
        ptTsPid := (attached empty patInfo.programs).set patPid
          (some ⟨bValid, .psi (patApplied patPsi patInfo)⟩)
        bReceivePat := answers.bReceivePat },
      cleaned, ?_, shrunk, gone, ?_, ?_⟩
  · rw [applyPat, cleans]
    change (changePat (fun ptPsi => { ptPsi with pPmtPid := none }) cleaned >>= _) = _
    rw [emptied]
    change (if answers.pmtPids = true then _ else _) = _
    rw [if_pos works.1, works.2, adds]
    change (changePat _ (attached empty patInfo.programs) >>= _) = _
    rw [changePat_eq _ there]
    rfl
  · exact ptPsi_set_psi _ _ _ _
  · intro place different
    change (attached empty patInfo.programs).set patPid _ place = _
    rw [set_of_ne _ _ different, attached, attached, ← emptiedIs, set_of_ne _ _ different]

end

end IteSdk.TsDemuxer
