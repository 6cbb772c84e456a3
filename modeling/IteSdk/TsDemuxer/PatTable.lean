import IteSdk.Lib.KeyedList
import IteSdk.TsDemuxer.PsiSectionKit
import Mathlib.Data.List.GetD

/-!
# The PAT decoder

`_PAT_GatherSection`, `_PAT_DecodeSection` and `_PAT_InsertSection` of
`psi_table_pat.c`.  The linked lists are lists.  A section that is received has a
number that stands for its address, and the order in which sections are freed is
kept.
-/

namespace IteSdk.TsDemuxer

section

open Lib

def patTableId : Nat := 0

/-- `PSI_PAT_PROGRAM`. -/
structure PatProgram where
  programNumber : Nat
  programMapPid : Nat
  deriving DecidableEq

/-- `PSI_PAT_INFO`. -/
structure PatInfo where
  transportStreamId : Nat
  versionNumber : Nat
  currentNextIndicator : Nat
  totalProgramCount : Nat
  programs : List PatProgram
  deriving DecidableEq

structure ReceivedSection where
  address : Nat
  section_ : PsiSection

def ReceivedSection.number (self : ReceivedSection) : Nat := self.section_.sectionNumber

/-- Whether there is memory for a table, and for a program. -/
structure PatEnv where
  infoAlloc : Nat → Bool
  programAlloc : Nat → Bool

/-- `PSI_PAT_DECODER`.  The fields from `received` on are not in the source: what has
been received and freed, the tables that the callback got with the sections they
were made of, and how often memory was asked for. -/
structure PatDecoder where
  ptBuildingPat : Option PatInfo
  lastSectionNumber : Nat
  totalSectionCount : Nat
  sections : List ReceivedSection
  pfCallback : Bool
  received : Nat
  freed : List Nat
  called : List (PatInfo × List PsiSection)
  infoAllocs : Nat
  programAllocs : Nat

/-- `psiTablePAT_AttachDecoder`. -/
def PatDecoder.attach (pfCallback : Bool) : PatDecoder where
  ptBuildingPat := none
  lastSectionNumber := 0
  totalSectionCount := 0
  sections := []
  pfCallback := pfCallback
  received := 0
  freed := []
  called := []
  infoAllocs := 0
  programAllocs := 0

/-- The bytes from `pPayloadStartAddress` to `pPayloadEndAddress`. -/
def PsiSection.payload (self : PsiSection) : List UInt8 :=
  (List.range (self.payloadEnd - self.payloadStart).toNat).map
    fun i => self.byte (self.payloadStart + i)

def PatInfo.addProgram (self : PatInfo) (program : PatProgram) : PatInfo :=
  { self with
    programs := self.programs ++ [program]
    totalProgramCount := if self.programs = [] then 1 else self.totalProgramCount + 1 }

/-- The programs of one section, and whether there was memory for them. -/
def decodePrograms (env : PatEnv) : List UInt8 → PatInfo × Nat → (PatInfo × Nat) × Bool
  | first :: second :: third :: fourth :: rest, (patInfo, programAllocs) =>
    if env.programAlloc programAllocs = true then
      decodePrograms env rest
        (patInfo.addProgram
          { programNumber := first.toNat * 256 + second.toNat
            programMapPid := third.toNat % 32 * 256 + fourth.toNat },
          programAllocs + 1)
    else
      ((patInfo, programAllocs + 1), false)
  | _, state => (state, true)

def patDecodeSection (env : PatEnv) : List PsiSection → PatInfo × Nat → PatInfo × Nat
  | [], state => state
  | section_ :: rest, state =>
    match decodePrograms env section_.payload state with
    | (after, true) => patDecodeSection env rest after
    | (after, false) => after

/-! ## Gathering -/

def PatDecoder.inconsistent (self : PatDecoder) (section_ : PsiSection) : Bool :=
  match self.ptBuildingPat with
  | none => false
  | some patInfo =>
    patInfo.transportStreamId != section_.tableIdExtension ||
      patInfo.versionNumber != section_.versionNumber ||
        self.lastSectionNumber != section_.lastSectionNumber

def PatDecoder.reInit (self : PatDecoder) : PatDecoder :=
  match self.ptBuildingPat with
  | none => self
  | some _ =>
    { self with
      ptBuildingPat := none
      sections := []
      totalSectionCount := 0
      freed := self.freed ++ self.sections.map ReceivedSection.address }

def PatDecoder.beginTable (self : PatDecoder) (env : PatEnv) (section_ : PsiSection) : PatDecoder :=
  match self.ptBuildingPat with
  | some _ => self
  | none =>
    if env.infoAlloc self.infoAllocs = true then
      { self with
        ptBuildingPat :=
          some
            { transportStreamId := section_.tableIdExtension
              versionNumber := section_.versionNumber
              currentNextIndicator := section_.currentNextIndicator
              totalProgramCount := 0
              programs := [] }
        lastSectionNumber := section_.lastSectionNumber
        infoAllocs := self.infoAllocs + 1 }
    else
      { self with infoAllocs := self.infoAllocs + 1 }

/-- `_PAT_InsertSection`. -/
def PatDecoder.insertSection (self : PatDecoder) (section_ : ReceivedSection) : PatDecoder :=
  match self.sections with
  | [] =>
    { self with
      sections := [section_]
      totalSectionCount := 1 }
  | first :: rest =>
    match insertKeyed ReceivedSection.number section_ (first :: rest) with
    | (sections, none) =>
      { self with
        sections := sections
        totalSectionCount := self.totalSectionCount + 1 }
    | (sections, some old) =>
      { self with
        sections := sections
        freed := self.freed ++ [old.address] }

/-- A table is decoded and handed over when it is complete. -/
def PatDecoder.endTable (self : PatDecoder) (env : PatEnv) : PatDecoder :=
  match self.ptBuildingPat with
  | none => self
  | some patInfo =>
    if self.totalSectionCount = self.lastSectionNumber + 1 then
      match patDecodeSection env (self.sections.map ReceivedSection.section_)
          (patInfo, self.programAllocs) with
      | (decoded, programAllocs) =>
        { self with
          ptBuildingPat := none
          sections := []
          totalSectionCount := 0
          freed := self.freed ++ self.sections.map ReceivedSection.address
          called :=
            if self.pfCallback = true then
              self.called ++ [(decoded, self.sections.map ReceivedSection.section_)]
            else
              self.called
          programAllocs := programAllocs }
    else
      self

def PatDecoder.appendSection (self : PatDecoder) (env : PatEnv)
    (section_ : PsiSection) : PatDecoder :=
  (PatDecoder.insertSection ({ self with received := self.received + 1 }.beginTable env section_)
    { address := self.received, section_ := section_ }).endTable env

def PsiSection.isPat (self : PsiSection) : Bool :=
  self.tableId == patTableId && self.sectionSyntaxIndicator == 1

/-- `_PAT_GatherSection`, with the `bDiscontinuity` of the PSI decoder. -/
def patGatherSection (env : PatEnv) (ptPatDecoder : PatDecoder)
    (bDiscontinuity : Bool) (section_ : PsiSection) : PatDecoder × Bool :=
  if section_.isPat = true then
    if (bDiscontinuity || ptPatDecoder.inconsistent section_) = true then
      (ptPatDecoder.reInit.appendSection env section_, false)
    else
      (ptPatDecoder.appendSection env section_, false)
  else
    ({ ptPatDecoder with
        received := ptPatDecoder.received + 1
        freed := ptPatDecoder.freed ++ [ptPatDecoder.received] },
      bDiscontinuity)

/-- A run: before each section, the PSI decoder may have seen a discontinuity. -/
def patRun (env : PatEnv) : PatDecoder × Bool → List (Bool × PsiSection) → PatDecoder × Bool
  | state, [] => state
  | state, (broken, section_) :: rest =>
    patRun env (patGatherSection env state.1 (state.2 || broken) section_) rest

/-- `psiTablePAT_DetachDecoder`: what is left is freed. -/
def PatDecoder.detach (self : PatDecoder) : PatDecoder :=
  { self with
    ptBuildingPat := none
    sections := []
    freed := self.freed ++ self.sections.map ReceivedSection.address }

end

/-!
# The tables of a PAT decoder

The sections that are gathered stay sorted and counted, and every section that is
received is freed once.  A table is handed over when there are as many sections as
it should have; that they are the right ones is only so where no section has a
number behind the last one.
-/

section

open Lib

variable {env : PatEnv} {section_ : PsiSection} {history : List PsiSection}

def payloadPrograms (payload : List UInt8) : List PatProgram :=
  (List.range (payload.length / 4)).map fun i =>
    { programNumber :=
        (payload.getD (4 * i) 0).toNat * 256 + (payload.getD (4 * i + 1) 0).toNat
      programMapPid :=
        (payload.getD (4 * i + 2) 0).toNat % 32 * 256 + (payload.getD (4 * i + 3) 0).toNat }

theorem payloadPrograms_cons (first second third fourth : UInt8) (rest : List UInt8) :
    payloadPrograms (first :: second :: third :: fourth :: rest) =
      { programNumber := first.toNat * 256 + second.toNat
        programMapPid := third.toNat % 32 * 256 + fourth.toNat } ::
        payloadPrograms rest := by
  have count : (first :: second :: third :: fourth :: rest).length / 4 = rest.length / 4 + 1 := by
    simp only [List.length_cons]
    omega
  rw [payloadPrograms, count, List.range_succ_eq_map, List.map_cons, List.map_map, payloadPrograms]
  rfl

def PatInfo.Counted (self : PatInfo) : Prop := self.totalProgramCount = self.programs.length

theorem addProgram_counted {patInfo : PatInfo} (counted : patInfo.Counted)
    (program : PatProgram) : (patInfo.addProgram program).Counted := by
  rw [PatInfo.Counted] at counted
  rw [PatInfo.Counted, PatInfo.addProgram, List.length_append, ← counted, List.length_singleton]
  split
  · rename_i empty
    rw [empty] at counted
    rw [counted]
    rfl
  · rfl

structure Extends (patInfo after : PatInfo) (programs : List PatProgram) :
    Prop where
  transportStreamId : after.transportStreamId = patInfo.transportStreamId
  versionNumber : after.versionNumber = patInfo.versionNumber
  programs : after.programs = patInfo.programs ++ programs
  counted : patInfo.Counted → after.Counted

theorem Extends.trans {first second third : PatInfo}
    {before after : List PatProgram} (begins : Extends first second before)
    (ends : Extends second third after) :
    Extends first third (before ++ after) where
  transportStreamId := ends.transportStreamId.trans begins.transportStreamId
  versionNumber := ends.versionNumber.trans begins.versionNumber
  programs := by rw [ends.programs, begins.programs, List.append_assoc]
  counted := fun counted => ends.counted (begins.counted counted)

theorem decodePrograms_extends (memory : ∀ n, env.programAlloc n = true)
    (payload : List UInt8) (patInfo : PatInfo) (programAllocs : Nat) :
    ∃ after count, decodePrograms env payload (patInfo, programAllocs) = ((after, count), true) ∧
      Extends patInfo after (payloadPrograms payload) := by
  generalize stateEq : (patInfo, programAllocs) = state
  fun_induction decodePrograms env payload state generalizing patInfo programAllocs with
  | case1 first second third fourth rest patInfo' programAllocs' _ ih =>
      obtain ⟨rfl, rfl⟩ := Prod.mk.inj stateEq
      obtain ⟨after, count, decodes, extends_⟩ := ih _ _ rfl
      refine ⟨after, count, decodes, ?_⟩
      rw [payloadPrograms_cons, ← List.singleton_append]
      have here : Extends patInfo
          (patInfo.addProgram
            { programNumber := first.toNat * 256 + second.toNat
              programMapPid := third.toNat % 32 * 256 + fourth.toNat })
          [{ programNumber := first.toNat * 256 + second.toNat
             programMapPid := third.toNat % 32 * 256 + fourth.toNat }] :=
        ⟨rfl, rfl, rfl, fun counted => addProgram_counted counted _⟩
      exact here.trans extends_
  | case2 first second third fourth rest patInfo' programAllocs' fails =>
    exact absurd (memory _) fails
  | case3 payload state short =>
    subst stateEq
    refine ⟨patInfo, programAllocs, rfl, rfl, rfl, ?_, id⟩
    have few : payload.length / 4 = 0 := by
      by_contra many
      obtain ⟨first, second, third, fourth, rest, rfl⟩ :
          ∃ first second third fourth rest,
            payload = first :: second :: third :: fourth :: rest := by
        rcases payload with _ | ⟨first, _ | ⟨second, _ | ⟨third, _ | ⟨fourth, rest⟩⟩⟩⟩
        · exact absurd rfl many
        · simp at many
        · simp at many
        · simp at many
        · exact ⟨first, second, third, fourth, rest, rfl⟩
      exact short first second third fourth rest patInfo programAllocs rfl rfl
    rw [payloadPrograms, few, List.range_zero, List.map_nil, List.append_nil]

theorem patDecodeSection_extends (memory : ∀ n, env.programAlloc n = true)
    (sections : List PsiSection) (patInfo : PatInfo) (programAllocs : Nat) :
    Extends patInfo (patDecodeSection env sections (patInfo, programAllocs)).1
      (sections.flatMap fun section_ => payloadPrograms section_.payload) := by
  induction sections generalizing patInfo programAllocs with
  | nil =>
    exact ⟨rfl, rfl, (List.append_nil _).symm, id⟩
  | cons section_ rest ih =>
    obtain ⟨after, count, decodes, extends_⟩ :=
      decodePrograms_extends memory section_.payload patInfo programAllocs
    rw [patDecodeSection, decodes, List.flatMap_cons]
    exact extends_.trans (ih after count)

/-- What a run keeps: the gathered sections are sorted and counted, and every section
that was received is there or freed, once. -/
structure PatKept (ptPatDecoder : PatDecoder) (history : List PsiSection) : Prop where
  sorted : KeySorted ReceivedSection.number ptPatDecoder.sections
  counted : ptPatDecoder.totalSectionCount = ptPatDecoder.sections.length
  received : ptPatDecoder.received = history.length
  known : ∀ gathered ∈ ptPatDecoder.sections, history[gathered.address]? = some gathered.section_
  once :
    (ptPatDecoder.freed ++ ptPatDecoder.sections.map ReceivedSection.address).Perm
      (List.range ptPatDecoder.received)

theorem attach_kept (pfCallback : Bool) : PatKept (.attach pfCallback) [] :=
  ⟨List.Pairwise.nil, rfl, rfl, by nofun, List.Perm.refl _⟩

variable {self : PatDecoder}

theorem reInit_kept (kept : PatKept self history) : PatKept self.reInit history := by
  rw [PatDecoder.reInit]
  cases self.ptBuildingPat with
  | none => exact kept
  | some patInfo =>
    refine ⟨List.Pairwise.nil, rfl, kept.received, by nofun, ?_⟩
    rw [List.map_nil, List.append_nil]
    exact kept.once

theorem beginTable_list (self : PatDecoder) (env : PatEnv) (section_ : PsiSection) :
    (self.beginTable env section_).sections = self.sections ∧
      (self.beginTable env section_).totalSectionCount = self.totalSectionCount ∧
      (self.beginTable env section_).received = self.received ∧
      (self.beginTable env section_).freed = self.freed ∧
      (self.beginTable env section_).called = self.called := by
  rw [PatDecoder.beginTable]
  cases self.ptBuildingPat with
  | some patInfo => exact ⟨rfl, rfl, rfl, rfl, rfl⟩
  | none =>
    dsimp only
    split
    · exact ⟨rfl, rfl, rfl, rfl, rfl⟩
    · exact ⟨rfl, rfl, rfl, rfl, rfl⟩

theorem insertSection_eq
    (counted : self.totalSectionCount = self.sections.length) (section_ : ReceivedSection) :
    self.insertSection section_ =
      { self with
        sections := (insertKeyed ReceivedSection.number section_ self.sections).1
        totalSectionCount := (insertKeyed ReceivedSection.number section_ self.sections).1.length
        freed :=
          self.freed ++
            (insertKeyed ReceivedSection.number section_
              self.sections).2.toList.map ReceivedSection.address } := by
  have length := length_insertKeyed ReceivedSection.number section_ self.sections
  rw [PatDecoder.insertSection]
  cases sections : self.sections with
  | nil =>
    rw [insertKeyed, Option.toList_none, List.map_nil, List.append_nil]
    rfl
  | cons first rest =>
    rw [sections] at length counted
    dsimp only
    cases inserted : insertKeyed ReceivedSection.number section_ (first :: rest) with
    | mk list replaced =>
      rw [inserted] at length
      cases replaced with
      | none =>
        rw [if_pos rfl, ← counted] at length
        rw [Option.toList_none, List.map_nil, List.append_nil]
        dsimp only at length ⊢
        rw [length]
      | some old =>
        rw [if_neg (Option.some_ne_none old), ← counted] at length
        dsimp only at length ⊢
        rw [length]
        rfl

theorem insertSection_kept (env : PatEnv) (section_ : PsiSection) (kept : PatKept self history) :
    PatKept
      (PatDecoder.insertSection
        ({ self with received := self.received + 1 }.beginTable env section_)
        { address := self.received, section_ := section_ })
      (history ++ [section_]) := by
  obtain ⟨sections, total, count, freed, _⟩ :=
    beginTable_list { self with received := self.received + 1 } env section_
  generalize { self with received := self.received + 1 }.beginTable env
    section_ = begun at sections total count freed
  have counted : begun.totalSectionCount = begun.sections.length := by
    rw [total, sections]
    exact kept.counted
  rw [insertSection_eq counted, sections]
  generalize newEq : ({ address := self.received, section_ := section_ } : ReceivedSection) = new
  have perm := insertKeyed_perm ReceivedSection.number new self.sections
  refine ⟨kept.sorted.insertKeyed, rfl, ?_, fun gathered member => ?_, ?_⟩
  · rw [List.length_append, List.length_singleton, ← kept.received]
    exact count
  · rcases mem_of_mem_insertKeyed member with rfl | before
    · subst newEq
      dsimp only
      rw [kept.received, List.getElem?_concat_length]
    · have here := kept.known gathered before
      have inside := (List.getElem?_eq_some_iff.mp here).1
      rw [List.getElem?_append_left inside]
      exact here
  · dsimp only
    rw [freed, count, List.range_succ, List.append_assoc, ← List.map_append]
    have swapped := (List.perm_append_comm.trans perm).map ReceivedSection.address
    refine (swapped.append_left self.freed).trans ?_
    rw [List.map_cons]
    refine List.perm_middle.trans ?_
    refine (kept.once.cons _).trans ?_
    subst newEq
    exact (List.perm_append_singleton _ _).symm

theorem endTable_kept (env : PatEnv) (kept : PatKept self history) :
    PatKept (self.endTable env) history := by
  rw [PatDecoder.endTable]
  cases self.ptBuildingPat with
  | none => exact kept
  | some patInfo =>
    dsimp only
    split
    · refine ⟨List.Pairwise.nil, rfl, kept.received, by nofun, ?_⟩
      rw [List.map_nil, List.append_nil]
      exact kept.once
    · exact kept

theorem appendSection_kept (kept : PatKept self history) :
    PatKept (self.appendSection env section_) (history ++ [section_]) :=
  endTable_kept env (insertSection_kept env section_ kept)

theorem patGatherSection_kept (env : PatEnv) (section_ : PsiSection)
    (kept : PatKept self history) (bDiscontinuity : Bool) :
    PatKept (patGatherSection env self bDiscontinuity section_).1 (history ++ [section_]) := by
  rw [patGatherSection]
  split
  · split
    · exact appendSection_kept (reInit_kept kept)
    · exact appendSection_kept kept
  · refine ⟨kept.sorted, kept.counted, ?_, fun gathered member => ?_, ?_⟩
    · rw [List.length_append, List.length_singleton, ← kept.received]
    · have here := kept.known gathered member
      have inside := (List.getElem?_eq_some_iff.mp here).1
      rw [List.getElem?_append_left inside]
      exact here
    · dsimp only
      rw [List.range_succ, List.append_assoc, List.singleton_append]
      refine List.perm_middle.trans ((kept.once.cons _).trans ?_)
      exact (List.perm_append_singleton _ _).symm

/-! ## Tables -/

/-- What a table is identified by: `transport_stream_id`, `version_number` and
`last_section_number`. -/
def patKey (section_ : PsiSection) : Nat × Nat × Nat :=
  (section_.tableIdExtension, section_.versionNumber, section_.lastSectionNumber)

/-- A table that is made of the right sections of a history. -/
structure MadeOf (history : List PsiSection) (patInfo : PatInfo)
    (sections : List PsiSection) : Prop where
  received : ∀ section_ ∈ sections, section_ ∈ history ∧ section_.isPat = true
  key :
    ∃ lastSectionNumber,
      sections.map PsiSection.sectionNumber = List.range (lastSectionNumber + 1) ∧
        ∀ section_ ∈ sections, patKey section_ =
          (patInfo.transportStreamId, patInfo.versionNumber, lastSectionNumber)
  programs : patInfo.programs = sections.flatMap fun section_ => payloadPrograms section_.payload
  counted : patInfo.Counted

/-- The sections that are gathered belong to one table, and to the building one. -/
structure PatUniform (ptPatDecoder : PatDecoder) (history : List PsiSection) :
    Prop where
  kept : PatKept ptPatDecoder history
  isPat : ∀ gathered ∈ ptPatDecoder.sections, gathered.section_.isPat = true
  bounded :
    ∀ gathered ∈ ptPatDecoder.sections, gathered.number ≤ gathered.section_.lastSectionNumber
  building :
    ∀ patInfo, ptPatDecoder.ptBuildingPat = some patInfo →
      patInfo.programs = [] ∧ patInfo.Counted ∧
        ∀ gathered ∈ ptPatDecoder.sections,
          patKey gathered.section_ =
            (patInfo.transportStreamId, patInfo.versionNumber, ptPatDecoder.lastSectionNumber)
  called : ∀ call ∈ ptPatDecoder.called, MadeOf history call.1 call.2

theorem MadeOf.more {patInfo : PatInfo} {sections : List PsiSection}
    (made : MadeOf history patInfo sections) (section_ : PsiSection) :
    MadeOf (history ++ [section_]) patInfo sections where
  received := fun other member =>
    ⟨List.mem_append_left _ (made.received other member).1, (made.received other member).2⟩
  key := made.key
  programs := made.programs
  counted := made.counted

/-- A section that a table decoder may take up: its number is not behind the last
one, and it is begun with it only where nothing else has been gathered. -/
def PatFits (ptPatDecoder : PatDecoder) (section_ : PsiSection) : Prop :=
  section_.sectionNumber ≤ section_.lastSectionNumber ∧
    (ptPatDecoder.ptBuildingPat = none →
      ∀ gathered ∈ ptPatDecoder.sections, patKey gathered.section_ = patKey section_)

theorem endTable_uniform
    (memory : ∀ n, env.programAlloc n = true) (uniform : PatUniform self history) :
    PatUniform (self.endTable env) history := by
  have kept := endTable_kept env uniform.kept
  rw [PatDecoder.endTable] at kept ⊢
  cases building : self.ptBuildingPat with
  | none => exact uniform
  | some patInfo =>
    rw [building] at kept
    obtain ⟨empty, counted, keys⟩ := uniform.building patInfo building
    dsimp only at kept ⊢
    split
    · rename_i complete
      rw [if_pos complete] at kept
      refine ⟨kept, by nofun, by nofun, by nofun, fun call member => ?_⟩
      have before (member : call ∈ self.called) :
          MadeOf history call.1 call.2 :=
        uniform.called call member
      dsimp only at member
      split at member
      · rcases List.mem_append.mp member with earlier | here
        · exact before earlier
        · rw [List.mem_singleton.mp here]
          have extends_ := patDecodeSection_extends memory
            (self.sections.map ReceivedSection.section_) patInfo
            self.programAllocs
          refine ⟨fun section_ inside => ?_,
            ⟨self.lastSectionNumber, ?_, fun section_ inside => ?_⟩, ?_,
            extends_.counted counted⟩
          · obtain ⟨gathered, listed, rfl⟩ := List.mem_map.mp inside
            exact ⟨List.mem_of_getElem? (uniform.kept.known gathered listed),
              uniform.isPat gathered listed⟩
          · rw [List.map_map]
            refine uniform.kept.sorted.map_eq_range (fun gathered listed => ?_)
              (uniform.kept.counted.symm.trans complete)
            have last : gathered.section_.lastSectionNumber = self.lastSectionNumber :=
              congrArg (fun key => key.2.2) (keys gathered listed)
            have small := uniform.bounded gathered listed
            omega
          · obtain ⟨gathered, listed, rfl⟩ := List.mem_map.mp inside
            dsimp only
            rw [extends_.transportStreamId, extends_.versionNumber]
            exact keys gathered listed
          · rw [extends_.programs, empty, List.nil_append]
      · exact before member
    · exact uniform

theorem reInit_uniform (uniform : PatUniform self history) : PatUniform self.reInit history := by
  have kept := reInit_kept uniform.kept
  rw [PatDecoder.reInit] at kept ⊢
  cases building : self.ptBuildingPat with
  | none => exact uniform
  | some patInfo =>
    rw [building] at kept
    exact ⟨kept, by nofun, by nofun, by nofun, uniform.called⟩

theorem beginTable_building (env : PatEnv)
    (uniform : PatUniform self history) (fits : PatFits self section_)
    (consistent : self.inconsistent section_ = false) (patInfo : PatInfo)
    (building :
      ({ self with received := self.received + 1 }.beginTable env
        section_).ptBuildingPat = some patInfo) :
    patInfo.programs = [] ∧ patInfo.Counted ∧
      (patInfo.transportStreamId, patInfo.versionNumber,
        ({ self with received := self.received + 1 }.beginTable env
          section_).lastSectionNumber) = patKey section_ ∧
      ∀ gathered ∈ self.sections, patKey gathered.section_ = patKey section_ := by
  rw [PatDecoder.beginTable] at building ⊢
  dsimp only at building ⊢
  cases before : self.ptBuildingPat with
  | some old =>
    rw [before] at building
    dsimp only at building ⊢
    obtain rfl := Option.some.inj building
    obtain ⟨empty, counted, keys⟩ := uniform.building old before
    rw [PatDecoder.inconsistent, before] at consistent
    simp only [Bool.or_eq_false_iff, bne_eq_false_iff_eq] at consistent
    have same : (old.transportStreamId, old.versionNumber,
        self.lastSectionNumber) = patKey section_ := by
      rw [consistent.1.1, consistent.1.2, consistent.2]
      rfl
    exact ⟨empty, counted, same, fun gathered listed => (keys gathered listed).trans same⟩
  | none =>
    rw [before] at building
    dsimp only at building ⊢
    split at building
    · rename_i memory
      rw [if_pos memory]
      obtain rfl := Option.some.inj building
      exact ⟨rfl, rfl, rfl, fits.2 before⟩
    · cases building

theorem appendSection_uniform (memory : ∀ n, env.programAlloc n = true)
    (uniform : PatUniform self history) (isPat : section_.isPat = true)
    (fits : PatFits self section_) (consistent : self.inconsistent section_ = false) :
    PatUniform (self.appendSection env section_) (history ++ [section_]) := by
  refine endTable_uniform memory ?_
  have kept := insertSection_kept env section_ uniform.kept
  have begins := beginTable_building env uniform fits consistent
  obtain ⟨sections, total, _, _, called⟩ :=
    beginTable_list { self with received := self.received + 1 } env section_
  generalize { self with received := self.received + 1 }.beginTable env
    section_ = begun at sections total called kept begins
  have counted : begun.totalSectionCount = begun.sections.length := by
    rw [total, sections]
    exact uniform.kept.counted
  rw [insertSection_eq counted, sections] at kept ⊢
  refine ⟨kept, fun gathered member => ?_, fun gathered member => ?_,
    fun patInfo building => ?_, fun call member => ?_⟩
  · rcases mem_of_mem_insertKeyed member with rfl | before
    · exact isPat
    · exact uniform.isPat gathered before
  · rcases mem_of_mem_insertKeyed member with rfl | before
    · exact fits.1
    · exact uniform.bounded gathered before
  · obtain ⟨empty, programs, key, keys⟩ := begins patInfo building
    refine ⟨empty, programs, fun gathered member => ?_⟩
    refine Eq.trans ?_ key.symm
    rcases mem_of_mem_insertKeyed member with rfl | before
    · rfl
    · exact keys gathered before
  · dsimp only at member
    rw [called] at member
    exact (uniform.called call member).more section_

theorem reInit_consistent (self : PatDecoder) (section_ : PsiSection) :
    self.reInit.inconsistent section_ = false := by
  rw [PatDecoder.reInit]
  cases building : self.ptBuildingPat with
  | none =>
    dsimp only
    rw [PatDecoder.inconsistent, building]
  | some patInfo => rfl

theorem reInit_fits (fits : PatFits self section_) : PatFits self.reInit section_ := by
  refine ⟨fits.1, ?_⟩
  rw [PatDecoder.reInit]
  cases building : self.ptBuildingPat with
  | none => exact fun _ => fits.2 building
  | some patInfo => exact fun _ => by nofun

theorem patGatherSection_uniform (memory : ∀ n, env.programAlloc n = true)
    (uniform : PatUniform self history) (bDiscontinuity : Bool)
    (fits : section_.isPat = true → PatFits self section_) :
    PatUniform (patGatherSection env self bDiscontinuity section_).1 (history ++ [section_]) := by
  have kept := patGatherSection_kept env section_ uniform.kept bDiscontinuity
  rw [patGatherSection] at kept ⊢
  split
  · rename_i isPat
    split
    · exact appendSection_uniform memory (reInit_uniform uniform) isPat
        (reInit_fits (fits isPat)) (reInit_consistent self section_)
    · rename_i consistent
      have agrees := (Bool.or_eq_false_iff.mp (Bool.not_eq_true _ ▸ consistent)).2
      exact appendSection_uniform memory uniform isPat (fits isPat) agrees
  · rename_i other
    rw [if_neg other] at kept
    exact ⟨kept, uniform.isPat, uniform.bounded, uniform.building,
      fun call member => (uniform.called call member).more section_⟩

def PatFitsRun (env : PatEnv) : PatDecoder × Bool → List (Bool × PsiSection) → Prop
  | _, [] => True
  | state, (broken, section_) :: rest =>
    (section_.isPat = true → PatFits state.1 section_) ∧
      PatFitsRun env (patGatherSection env state.1 (state.2 || broken) section_) rest

variable {state : PatDecoder × Bool} {events : List (Bool × PsiSection)}

theorem patRun_kept (kept : PatKept state.1 history) :
    PatKept (patRun env state events).1 (history ++ events.map Prod.snd) := by
  induction events generalizing state history with
  | nil =>
    rw [List.map_nil, List.append_nil]
    exact kept
  | cons event rest ih =>
    rw [patRun, List.map_cons, ← List.singleton_append, ← List.append_assoc]
    exact ih (patGatherSection_kept env _ kept _)

theorem patRun_uniform (memory : ∀ n, env.programAlloc n = true)
    (uniform : PatUniform state.1 history) (fits : PatFitsRun env state events) :
    PatUniform (patRun env state events).1 (history ++ events.map Prod.snd) := by
  induction events generalizing state history with
  | nil =>
    rw [List.map_nil, List.append_nil]
    exact uniform
  | cons event rest ih =>
    obtain ⟨here, later⟩ := fits
    rw [patRun, List.map_cons, ← List.singleton_append, ← List.append_assoc]
    exact ih (patGatherSection_uniform memory uniform _ here) later

/-- The sections that are gathered stay sorted and counted, and each section that is
received is freed once.  Where all sections fit, a table that is handed over is made
of the sections up to the last one, in their order. -/
theorem patRun_tables (env : PatEnv) (pfCallback : Bool)
    (events : List (Bool × PsiSection)) :
    let start := (PatDecoder.attach pfCallback, true)
    let after := (patRun env start events).1
    KeySorted ReceivedSection.number after.sections ∧
      after.totalSectionCount = after.sections.length ∧
      (after.freed ++ after.sections.map ReceivedSection.address).Perm (List.range events.length) ∧
      after.detach.freed.Perm (List.range events.length) ∧
      ((∀ n, env.programAlloc n = true) → PatFitsRun env start events →
        ∀ call ∈ after.called, MadeOf (events.map Prod.snd) call.1 call.2) := by
  intro start after
  have kept : PatKept after ([] ++ events.map Prod.snd) := patRun_kept (attach_kept pfCallback)
  rw [List.nil_append] at kept
  have once := kept.once
  rw [kept.received, List.length_map] at once
  refine ⟨kept.sorted, kept.counted, once, once, fun memory fits => ?_⟩
  have begins : PatUniform start.1 [] :=
    ⟨attach_kept pfCallback, by nofun, by nofun, by nofun, by nofun⟩
  exact (patRun_uniform memory begins fits).called

/-- A section with one program, in a table with one section. -/
def wholePatBytes : List UInt8 :=
  [0x00, 0xB0, 0x0D, 0x00, 0x01, 0xC1, 0x00, 0x00, 0x00, 0x01, 0xE1, 0x00, 0xE8, 0xF9, 0x5E, 0x7D]

/-- The same, with 5 for `section_number`. -/
def strayPatBytes : List UInt8 :=
  [0x00, 0xB0, 0x0D, 0x00, 0x01, 0xC1, 0x05, 0x00, 0x00, 0x01, 0xE1, 0x00, 0x9F, 0x71, 0x66, 0xE5]

def patAfter (section_ : PsiSection) : PatDecoder :=
  (patRun ⟨fun _ => true, fun _ => true⟩ (.attach true, true) [(false, section_)]).1

theorem patRun_tables_whole :
    ∃ section_, sectionOf wholePatBytes = some section_ ∧
      (patAfter section_).called.map (fun call => call.1.programs) = [[⟨1, 256⟩]] ∧
      ∀ call ∈ (patAfter section_).called, MadeOf [section_] call.1 call.2 := by
  have numbers : (sectionOf wholePatBytes).map (fun section_ =>
      (section_.sectionNumber, section_.lastSectionNumber)) = some (0, 0) := by
    decide +kernel
  have programs : (sectionOf wholePatBytes).map (fun section_ =>
      (patAfter section_).called.map fun call => call.1.programs) = some [[⟨1, 256⟩]] := by
    decide +kernel
  cases decodes : sectionOf wholePatBytes with
  | none =>
    rw [decodes] at numbers
    cases numbers
  | some section_ =>
    rw [decodes] at numbers programs
    have first : section_.sectionNumber = 0 := congrArg Prod.fst (Option.some.inj numbers)
    have fits : PatFits (.attach true) section_ := by
      refine ⟨?_, fun _ => by nofun⟩
      rw [first]
      exact Nat.zero_le _
    refine ⟨section_, rfl, Option.some.inj programs, ?_⟩
    exact (patRun_tables ⟨fun _ => true, fun _ => true⟩ true
      [(false, section_)]).2.2.2.2 (fun _ => rfl) ⟨fun _ => fits, trivial⟩

/-- A table that is made of a section that it does not have. -/
theorem patRun_strayTable :
    ∃ section_, sectionOf strayPatBytes = some section_ ∧
      ∃ call ∈ (patAfter section_).called, ¬MadeOf [section_] call.1 call.2 := by
  have numbers : (sectionOf strayPatBytes).map (fun section_ =>
      (patAfter section_).called.map fun call =>
        call.2.map PsiSection.sectionNumber) = some [[5]] := by
    decide +kernel
  cases decodes : sectionOf strayPatBytes with
  | none =>
    rw [decodes] at numbers
    cases numbers
  | some section_ =>
    rw [decodes] at numbers
    have lists : (patAfter section_).called.map (fun call =>
        call.2.map PsiSection.sectionNumber) = [[5]] :=
      Option.some.inj numbers
    cases calls : (patAfter section_).called with
    | nil =>
      rw [calls] at lists
      cases lists
    | cons call rest =>
      rw [calls] at lists
      have member : call ∈ (patAfter section_).called := by
        rw [calls]
        exact List.mem_cons_self
      refine ⟨section_, rfl, call, member, fun made => ?_⟩
      obtain ⟨last, range, _⟩ := made.key
      have five := (List.cons.inj lists).1
      dsimp only at five
      rw [five, List.range_succ_eq_map] at range
      exact absurd (List.cons.inj range).1 (by decide)

end

end IteSdk.TsDemuxer
