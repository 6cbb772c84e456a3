import IteSdk.TsDemuxer.TsChannelMerge

/-!
# Runs over channel databases

Every call of a run keeps the numbers of the channels.
-/

namespace IteSdk.TsDemuxer

open Lib

universe u v

variable {κ : Type u} {ν : Type v} [DecidableEq κ] [DecidableEq ν] [Fintype ν]
  {state after : TsChnlState κ ν} {lists : κ → List ν} {handle : κ}

structure Sound (state : TsChnlState κ ν) (lists : κ → List ν) : Prop where
  placed : Placed state lists
  synced : Synced state

def GoesRight (state : TsChnlState κ ν) (call : TsChnlCall κ ν) : Prop :=
  ∃ after lists, state.tsChnlStep call = some after ∧ Sound after lists ∧ CallRight state after call

omit [DecidableEq ν] [Fintype ν] in
theorem Synced.update {dbs : κ → Option (TsChnlDb ν)} {heap : TsChnlHeap ν}
    {db : Option (TsChnlDb ν)}
    (synced : ∀ other ≠ handle, ∀ some_, dbs other = some some_ →
      some_.hChnl = ⟨some_.pStartChnlInfo, some_.pCurChnlInfo, some_.totalChnls⟩)
    (here : ∀ some_, db = some some_ →
      some_.hChnl = ⟨some_.pStartChnlInfo, some_.pCurChnlInfo, some_.totalChnls⟩) :
    Synced (⟨heap, Function.update dbs handle db⟩ : TsChnlState κ ν) := by
  intro other some_ known
  dsimp only at known
  by_cases same : other = handle
  · subst same
    rw [Function.update_self] at known
    exact here some_ known
  · rw [Function.update_of_ne same] at known
    exact synced other same some_ known

theorem createHandle_right (sound : Sound state lists) {allocated : Bool}
    (allowed : CallAllowed state (.createHandle handle allocated)) :
    GoesRight state (.createHandle handle allocated) := by
  have empty : lists handle = [] := sound.placed.absent handle allowed.1
  have placed :
      Placed (state.setDb handle ⟨⟨none, none, 0⟩, .idle, none, none, 0, 0⟩)
        (Function.update lists handle []) := by
    have unchanged : HeapFrame state.heap state.heap [] :=
      ⟨fun _ _ => rfl, fun _ _ => rfl, fun _ _ => rfl, fun _ _ => Iff.rfl⟩
    apply sound.placed.change _ (fun _ => rfl) unchanged
    · exact fun other _ => List.disjoint_nil_right (lists other)
    · exact fun other _ => List.disjoint_nil_right (lists other)
    · intro n live
      right
      rw [empty]
      exact ⟨live, List.not_mem_nil⟩
    · rintro some_ same
      rw [← Option.some.inj same]
      exact ⟨List.nodup_nil, by simp, RingLinks.ring_nil, rfl, rfl, rfl, rfl, rfl⟩
  refine ⟨_, _, if_pos allowed, ⟨placed, ?_⟩, ?_, rfl⟩
  · apply Synced.update fun other _ => sound.synced other
    rintro some_ same
    rw [← Option.some.inj same]
  · rw [placed.channels, Function.update_self]

theorem destroyHandle_right (sound : Sound state lists) :
    GoesRight state (.destroyHandle handle) := by
  cases known : state.dbs handle with
  | none =>
    refine ⟨state, lists, ?_, sound, known, ?_⟩
    · rw [TsChnlState.tsChnlStep, TsChnlState.tsChnlDestroyHandle, known]
    · rw [sound.placed.channels, sound.placed.absent handle known, List.append_nil]
  | some db =>
    have listed := sound.placed.listed handle db known
    obtain ⟨heap, deleted, freed⟩ := listed.delChannels
    have cur : db.hChnl.pCurChnlInfo = db.pCurChnlInfo := by rw [sound.synced handle db known]
    refine ⟨⟨heap, Function.update state.dbs handle none⟩, _, ?_,
      ⟨sound.placed.freed (by nofun) freed,
        Synced.update (fun other _ => sound.synced other) (by nofun)⟩,
      Function.update_self handle none state.dbs, ?_⟩
    · rw [TsChnlState.tsChnlStep, TsChnlState.tsChnlDestroyHandle, known]
      dsimp only
      rw [cur, deleted]
      rfl
    · rw [sound.placed.channels]
      exact freed.freed

theorem delAll_right (sound : Sound state lists) : GoesRight state (.delAllChnlInfo handle) := by
  cases known : state.dbs handle with
  | none =>
    refine ⟨state, lists, ?_, sound, ?_⟩
    · rw [TsChnlState.tsChnlStep, TsChnlState.tsChnlDelAll, known]
    · intro db found
      rw [known] at found
      cases found
  | some db =>
    by_cases failed : db.chnlStatus = .fail
    · refine ⟨state, lists, ?_, sound, ?_⟩
      · rw [TsChnlState.tsChnlStep, TsChnlState.tsChnlDelAll, known]
        exact if_pos failed
      · intro other found working
        obtain rfl := Option.some.inj (known.symm.trans found)
        exact absurd failed working
    · have listed := sound.placed.listed handle db known
      obtain ⟨heap, deleted, freed⟩ := listed.delChannels
      let empty : TsChnlDb ν := ⟨⟨none, none, 0⟩, db.chnlStatus, none, none, 0, 0⟩
      have placed :
          Placed (TsChnlState.setDb { state with heap := heap } handle empty)
            (Function.update lists handle []) := by
        apply sound.placed.freed _ freed
        rintro some_ same
        rw [← Option.some.inj same]
        exact ⟨List.nodup_nil, by simp, RingLinks.ring_nil, rfl, rfl, rfl, rfl, rfl⟩
      refine ⟨_, _, ?_, ⟨placed, ?_⟩, ?_⟩
      · rw [TsChnlState.tsChnlStep, TsChnlState.tsChnlDelAll, known]
        dsimp only
        rw [if_neg failed, delChannelList, deleted]
        rfl
      · apply Synced.update fun other _ => sound.synced other
        rintro some_ same
        rw [← Option.some.inj same]
      · intro _ _ _
        rw [placed.channels, sound.placed.channels]
        exact ⟨Function.update_self handle [] lists, freed.freed⟩

section Bounded

variable (few : Fintype.card ν < 2 ^ 32)
include few

variable {malloc : TsdMalloc ν}

section

variable (sound : Sound state lists)

include sound

theorem addChannel_right {insChnlInfo : TsChnlInfo}
    (allowed : CallAllowed state (.addChannel handle insChnlInfo malloc)) :
    GoesRight state (.addChannel handle insChnlInfo malloc) := by
  cases known : state.dbs handle with
  | none =>
    refine ⟨state, lists, ?_, sound, rfl⟩
    rw [TsChnlState.tsChnlStep, TsChnlState.tsChnlAddChannel, known]
  | some db =>
    by_cases failed : db.chnlStatus = .fail
    · refine ⟨state, lists, ?_, sound, rfl⟩
      rw [TsChnlState.tsChnlStep, TsChnlState.tsChnlAddChannel, known]
      exact if_pos failed
    · have listed := sound.placed.listed handle db known
      have first := allowed.2 db known
      rw [sound.placed.channels] at first
      rcases addToChannelList_listed few listed allowed.1 first with
        ⟨adds, _⟩ | ⟨node, heap', db', adds, changes⟩
      · refine
          ⟨state.setDb handle { db.sync with chnlStatus := .fail }, lists, ?_,
            ⟨sound.placed.setDb known rfl rfl rfl rfl, ?_⟩, rfl⟩
        · rw [TsChnlState.tsChnlStep, TsChnlState.tsChnlAddChannel, known]
          dsimp only
          rw [if_neg failed, adds]
          rfl
        · apply Synced.update fun other _ => sound.synced other
          rintro some_ same
          rw [← Option.some.inj same]
          rfl
      · have placed := sound.placed.added changes
        have here :
            Function.update state.dbs handle (some db') handle = some db' :=
          Function.update_self handle (some db') state.dbs
        have same :
            TsChnlState.setDb ⟨heap', Function.update state.dbs handle (some db')⟩ handle
                db'.sync =
              TsChnlState.setDb { state with heap := heap' } handle db'.sync := by
          rw [TsChnlState.setDb, Function.update_idem]
          rfl
        have placedSync :
            Placed
              (TsChnlState.setDb ⟨heap', Function.update state.dbs handle (some db')⟩ handle
                db'.sync)
              (Function.update lists handle (lists handle ++ [node])) :=
          placed.setDb here rfl rfl rfl rfl
        rw [same] at placedSync
        refine ⟨_, _, ?_, ⟨placedSync, ?_⟩, changes.freed⟩
        · rw [TsChnlState.tsChnlStep, TsChnlState.tsChnlAddChannel, known]
          dsimp only
          rw [if_neg failed, adds]
          rfl
        · apply Synced.update fun other _ => sound.synced other
          rintro some_ same
          rw [← Option.some.inj same]
          rfl

theorem mergeChannelList_merging {master slave : κ} {type : TsChnlMergeType} {db : TsChnlDb ν}
    (known : state.dbs master = some db)
    (allowed : CallAllowed state (.mergeChnlInfo master slave type malloc)) :
    ∃ added state' ok,
      state.mergeChannelList malloc master slave type = some (state', ok) ∧
        Merging state lists master slave added state' ∧
        (type = .merge2Handle → MergeFits state master slave malloc →
          MergedUpTo state lists master slave state'
            (lists master ++ added) (lists slave).length) := by
  have listed := sound.placed.listed master db known
  have unmoved :
      Function.update lists master (lists master ++ []) = lists := by
    rw [List.append_nil, Function.update_eq_self]
  have begins : Merging state lists master slave [] state := by
    refine ⟨?_, ⟨db, db, known, known, rfl, rfl⟩, fun _ _ => rfl,
      fun _ _ _ => rfl, rfl, fun _ => rfl, rfl⟩
    rw [unmoved]
    exact sound.placed
  have own (fits : MergeFits state master slave malloc) :
      MergedUpTo state lists master slave state (lists master ++ []) 0 := by
    have distinct := fits.distinct
    rw [sound.placed.channels] at distinct
    rw [List.append_nil]
    refine ⟨distinct, fun cmpData => ?_⟩
    rw [List.take_zero]
    exact (or_iff_left List.not_mem_nil).symm
  cases type with
  | mergeDefault => exact ⟨[], state, true, rfl, begins, by nofun⟩
  | merge2Handle =>
    obtain ⟨slaveDb, slaveKnown⟩ := Option.isSome_iff_exists.mp allowed.2
    have slaveListed := sound.placed.listed slave slaveDb slaveKnown
    by_cases none_ : slaveDb.totalChnls = 0
    · refine ⟨[], state, true, ?_, begins, fun _ fits => ?_⟩
      · rw [TsChnlState.mergeChannelList, known, slaveKnown]
        exact if_pos none_
      · rw [← slaveListed.total, none_]
        exact own fits
    · have some_ : lists slave ≠ [] := by
        intro empty
        rw [slaveListed.total, empty] at none_
        exact none_ rfl
      have pStart :
          slaveDb.hChnl.pStartChnlInfo = some ((lists slave).head some_) := by
        rw [sound.synced slave slaveDb slaveKnown]
        exact slaveListed.start.trans (List.head?_eq_some_head some_)
      have masterStart :
          db.hChnl.pStartChnlInfo = (lists master).head? := by
        rw [sound.synced master db known]
        exact listed.start
      obtain ⟨added, state', ok, merges, merging, upTo⟩ :=
        mergeLoop_merging few sound.placed sound.synced allowed.1 allowed.2
          (ringBound ν + 1) 0 db.hChnl.pStartChnlInfo _ [] state begins
          (Nat.le_refl 0) (Nat.zero_le _)
          (Nat.lt_succ_of_le slaveListed.nodup.length_le_card)
          (fun empty => by rw [masterStart, empty]; exact ⟨rfl, rfl⟩)
          (fun nonempty => ⟨(lists master).head nonempty,
            List.mem_append_left [] (List.head_mem nonempty),
            masterStart.trans (List.head?_eq_some_head nonempty)⟩)
          (List.head_mem some_) own
      refine ⟨added, state', ok, ?_, merging, fun _ => upTo⟩
      rw [TsChnlState.mergeChannelList, known, slaveKnown]
      dsimp only
      rw [if_neg none_, pStart]
      exact merges

theorem merge_right {slave : κ} {type : TsChnlMergeType}
    (allowed : CallAllowed state (.mergeChnlInfo handle slave type malloc)) :
    GoesRight state (.mergeChnlInfo handle slave type malloc) := by
  cases known : state.dbs handle with
  | none =>
    refine ⟨state, lists, ?_, sound, rfl, fun _ fits => ?_⟩
    · rw [TsChnlState.tsChnlStep, TsChnlState.tsChnlMerge, known]
    · obtain ⟨db, found, _⟩ := fits.working
      rw [known] at found
      cases found
  | some db =>
    by_cases failed : db.chnlStatus = .fail
    · refine ⟨state, lists, ?_, sound, rfl, fun _ fits => ?_⟩
      · rw [TsChnlState.tsChnlStep, TsChnlState.tsChnlMerge, known]
        exact if_pos failed
      · obtain ⟨other, found, working⟩ := fits.working
        obtain rfl := Option.some.inj (known.symm.trans found)
        exact absurd failed working
    · obtain ⟨added, state', ok, merges, merging, upTo⟩ :=
        mergeChannelList_merging few sound known allowed
      obtain ⟨_, db', _, knownNow, _, _⟩ := merging.db
      have placed :
          Placed (state'.setDb handle db'.sync)
            (Function.update lists handle (lists handle ++ added)) :=
        merging.placed.setDb knownNow rfl rfl rfl rfl
      refine ⟨_, _, ?_, ⟨placed, ?_⟩, merging.freed, fun two fits => ?_⟩
      · rw [TsChnlState.tsChnlStep, TsChnlState.tsChnlMerge, known]
        dsimp only
        rw [if_neg failed, merges]
        dsimp only [Option.bind_some]
        rw [knownNow]
        rfl
      · apply Synced.update
        · intro other different some_ found
          rw [merging.others other different] at found
          exact sound.synced other some_ found
        · rintro some_ same
          rw [← Option.some.inj same]
          rfl
      · have all := upTo two fits
        have seen :
            (state'.setDb handle db'.sync).channels handle = lists handle ++ added := by
          rw [placed.channels, Function.update_self]
        refine ⟨?_, ?_⟩
        · rw [seen]
          exact all.distinct
        · intro cmpData
          have union := all.union cmpData
          rw [List.take_of_length_le (by simp [TsChnlHeap.cmpDatas])] at union
          rw [seen, sound.placed.channels]
          exact union

theorem call_right {call : TsChnlCall κ ν} (allowed : CallAllowed state call) :
    GoesRight state call := by
  cases call with
  | createHandle handle allocated => exact createHandle_right sound allowed
  | destroyHandle handle => exact destroyHandle_right sound
  | addChannel handle insChnlInfo malloc =>
    exact addChannel_right few sound allowed
  | delAllChnlInfo handle => exact delAll_right sound
  | mergeChnlInfo master slave type malloc =>
    exact merge_right few sound allowed

theorem run_sound {calls : List (TsChnlCall κ ν)} (allowed : RunAllowed state calls) :
    ∃ after lists', calls.foldlM TsChnlState.tsChnlStep state = some after ∧
      Sound after lists' := by
  induction calls generalizing state lists with
  | nil =>
    exact ⟨state, lists, rfl, sound⟩
  | cons call calls ih =>
    obtain ⟨first, rest⟩ := allowed
    obtain ⟨after, lists', stepped, afterSound, _⟩ := call_right few sound first
    obtain ⟨last, lists'', ran, lastSound⟩ := ih afterSound (rest after stepped)
    refine ⟨last, lists'', ?_, lastSound⟩
    rw [List.foldlM_cons, stepped]
    exact ran

end

end Bounded

def fourNodes : TsdMalloc (Fin 4) := fun live => (List.finRange 4).find? fun node => node ∉ live

theorem fourNodes_fresh : Fresh fourNodes := by
  intro live node answer
  have found := List.find?_some (Option.mem_def.mp answer)
  exact of_decide_eq_true found

def sampleChannel (orderNum : Nat) : TsChnlInfo := ⟨orderNum, ⟨6000, 533000, 1⟩⟩

/-- Nothing has been allocated, and there are two variables for handles. -/
def noChannels : TsChnlState Bool (Fin 4) :=
  .initial ⟨fun _ => none, fun _ => none⟩ fun _ => sampleChannel 0

end IteSdk.TsDemuxer
