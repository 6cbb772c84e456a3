import IteSdk.Fat.NorCacheThreadsAccess
import Mathlib.Data.List.Perm.Basic

/-!
# Runs of the NOR cache

The steps of a flush keep the invariant where they clean no entry that has
changed, and so do all runs of such steps.  A flush that is not disturbed is
`norCacheFlush`.
-/

namespace IteSdk.Fat

open Lib

namespace NorSystem

variable {geometry : NorGeometry} {disc : Nat → Sector}
  {system after : NorSystem} {turn : AccessTurn}

/-! ## Steps of a flush -/

theorem flushRound_knows (rounds : Nat) (cache : NorCache) : (flushRound rounds).Knows cache := by
  cases rounds with
  | zero => trivial
  | succ rounds =>
    intro index found
    cases found

variable {cache : NorCache}

theorem flushRound_drains {rounds : Nat} (enough : cache.dirtyCount ≤ rounds) :
    (flushRound rounds).Drains cache := by
  cases rounds with
  | zero => exact Nat.le_zero.mp enough
  | succ rounds =>
    refine ⟨enough, fun _ => ⟨rfl, fun k before => ?_⟩⟩
    cases before

theorem flushStart_knows (cache : NorCache) : (flushStart cache).Knows cache := by
  rw [flushStart]
  split
  · trivial
  · exact flushRound_knows _ cache

theorem flushStart_drains (enabled : cache.cacheValidFlush = true) :
    (flushStart cache).Drains cache := by
  rw [flushStart, enabled, if_neg (by simp)]
  exact flushRound_drains List.countP_le_length

theorem Sound.flushing (sound : system.Sound geometry disc)
    {job : NorJob} {loopDetect oldUsed : Nat}
    (held : system.access = some ⟨job, loopDetect, .flushing oldUsed⟩)
    (step : system.accessNext ⟨job, loopDetect, .flushing oldUsed⟩ = some after) :
    after.Sound geometry disc := by
  have coherent := sound.coherent
  rw [view_eq held] at coherent
  rw [accessNext] at step
  dsimp only at step
  rw [Option.ite_none_right_eq_some] at step
  obtain rfl := Option.some.inj step.2
  refine { sound with flush := ?_, nested := ?_ }
  · intro turn running
    obtain rfl := Option.some.inj running
    exact flushStart_knows system.cache
  · intro turn running _
    obtain rfl := Option.some.inj running
    exact ⟨⟨_, oldUsed, held, rfl⟩, flushStart_drains coherent.flushEnabled⟩

theorem Sound.accessNext (sound : system.Sound geometry disc)
    (held : system.access = some turn) (step : system.accessNext turn = some after) :
    after.Sound geometry disc := by
  obtain ⟨job, loopDetect, pc⟩ := turn
  cases pc with
  | findPage i => exact sound.findPage held step
  | scan i foundFree oldUsed oldAccess => exact sound.scan held step
  | checkDirty foundFree oldUsed => exact sound.checkDirty held step
  | flushing oldUsed => exact sound.flushing held step
  | load oldUsed => exact sound.load held step
  | setSector oldUsed sector count => exact sound.setSector held step
  | setCount oldUsed count => exact sound.setCount held step
  | setLastAccess index => exact sound.setLastAccess held step
  | found index => exact sound.found held step
  | copy index => exact sound.copy held step
  | setDirty index => exact sound.setDirty held step
  | unlock => exact sound.unlockAccess held step

section Flush

variable {flush : FlushTurn}

theorem view_disc (cache : NorCache) (newDisc : Nat → Sector) (pc : AccessPc) :
    pc.view { cache with disc := newDisc } = { pc.view cache with disc := newDisc } := by
  cases pc <;> rfl

theorem Sound.ofFlush (sound : system.Sound geometry disc)
    (running : system.flush = some flush) {cache : NorCache} {pc : FlushPc}
    (cleaner : EntriesRel NorCacheEntry.Cleaner system.cache cache)
    (coherent :
      Coherent geometry { system with cache := cache }.view (lastCopied disc system.copied))
    (knows : pc.Knows cache) (drains : system.Nested flush → pc.Drains cache) :
    Sound geometry disc { system with cache := cache, flush := some { flush with pc := pc } }
    where
  coherent := coherent
  access := fun turn held => (sound.access turn held).cleaner cleaner
  flush := by
    intro turn same
    obtain rfl := Option.some.inj same
    exact knows
  nested := by
    intro turn same isNested
    obtain rfl := Option.some.inj same
    have waits := sound.nested flush running isNested
    exact ⟨waits.1, drains waits⟩
  pending := sound.pending
  copied := sound.copied

theorem Nested.view_eq (nested : system.Nested flush) : system.view = system.cache := by
  obtain ⟨⟨access, oldUsed, held, atFlush⟩, _⟩ := nested
  rw [NorSystem.view_eq held, atFlush]
  rfl

theorem Sound.flushGoOn (sound : system.Sound geometry disc)
    (running : system.flush = some flush) (pc : FlushPc) (knows : pc.Knows system.cache)
    (drains : system.Nested flush → pc.Drains system.cache) :
    Sound geometry disc { system with flush := some { flush with pc := pc } } :=
  sound.ofFlush running (EntriesRel.of_same NorCacheEntry.Cleaner.refl rfl) sound.coherent knows
    drains

theorem dirtyCount_eq_zero {cache : NorCache} :
    cache.dirtyCount = 0 ↔ ∀ k < cache.numberOfPages, ¬ cache.IsDirty k := by
  rw [NorCache.dirtyCount, List.countP_eq_zero]
  constructor
  · intro clean k _ isDirty
    obtain ⟨entry, present, dirty⟩ := isDirty
    exact clean entry (List.mem_of_getElem? present) dirty
  · intro clean entry member dirty
    obtain ⟨k, present⟩ := List.mem_iff_getElem?.mp member
    exact clean k (List.getElem?_eq_some_iff.mp present).1 ⟨entry, present, dirty⟩

variable {nested : Bool}

section

variable (sound : system.Sound geometry disc)

include sound

variable {rounds j flushSector : Nat} {flushIndex : Option Nat}

theorem Sound.readDirty
    (running : system.flush = some ⟨nested, .readDirty rounds j flushIndex flushSector⟩) :
    (system.flushNext ⟨nested, .readDirty rounds j flushIndex flushSector⟩).Sound
      geometry disc := by
  have knows := sound.flush _ running
  rw [flushNext]
  dsimp only
  split
  · rename_i inside
    have present := getElem?_entry inside
    split
    · rename_i dirty
      exact sound.flushGoOn running _ ⟨⟨_, present, dirty⟩, knows⟩ fun waits => waits.2
    · rename_i clean
      refine sound.flushGoOn running _ knows fun waits => ⟨waits.2.1, ?_⟩
      intro none
      refine ⟨(waits.2.2 none).1, fun k before isDirty => ?_⟩
      by_cases last : k = j
      · subst last
        obtain ⟨entry, was, dirty⟩ := isDirty
        obtain rfl := Option.some.inj (present.symm.trans was)
        exact clean dirty
      · exact (waits.2.2 none).2 k (by omega) isDirty
  · rename_i outside
    cases flushIndex with
    | some index =>
      exact sound.flushGoOn running _ (knows index rfl) fun waits => waits.2.1
    | none =>
      refine sound.flushGoOn running _ trivial fun waits => ?_
      refine dirtyCount_eq_zero.mpr fun k inside => ?_
      exact (waits.2.2 rfl).2 k (by omega)

theorem Sound.compareSector
    (running : system.flush = some ⟨nested, .compareSector rounds j flushIndex flushSector⟩) :
    (system.flushNext ⟨nested, .compareSector rounds j flushIndex flushSector⟩).Sound
      geometry disc := by
  have knows := sound.flush _ running
  obtain ⟨isDirty, others⟩ := knows
  rw [flushNext]
  dsimp only
  split
  · exact sound.flushGoOn running _ isDirty fun waits => waits.2.1
  · rename_i notLower
    refine sound.flushGoOn running _ others fun waits => ⟨waits.2.1, ?_⟩
    intro none
    -- A dirty entry has a page, so without an index it would be the lowest.
    have coherent := sound.coherent
    rw [waits.view_eq] at coherent
    obtain ⟨entry, present, dirty⟩ := isDirty
    have lower := coherent.live_of_dirty present dirty
    rw [entry_eq present, (waits.2.2 none).1] at notLower
    exact absurd lower notLower

theorem Sound.view_dirty {index : Nat} {entry : NorCacheEntry}
    (present : system.cache.cacheEntries[index]? = some entry) (dirty : entry.dirty = true) :
    system.view.cacheEntries[index]? = some entry := by
  have hidden :
      ∀ oldUsed sector count job,
        Loaded geometry system.cache (lastCopied disc system.copied) job oldUsed sector count →
          (system.cache.setEntry oldUsed
              NorCacheEntry.hidden).cacheEntries[index]? = some entry := by
    intro oldUsed sector count job loaded
    obtain ⟨other, was, clean, _⟩ := loaded.entry
    have different : oldUsed ≠ index := by
      intro same
      subst same
      obtain rfl := Option.some.inj (was.symm.trans present)
      rw [clean] at dirty
      cases dirty
    exact getElem?_setEntry.mpr ⟨entry, present, (if_neg different).symm⟩
  cases held : system.access with
  | none =>
    rw [view, held]
    exact present
  | some turn =>
    have knows := (sound.access turn held).knows
    rw [view_eq held]
    obtain ⟨job, loopDetect, pc⟩ := turn
    cases pc with
    | setSector oldUsed sector count | setCount oldUsed count => exact hidden _ _ _ _ knows
    | setDirty marked =>
      refine getElem?_setEntry.mpr ⟨entry, present, ?_⟩
      split
      · rw [NorCacheEntry.marked, ← dirty]
      · rfl
    | _ => exact present

theorem Sound.transfer {rounds index sector count : Nat}
    (running : system.flush = some ⟨nested, .transfer rounds index sector count⟩) :
    (system.flushNext ⟨nested, .transfer rounds index sector count⟩).Sound geometry disc := by
  obtain ⟨isDirty, sectorEq, countEq⟩ := sound.flush _ running
  obtain ⟨entry, present, dirty⟩ := isDirty
  rw [entry_eq present] at sectorEq countEq
  rw [flushNext]
  dsimp only
  rw [entry_eq present]
  subst sectorEq countEq
  refine sound.ofFlush running (EntriesRel.of_same NorCacheEntry.Cleaner.refl rfl) ?_
    ⟨entry, present, dirty⟩ fun waits => waits.2
  have transferred := sound.coherent.transfer (sound.view_dirty present dirty)
  cases held : system.access with
  | none =>
    rw [view, held] at transferred
    exact transferred
  | some turn =>
    rw [view_eq held] at transferred
    rw [view]
    dsimp only
    rw [view_disc]
    have sameDisc :
        (turn.pc.view system.cache).disc = system.cache.disc := by
      cases turn.pc <;> rfl
    rw [sameDisc] at transferred
    exact transferred

end

theorem setEntry_comm (cache : NorCache) {i j : Nat}
    (first second : NorCacheEntry → NorCacheEntry) (different : i ≠ j) :
    (cache.setEntry i first).setEntry j second = (cache.setEntry j second).setEntry i first := by
  simp only [NorCache.setEntry, List.modify_modify_ne _ _ _ different]

section

variable (sound : system.Sound geometry disc)

include sound

/-- Cleaning an entry commutes with the change that the view makes to another
one, and is not seen in one that is seen marked. -/
theorem Sound.view_clean {index : Nat} {entry : NorCacheEntry}
    (present : system.cache.cacheEntries[index]? = some entry) (dirty : entry.dirty = true) :
    { system with
        cache := system.cache.setEntry index NorCacheEntry.cleaned }.view =
      if system.access.map AccessTurn.pc = some (.setDirty index) then
        system.view
      else
        system.view.setEntry index NorCacheEntry.cleaned := by
  have hidden :
      ∀ oldUsed sector count job,
        Loaded geometry system.cache (lastCopied disc system.copied) job
            oldUsed sector count → oldUsed ≠ index := by
    intro oldUsed sector count job loaded same
    obtain ⟨other, was, clean, _⟩ := loaded.entry
    subst same
    obtain rfl := Option.some.inj (was.symm.trans present)
    rw [clean] at dirty
    cases dirty
  cases held : system.access with
  | none =>
    rw [view, view, held]
    rfl
  | some turn =>
    have knows := (sound.access turn held).knows
    rw [view_eq held, view]
    obtain ⟨job, loopDetect, pc⟩ := turn
    cases pc with
    | setSector oldUsed sector count | setCount oldUsed count =>
      exact setEntry_comm _ _ _ (hidden _ _ _ _ knows).symm
    | setDirty marked =>
      by_cases same : marked = index
      · subst same
        rw [Option.map_some, if_pos rfl]
        exact setEntry_setEntry _ _ _ _
      · rw [Option.map_some, if_neg (by simpa using same)]
        exact setEntry_comm _ _ _ fun other => same other.symm
    | _ => rfl

theorem Sound.clear {rounds index : Nat}
    (running : system.flush = some ⟨nested, .clear rounds index⟩)
    (mayClean : system.MayClean index) :
    (system.flushNext ⟨nested, .clear rounds index⟩).Sound geometry disc := by
  obtain ⟨entry, present, dirty⟩ := sound.flush _ running
  rw [flushNext]
  refine sound.ofFlush running ?_ ?_ (flushRound_knows _ _) ?_
  · exact EntriesRel.setEntry NorCacheEntry.Cleaner.refl
      fun other _ => NorCacheEntry.Cleaner.cleaned other
  · have seen := sound.view_clean present dirty
    have coherent := sound.coherent
    refine seen ▸ ?_
    split
    · exact coherent
    · rename_i unmarked
      apply coherent.clean (sound.view_dirty present dirty)
      rw [MayClean, or_iff_left unmarked, entry_eq present] at mayClean
      have sameDisc : system.view.disc = system.cache.disc := by
        cases held : system.access with
        | none => rw [view, held]
        | some turn =>
          rw [view_eq held]
          cases turn.pc <;> rfl
      rw [sameDisc]
      exact mayClean
  · intro waits
    apply flushRound_drains
    have oneLess := countP_dirty_modify present dirty
    have enough : system.cache.dirtyCount ≤ rounds + 1 := waits.2
    rw [NorCache.dirtyCount] at enough
    exact Nat.le_of_lt_succ (by rw [← oneLess] at enough; exact enough)

theorem Sound.unlockFlush (running : system.flush = some ⟨nested, .unlock⟩) :
    (system.flushNext ⟨nested, .unlock⟩).Sound geometry disc := by
  rw [flushNext]
  dsimp only
  cases nested with
  | false =>
    rw [if_neg (by simp)]
    refine { sound with flush := ?_, nested := ?_ }
    · intro turn impossible
      cases impossible
    · intro turn impossible
      cases impossible
  | true =>
    have waits := sound.nested _ running rfl
    have viewEq := waits.view_eq
    obtain ⟨⟨access, oldUsed, held, atFlush⟩, drained⟩ := waits
    obtain ⟨job, loopDetect, pc⟩ := access
    dsimp only at atFlush
    subst atFlush
    have coherent := sound.coherent
    rw [viewEq] at coherent
    have turnSound := sound.access _ held
    obtain ⟨uncovered, entry, present⟩ := turnSound.knows
    have copied := sound.copied
    rw [outstanding_eq held] at copied
    rw [if_pos rfl, held, Option.map_some]
    refine ⟨coherent, ?_, ?_, ?_, sound.pending, copied⟩
    · intro turn same
      obtain rfl := Option.some.inj same
      refine ⟨turnSound.within, fun _ => turnSound.waiting id,
        fun behind => behind.elim, uncovered, entry, present, ?_⟩
      have clean := dirtyCount_eq_zero.mp drained oldUsed (List.getElem?_eq_some_iff.mp present).1
      by_contra dirty
      exact clean ⟨entry, present, by simpa using dirty⟩
    · intro turn impossible
      cases impossible
    · intro turn impossible
      cases impossible

theorem Sound.flushNext (running : system.flush = some flush) (allowed : NorAllowed system .flush) :
    (system.flushNext flush).Sound geometry disc := by
  have knows := sound.flush flush running
  have mayClean := allowed flush running
  obtain ⟨nested, pc⟩ := flush
  cases pc with
  | readDirty rounds j flushIndex flushSector => exact sound.readDirty running
  | compareSector rounds j flushIndex flushSector =>
    exact sound.compareSector running
  | takeSector rounds j =>
    refine sound.flushGoOn running _ ?_ fun waits => ⟨waits.2, ?_⟩
    · intro index found
      obtain rfl := Option.some.inj found
      exact knows
    · intro impossible
      cases impossible
  | readSector rounds index =>
    exact sound.flushGoOn running _ ⟨knows, rfl⟩ fun waits => waits.2
  | readCount rounds index sector =>
    exact sound.flushGoOn running _ ⟨knows.1, knows.2, rfl⟩ fun waits => waits.2
  | transfer rounds index sector count => exact sound.transfer running
  | clear rounds index => exact sound.clear running (mayClean index rfl)
  | unlock => exact sound.unlockFlush running

end

end Flush

section

variable (sound : system.Sound geometry disc)

include sound

theorem Sound.sameEnd : system.cache.endOfPartition = geometry.endOfPartition := by
  rw [← sound.coherent.sameEnd]
  cases held : system.access with
  | none => rw [view, held]
  | some turn =>
    rw [view_eq held]
    cases turn.pc <;> rfl

theorem Sound.begin {job : NorJob} (step : system.next (.begin job) = some after) :
    after.Sound geometry disc := by
  simp only [next] at step
  rw [Option.ite_none_right_eq_some, sound.sameEnd] at step
  obtain ⟨within, same⟩ := step
  obtain rfl := Option.some.inj same
  refine { sound with pending := ?_, copied := ?_ }
  · intro other waits
    split at waits
    · exact sound.pending other waits
    · rename_i nonempty
      rcases List.mem_cons.mp waits with here | before
      · subst here
        exact ⟨within, Nat.pos_of_ne_zero nonempty⟩
      · exact sound.pending other before
  · have before := sound.copied
    rw [outstanding] at before ⊢
    dsimp only
    generalize system.access.elim [] _ = current at before ⊢
    cases job with
    | read sector numSectors =>
      split <;> exact before
    | write sector src =>
      split
      · rename_i empty
        obtain rfl := List.length_eq_zero_iff.mp empty
        exact before
      · rw [List.flatMap_cons, List.flatMap_cons]
        refine List.Perm.trans ?_ (before.append_left (addressed sector src))
        rw [← List.append_assoc, ← List.append_assoc, ← List.append_assoc, ← List.append_assoc]
        refine List.Perm.append_right _ ?_
        rw [List.append_assoc (addressed sector src)]
        exact List.perm_append_comm

theorem Sound.lockAccess {waiting : Nat} (step : system.next (.lockAccess waiting) = some after) :
    after.Sound geometry disc := by
  simp only [next] at step
  split at step
  · rename_i job free waits
    obtain rfl := Option.some.inj step
    have here := List.getElem?_eq_some_iff.mp waits
    obtain ⟨inside, isJob⟩ := here
    have member : job ∈ system.pending := List.mem_of_getElem? waits
    obtain ⟨within, positive⟩ := sound.pending job member
    have coherent := sound.coherent
    rw [view, free] at coherent
    have copied := sound.copied
    rw [outstanding, free] at copied
    refine ⟨?_, ?_, sound.flush, ?_, ?_, ?_⟩
    · cases job <;> exact coherent
    · intro turn same
      obtain rfl := Option.some.inj same
      cases job with
      | read sector numSectors =>
        refine ⟨within, fun _ => ⟨positive, rfl⟩, fun behind => behind.elim, ?_, ?_⟩
        · intro k before
          cases before
        · exact ⟨_, List.getElem?_eq_getElem coherent.nonempty, by simp⟩
      | write sector src =>
        exact ⟨within, fun _ => ⟨positive, rfl⟩, fun behind => behind.elim, trivial⟩
    · intro turn running isNested
      obtain ⟨⟨access, oldUsed, held, _⟩, _⟩ := sound.nested turn running isNested
      rw [free] at held
      cases held
    · intro other stays
      exact sound.pending other (List.mem_of_mem_eraseIdx stays)
    · refine List.Perm.trans (List.Perm.append_left _ ?_) copied
      rw [outstanding]
      have taken := (List.getElem_cons_eraseIdx_perm inside).flatMap_right NorJob.stores
      rw [isJob, List.flatMap_cons] at taken
      exact taken
  · cases step

theorem Sound.lockFlush (step : system.next .lockFlush = some after) :
    after.Sound geometry disc := by
  simp only [next] at step
  rw [Option.ite_none_right_eq_some] at step
  obtain ⟨free, same⟩ := step
  obtain rfl := Option.some.inj same
  refine { sound with flush := ?_, nested := ?_ }
  · intro turn running
    obtain rfl := Option.some.inj running
    exact flushStart_knows system.cache
  · intro turn running isNested
    obtain rfl := Option.some.inj running
    cases isNested

theorem Sound.next {event : NorEvent} (allowed : NorAllowed system event)
    (step : system.next event = some after) :
    after.Sound geometry disc := by
  cases event with
  | begin job => exact sound.begin step
  | lockAccess waiting => exact sound.lockAccess step
  | lockFlush => exact sound.lockFlush step
  | access =>
    simp only [NorSystem.next] at step
    split at step
    · rename_i turn held
      exact sound.accessNext held step
    · cases step
  | flush =>
    simp only [NorSystem.next] at step
    split at step
    · rename_i turn running
      obtain rfl := Option.some.inj step
      exact sound.flushNext running allowed
    · cases step

end

theorem Sound.start (coherent : Coherent geometry cache disc) :
    (NorSystem.start cache).Sound geometry disc where
  coherent := coherent
  access := by
    intro turn impossible
    cases impossible
  flush := by
    intro turn impossible
    cases impossible
  nested := by
    intro turn impossible
    cases impossible
  pending := by
    intro job impossible
    cases impossible
  copied := List.Perm.refl _

end NorSystem

namespace NorSystem

variable {system : NorSystem} {cache : NorCache}

end NorSystem

/-- Once everything is quiet a flush leaves the last data on the disc, and every
sector of every write was copied, provided that no flush cleaned an entry that
had changed since its transfer. -/
theorem norCache_flush_writes
    {numberOfPages sectorsPerPage endOfPartition sectorSize : Nat}
    {disc fresh : Nat → Sector} {cache : NorCache}
    (created :
      norCacheConstructor numberOfPages sectorsPerPage disc endOfPartition sectorSize fresh =
        some cache)
    (addressable : endOfPartition + cache.sectorsPerPage < 2 ^ 32)
    {events : List NorEvent} {system : NorSystem}
    (run :
      Run (Guarded NorAllowed (Enabled NorSystem.next))
        (NorSystem.start (norInitfunc cache)) events system)
    (quiet : system.Quiet) :
    (norCacheFlush system.cache).disc = lastCopied disc system.copied ∧
      (system.copied.flatMap fun piece => addressed piece.1 piece.2).Perm
        (system.begun.flatMap fun write => addressed write.1 write.2) := by
  let geometry : NorGeometry :=
    ⟨endOfPartition, cache.sectorsPerPage, sectorSize,
      norCacheConstructor_positive created, addressable⟩
  have opened : Coherent geometry (norInitfunc cache) disc := coherent_norInitfunc created rfl
  have sound : system.Sound geometry disc :=
    run.invariant (NorSystem.Sound.start opened)
      fun before event after holds step => holds.next step.1 step.2
  have coherent := sound.coherent
  rw [NorSystem.view, quiet.access] at coherent
  have copied := sound.copied
  rw [NorSystem.outstanding, quiet.access, quiet.pending, Option.elim_none,
    List.flatMap_nil, List.append_nil, List.append_nil] at copied
  exact ⟨coherent.flush_disc, copied⟩

def oneSectorCache : NorCache where
  disc := fun _ => [0]
  endOfPartition := 0
  sectorsPerPage := 32
  sectorSize := 1
  cacheEntries := List.replicate 4 (NorCacheEntry.freed fun _ => [])
  accessCounter := 0
  cacheValidFlush := false

/-- A write, a flush until its page is on the disc, and a second write that has
got `accessMutex`. -/
def betweenTransferAndClear : List NorEvent :=
  [.begin (.write 0 [[1]]), .lockAccess 0] ++ List.replicate 19 .access ++
    [.lockFlush] ++ List.replicate 10 .flush ++
    [.begin (.write 0 [[2]]), .lockAccess 0]

/-- The second write copies its data before the flag is cleared and sets it
afterwards. -/
theorem norCache_flush_writes_marked :
    ∃ system : NorSystem,
      (norCacheFlush system.cache).disc = lastCopied (fun _ => [0]) system.copied ∧
        system.copied = [(0, [[1]]), (0, [[2]])] := by
  have folded :
      ∃ system : NorSystem,
        List.foldlM
            (fun state event => if NorAllowed state event then state.next event else none)
            (NorSystem.start (norInitfunc oneSectorCache))
            (betweenTransferAndClear ++ List.replicate 8 NorEvent.access ++
              [NorEvent.flush] ++ List.replicate 2 NorEvent.access ++
              List.replicate 17 NorEvent.flush) =
          some system ∧
        (system.access = none ∧ system.flush = none ∧ system.pending = []) ∧
        system.copied = [(0, [[1]]), (0, [[2]])] :=
    Run.exists_foldlM _ (by decide +kernel)
  obtain ⟨system, along, ⟨noAccess, noFlush, noPending⟩, copied⟩ := folded
  have created :
      norCacheConstructor 4 32 (fun _ => [0]) 0 1 (fun _ => []) = some oneSectorCache :=
    rfl
  exact ⟨system,
    (norCache_flush_writes created (by decide) (Run.guarded_foldlM along)
      ⟨noAccess, noFlush, noPending⟩).1,
    copied⟩

/-- The second write is over before the flag is cleared, and its data never
reach the disc. -/
theorem norCache_flush_loses_write :
    ∃ system : NorSystem,
      Run (Enabled NorSystem.next) (NorSystem.start (norInitfunc oneSectorCache))
        (betweenTransferAndClear ++ List.replicate 10 NorEvent.access ++
          List.replicate 7 NorEvent.flush)
        system ∧
      system.Quiet ∧
      (norCacheFlush system.cache).disc 0 = [1] ∧
      lastCopied (fun _ => [0]) system.copied 0 = [2] := by
  have folded :
      ∃ system : NorSystem,
        List.foldlM NorSystem.next (NorSystem.start (norInitfunc oneSectorCache))
            (betweenTransferAndClear ++ List.replicate 10 NorEvent.access ++
              List.replicate 7 NorEvent.flush) =
          some system ∧
        (system.access = none ∧ system.flush = none ∧ system.pending = []) ∧
        (norCacheFlush system.cache).disc 0 = [1] ∧
        lastCopied (fun _ => [0]) system.copied 0 = [2] :=
    Run.exists_foldlM _ (by decide +kernel)
  obtain ⟨system, along, ⟨noAccess, noFlush, noPending⟩, lost⟩ := folded
  exact ⟨system, Run.enabled_foldlM along, ⟨noAccess, noFlush, noPending⟩, lost⟩

end IteSdk.Fat
