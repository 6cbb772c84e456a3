import IteSdk.Fat.NorCacheThreads
import Mathlib.Data.List.Perm.Basic
import Mathlib.Data.Option.Basic

/-!
# The holder of `accessMutex`

What the holder of one lock knows survives the steps of the holder of the other.
The steps of a read or a write keep the invariant.
-/

namespace IteSdk.Fat

open Lib

/-! ## What one lock leaves alone -/

structure NorCacheEntry.Cleaner (entry after : NorCacheEntry) : Prop where
  sector : after.sector = entry.sector
  count : after.count = entry.count
  cache : after.cache = entry.cache
  dirty : after.dirty = true → entry.dirty = true

/-- The holder of `accessMutex` moves and cleans no dirty entry. -/
def NorCacheEntry.KeptDirty (entry after : NorCacheEntry) : Prop :=
  entry.dirty = true → after.dirty = true ∧ after.sector = entry.sector ∧ after.count = entry.count

def EntriesRel (related : NorCacheEntry → NorCacheEntry → Prop) (cache after : NorCache) : Prop :=
  ∀ i : Nat, Option.Rel related cache.cacheEntries[i]? after.cacheEntries[i]?

section Frames

variable {related : NorCacheEntry → NorCacheEntry → Prop}
  {cache after : NorCache} {index : Nat} {entry : NorCacheEntry}

theorem NorCacheEntry.Cleaner.refl (entry : NorCacheEntry) : entry.Cleaner entry :=
  ⟨rfl, rfl, rfl, id⟩

theorem NorCacheEntry.Cleaner.cleaned (entry : NorCacheEntry) : entry.Cleaner entry.cleaned :=
  ⟨rfl, rfl, rfl, nofun⟩

theorem NorCacheEntry.KeptDirty.refl (entry : NorCacheEntry) : entry.KeptDirty entry :=
  fun dirty => ⟨dirty, rfl, rfl⟩

theorem EntriesRel.setEntry
    (unchanged : ∀ entry, related entry entry) {change : NorCacheEntry → NorCacheEntry}
    (changed : ∀ entry, cache.cacheEntries[index]? = some entry → related entry (change entry)) :
    EntriesRel related cache (cache.setEntry index change) := by
  intro i
  rw [NorCache.setEntry, List.getElem?_modify]
  cases was : cache.cacheEntries[i]? with
  | none => exact Option.Rel.none
  | some entry =>
    by_cases here : index = i
    · subst here
      rw [Option.map_eq_map, Option.map_some, if_pos rfl]
      exact Option.Rel.some (changed entry was)
    · rw [Option.map_eq_map, Option.map_some, if_neg here]
      exact Option.Rel.some (unchanged entry)

theorem EntriesRel.of_same (unchanged : ∀ entry, related entry entry)
    (same : after.cacheEntries = cache.cacheEntries) :
    EntriesRel related cache after := by
  intro i
  rw [same]
  cases cache.cacheEntries[i]? with
  | none => exact Option.Rel.none
  | some entry => exact Option.Rel.some (unchanged entry)

theorem EntriesRel.forward (rel : EntriesRel related cache after)
    (present : cache.cacheEntries[index]? = some entry) :
    ∃ other, after.cacheEntries[index]? = some other ∧ related entry other := by
  have here := rel index
  rw [present] at here
  cases found : after.cacheEntries[index]? with
  | none =>
    rw [found] at here
    cases here
  | some other =>
    rw [found] at here
    cases here with
    | some holds => exact ⟨other, rfl, holds⟩

theorem EntriesRel.backward (rel : EntriesRel related cache after)
    (present : after.cacheEntries[index]? = some entry) :
    ∃ before, cache.cacheEntries[index]? = some before ∧ related before entry := by
  have here := rel index
  rw [present] at here
  cases found : cache.cacheEntries[index]? with
  | none =>
    rw [found] at here
    cases here
  | some before =>
    rw [found] at here
    cases here with
    | some holds => exact ⟨before, rfl, holds⟩

end Frames

section Knowledge

variable {geometry : NorGeometry} {cache after : NorCache}
  {content : Nat → Sector} {job : NorJob}

theorem NorCacheEntry.Cleaner.covers {entry other : NorCacheEntry}
    (cleaner : entry.Cleaner other) (address : Nat) :
    other.Covers address ↔ entry.Covers address := by
  rw [NorCacheEntry.Covers, NorCacheEntry.Covers, cleaner.sector, cleaner.count]

theorem Loaded.cleaner {oldUsed sector count : Nat}
    (loaded : Loaded geometry cache content job oldUsed sector count)
    (rel : EntriesRel NorCacheEntry.Cleaner cache after) :
    Loaded geometry after content job oldUsed sector count where
  page := loaded.page
  above := loaded.above
  below := loaded.below
  unheld := by
    intro i entry present different
    obtain ⟨before, was, cleaner⟩ := rel.backward present
    rw [cleaner.sector]
    exact loaded.unheld i before was different
  entry := by
    obtain ⟨entry, present, clean, data⟩ := loaded.entry
    obtain ⟨other, now, cleaner⟩ := rel.forward present
    refine ⟨other, now, ?_, ?_⟩
    · by_contra dirty
      have was := cleaner.dirty (by simpa using dirty)
      rw [clean] at was
      cases was
    · intro offset inside
      rw [cleaner.cache]
      exact data offset inside

theorem AccessPc.Knows.cleaner {pc : AccessPc} (knows : pc.Knows geometry cache content job)
    (rel : EntriesRel NorCacheEntry.Cleaner cache after) :
    pc.Knows geometry after content job := by
  have uncovered :
      (∀ (k : Nat) entry, cache.cacheEntries[k]? = some entry → ¬ entry.Covers job.sector) →
      ∀ (k : Nat) entry, after.cacheEntries[k]? = some entry → ¬ entry.Covers job.sector := by
    intro none k entry present
    obtain ⟨before, was, cleaner⟩ := rel.backward present
    rw [cleaner.covers]
    exact none k before was
  have covering :
      ∀ index : Nat,
        (∃ entry, cache.cacheEntries[index]? = some entry ∧ entry.Covers job.sector) →
        ∃ entry, after.cacheEntries[index]? = some entry ∧ entry.Covers job.sector := by
    intro index held
    obtain ⟨entry, present, covers⟩ := held
    obtain ⟨other, now, cleaner⟩ := rel.forward present
    exact ⟨other, now, (cleaner.covers _).mpr covers⟩
  have victim :
      ∀ (oldUsed : Nat) (foundFree : Bool),
        (∃ entry, cache.cacheEntries[oldUsed]? = some entry ∧
          (foundFree = true → entry.sector = cacheFree)) →
        ∃ entry, after.cacheEntries[oldUsed]? = some entry ∧
          (foundFree = true → entry.sector = cacheFree) := by
    intro oldUsed foundFree held
    obtain ⟨entry, present, free⟩ := held
    obtain ⟨other, now, cleaner⟩ := rel.forward present
    refine ⟨other, now, fun found => ?_⟩
    rw [cleaner.sector]
    exact free found
  cases pc with
  | findPage i | setDirty index | unlock => trivial
  | scan i foundFree oldUsed oldAccess =>
    refine ⟨?_, victim _ _ knows.2⟩
    intro k before entry present
    obtain ⟨earlier, was, cleaner⟩ := rel.backward present
    rw [cleaner.covers]
    exact knows.1 k before earlier was
  | checkDirty foundFree oldUsed =>
    exact ⟨uncovered knows.1, victim _ _ knows.2⟩
  | flushing oldUsed =>
    obtain ⟨none, entry, present⟩ := knows
    obtain ⟨other, now, _⟩ := rel.forward present
    exact ⟨uncovered none, other, now⟩
  | load oldUsed =>
    obtain ⟨none, entry, present, clean⟩ := knows
    obtain ⟨other, now, cleaner⟩ := rel.forward present
    refine ⟨uncovered none, other, now, ?_⟩
    by_contra dirty
    have was := cleaner.dirty (by simpa using dirty)
    rw [clean] at was
    cases was
  | setSector oldUsed sector count => exact Loaded.cleaner knows rel
  | setCount oldUsed count =>
    have loaded :
        Loaded geometry cache content job oldUsed (cache.entry oldUsed).sector count := knows
    obtain ⟨entry, present, _⟩ := loaded.entry
    obtain ⟨other, now, cleaner⟩ := rel.forward present
    rw [entry_eq present, ← cleaner.sector, ← entry_eq now] at loaded
    exact loaded.cleaner rel
  | setLastAccess index | found index | copy index => exact covering index knows

theorem AccessTurn.Sound.cleaner {turn : AccessTurn} (sound : turn.Sound geometry cache content)
    (rel : EntriesRel NorCacheEntry.Cleaner cache after) :
    turn.Sound geometry after content :=
  { sound with knows := sound.knows.cleaner rel }

theorem NorCache.IsDirty.kept (rel : EntriesRel NorCacheEntry.KeptDirty cache after) {index : Nat}
    (dirty : cache.IsDirty index) :
    after.IsDirty index ∧ (after.entry index).sector = (cache.entry index).sector ∧
      (after.entry index).count = (cache.entry index).count := by
  obtain ⟨entry, present, isDirty⟩ := dirty
  obtain ⟨other, now, kept⟩ := rel.forward present
  obtain ⟨otherDirty, sector, count⟩ := kept isDirty
  rw [entry_eq present, entry_eq now]
  exact ⟨⟨other, now, otherDirty⟩, sector, count⟩

theorem FlushPc.Knows.kept {pc : FlushPc} (knows : pc.Knows cache)
    (rel : EntriesRel NorCacheEntry.KeptDirty cache after) :
    pc.Knows after := by
  cases pc with
  | readDirty rounds j flushIndex flushSector =>
    exact fun index found => (NorCache.IsDirty.kept rel (knows index found)).1
  | compareSector rounds j flushIndex flushSector =>
    exact ⟨(NorCache.IsDirty.kept rel knows.1).1,
      fun index found => (NorCache.IsDirty.kept rel (knows.2 index found)).1⟩
  | takeSector rounds j | readSector rounds index | clear rounds index =>
    exact (NorCache.IsDirty.kept rel knows).1
  | readCount rounds index sector =>
    obtain ⟨dirty, sectorEq⟩ := knows
    obtain ⟨stays, sameSector, _⟩ := NorCache.IsDirty.kept rel dirty
    exact ⟨stays, sectorEq.trans sameSector.symm⟩
  | transfer rounds index sector count =>
    obtain ⟨dirty, sectorEq, countEq⟩ := knows
    obtain ⟨stays, sameSector, sameCount⟩ := NorCache.IsDirty.kept rel dirty
    exact ⟨stays, sectorEq.trans sameSector.symm, countEq.trans sameCount.symm⟩
  | unlock => trivial

end Knowledge

/-! ## Steps under `accessMutex` -/

theorem NorJob.stores_advance (job : NorJob) {count : Nat} (enough : count ≤ job.numSectors) :
    addressed job.sector (job.taken count) ++ (job.advance count).stores = job.stores := by
  cases job with
  | read sector numSectors => rfl
  | write sector src =>
    have taken : (src.take count).length = count := List.length_take_of_le enough
    have parts := addressed_append sector (src.take count) (src.drop count)
    rw [taken, List.take_append_drop] at parts
    exact parts.symm

theorem NorJob.sector_advance (job : NorJob) (count : Nat) :
    (job.advance count).sector = job.sector + count := by
  cases job <;> rfl

theorem NorJob.numSectors_advance (job : NorJob) (count : Nat) :
    (job.advance count).numSectors = job.numSectors - count := by
  cases job with
  | read sector numSectors => rfl
  | write sector src => exact List.length_drop

theorem NorJob.length_taken (job : NorJob) (count : Nat) : (job.taken count).length ≤ count := by
  cases job with
  | read sector numSectors => exact Nat.zero_le count
  | write sector src => exact List.length_take_le count src

theorem getElem?_setEntry_self {cache : NorCache} {index : Nat}
    {entry : NorCacheEntry} (present : cache.cacheEntries[index]? = some entry)
    (change : NorCacheEntry → NorCacheEntry) :
    (cache.setEntry index change).cacheEntries[index]? = some (change entry) :=
  getElem?_setEntry.mpr ⟨entry, present, (if_pos rfl).symm⟩

theorem getElem?_entry {cache : NorCache} {index : Nat} (inside : index < cache.numberOfPages) :
    cache.cacheEntries[index]? = some (cache.entry index) := by
  have present := List.getElem?_eq_getElem inside
  rw [entry_eq present]
  exact present

namespace NorSystem

variable {geometry : NorGeometry} {disc : Nat → Sector}
  {system after : NorSystem} {turn : AccessTurn}

theorem view_eq (held : system.access = some turn) : system.view = turn.pc.view system.cache := by
  rw [view, held]

theorem outstanding_eq (held : system.access = some turn) :
    system.outstanding = turn.job.stores ++ system.pending.flatMap NorJob.stores := by
  rw [outstanding, held, Option.elim_some]

variable {job : NorJob} {loopDetect index : Nat}

theorem turnCount_spec {entry : NorCacheEntry}
    (covers : entry.Covers job.sector) (positive : 0 < job.numSectors) :
    0 < turnCount entry job ∧ turnCount entry job ≤ job.numSectors ∧
      job.sector + turnCount entry job ≤ entry.sector + entry.count := by
  obtain ⟨above, below⟩ := covers
  rw [turnCount]
  split <;> omega

section

variable (sound : system.Sound geometry disc)

include sound

theorem Sound.ofAccess (held : system.access = some turn)
    (busy : ∀ oldUsed, turn.pc ≠ .flushing oldUsed) {cache : NorCache} {later : AccessTurn}
    {copied : List (Nat × List Sector)}
    (kept : EntriesRel NorCacheEntry.KeptDirty system.cache cache)
    (coherent : Coherent geometry (later.pc.view cache) (lastCopied disc copied))
    (knows : later.Sound geometry cache (lastCopied disc copied))
    (stores :
      copied.flatMap (fun piece => addressed piece.1 piece.2) ++ later.job.stores =
        system.copied.flatMap (fun piece => addressed piece.1 piece.2) ++ turn.job.stores) :
    Sound geometry disc { system with cache := cache, access := some later, copied := copied }
    where
  coherent := coherent
  access := by
    intro other same
    obtain rfl : later = other := Option.some.inj same
    exact knows
  flush := fun flush running => (sound.flush flush running).kept kept
  nested := by
    intro flush running nested
    obtain ⟨⟨access, oldUsed, waits, atFlush⟩, _⟩ := sound.nested flush running nested
    obtain rfl : turn = access := Option.some.inj (held.symm.trans waits)
    exact absurd atFlush (busy oldUsed)
  pending := sound.pending
  copied := by
    have before := sound.copied
    rw [outstanding_eq held, ← List.append_assoc, ← stores, List.append_assoc] at before
    exact before

theorem Sound.setTurn (held : system.access = some turn)
    (busy : ∀ oldUsed, turn.pc ≠ .flushing oldUsed) (before : ¬ turn.pc.Behind) (pc : AccessPc)
    (front : ¬ pc.Behind) (sameView : pc.view system.cache = turn.pc.view system.cache)
    (knows : pc.Knows geometry system.cache (lastCopied disc system.copied) turn.job) :
    Sound geometry disc (system.setTurn turn pc) := by
  have turnSound := sound.access turn held
  have coherent := sound.coherent
  rw [view_eq held, ← sameView] at coherent
  exact sound.ofAccess held busy (EntriesRel.of_same NorCacheEntry.KeptDirty.refl rfl) coherent
    ⟨turnSound.within, fun _ => turnSound.waiting before, fun behind => absurd behind front, knows⟩
    rfl

theorem Sound.setCache (held : system.access = some turn)
    (busy : ∀ oldUsed, turn.pc ≠ .flushing oldUsed) (before : ¬ turn.pc.Behind) {cache : NorCache}
    {pc : AccessPc} (front : ¬ pc.Behind)
    (kept : EntriesRel NorCacheEntry.KeptDirty system.cache cache)
    (coherent : Coherent geometry (pc.view cache) (lastCopied disc system.copied))
    (knows : pc.Knows geometry cache (lastCopied disc system.copied) turn.job) :
    Sound geometry disc (system.setCache turn cache pc) := by
  have turnSound := sound.access turn held
  exact sound.ofAccess held busy kept coherent
    ⟨turnSound.within, fun _ => turnSound.waiting before, fun behind => absurd behind front, knows⟩
    rfl

theorem Sound.findPage {loopDetect i : Nat}
    (held : system.access = some ⟨job, loopDetect, .findPage i⟩)
    (step : system.accessNext ⟨job, loopDetect, .findPage i⟩ = some after) :
    after.Sound geometry disc := by
  have coherent := sound.coherent
  rw [view_eq held] at coherent
  have goOn := sound.setTurn held (fun _ => by simp) id
  rw [accessNext] at step
  dsimp only at step
  split at step
  · rename_i inside
    have present := getElem?_entry inside
    split at step
    · rename_i covers
      obtain rfl := Option.some.inj step
      have held : (system.cache.entry i).Covers job.sector := by
        obtain ⟨_, above, below, _⟩ := covers
        exact ⟨by omega, by omega⟩
      exact goOn _ id rfl ⟨_, present, held⟩
    · obtain rfl := Option.some.inj step
      exact goOn _ id rfl trivial
  · obtain rfl := Option.some.inj step
    refine goOn _ id rfl ⟨?_, ?_⟩
    · intro k before
      cases before
    · exact ⟨_, List.getElem?_eq_getElem coherent.nonempty, by simp⟩

theorem Sound.scan {loopDetect i oldUsed oldAccess : Nat} {foundFree : Bool}
    (held : system.access = some ⟨job, loopDetect, .scan i foundFree oldUsed oldAccess⟩)
    (step : system.accessNext ⟨job, loopDetect, .scan i foundFree oldUsed oldAccess⟩ = some after) :
    after.Sound geometry disc := by
  have coherent := sound.coherent
  rw [view_eq held] at coherent
  obtain ⟨uncovered, victim⟩ := (sound.access _ held).knows
  have goOn := sound.setTurn held (fun _ => by simp) id
  rw [accessNext] at step
  dsimp only at step
  split at step
  · rename_i inside
    have present := getElem?_entry inside
    split at step
    · rename_i covers
      obtain rfl := Option.some.inj step
      refine sound.setCache held (fun _ => by simp)
        id id ?_
        (coherent.touch present _) ?_
      · exact EntriesRel.setEntry NorCacheEntry.KeptDirty.refl fun _ _ dirty => ⟨dirty, rfl, rfl⟩
      · exact ⟨_, getElem?_setEntry_self present _, covers⟩
    · rename_i notCovering
      have further :
          ∀ k < i + 1, ∀ entry,
            system.cache.cacheEntries[k]? = some entry → ¬ entry.Covers job.sector := by
        intro k before entry was
        by_cases last : k = i
        · subst last
          obtain rfl := Option.some.inj (present.symm.trans was)
          exact notCovering
        · exact uncovered k (by omega) entry was
      split at step
      · obtain rfl := Option.some.inj step
        refine goOn _ id rfl ⟨further, ?_⟩
        exact ⟨_, present, fun free => of_decide_eq_true free⟩
      · obtain rfl := Option.some.inj step
        exact goOn _ id rfl ⟨further, victim⟩
  · rename_i outside
    obtain rfl := Option.some.inj step
    refine goOn _ id rfl ⟨?_, victim⟩
    intro k entry was
    have inside : k < system.cache.cacheEntries.length := (List.getElem?_eq_some_iff.mp was).1
    have atEnd : system.cache.cacheEntries.length ≤ i := Nat.not_lt.mp outside
    exact uncovered k (by omega) entry was

theorem Sound.checkDirty {loopDetect oldUsed : Nat} {foundFree : Bool}
    (held : system.access = some ⟨job, loopDetect, .checkDirty foundFree oldUsed⟩)
    (step : system.accessNext ⟨job, loopDetect, .checkDirty foundFree oldUsed⟩ = some after) :
    after.Sound geometry disc := by
  have coherent := sound.coherent
  rw [view_eq held] at coherent
  obtain ⟨uncovered, entry, present, free⟩ := (sound.access _ held).knows
  have goOn := sound.setTurn held (fun _ => by simp) id
  rw [accessNext] at step
  dsimp only at step
  rw [entry_eq present] at step
  split at step
  · obtain rfl := Option.some.inj step
    exact goOn _ id rfl ⟨uncovered, entry, present⟩
  · rename_i noFlush
    obtain rfl := Option.some.inj step
    refine goOn _ id rfl ⟨uncovered, entry, present, ?_⟩
    cases foundFree with
    | true => exact (coherent.pages.free _ entry present (free rfl)).2
    | false => simpa using noFlush

theorem Sound.load {loopDetect oldUsed : Nat}
    (held : system.access = some ⟨job, loopDetect, .load oldUsed⟩)
    (step : system.accessNext ⟨job, loopDetect, .load oldUsed⟩ = some after) :
    after.Sound geometry disc := by
  have coherent := sound.coherent
  rw [view_eq held] at coherent
  have turnSound := sound.access _ held
  obtain ⟨uncovered, entry, present, clean⟩ := turnSound.knows
  have inside : job.sector ≤ geometry.endOfPartition := by
    have positive : 0 < job.numSectors := (turnSound.waiting id).1
    have within : job.sector + job.numSectors ≤ geometry.endOfPartition + 1 := turnSound.within
    omega
  obtain ⟨read, readEq⟩ : ∃ read, read = page system.cache job.sector := ⟨_, rfl⟩
  have isRead :
      geometry.IsPage read.1 read.2 ∧ read.1 ≤ job.sector ∧ job.sector < read.1 + read.2 := by
    have sameEnd : system.cache.endOfPartition = _ := coherent.sameEnd
    have samePage : system.cache.sectorsPerPage = _ := coherent.samePage
    rw [readEq, page, sameEnd, samePage]
    obtain ⟨isPage, above, below⟩ := geometry.isPage_load inside rfl rfl
    exact ⟨isPage, above, by dsimp only; omega⟩
  obtain ⟨isPage, above, below⟩ := isRead
  have unheld :
      ∀ (i : Nat) other, system.cache.cacheEntries[i]? = some other → other.sector ≠ read.1 := by
    intro i other was same
    have otherPage := coherent.pages.page i other was (by rw [same]; exact isPage.live)
    rw [same] at otherPage
    have sameCount := otherPage.count_eq isPage
    have covers : other.Covers job.sector := ⟨by omega, by omega⟩
    exact uncovered i other was covers
  rw [accessNext] at step
  obtain rfl := Option.some.inj step
  rw [← readEq]
  refine sound.setCache held (fun _ => by simp) id id ?_ ?_ ?_
  · refine EntriesRel.setEntry NorCacheEntry.KeptDirty.refl ?_
    intro other was dirty
    exact ⟨dirty, rfl, rfl⟩
  · rw [AccessPc.view, setEntry_setEntry]
    have hidden :=
      coherent.hide present clean (patch entry.cache 0 (window system.cache.disc read.1 read.2))
    rw [setEntry_congr present]
    · exact hidden
    · rfl
  · refine ⟨isPage, above, below, ?_, ?_⟩
    · intro i other was different
      obtain ⟨before, wasBefore, rfl⟩ := getElem?_setEntry.mp was
      rw [if_neg fun same => different same.symm]
      exact unheld i before wasBefore
    · refine ⟨_, getElem?_setEntry_self present _, clean, fun offset offsetInside => ?_⟩
      have copied :
          patch entry.cache 0 (window system.cache.disc read.1 read.2) (0 + offset) =
            system.cache.disc (read.1 + offset) :=
        patch_window entry.cache system.cache.disc read.1 offsetInside
      rw [Nat.zero_add] at copied
      rw [← coherent.untouched isPage unheld (Nat.le_add_right _ _)
        (Nat.add_lt_add_left offsetInside _)]
      exact copied

theorem Sound.setSector {loopDetect oldUsed sector count : Nat}
    (held : system.access = some ⟨job, loopDetect, .setSector oldUsed sector count⟩)
    (step : system.accessNext ⟨job, loopDetect, .setSector oldUsed sector count⟩ = some after) :
    after.Sound geometry disc := by
  have coherent := sound.coherent
  rw [view_eq held] at coherent
  have loaded :
      Loaded geometry system.cache (lastCopied disc system.copied) job oldUsed sector count :=
    (sound.access _ held).knows
  obtain ⟨entry, present, clean, data⟩ := loaded.entry
  have replaced := getElem?_setEntry_self present fun other => { other with sector := sector }
  rw [accessNext] at step
  obtain rfl := Option.some.inj step
  refine sound.setCache held (fun _ => by simp) id id ?_ ?_ ?_
  · refine EntriesRel.setEntry NorCacheEntry.KeptDirty.refl ?_
    intro other was dirty
    obtain rfl : entry = other := Option.some.inj (present.symm.trans was)
    rw [clean] at dirty
    cases dirty
  · rw [AccessPc.view, setEntry_setEntry]
    exact coherent
  · have sectorEq := congrArg NorCacheEntry.sector (entry_eq replaced)
    dsimp only at sectorEq
    rw [AccessPc.Knows, sectorEq]
    refine { loaded with unheld := ?_, entry := ⟨_, replaced, clean, data⟩ }
    intro i other was different
    obtain ⟨before, wasBefore, rfl⟩ := getElem?_setEntry.mp was
    rw [if_neg fun same => different same.symm]
    exact loaded.unheld i before wasBefore different

theorem Sound.setCount {loopDetect oldUsed count : Nat}
    (held : system.access = some ⟨job, loopDetect, .setCount oldUsed count⟩)
    (step : system.accessNext ⟨job, loopDetect, .setCount oldUsed count⟩ = some after) :
    after.Sound geometry disc := by
  have coherent := sound.coherent
  rw [view_eq held] at coherent
  have loaded :
      Loaded geometry system.cache (lastCopied disc system.copied) job oldUsed
        (system.cache.entry oldUsed).sector count :=
    (sound.access _ held).knows
  obtain ⟨entry, present, clean, data⟩ := loaded.entry
  rw [entry_eq present] at loaded data
  have hidden :
      (system.cache.setEntry oldUsed
          NorCacheEntry.hidden).cacheEntries[oldUsed]? = some entry.hidden :=
    getElem?_setEntry_self present _
  have revealed :=
    Coherent.reveal coherent hidden clean loaded.page
      (by
        intro i other was
        obtain ⟨before, wasBefore, rfl⟩ := getElem?_setEntry.mp was
        by_cases here : oldUsed = i
        · rw [if_pos here]
          exact fun same => loaded.page.live same.symm
        · rw [if_neg here]
          exact loaded.unheld i before wasBefore fun same => here same.symm)
      data
  rw [AccessPc.view, setEntry_setEntry] at revealed
  have counted :
      Coherent geometry
        (system.cache.setEntry oldUsed fun other =>
          { other with count := count })
        (lastCopied disc system.copied) := by
    rw [setEntry_congr present]
    · exact revealed
    · rfl
  rw [accessNext] at step
  obtain rfl := Option.some.inj step
  refine sound.setCache held (fun _ => by simp) id id ?_ ?_ ?_
  · refine EntriesRel.setEntry NorCacheEntry.KeptDirty.refl ?_
    intro other was dirty
    obtain rfl : entry = other := Option.some.inj (present.symm.trans was)
    rw [clean] at dirty
    cases dirty
  · exact counted
  · exact ⟨_, getElem?_setEntry_self present _, loaded.above, loaded.below⟩

theorem Sound.setLastAccess (held : system.access = some ⟨job, loopDetect, .setLastAccess index⟩)
    (step : system.accessNext ⟨job, loopDetect, .setLastAccess index⟩ = some after) :
    after.Sound geometry disc := by
  have coherent := sound.coherent
  rw [view_eq held] at coherent
  obtain ⟨entry, present, covers⟩ := (sound.access _ held).knows
  rw [accessNext] at step
  obtain rfl := Option.some.inj step
  refine sound.setCache held (fun _ => by simp) id id ?_ (coherent.touch present _) ?_
  · exact EntriesRel.setEntry NorCacheEntry.KeptDirty.refl fun _ _ dirty => ⟨dirty, rfl, rfl⟩
  · exact ⟨_, getElem?_setEntry_self present _, covers⟩

theorem Sound.found (held : system.access = some ⟨job, loopDetect, .found index⟩)
    (step : system.accessNext ⟨job, loopDetect, .found index⟩ = some after) :
    after.Sound geometry disc := by
  have coherent := sound.coherent
  rw [view_eq held] at coherent
  have turnSound := sound.access _ held
  obtain ⟨entry, present, covers⟩ := turnSound.knows
  obtain ⟨positive, sameCount⟩ := turnSound.waiting id
  obtain ⟨goesOn, enough, _⟩ := turnCount_spec covers positive
  rw [accessNext] at step
  dsimp only at step
  rw [entry_eq present] at step
  cases job with
  | read sector numSectors =>
    obtain rfl := Option.some.inj step
    refine sound.ofAccess held (fun _ => by simp)
      (EntriesRel.of_same NorCacheEntry.KeptDirty.refl rfl) coherent
      ⟨?_, fun front => absurd trivial front, fun _ => ?_, trivial⟩ rfl
    · have within := turnSound.within
      rw [NorJob.Within] at within ⊢
      rw [NorJob.sector_advance, NorJob.numSectors_advance]
      dsimp only at within enough ⊢
      omega
    · rw [NorJob.numSectors_advance]
      dsimp only at positive sameCount goesOn ⊢
      omega
  | write sector src =>
    have notBefore : ¬ sector < entry.sector := Nat.not_lt.mpr covers.1
    dsimp only at step
    rw [if_neg notBefore] at step
    obtain rfl := Option.some.inj step
    exact sound.setTurn held (fun _ => by simp) id _ id rfl ⟨entry, present, covers⟩

theorem Sound.copy (held : system.access = some ⟨job, loopDetect, .copy index⟩)
    (step : system.accessNext ⟨job, loopDetect, .copy index⟩ = some after) :
    after.Sound geometry disc := by
  have coherent := sound.coherent
  rw [view_eq held] at coherent
  have turnSound := sound.access _ held
  obtain ⟨entry, present, covers⟩ := turnSound.knows
  obtain ⟨positive, sameCount⟩ := turnSound.waiting id
  obtain ⟨goesOn, enough, inside⟩ := turnCount_spec covers positive
  have fits :
      job.sector + (job.taken (turnCount entry job)).length ≤ entry.sector + entry.count :=
    (Nat.add_le_add_left (job.length_taken _) job.sector).trans inside
  have written := Coherent.writeEntry coherent present covers fits
  rw [accessNext] at step
  dsimp only at step
  rw [entry_eq present] at step
  obtain rfl := Option.some.inj step
  refine sound.ofAccess held (fun _ => by simp) ?_ ?_
    ⟨?_, fun front => absurd trivial front, fun _ => ?_, trivial⟩ ?_
  · exact EntriesRel.setEntry NorCacheEntry.KeptDirty.refl fun _ _ dirty => ⟨dirty, rfl, rfl⟩
  · rw [AccessPc.view, setEntry_setEntry, lastCopied, List.foldl_append, setEntry_congr present]
    · exact written
    · rfl
  · have within := turnSound.within
    rw [NorJob.Within] at within ⊢
    rw [NorJob.sector_advance, NorJob.numSectors_advance]
    dsimp only at within enough ⊢
    omega
  · rw [NorJob.numSectors_advance]
    dsimp only at positive sameCount goesOn ⊢
    omega
  · rw [List.flatMap_append, List.append_assoc]
    have advanced := job.stores_advance enough
    simpa using advanced

theorem Sound.setDirty (held : system.access = some ⟨job, loopDetect, .setDirty index⟩)
    (step : system.accessNext ⟨job, loopDetect, .setDirty index⟩ = some after) :
    after.Sound geometry disc := by
  have coherent := sound.coherent
  rw [view_eq held] at coherent
  have turnSound := sound.access _ held
  rw [accessNext] at step
  obtain rfl := Option.some.inj step
  refine sound.ofAccess held (fun _ => by simp) ?_ coherent
    ⟨turnSound.within, fun front => absurd trivial front,
      fun _ => turnSound.served trivial, trivial⟩ rfl
  exact EntriesRel.setEntry NorCacheEntry.KeptDirty.refl fun _ _ _ => ⟨rfl, rfl, rfl⟩

theorem Sound.unlockAccess {loopDetect : Nat}
    (held : system.access = some ⟨job, loopDetect, .unlock⟩)
    (step : system.accessNext ⟨job, loopDetect, .unlock⟩ = some after) :
    after.Sound geometry disc := by
  have coherent := sound.coherent
  rw [view_eq held] at coherent
  have turnSound := sound.access _ held
  have progress : job.numSectors < loopDetect := turnSound.served trivial
  have ends : job.Ends loopDetect ↔ job.numSectors = 0 := by
    cases job with
    | read sector numSectors => exact Iff.rfl
    | write sector src =>
      have shorter : src.length < loopDetect := progress
      rw [NorJob.Ends, NorJob.numSectors]
      omega
  have nested :
      ∀ turn, system.flush = some turn → turn.nested = true → False := by
    intro turn running isNested
    obtain ⟨⟨access, oldUsed, waits, atFlush⟩, _⟩ := sound.nested turn running isNested
    obtain rfl := Option.some.inj (held.symm.trans waits)
    cases atFlush
  have copied := sound.copied
  rw [outstanding_eq held] at copied
  rw [accessNext] at step
  dsimp only at step
  obtain rfl := Option.some.inj step
  refine ⟨coherent, ?_, sound.flush,
    fun turn running isNested => (nested turn running isNested).elim, ?_, ?_⟩
  · intro turn impossible
    cases impossible
  · intro other waits
    split at waits
    · exact sound.pending other waits
    · rename_i goesOn
      rcases List.mem_cons.mp waits with here | before
      · subst here
        rw [ends] at goesOn
        exact ⟨turnSound.within, Nat.pos_of_ne_zero goesOn⟩
      · exact sound.pending other before
  · rw [outstanding]
    dsimp only
    split
    · rename_i done
      rw [ends] at done
      have nothing : job.stores = [] := by
        cases job with
        | read sector numSectors => rfl
        | write sector src =>
          obtain rfl := List.length_eq_zero_iff.mp done
          rfl
      rw [nothing] at copied
      exact copied
    · exact copied

end

end NorSystem

end IteSdk.Fat
