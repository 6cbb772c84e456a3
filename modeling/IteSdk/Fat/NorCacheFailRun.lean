import IteSdk.Lib.Transition
import IteSdk.Fat.NorCacheFail

/-!
# Runs of the NOR cache over a disc that fails

A flush that fails leaves the cache coherent, for what was not written back is
still dirty.  What `_NOR_cache_getPage` does after that is where pages are lost.
-/

namespace IteSdk.Fat

open Lib

theorem norCacheLowestDirty_least (entries : List NorCacheEntry) (j : Nat) (flushIndex : Option Nat)
    (flushSector : Nat) {index : Nat}
    (found : norCacheLowestDirty entries j flushIndex flushSector = some index) :
    (flushIndex = some index ∧
        ∀ other ∈ entries, other.dirty = true → flushSector ≤ other.sector) ∨
      ∃ k entry, entries[k]? = some entry ∧ entry.dirty = true ∧
        index = j + k ∧ entry.sector < flushSector ∧
        ∀ other ∈ entries, other.dirty = true → entry.sector ≤ other.sector := by
  induction entries generalizing j flushIndex flushSector with
  | nil => exact Or.inl ⟨found, by simp⟩
  | cons entry rest ih =>
    rw [norCacheLowestDirty] at found
    split at found
    · rename_i lower
      right
      rcases ih _ _ _ found with here | later
      · obtain ⟨here, least⟩ := here
        refine ⟨0, entry, rfl, lower.1, (Option.some.inj here).symm, lower.2, ?_⟩
        exact List.forall_mem_cons.mpr ⟨fun _ => Nat.le_refl _, least⟩
      · obtain ⟨k, other, present, dirty, rfl, below, least⟩ := later
        refine ⟨k + 1, other, present, dirty, by omega, Nat.lt_trans below lower.2, ?_⟩
        exact List.forall_mem_cons.mpr ⟨fun _ => Nat.le_of_lt below, least⟩
    · rename_i skipped
      have head : entry.dirty = true → flushSector ≤ entry.sector := by
        intro dirty
        by_contra lower
        exact skipped ⟨dirty, by omega⟩
      rcases ih _ _ _ found with before | later
      · exact Or.inl ⟨before.1, List.forall_mem_cons.mpr ⟨head, before.2⟩⟩
      · obtain ⟨k, other, present, dirty, rfl, below, least⟩ := later
        refine Or.inr ⟨k + 1, other, present, dirty, by omega, below, ?_⟩
        refine List.forall_mem_cons.mpr ⟨fun headDirty => ?_, least⟩
        have := head headDirty
        omega

variable {sector : Nat}

variable {entries : List NorCacheEntry}

theorem dirtyBelow_modify {index : Nat} {entry : NorCacheEntry}
    (present : entries[index]? = some entry) (dirty : entry.dirty = true)
    (below : entry.sector < sector) :
    dirtyBelow (entries.modify index NorCacheEntry.cleaned) sector + 1 =
      dirtyBelow entries sector := by
  induction entries generalizing index with
  | nil => simp at present
  | cons head rest ih =>
    cases index with
    | zero =>
      obtain rfl : head = entry := by simpa using present
      simp [dirtyBelow, NorCacheEntry.cleaned, dirty, below]
    | succ index =>
      have less := ih (by simpa using present)
      unfold dirtyBelow at less ⊢
      rw [List.modify_succ_cons, List.countP_cons, List.countP_cons, ← less]
      omega

theorem dirtyBelow_eq_zero (least : ∀ other ∈ entries, other.dirty = true → sector ≤ other.sector) :
    dirtyBelow entries sector = 0 := by
  rw [dirtyBelow, List.countP_eq_zero]
  intro other member
  simp only [Bool.and_eq_true, decide_eq_true_eq, not_and, Nat.not_lt]
  exact least other member

theorem writtenBack_succ {entries after : List NorCacheEntry}
    {writes : Nat → DiscAnswer} (first : (writes 0).isDone = true)
    (less : dirtyBelow after sector + 1 = dirtyBelow entries sector) :
    WrittenBack entries sector writes ↔ WrittenBack after sector fun turn => writes (turn + 1) := by
  unfold WrittenBack
  rw [← less]
  constructor
  · intro all turn below
    exact all (turn + 1) (by omega)
  · intro all turn below
    cases turn with
    | zero => exact first
    | succ turn => exact all turn (by omega)

section Coherence

variable {geometry : NorGeometry} {cache : NorCache}
  {content : Nat → Sector}

variable {entry : NorCacheEntry}

theorem Coherent.spoil (coherent : Coherent geometry cache content) {index : Nat}
    (present : cache.cacheEntries[index]? = some entry)
    (dirty : entry.dirty = true) (left : Nat → Sector) :
    Coherent geometry
      { cache with
        disc := patch cache.disc entry.sector (window left 0 entry.count) }
      content where
  sameEnd := coherent.sameEnd
  samePage := coherent.samePage
  sameSize := coherent.sameSize
  flushEnabled := coherent.flushEnabled
  nonempty := coherent.nonempty
  pages := coherent.pages
  cached := coherent.cached
  stored := by
    intro address uncovered
    show patch cache.disc entry.sector (window left 0 entry.count) address = _
    rw [patch_outside]
    · exact coherent.stored address uncovered
    · rw [length_window]
      exact uncovered index entry present dirty

theorem NorCacheEntry.cleaned_of_clean (clean : entry.dirty = false) : entry.cleaned = entry := by
  rw [NorCacheEntry.cleaned, ← clean]

/-- A flush cleans the pages that it comes to before a write fails. -/
structure FlushedBy (geometry : NorGeometry) (content : Nat → Sector)
    (before after : NorCache) (writes : Nat → DiscAnswer) : Prop where
  coherent : Coherent geometry after content
  entries : ∀ (i : Nat) entry, before.cacheEntries[i]? = some entry →
    after.cacheEntries[i]? =
      some
        (if WrittenBack before.cacheEntries entry.sector writes then
          entry.cleaned
        else
          entry)
  sameLength : after.cacheEntries.length = before.cacheEntries.length

/-- The dirty pages are written in the order of their sectors until a write
fails. -/
theorem Coherent.flushLoopBy (rounds : Nat) :
    ∀ {cache : NorCache} {writes : Nat → DiscAnswer}, Coherent geometry cache content →
      cache.cacheEntries.countP (·.dirty) ≤ rounds →
      FlushedBy geometry content cache (norCacheFlushLoopBy rounds cache writes) writes := by
  induction rounds with
  | zero =>
    intro cache writes coherent enough
    refine ⟨coherent, ?_, rfl⟩
    intro i entry present
    have clean : ∀ entry ∈ cache.cacheEntries, entry.dirty = false := by simpa using enough
    rw [NorCacheEntry.cleaned_of_clean (clean entry (List.mem_of_getElem? present)), ite_self]
    exact present
  | succ rounds ih =>
    intro cache writes coherent enough
    rw [norCacheFlushLoopBy]
    cases lowest : norCacheLowestDirty cache.cacheEntries 0 none cacheFree with
    | none =>
      refine ⟨coherent, ?_, rfl⟩
      intro i entry present
      have clean : entry.dirty = false := by
        by_contra dirty
        have isDirty : entry.dirty = true := by simpa using dirty
        have higher :=
          (norCacheLowestDirty_none _ _ _ _ lowest).2 entry (List.mem_of_getElem? present) isDirty
        have lower := coherent.live_of_dirty present isDirty
        omega
      rw [NorCacheEntry.cleaned_of_clean clean, ite_self]
      exact present
    | some index =>
      obtain ⟨k, lowestEntry, here, lowestDirty, same, -, least⟩ :=
        (norCacheLowestDirty_least _ _ _ _ lowest).resolve_left fun before => nomatch before.1
      rw [Nat.zero_add] at same
      subst same
      cases first : writes 0 with
      | failed left =>
        simp only [entry_eq here, discAfterWrite, length_window]
        refine ⟨coherent.spoil here lowestDirty left, ?_, rfl⟩
        intro i entry present
        have notWritten :
            ¬WrittenBack cache.cacheEntries entry.sector writes := by
          intro written
          have firstDone := written 0 (Nat.succ_pos _)
          rw [first] at firstDone
          cases firstDone
        rw [if_neg notWritten]
        exact present
      | done =>
        have firstDone : (writes 0).isDone = true := by
          rw [first]
          rfl
        have oneLess := countP_dirty_modify here lowestDirty
        have entries :
            (norCacheWriteBack cache index).cacheEntries =
              cache.cacheEntries.modify index NorCacheEntry.cleaned :=
          rfl
        have later :
            FlushedBy geometry content (norCacheWriteBack cache index)
              (norCacheFlushLoopBy rounds (norCacheWriteBack cache index)
                fun turn => writes (turn + 1))
              fun turn => writes (turn + 1) :=
          ih (coherent.writeBack here) (by rw [entries]; omega)
        refine ⟨later.coherent, ?_, ?_⟩
        · intro i entry present
          by_cases itself : index = i
          · subst itself
            obtain rfl : lowestEntry = entry := Option.some.inj (here.symm.trans present)
            have written :
                WrittenBack cache.cacheEntries lowestEntry.sector writes := by
              intro turn below
              rw [dirtyBelow_eq_zero least] at below
              obtain rfl : turn = 0 := by omega
              exact firstDone
            have cleaned :
                (norCacheWriteBack cache index).cacheEntries[index]? =
                  some lowestEntry.cleaned := by
              rw [entries, List.getElem?_modify, present]
              simp
            rw [later.entries index _ cleaned, if_pos written,
              NorCacheEntry.cleaned_of_clean (rfl : lowestEntry.cleaned.dirty = false), ite_self]
          · have kept :
                (norCacheWriteBack cache index).cacheEntries[i]? = some entry := by
              rw [entries, List.getElem?_modify, present]
              simp [itself]
            rw [later.entries i entry kept]
            cases dirty : entry.dirty with
            | false =>
              rw [NorCacheEntry.cleaned_of_clean dirty, ite_self, ite_self]
            | true =>
              have above : lowestEntry.sector < entry.sector := by
                have atLeast := least entry (List.mem_of_getElem? present) dirty
                have live := coherent.live_of_dirty here lowestDirty
                have different :
                    lowestEntry.sector ≠ entry.sector :=
                  fun equal =>
                    itself
                      (coherent.pages.distinct index i lowestEntry entry
                        here present (by omega) equal)
                omega
              have less := dirtyBelow_modify here lowestDirty above
              rw [← entries] at less
              simp only [writtenBack_succ firstDone less]
        · rw [later.sameLength, entries, List.length_modify]

theorem Coherent.flushBy (coherent : Coherent geometry cache content) (writes : Nat → DiscAnswer) :
    FlushedBy geometry content cache (norCacheFlushBy cache writes) writes := by
  have enabled : ¬cache.cacheValidFlush = false := by
    rw [coherent.flushEnabled]
    simp
  rw [norCacheFlushBy, if_neg enabled]
  exact Coherent.flushLoopBy _ coherent List.countP_le_length

/-! ## Fetching a page -/

theorem patch_front {α : Type} (memory left : Nat → α) (count offset : Nat) :
    patch memory 0 (window left 0 count) offset =
      if offset < count then left offset else memory offset := by
  split
  · rename_i inside
    have copied :
        patch memory 0 (window left 0 count) (0 + offset) = left (0 + offset) :=
      patch_window memory left 0 inside
    rw [Nat.zero_add] at copied
    exact copied
  · rename_i behind
    apply patch_of_ge
    rw [length_window]
    omega

theorem Coherent.pageOf {other : NorCache} (coherent : Coherent geometry cache content)
    (otherCoherent : Coherent geometry other content) (sector : Nat) :
    norCachePageOf other sector = norCachePageOf cache sector := by
  rw [norCachePageOf, norCachePageOf, otherCoherent.samePage,
    otherCoherent.sameEnd, coherent.samePage, coherent.sameEnd]

theorem Coherent.failLoad (coherent : Coherent geometry cache content)
    {index sector : Nat} {left : Nat → Sector} (present : cache.cacheEntries[index]? = some entry)
    (agree : ∀ offset, offset < entry.count →
      offset < (norCachePageOf cache sector).2 → left offset = entry.cache offset) :
    Coherent geometry (norCacheFailLoad cache index sector left) content := by
  refine coherent.setEntry present
    (coherent.pages.setEntry (fun _ => ⟨rfl, rfl⟩)
      fun entry present freed => (coherent.pages.free index entry present freed).2)
    ?_ fun _ dirty covers clean => absurd covers (clean dirty)
  intro offset offsetInside
  show patch entry.cache 0 _ offset = content (entry.sector + offset)
  rw [patch_front, ← coherent.cached index entry present offset offsetInside]
  split
  · rename_i loaded
    exact agree offset offsetInside loaded
  · rfl

/-- A page that was searched for and not found, with the entry that is to be
replaced. -/
structure Missed (cache : NorCache) (sector : Nat) (foundFree : Bool)
    (oldUsed : Nat) (entry : NorCacheEntry) : Prop where
  scan : norCacheScan sector cache.cacheEntries 0 false 0 uintMax = .victim foundFree oldUsed
  uncovered : ∀ other ∈ cache.cacheEntries, ¬other.Covers sector
  present : cache.cacheEntries[oldUsed]? = some entry
  clean : foundFree = true → entry.dirty = false

theorem Coherent.hit_or_missed (coherent : Coherent geometry cache content) (sector : Nat) :
    (∃ index entry,
        norCacheScan sector cache.cacheEntries 0 false 0 uintMax = .hit index ∧
          cache.cacheEntries[index]? = some entry ∧ entry.Covers sector) ∨
      ∃ foundFree oldUsed entry, Missed cache sector foundFree oldUsed entry := by
  rcases norCacheScan_cases sector cache.cacheEntries cache.cacheEntries []
      false 0 uintMax rfl (by simp) coherent.nonempty (by simp) with
    hit | ⟨free, index, entry, victim, uncovered, present, isFree⟩
  · exact Or.inl hit
  · refine Or.inr ⟨free, index, entry, victim, uncovered, present, ?_⟩
    intro found
    exact (coherent.pages.free index entry present (isFree found)).2

def norCacheEvicted (cache : NorCache) (foundFree : Bool) (oldUsed : Nat)
    (writes : Nat → DiscAnswer) : NorCache :=
  if foundFree = false ∧ (cache.entry oldUsed).dirty = true then
    norCacheFlushBy cache writes
  else
    cache

section Missed

variable {sector oldUsed : Nat} {foundFree : Bool} {entry : NorCacheEntry}

theorem Coherent.evicted (coherent : Coherent geometry cache content)
    (missed : Missed cache sector foundFree oldUsed entry) (writes : Nat → DiscAnswer) :
    Coherent geometry (norCacheEvicted cache foundFree oldUsed writes) content ∧
      (norCacheEvicted cache foundFree oldUsed writes).cacheEntries[oldUsed]? =
          some
            (if WrittenBack cache.cacheEntries entry.sector writes then
              entry.cleaned
            else
              entry) ∧
        ∀ (i : Nat) other,
          (norCacheEvicted cache foundFree oldUsed writes).cacheEntries[i]? = some other →
            ¬other.Covers sector := by
  unfold norCacheEvicted
  split
  · have flushed := coherent.flushBy writes
    refine ⟨flushed.coherent, flushed.entries _ _ missed.present, ?_⟩
    intro i other present covers
    have inside : i < cache.cacheEntries.length := by
      rw [← flushed.sameLength]
      exact (List.getElem?_eq_some_iff.mp present).1
    have before := List.getElem?_eq_getElem inside
    have after := flushed.entries i _ before
    have same := Option.some.inj (present.symm.trans after)
    apply missed.uncovered _ (List.mem_of_getElem? before)
    rw [same] at covers
    split at covers <;> exact covers
  · rename_i kept
    rw [entry_eq missed.present] at kept
    have clean : entry.dirty = false := by
      cases free : foundFree with
      | true => exact missed.clean free
      | false => simpa [free] using kept
    rw [NorCacheEntry.cleaned_of_clean clean, ite_self]
    exact ⟨coherent, missed.present,
      fun i other present => missed.uncovered other (List.mem_of_getElem? present)⟩

theorem norCacheGetPageBy_missed
    (missed : Missed cache sector foundFree oldUsed entry) (answers : DiscAnswers) :
    norCacheGetPageBy cache sector answers = match answers.read with
      | .done =>
        (some oldUsed,
          norCacheLoad (norCacheEvicted cache foundFree oldUsed answers.writes) oldUsed sector)
      | .failed left =>
        (none,
          norCacheFailLoad (norCacheEvicted cache foundFree oldUsed answers.writes) oldUsed
            sector left) := by
  rw [norCacheGetPageBy, missed.scan]
  rfl

theorem norCacheUnwritten_missed
    (missed : Missed cache sector foundFree oldUsed entry) (writes : Nat → DiscAnswer) :
    norCacheUnwritten cache sector writes =
      if foundFree = false ∧ entry.dirty = true ∧
          ¬WrittenBack cache.cacheEntries entry.sector writes then
        some (oldUsed, entry)
      else
        none := by
  rw [norCacheUnwritten, missed.scan]
  simp only [entry_eq missed.present]

theorem norCacheLoad_entry {now : NorCacheEntry} (sector : Nat)
    (present : cache.cacheEntries[oldUsed]? = some now) :
    ∃ loaded,
      (norCacheLoad cache oldUsed sector).cacheEntries[oldUsed]? = some loaded ∧
        loaded.sector = (norCachePageOf cache sector).1 ∧
        loaded.count = (norCachePageOf cache sector).2 := by
  refine ⟨_, getElem?_setEntry.mpr ⟨now, present, rfl⟩, ?_⟩
  rw [if_pos rfl]
  exact ⟨rfl, rfl⟩

theorem Coherent.isPage_pageOf (coherent : Coherent geometry cache content)
    (inside : sector ≤ geometry.endOfPartition) :
    geometry.IsPage (norCachePageOf cache sector).1 (norCachePageOf cache sector).2 ∧
      (norCachePageOf cache sector).1 ≤ sector ∧
        sector < (norCachePageOf cache sector).1 + (norCachePageOf cache sector).2 := by
  have page := geometry.isPage_load inside rfl rfl
  rw [norCachePageOf, coherent.samePage, coherent.sameEnd]
  dsimp only
  refine ⟨page.1, page.2.1, ?_⟩
  have below := page.2.2
  have base := page.2.1
  omega

theorem Coherent.pageOf_ne (coherent : Coherent geometry cache content)
    (missed : Missed cache sector foundFree oldUsed entry)
    (inside : sector ≤ geometry.endOfPartition) :
    (norCachePageOf cache sector).1 ≠ entry.sector := by
  intro same
  obtain ⟨page, base, below⟩ := coherent.isPage_pageOf inside
  have live : entry.sector ≠ cacheFree := by
    have fits := geometry.fits
    have positive := geometry.positive
    have baseInside := page.2.1
    rw [← same]
    simp only [cacheFree, uintMax]
    omega
  have entryPage := coherent.pages.page oldUsed entry missed.present live
  apply missed.uncovered entry (List.mem_of_getElem? missed.present)
  rw [same] at page base below
  refine ⟨base, ?_⟩
  rw [entryPage.count_eq page]
  exact below

end Missed

structure Fetched (geometry : NorGeometry) (content : Nat → Sector)
    (cache : NorCache) (sector : Nat) (answers : DiscAnswers) : Prop where
  coherent : Coherent geometry (norCacheGetPageBy cache sector answers).2 content
  covers : ∀ index,
    (norCacheGetPageBy cache sector answers).1 = some index →
      ∃ entry,
        (norCacheGetPageBy cache sector answers).2.cacheEntries[index]? = some entry ∧
          entry.Covers sector
  kept : ∀ index entry,
    norCacheUnwritten cache sector answers.writes = some (index, entry) →
      (norCacheGetPageBy cache sector answers).1 = none ∧
        ∃ now,
          (norCacheGetPageBy cache sector answers).2.cacheEntries[index]? = some now ∧
            now.sector = entry.sector ∧ now.count = entry.count ∧ now.dirty = true

variable {answers : DiscAnswers}

theorem Coherent.fetched (coherent : Coherent geometry cache content) {sector : Nat}
    (inside : sector ≤ geometry.endOfPartition) (allowed : FetchAllowed cache sector answers) :
    Fetched geometry content cache sector answers := by
  rcases coherent.hit_or_missed sector with
    ⟨index, entry, hit, present, covers⟩ | ⟨foundFree, oldUsed, entry, missed⟩
  · have found :
        norCacheGetPageBy cache sector answers =
          (some index,
            { cache.setEntry index fun entry =>
                { entry with lastAccess := accessTime cache } with
              accessCounter := accessTime cache }) := by
      rw [norCacheGetPageBy, hit]
    refine ⟨?_, ?_, ?_⟩
    · rw [found]
      exact coherent.touch present (accessTime cache)
    · intro other same
      rw [found] at same ⊢
      cases same
      refine ⟨_, getElem?_setEntry.mpr ⟨entry, present, rfl⟩, ?_⟩
      rw [if_pos rfl]
      exact covers
    · intro other entry unwritten
      rw [norCacheUnwritten, hit] at unwritten
      cases unwritten
  · obtain ⟨evicted, here, uncovered⟩ := coherent.evicted missed answers.writes
    have found := norCacheGetPageBy_missed missed answers
    have unwrittenIs := norCacheUnwritten_missed missed answers.writes
    rw [FetchAllowed, missed.scan, ScanAllowed, entry_eq missed.present]
      at allowed
    cases read : answers.read with
    | done =>
      rw [read] at allowed found
      dsimp only at allowed found
      have clean :
          (if WrittenBack cache.cacheEntries entry.sector answers.writes then
            entry.cleaned
          else
            entry).dirty = false := by
        split
        · rfl
        · rename_i notWritten
          cases free : foundFree with
          | true => exact missed.clean free
          | false =>
            by_contra dirty
            exact notWritten (allowed ⟨free, by simpa using dirty⟩)
      obtain ⟨loaded, covers⟩ := evicted.load here clean inside uncovered
      refine ⟨?_, ?_, ?_⟩
      · rw [found]
        exact loaded
      · intro index same
        rw [found] at same ⊢
        cases same
        exact covers
      · intro index other unwritten
        rw [unwrittenIs] at unwritten
        split at unwritten
        · rename_i lost
          exact absurd (allowed ⟨lost.1, lost.2.1⟩) lost.2.2
        · cases unwritten
    | failed left =>
      rw [read] at allowed found
      dsimp only at allowed found
      refine ⟨?_, ?_, ?_⟩
      · rw [found]
        apply evicted.failLoad here
        intro offset below loaded
        rw [coherent.pageOf evicted] at loaded
        split at below <;> split <;> exact allowed offset below loaded
      · intro index same
        rw [found] at same
        cases same
      · intro index other unwritten
        rw [unwrittenIs] at unwritten
        split at unwritten
        · rename_i lost
          cases unwritten
          rw [if_neg lost.2.2] at here
          rw [found]
          refine ⟨rfl, _, getElem?_setEntry.mpr ⟨_, here, rfl⟩, ?_⟩
          rw [if_pos rfl]
          exact ⟨rfl, rfl, lost.2.1⟩
        · cases unwritten

theorem Coherent.fetchAllowed (coherent : Coherent geometry cache content) {sector : Nat}
    (inside : sector ≤ geometry.endOfPartition)
    (truthful :
      (norCacheGetPageBy cache sector answers).1 = none →
        ∀ (i : Nat) entry,
          (norCacheGetPageBy cache sector answers).2.cacheEntries[i]? = some entry →
            ∀ offset, offset < entry.count → entry.cache offset = content (entry.sector + offset))
    (kept : ∀ index entry,
      norCacheUnwritten cache sector answers.writes = some (index, entry) →
        ∃ now,
          (norCacheGetPageBy cache sector answers).2.cacheEntries[index]? = some now ∧
            now.sector = entry.sector) :
    FetchAllowed cache sector answers := by
  rcases coherent.hit_or_missed sector with
    ⟨index, entry, hit, -⟩ | ⟨foundFree, oldUsed, entry, missed⟩
  · rw [FetchAllowed, hit]
    trivial
  · obtain ⟨evicted, here, -⟩ := coherent.evicted missed answers.writes
    have found := norCacheGetPageBy_missed missed answers
    have unwrittenIs := norCacheUnwritten_missed missed answers.writes
    rw [FetchAllowed, missed.scan, ScanAllowed, entry_eq missed.present]
    cases read : answers.read with
    | done =>
      rw [read] at found
      dsimp only at found ⊢
      rintro ⟨free, dirty⟩
      by_contra notWritten
      rw [if_pos ⟨free, dirty, notWritten⟩] at unwrittenIs
      obtain ⟨now, nowHere, same⟩ := kept oldUsed entry unwrittenIs
      obtain ⟨loaded, loadedHere, sectorEq, -⟩ := norCacheLoad_entry sector here
      rw [found] at nowHere
      cases nowHere.symm.trans loadedHere
      rw [coherent.pageOf evicted] at sectorEq
      exact coherent.pageOf_ne missed inside (sectorEq.symm.trans same)
    | failed left =>
      rw [read] at found
      dsimp only at found ⊢
      intro offset below loaded
      rw [found] at truthful
      have failed := truthful rfl oldUsed _ (getElem?_setEntry.mpr ⟨_, here, rfl⟩) offset
      rw [if_pos rfl] at failed
      dsimp only at failed
      rw [patch_front, coherent.pageOf evicted, if_pos loaded] at failed
      rw [coherent.cached oldUsed entry missed.present offset below]
      split at failed <;> exact failed below

/-! ## Turns -/

theorem sector_of_setEntry {index i : Nat}
    {change : NorCacheEntry → NorCacheEntry} {now : NorCacheEntry}
    (present : (cache.setEntry index change).cacheEntries[i]? = some now)
    (sameSector : ∀ entry, (change entry).sector = entry.sector) :
    ∃ before, cache.cacheEntries[i]? = some before ∧ before.sector = now.sector := by
  obtain ⟨before, was, rfl⟩ := getElem?_setEntry.mp present
  refine ⟨before, was, ?_⟩
  split
  · exact (sameSector before).symm
  · rfl

theorem sector_of_writeInto {index sector i : Nat} {src : List Sector}
    {direct : DiscAnswer} {now : NorCacheEntry}
    (present : (norCacheWriteInto cache index sector src direct).cacheEntries[i]? = some now) :
    ∃ before, cache.cacheEntries[i]? = some before ∧ before.sector = now.sector := by
  unfold norCacheWriteInto at present
  dsimp only at present
  split at present
  · exact sector_of_setEntry present fun _ => rfl
  · exact sector_of_setEntry present fun _ => rfl

section

variable {index sector : Nat} {entry : NorCacheEntry} (coherent : Coherent geometry cache content)
  (present : cache.cacheEntries[index]? = some entry) (covers : entry.Covers sector)

include coherent present covers

theorem Coherent.writeInto (src : List Sector) (direct : DiscAnswer) :
    Coherent geometry (norCacheWriteInto cache index sector src direct)
      (patch content sector (src.take (norCacheTaken cache index sector src))) := by
  have covered := covers
  obtain ⟨above, below⟩ := covers
  have noDirect : entry.sector - sector = 0 := Nat.sub_eq_zero_of_le above
  have notAhead : ¬entry.sector > sector := by omega
  simp only [norCacheWriteInto, norCacheTaken, entry_eq present, noDirect,
    if_neg notAhead, List.drop_zero, Nat.add_zero, Nat.zero_add]
  apply coherent.writeEntry present covered
  rw [List.length_take]
  split <;> omega

theorem Coherent.changeInto (change : Sector → Sector) :
    Coherent geometry (norCacheChangeInto change cache index sector)
      (patch content sector [change (content sector)]) := by
  have held :=
    coherent.cached _ entry present (sector - entry.sector)
      (by obtain ⟨above, below⟩ := covers; omega)
  rw [Nat.add_sub_cancel' covers.1] at held
  rw [norCacheChangeInto]
  simp only [entry_eq present, held]
  exact coherent.writeEntry present covers
    (show sector + [change (content sector)].length ≤ entry.sector + entry.count from covers.2)

end

end Coherence

section Turns

variable {geometry : NorGeometry} {state : NorFailing}

theorem NorFailing.safe_of_coherent (coherent : Coherent geometry state.cache state.content)
    (kept : ∀ index entry, state.unwritten = some (index, entry) →
      ∃ now, state.cache.cacheEntries[index]? = some now ∧
        now.sector = entry.sector ∧ now.count = entry.count ∧ now.dirty = true) :
    state.Safe geometry.endOfPartition where
  kept := kept
  truthful := coherent.cached
  reads := by
    intro sector numSectors within
    exact (coherent.readLoop numSectors (Nat.le_refl numSectors) within).1

theorem NorFailing.safe_of_written (coherent : Coherent geometry state.cache state.content)
    (written : state.unwritten = none) : state.Safe geometry.endOfPartition :=
  NorFailing.safe_of_coherent coherent fun index entry lost => by
    rw [written] at lost
    cases lost

section Fetch

variable {sector : Nat} {answers : DiscAnswers}
  {goOn : NorCache → Nat → NorCache × (Nat → Sector)}

theorem NorFailing.fetch_safe (coherent : Coherent geometry state.cache state.content)
    (inside : sector ≤ geometry.endOfPartition)
    (goesOn : ∀ cache index entry,
      Coherent geometry cache state.content →
        cache.cacheEntries[index]? = some entry → entry.Covers sector →
          Coherent geometry (goOn cache index).1 (goOn cache index).2)
    (allowed : FetchAllowed state.cache sector answers) :
    Coherent geometry (state.fetch sector answers goOn).cache
        (state.fetch sector answers goOn).content ∧
      (state.fetch sector answers goOn).Safe geometry.endOfPartition := by
  have fetched := coherent.fetched inside allowed
  rw [NorFailing.fetch]
  cases found : (norCacheGetPageBy state.cache sector answers).1 with
  | none =>
    refine ⟨fetched.coherent, NorFailing.safe_of_coherent fetched.coherent ?_⟩
    intro index entry unwritten
    exact (fetched.kept index entry unwritten).2
  | some index =>
    obtain ⟨entry, present, covers⟩ := fetched.covers index found
    have after := goesOn _ index entry fetched.coherent present covers
    refine ⟨after, NorFailing.safe_of_coherent after ?_⟩
    intro other lost unwritten
    have failed := (fetched.kept other lost unwritten).1
    rw [found] at failed
    cases failed

theorem NorFailing.fetch_needed (coherent : Coherent geometry state.cache state.content)
    (inside : sector ≤ geometry.endOfPartition)
    (sameSectors : ∀ (cache : NorCache) (index i : Nat) (now : NorCacheEntry),
      (goOn cache index).1.cacheEntries[i]? = some now →
        ∃ before : NorCacheEntry, cache.cacheEntries[i]? = some before ∧ before.sector = now.sector)
    (safe : (state.fetch sector answers goOn).Safe geometry.endOfPartition) :
    FetchAllowed state.cache sector answers := by
  obtain ⟨kept, truthful, -⟩ := safe
  rw [NorFailing.fetch] at kept truthful
  apply coherent.fetchAllowed inside
  · intro failed
    rw [failed] at truthful
    exact truthful
  · intro index entry unwritten
    cases found : (norCacheGetPageBy state.cache sector answers).1 with
    | none =>
      rw [found] at kept
      obtain ⟨now, present, same, -⟩ := kept index entry unwritten
      exact ⟨now, present, same⟩
    | some loaded =>
      rw [found] at kept
      obtain ⟨now, present, same, -⟩ := kept index entry unwritten
      obtain ⟨before, was, sameBefore⟩ := sameSectors _ _ _ _ present
      exact ⟨before, was, sameBefore.trans same⟩

end Fetch

variable {turn : NorTurn geometry.endOfPartition}

theorem NorFailing.next_safe (coherent : Coherent geometry state.cache state.content)
    (allowed : turn.Allowed state) :
    Coherent geometry (norFailingNext state turn).cache (norFailingNext state turn).content ∧
      (norFailingNext state turn).Safe geometry.endOfPartition := by
  cases turn with
  | read sector inside answers =>
    exact NorFailing.fetch_safe coherent inside (fun _ _ _ coherent _ _ => coherent) allowed
  | write sector inside src fits answers =>
    rw [norFailingNext]
    cases search : norCacheFindPage state.cache sector with
    | none =>
      exact NorFailing.fetch_safe coherent inside
        (fun _ _ _ coherent present covers => coherent.writeInto present covers src answers.direct)
        (allowed search)
    | some index =>
      obtain ⟨entry, present, covers⟩ := (coherent.writePage inside).2
      rw [norCacheWritePage, search] at present
      have after := coherent.writeInto present covers src answers.direct
      exact ⟨after, NorFailing.safe_of_written after rfl⟩
  | change sector inside change answers =>
    exact NorFailing.fetch_safe coherent inside
      (fun _ _ _ coherent present covers => coherent.changeInto present covers change)
      allowed
  | flush writes =>
    have after := (coherent.flushBy writes).coherent
    exact ⟨after, NorFailing.safe_of_written after rfl⟩

theorem NorFailing.next_needed (coherent : Coherent geometry state.cache state.content)
    (safe : (norFailingNext state turn).Safe geometry.endOfPartition) :
    turn.Allowed state := by
  cases turn with
  | read sector inside answers =>
    rw [norFailingNext] at safe
    refine NorFailing.fetch_needed coherent inside ?_ safe
    intro cache index i now present
    exact ⟨now, present, rfl⟩
  | write sector inside src fits answers =>
    intro search
    rw [norFailingNext, search] at safe
    refine NorFailing.fetch_needed coherent inside ?_ safe
    intro cache index i now present
    exact sector_of_writeInto present
  | change sector inside change answers =>
    rw [norFailingNext] at safe
    refine NorFailing.fetch_needed coherent inside ?_ safe
    intro cache index i now present
    exact sector_of_setEntry present fun _ => rfl
  | flush writes => trivial

end Turns

/-- Over a disc whose reads and writes fail in any way, exactly the runs whose
fetches all meet the condition keep every page that could not be written back
and never give the data of another sector. -/
theorem norCacheFailing_iff
    {geometry : NorGeometry} {cache : NorCache} {content : Nat → Sector}
    (coherent : Coherent geometry cache content)
    (turns : List (NorTurn geometry.endOfPartition)) :
    AllowedAlong (fun state turn => turn.Allowed state) norFailingNext
        ⟨cache, content, none⟩ turns ↔
      ∀ done rest, turns = done ++ rest →
        (done.foldl norFailingNext ⟨cache, content, none⟩).Safe geometry.endOfPartition := by
  have kept : ∀ (state : NorFailing) (turn : NorTurn geometry.endOfPartition),
      Coherent geometry state.cache state.content → turn.Allowed state →
        Coherent geometry (norFailingNext state turn).cache (norFailingNext state turn).content ∧
          (norFailingNext state turn).Safe geometry.endOfPartition :=
    fun state turn coherent allowed => NorFailing.next_safe coherent allowed
  have needed : ∀ (state : NorFailing) (turn : NorTurn geometry.endOfPartition),
      Coherent geometry state.cache state.content →
        (norFailingNext state turn).Safe geometry.endOfPartition → turn.Allowed state :=
    fun state turn coherent safe => NorFailing.next_needed coherent safe
  have initialSafe :
      NorFailing.Safe geometry.endOfPartition ⟨cache, content, none⟩ :=
    NorFailing.safe_of_written coherent rfl
  exact AllowedAlong.iff_safe kept needed coherent initialSafe turns

/-! ## A drive of five pages -/

/-- Sector `n` holds the byte `n`. -/
def norFailDisc (sector : Nat) : Sector := [UInt8.ofNat sector]

def norFailStart : NorFailing where
  cache :=
    norInitfunc
      { disc := norFailDisc
        endOfPartition := 159
        sectorsPerPage := 32
        sectorSize := 1
        cacheEntries := List.replicate 4 (NorCacheEntry.freed fun _ => [])
        accessCounter := 0
        cacheValidFlush := false }
  content := norFailDisc
  unwritten := none

def readsDone (write : DiscAnswer) : DiscAnswers where
  writes := fun _ => write
  read := .done
  direct := .done

/-- All entries are in use, and the one used least is dirty. -/
def norFailFull : List (NorTurn 159) :=
  [ .write 0 (by decide) [[200]] (by decide) (readsDone .done),
    .read 32 (by decide) (readsDone .done),
    .read 64 (by decide) (readsDone .done),
    .read 96 (by decide) (readsDone .done) ]

def spoiledWrite : DiscAnswer := .failed fun _ => [255]

theorem norFailStart_coherent :
    Coherent ⟨159, 32, 1, by decide, by decide⟩ norFailStart.cache norFailStart.content :=
  coherent_norInitfunc (rfl : norCacheConstructor 4 32 norFailDisc 159 1 (fun _ => []) = some _) rfl

/-- The write of the evicted page fails, and then the read fails as well and
leaves nothing new in the buffer. -/
def norFailKept : List (NorTurn 159) :=
  norFailFull ++
    [.read 128 (by decide)
      ⟨fun _ => spoiledWrite,
        .failed fun offset => if offset = 0 then [200] else norFailDisc offset,
        .done⟩]

theorem norCacheFailing_iff_kept :
    (norFailKept.foldl norFailingNext norFailStart).Safe 159 :=
  (norCacheFailing_iff norFailStart_coherent norFailKept).mp (by decide +kernel)
    norFailKept [] (List.append_nil norFailKept).symm

/-- The write of the evicted page fails, and the read does not. -/
def norFailLost : List (NorTurn 159) :=
  norFailFull ++ [.read 128 (by decide) (readsDone spoiledWrite)]

/-- The read of a page fails when it has filled the buffer of a clean one. -/
def norFailMixed : List (NorTurn 159) :=
  norFailFull ++
    [ .flush fun _ => .done,
      .read 128 (by decide)
        ⟨fun _ => .done, .failed fun offset => norFailDisc (128 + offset), .done⟩ ]

theorem norCacheFailing_wrong :
    (norCacheReadSectors (norFailLost.foldl norFailingNext norFailStart).cache 0 1).1 = [[255]] ∧
      (norCacheReadSectors (norFailMixed.foldl norFailingNext norFailStart).cache 0 1).1 = [[128]] ∧
      (norFailLost.foldl norFailingNext norFailStart).content 0 = [200] ∧
      (norFailMixed.foldl norFailingNext norFailStart).content 0 = [200] := by
  decide +kernel

end IteSdk.Fat
