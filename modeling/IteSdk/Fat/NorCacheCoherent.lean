import IteSdk.Fat.NorCache

/-!
# The invariant of the NOR cache

`Coherent` relates a cache to the flat array that it stands for.  Loading a page
and flushing change the cache and the disc but not that array.
-/

namespace IteSdk.Fat

open Lib

/-- A partition and the pages it is cut into.  Sectors have 512 bytes or more
and are addressed by 32-bit byte addresses, so that sector numbers do not
overflow. -/
structure NorGeometry where
  endOfPartition : Nat
  sectorsPerPage : Nat
  sectorSize : Nat
  positive : 0 < sectorsPerPage
  fits : endOfPartition + sectorsPerPage < 2 ^ 32

/-- The range of a page: aligned, and truncated at the end of the partition. -/
def NorGeometry.IsPage (geometry : NorGeometry) (sector count : Nat) : Prop :=
  geometry.sectorsPerPage ∣ sector ∧ sector ≤ geometry.endOfPartition ∧
    count = min geometry.sectorsPerPage (geometry.endOfPartition + 1 - sector)

def NorCacheEntry.Covers (entry : NorCacheEntry) (sector : Nat) : Prop :=
  entry.sector ≤ sector ∧ sector < entry.sector + entry.count

/-- Live entries are pages, free ones are empty and clean, and no page is held
twice. -/
structure PagesWellFormed (geometry : NorGeometry)
    (entries : List NorCacheEntry) : Prop where
  page : ∀ (i : Nat) entry, entries[i]? = some entry →
    entry.sector ≠ cacheFree → geometry.IsPage entry.sector entry.count
  free : ∀ (i : Nat) entry, entries[i]? = some entry →
    entry.sector = cacheFree → entry.count = 0 ∧ entry.dirty = false
  distinct : ∀ (i j : Nat) entry other, entries[i]? = some entry → entries[j]? = some other →
    entry.sector ≠ cacheFree → entry.sector = other.sector → i = j

/-- The cache stands for `content`: entries hold it, and the disc holds it where
no dirty entry does. -/
structure Coherent (geometry : NorGeometry) (cache : NorCache)
    (content : Nat → Sector) : Prop where
  sameEnd : cache.endOfPartition = geometry.endOfPartition
  samePage : cache.sectorsPerPage = geometry.sectorsPerPage
  sameSize : cache.sectorSize = geometry.sectorSize
  flushEnabled : cache.cacheValidFlush = true
  nonempty : 0 < cache.cacheEntries.length
  pages : PagesWellFormed geometry cache.cacheEntries
  cached : ∀ (i : Nat) entry, cache.cacheEntries[i]? = some entry →
    ∀ offset, offset < entry.count → entry.cache offset = content (entry.sector + offset)
  stored : ∀ address,
    (∀ (i : Nat) entry, cache.cacheEntries[i]? = some entry →
      entry.dirty = true → ¬ entry.Covers address) →
    cache.disc address = content address

section Pages

variable {geometry : NorGeometry} {entries : List NorCacheEntry}

variable {address : Nat}

variable {entry : NorCacheEntry}

theorem NorGeometry.isPage_of_covers (page : geometry.IsPage entry.sector entry.count)
    (covers : entry.Covers address) :
    entry.sector = address / geometry.sectorsPerPage * geometry.sectorsPerPage := by
  obtain ⟨⟨index, aligned⟩, _, count⟩ := page
  obtain ⟨above, below⟩ := covers
  have within : entry.count ≤ geometry.sectorsPerPage := by
    rw [count]
    exact Nat.min_le_left _ _
  have same : address / geometry.sectorsPerPage = index := by
    apply Nat.div_eq_of_lt_le
    · rw [Nat.mul_comm, ← aligned]
      exact above
    · rw [Nat.succ_mul, Nat.mul_comm index, ← aligned]
      omega
  rw [same, aligned, Nat.mul_comm]

theorem NorGeometry.IsPage.live {sector count : Nat}
    (page : geometry.IsPage sector count) : sector ≠ cacheFree := by
  have inside := page.2.1
  have fits := geometry.fits
  have positive := geometry.positive
  simp only [cacheFree, uintMax]
  omega

theorem PagesWellFormed.live (pages : PagesWellFormed geometry entries) {i : Nat}
    (present : entries[i]? = some entry) (covers : entry.Covers address) :
    entry.sector ≠ cacheFree := by
  intro freed
  have empty := (pages.free i entry present freed).1
  obtain ⟨above, below⟩ := covers
  omega

theorem PagesWellFormed.disjoint
    (pages : PagesWellFormed geometry entries) {i j : Nat} {entry other : NorCacheEntry}
    (present : entries[i]? = some entry) (otherPresent : entries[j]? = some other)
    (covers : entry.Covers address) (otherCovers : other.Covers address) :
    i = j := by
  have live := pages.live present covers
  have otherLive := pages.live otherPresent otherCovers
  apply pages.distinct i j entry other present otherPresent live
  rw [NorGeometry.isPage_of_covers (pages.page i entry present live) covers,
    NorGeometry.isPage_of_covers (pages.page j other otherPresent otherLive) otherCovers]

end Pages

variable {cache : NorCache} {entry : NorCacheEntry} {index : Nat}

variable {change : NorCacheEntry → NorCacheEntry}

theorem getElem?_setEntry {index i : Nat} :
    (cache.setEntry index change).cacheEntries[i]? = some entry ↔
      ∃ before, cache.cacheEntries[i]? = some before ∧
        entry = if index = i then change before else before := by
  rw [NorCache.setEntry, List.getElem?_modify]
  cases cache.cacheEntries[i]? with
  | none => simp
  | some before => simp [eq_comm]

theorem entry_eq (present : cache.cacheEntries[index]? = some entry) :
    cache.entry index = entry := by
  rw [NorCache.entry, List.getD_eq_getElem?_getD, present, Option.getD_some]

theorem PagesWellFormed.setEntry {geometry : NorGeometry}
    (pages : PagesWellFormed geometry cache.cacheEntries)
    (sameRange : ∀ entry, (change entry).sector = entry.sector ∧ (change entry).count = entry.count)
    (clean : ∀ entry, cache.cacheEntries[index]? = some entry →
      entry.sector = cacheFree → (change entry).dirty = false) :
    PagesWellFormed geometry (cache.setEntry index change).cacheEntries := by
  have range :
      ∀ (i : Nat) before,
        (if index = i then change before else before).sector = before.sector ∧
          (if index = i then change before else before).count = before.count := by
    intro i before
    split
    · exact sameRange before
    · exact ⟨rfl, rfl⟩
  refine ⟨?_, ?_, ?_⟩
  · intro i entry present live
    obtain ⟨before, was, rfl⟩ := getElem?_setEntry.mp present
    rw [(range i before).1] at live ⊢
    rw [(range i before).2]
    exact pages.page i before was live
  · intro i entry present freed
    obtain ⟨before, was, rfl⟩ := getElem?_setEntry.mp present
    rw [(range i before).1] at freed
    refine ⟨(range i before).2.trans (pages.free i before was freed).1, ?_⟩
    split
    · rename_i same
      subst same
      exact clean before was freed
    · exact (pages.free i before was freed).2
  · intro i j entry other present otherPresent live same
    obtain ⟨before, was, rfl⟩ := getElem?_setEntry.mp present
    obtain ⟨otherBefore, otherWas, rfl⟩ := getElem?_setEntry.mp otherPresent
    rw [(range i before).1] at live same
    rw [(range j otherBefore).1] at same
    exact pages.distinct i j before otherBefore was otherWas live same

/-! ## Flushing -/

def NorCacheEntry.cleaned (entry : NorCacheEntry) : NorCacheEntry := { entry with dirty := false }

theorem norCacheLowestDirty_none
    (entries : List NorCacheEntry) (j : Nat) (flushIndex : Option Nat) (flushSector : Nat)
    (none : norCacheLowestDirty entries j flushIndex flushSector = none) :
    flushIndex = .none ∧ ∀ entry ∈ entries, entry.dirty = true → flushSector ≤ entry.sector := by
  induction entries generalizing j flushIndex flushSector with
  | nil => exact ⟨none, by simp⟩
  | cons entry rest ih =>
    rw [norCacheLowestDirty] at none
    split at none
    · exact absurd (ih _ _ _ none).1 (by simp)
    · rename_i skipped
      obtain ⟨noIndex, higher⟩ := ih _ _ _ none
      refine ⟨noIndex, ?_⟩
      rw [List.forall_mem_cons]
      refine ⟨fun dirty => ?_, higher⟩
      by_contra lower
      exact skipped ⟨dirty, by omega⟩

theorem norCacheLowestDirty_some
    (entries : List NorCacheEntry) (j : Nat) (flushIndex : Option Nat) (flushSector : Nat)
    (found : norCacheLowestDirty entries j flushIndex flushSector = some index) :
    flushIndex = some index ∨
      ∃ k entry, entries[k]? = some entry ∧ entry.dirty = true ∧ index = j + k := by
  induction entries generalizing j flushIndex flushSector with
  | nil => exact Or.inl found
  | cons entry rest ih =>
    rw [norCacheLowestDirty] at found
    split at found
    · rename_i lower
      right
      rcases ih _ _ _ found with here | later
      · exact ⟨0, entry, rfl, lower.1, (Option.some.inj here).symm⟩
      · obtain ⟨k, other, present, dirty, rfl⟩ := later
        exact ⟨k + 1, other, present, dirty, by omega⟩
    · rcases ih _ _ _ found with before | later
      · exact Or.inl before
      · obtain ⟨k, other, present, dirty, rfl⟩ := later
        exact Or.inr ⟨k + 1, other, present, dirty, by omega⟩

variable {entries : List NorCacheEntry}

theorem countP_dirty_modify (present : entries[index]? = some entry) (dirty : entry.dirty = true) :
    (entries.modify index NorCacheEntry.cleaned).countP (·.dirty) + 1 =
      entries.countP (·.dirty) := by
  induction entries generalizing index with
  | nil => simp at present
  | cons head rest ih =>
    cases index with
    | zero =>
      obtain rfl : head = entry := by simpa using present
      simp [NorCacheEntry.cleaned, dirty]
    | succ index =>
      rw [List.modify_succ_cons, List.countP_cons, List.countP_cons, ← ih (by simpa using present)]
      omega

theorem map_cleaned_modify (entries : List NorCacheEntry) (index : Nat) :
    (entries.modify index NorCacheEntry.cleaned).map NorCacheEntry.cleaned =
      entries.map NorCacheEntry.cleaned := by
  apply List.ext_getElem?
  intro i
  rw [List.getElem?_map, List.getElem?_map, List.getElem?_modify]
  cases entries[i]? with
  | none => rfl
  | some entry =>
    simp only [Option.map_eq_map, Option.map_some]
    split <;> rfl

theorem map_cleaned_of_clean (clean : ∀ entry ∈ entries, entry.dirty = false) :
    entries.map NorCacheEntry.cleaned = entries := by
  rw [List.map_congr_left (g := id), List.map_id]
  intro entry member
  rw [NorCacheEntry.cleaned, ← clean entry member]
  rfl

section Coherence

variable {geometry : NorGeometry} {cache : NorCache}
  {content : Nat → Sector}

section

variable (coherent : Coherent geometry cache content)

include coherent

theorem Coherent.setEntry {change : NorCacheEntry → NorCacheEntry}
    (present : cache.cacheEntries[index]? = some entry)
    (pages : PagesWellFormed geometry (cache.setEntry index change).cacheEntries)
    (cached : ∀ offset < (change entry).count,
      (change entry).cache offset = content ((change entry).sector + offset))
    (agree : ∀ address, entry.dirty = true → entry.Covers address →
      ((change entry).dirty = true → ¬ (change entry).Covers address) →
        cache.disc address = content address) :
    Coherent geometry (cache.setEntry index change) content where
  sameEnd := coherent.sameEnd
  samePage := coherent.samePage
  sameSize := coherent.sameSize
  flushEnabled := coherent.flushEnabled
  nonempty := by
    rw [NorCache.setEntry, List.length_modify]
    exact coherent.nonempty
  pages := pages
  cached := by
    intro i other was offset inside
    obtain ⟨before, wasBefore, rfl⟩ := getElem?_setEntry.mp was
    by_cases here : index = i
    · subst here
      obtain rfl : entry = before := Option.some.inj (present.symm.trans wasBefore)
      rw [if_pos rfl] at inside ⊢
      exact cached offset inside
    · rw [if_neg here] at inside ⊢
      exact coherent.cached i before wasBefore offset inside
  stored := by
    intro address uncovered
    by_cases ours : entry.dirty = true ∧ entry.Covers address
    · exact agree address ours.1 ours.2 fun dirty =>
        uncovered index _ (getElem?_setEntry.mpr ⟨entry, present, (if_pos rfl).symm⟩) dirty
    · apply coherent.stored
      intro i other was dirty covers
      have different : index ≠ i := by
        rintro rfl
        obtain rfl : entry = other := Option.some.inj (present.symm.trans was)
        exact ours ⟨dirty, covers⟩
      refine uncovered i other (getElem?_setEntry.mpr ⟨other, was, ?_⟩) dirty covers
      rw [if_neg different]

theorem Coherent.live_of_dirty {i : Nat} {entry : NorCacheEntry}
    (present : cache.cacheEntries[i]? = some entry) (dirty : entry.dirty = true) :
    entry.sector < cacheFree := by
  have live : entry.sector ≠ cacheFree := by
    intro freed
    have clean := (coherent.pages.free i entry present freed).2
    rw [dirty] at clean
    cases clean
  have inside := (coherent.pages.page i entry present live).2.1
  have fits := geometry.fits
  have positive := geometry.positive
  simp only [cacheFree, uintMax]
  omega

section

variable (present : cache.cacheEntries[index]? = some entry)

include present

theorem Coherent.transfer :
    Coherent geometry
      { cache with
        disc := patch cache.disc entry.sector (window entry.cache 0 entry.count) }
      content := by
  refine { coherent with stored := ?_ }
  intro address uncovered
  by_cases covers : entry.Covers address
  · obtain ⟨offset, rfl⟩ := Nat.exists_eq_add_of_le covers.1
    have inside : offset < entry.count := by
      have below := covers.2
      omega
    dsimp only
    rw [patch_window cache.disc entry.cache 0 inside, Nat.zero_add]
    exact coherent.cached index entry present offset inside
  · have unchanged :
        patch cache.disc entry.sector (window entry.cache 0 entry.count)
          address = cache.disc address := by
      apply patch_outside
      rw [length_window]
      exact covers
    dsimp only
    rw [unchanged]
    exact coherent.stored address uncovered

theorem Coherent.clean
    (agree : ∀ offset < entry.count, entry.cache offset = cache.disc (entry.sector + offset)) :
    Coherent geometry (cache.setEntry index NorCacheEntry.cleaned) content := by
  refine coherent.setEntry present
    (coherent.pages.setEntry (fun _ => ⟨rfl, rfl⟩) (fun _ _ _ => rfl))
    (coherent.cached index entry present) ?_
  rintro address - ⟨above, below⟩ -
  obtain ⟨offset, rfl⟩ := Nat.exists_eq_add_of_le above
  have inside : offset < entry.count := by omega
  rw [← coherent.cached index entry present offset inside, agree offset inside]

theorem Coherent.writeBack : Coherent geometry (norCacheWriteBack cache index) content := by
  rw [norCacheWriteBack, entry_eq present]
  refine (coherent.transfer present).clean present fun offset inside => ?_
  dsimp only
  rw [patch_window cache.disc entry.cache 0 inside, Nat.zero_add]

end

end

theorem Coherent.flushLoop (rounds : Nat) :
    ∀ {cache : NorCache}, Coherent geometry cache content →
      cache.cacheEntries.countP (·.dirty) ≤ rounds →
      Coherent geometry (norCacheFlushLoop rounds cache) content ∧
        (norCacheFlushLoop rounds cache).cacheEntries =
          cache.cacheEntries.map NorCacheEntry.cleaned := by
  induction rounds with
  | zero =>
    intro cache coherent enough
    have clean : ∀ entry ∈ cache.cacheEntries, entry.dirty = false := by simpa using enough
    exact ⟨coherent, (map_cleaned_of_clean clean).symm⟩
  | succ rounds ih =>
    intro cache coherent enough
    rw [norCacheFlushLoop]
    cases lowest : norCacheLowestDirty cache.cacheEntries 0 none cacheFree with
    | none =>
      refine ⟨coherent, (map_cleaned_of_clean ?_).symm⟩
      intro entry member
      obtain ⟨i, present⟩ := List.mem_iff_getElem?.mp member
      by_contra dirty
      have isDirty : entry.dirty = true := by simpa using dirty
      have higher := (norCacheLowestDirty_none _ _ _ _ lowest).2 entry member isDirty
      have lower := coherent.live_of_dirty present isDirty
      omega
    | some index =>
      rcases norCacheLowestDirty_some _ _ _ _ lowest with before | found
      · cases before
      · obtain ⟨k, entry, present, dirty, same⟩ := found
        rw [Nat.zero_add] at same
        subst same
        have oneLess := countP_dirty_modify present dirty
        have entries :
            (norCacheWriteBack cache index).cacheEntries =
              cache.cacheEntries.modify index NorCacheEntry.cleaned :=
          rfl
        obtain ⟨flushed, cleaned⟩ := ih (coherent.writeBack present) (by rw [entries]; omega)
        refine ⟨flushed, ?_⟩
        rw [cleaned, entries, map_cleaned_modify]

theorem Coherent.flush (coherent : Coherent geometry cache content) :
    Coherent geometry (norCacheFlush cache) content ∧
      (norCacheFlush cache).cacheEntries = cache.cacheEntries.map NorCacheEntry.cleaned := by
  have enabled : ¬ cache.cacheValidFlush = false := by
    rw [coherent.flushEnabled]
    simp
  rw [norCacheFlush, if_neg enabled]
  exact Coherent.flushLoop _ coherent List.countP_le_length

theorem Coherent.flush_disc (coherent : Coherent geometry cache content) :
    (norCacheFlush cache).disc = content := by
  funext address
  obtain ⟨flushed, cleaned⟩ := coherent.flush
  apply flushed.stored
  intro i entry present dirty
  rw [cleaned, List.getElem?_map, Option.map_eq_some_iff] at present
  obtain ⟨before, _, rfl⟩ := present
  cases dirty

theorem norCacheScan_cases
    (sector : Nat) (entries : List NorCacheEntry) (rest : List NorCacheEntry) :
    ∀ (before : List NorCacheEntry) (foundFree : Bool) (oldUsed oldAccess : Nat),
      entries = before ++ rest →
      (∀ entry ∈ before, ¬ entry.Covers sector) →
      oldUsed < entries.length →
      (foundFree = true → ∃ entry, entries[oldUsed]? = some entry ∧ entry.sector = cacheFree) →
      (∃ index entry,
        norCacheScan sector rest before.length foundFree oldUsed oldAccess = .hit index ∧
          entries[index]? = some entry ∧ entry.Covers sector) ∨
      ∃ free victim entry,
        norCacheScan sector rest before.length foundFree oldUsed oldAccess = .victim free victim ∧
          (∀ entry ∈ entries, ¬ entry.Covers sector) ∧
          entries[victim]? = some entry ∧
          (free = true → entry.sector = cacheFree) := by
  induction rest with
  | nil =>
    intro before foundFree oldUsed oldAccess parts uncovered inside isFree
    rw [List.append_nil] at parts
    subst parts
    right
    refine ⟨foundFree, oldUsed, entries[oldUsed], rfl, uncovered,
      List.getElem?_eq_getElem inside, ?_⟩
    intro found
    obtain ⟨entry, present, freed⟩ := isFree found
    rw [List.getElem?_eq_getElem inside] at present
    rwa [Option.some.inj present]
  | cons entry rest ih =>
    intro before foundFree oldUsed oldAccess parts uncovered inside isFree
    have here : entries[before.length]? = some entry := by
      rw [parts]
      simp
    have nextSplit : entries = (before ++ [entry]) ++ rest := by
      rw [parts, List.append_assoc, List.singleton_append]
    have nextLength : before.length + 1 = (before ++ [entry]).length := by
      rw [List.length_append, List.length_singleton]
    rw [norCacheScan]
    by_cases covers : entry.Covers sector
    · left
      exact ⟨before.length, entry, if_pos covers, here, covers⟩
    · rw [if_neg (show ¬ (entry.sector ≤ sector ∧
        sector < entry.sector + entry.count) from covers), nextLength]
      have nextUncovered :
          ∀ other ∈ before ++ [entry], ¬ other.Covers sector := by
        rw [List.forall_mem_append]
        exact ⟨uncovered, by simpa using covers⟩
      split
      · apply ih _ _ _ _ nextSplit nextUncovered
        · rw [parts]
          simp
        · intro free
          exact ⟨entry, here, by simpa using free⟩
      · exact ih _ _ _ _ nextSplit nextUncovered inside isFree

theorem Coherent.touch (coherent : Coherent geometry cache content)
    (present : cache.cacheEntries[index]? = some entry) (time : Nat) :
    Coherent geometry
      { cache.setEntry index fun entry => { entry with lastAccess := time } with
        accessCounter := time }
      content := by
  have touched :
      Coherent geometry
        (cache.setEntry index fun entry => { entry with lastAccess := time }) content :=
    coherent.setEntry present
      (coherent.pages.setEntry (fun _ => ⟨rfl, rfl⟩)
        fun entry present freed => (coherent.pages.free index entry present freed).2)
      (coherent.cached index entry present)
      fun _ dirty covers clean => absurd covers (clean dirty)
  exact { touched with }

/-- A page that no entry holds takes the place of another. -/
theorem PagesWellFormed.replace {change : NorCacheEntry → NorCacheEntry} {sector count : Nat}
    (pages : PagesWellFormed geometry cache.cacheEntries) (page : geometry.IsPage sector count)
    (changed : ∀ entry, (change entry).sector = sector ∧ (change entry).count = count)
    (unheld : ∀ (i : Nat) other, cache.cacheEntries[i]? = some other → other.sector ≠ sector) :
    PagesWellFormed geometry (cache.setEntry index change).cacheEntries := by
  refine ⟨?_, ?_, ?_⟩
  · intro i other was live
    obtain ⟨before, wasBefore, rfl⟩ := getElem?_setEntry.mp was
    by_cases here : index = i
    · rw [if_pos here, (changed before).1, (changed before).2]
      exact page
    · rw [if_neg here] at live ⊢
      exact pages.page i before wasBefore live
  · intro i other was freed
    obtain ⟨before, wasBefore, rfl⟩ := getElem?_setEntry.mp was
    by_cases here : index = i
    · rw [if_pos here, (changed before).1] at freed
      exact absurd freed page.live
    · rw [if_neg here] at freed ⊢
      exact pages.free i before wasBefore freed
  · intro i j first second was otherWas live same
    obtain ⟨before, wasBefore, rfl⟩ := getElem?_setEntry.mp was
    obtain ⟨otherBefore, otherWasBefore, rfl⟩ := getElem?_setEntry.mp otherWas
    by_cases here : index = i
    · by_cases there : index = j
      · exact here.symm.trans there
      · rw [if_pos here, if_neg there, (changed before).1] at same
        exact absurd same.symm (unheld j otherBefore otherWasBefore)
    · by_cases there : index = j
      · rw [if_neg here, if_pos there, (changed otherBefore).1] at same
        exact absurd same (unheld i before wasBefore)
      · rw [if_neg here] at live
        rw [if_neg here, if_neg there] at same
        exact pages.distinct i j before otherBefore wasBefore otherWasBefore live same

theorem Coherent.untouched (coherent : Coherent geometry cache content)
    {sector count : Nat} (page : geometry.IsPage sector count)
    (unheld : ∀ (i : Nat) other, cache.cacheEntries[i]? = some other → other.sector ≠ sector)
    {address : Nat} (above : sector ≤ address) (below : address < sector + count) :
    cache.disc address = content address := by
  apply coherent.stored
  intro i other was _ covers
  apply unheld i other was
  have otherPage := coherent.pages.page i other was (coherent.pages.live was covers)
  have read : (⟨sector, count, 0, false, other.cache⟩ :
      NorCacheEntry).Covers address := ⟨above, below⟩
  rw [NorGeometry.isPage_of_covers otherPage covers]
  exact (NorGeometry.isPage_of_covers page read).symm

theorem NorGeometry.IsPage.count_eq {sector count otherCount : Nat}
    (page : geometry.IsPage sector count)
    (other : geometry.IsPage sector otherCount) : count = otherCount :=
  page.2.2.trans other.2.2.symm

theorem NorGeometry.isPage_load (geometry : NorGeometry) {sector : Nat}
    (inside : sector ≤ geometry.endOfPartition) {base nextPage : Nat}
    (baseEq : base = sector / geometry.sectorsPerPage * geometry.sectorsPerPage)
    (nextPageEq :
      nextPage =
        if base + geometry.sectorsPerPage > geometry.endOfPartition then
          geometry.endOfPartition + 1
        else
          base + geometry.sectorsPerPage) :
    geometry.IsPage base (nextPage - base) ∧ base ≤ sector ∧ sector < nextPage := by
  have aligned := Nat.div_mul_le_self sector geometry.sectorsPerPage
  have within := Nat.lt_div_mul_add geometry.positive (a := sector)
  rw [← baseEq] at aligned within
  refine ⟨⟨baseEq ▸ Nat.dvd_mul_left _ _, by omega, ?_⟩, aligned, ?_⟩
  · rw [nextPageEq]
    split <;> omega
  · rw [nextPageEq]
    split <;> omega

theorem Coherent.load (coherent : Coherent geometry cache content) {index sector : Nat}
    {victim : NorCacheEntry} (present : cache.cacheEntries[index]? = some victim)
    (clean : victim.dirty = false) (inside : sector ≤ geometry.endOfPartition)
    (uncovered : ∀ (i : Nat) entry, cache.cacheEntries[i]? = some entry → ¬ entry.Covers sector) :
    Coherent geometry (norCacheLoad cache index sector) content ∧
      ∃ entry, (norCacheLoad cache index sector).cacheEntries[index]? =
          some entry ∧ entry.Covers sector := by
  obtain ⟨base, baseEq⟩ :
      ∃ base, base = sector / geometry.sectorsPerPage * geometry.sectorsPerPage :=
    ⟨_, rfl⟩
  obtain ⟨nextPage, nextPageEq⟩ :
      ∃ nextPage, nextPage =
        if base + geometry.sectorsPerPage > geometry.endOfPartition then
          geometry.endOfPartition + 1
        else
          base + geometry.sectorsPerPage := ⟨_, rfl⟩
  obtain ⟨page, baseLe, sectorLt⟩ := geometry.isPage_load inside baseEq nextPageEq
  -- No entry holds a part of the page, for it would hold all of it.
  have unheld : ∀ (i : Nat) entry, cache.cacheEntries[i]? = some entry → entry.sector ≠ base := by
    rintro i entry was same
    have entryPage := coherent.pages.page i entry was (by rw [same]; exact page.live)
    rw [same] at entryPage
    apply uncovered i entry was
    show entry.sector ≤ sector ∧ sector < entry.sector + entry.count
    rw [same, entryPage.count_eq page]
    omega
  have loaded :
      Coherent geometry
        (cache.setEntry index fun entry =>
          { entry with
            sector := base
            count := nextPage - base
            lastAccess := accessTime cache
            cache := patch entry.cache 0 (window cache.disc base (nextPage - base)) })
        content := by
    refine coherent.setEntry present
      (coherent.pages.replace page (fun _ => ⟨rfl, rfl⟩) unheld) ?_ fun _ dirty => ?_
    · intro offset below
      have offsetInside : offset < nextPage - base := below
      dsimp only
      rw [← Nat.zero_add offset, patch_window victim.cache cache.disc base offsetInside,
        Nat.zero_add]
      exact coherent.untouched page unheld (Nat.le_add_right _ _)
        (Nat.add_lt_add_left offsetInside base)
    · rw [clean] at dirty
      cases dirty
  rw [norCacheLoad, coherent.sameEnd, coherent.samePage, ← baseEq, ← nextPageEq]
  refine ⟨{ loaded with }, _, getElem?_setEntry.mpr ⟨victim, present, rfl⟩, ?_⟩
  rw [if_pos rfl]
  exact ⟨baseLe, by dsimp only; omega⟩

theorem Coherent.getPage (coherent : Coherent geometry cache content) {sector : Nat}
    (inside : sector ≤ geometry.endOfPartition) :
    Coherent geometry (norCacheGetPage cache sector).2 content ∧
      ∃ entry, (norCacheGetPage cache sector).2.cacheEntries[
          (norCacheGetPage cache sector).1]? = some entry ∧
        entry.Covers sector := by
  rcases norCacheScan_cases sector cache.cacheEntries cache.cacheEntries []
      false 0 uintMax rfl (by simp) coherent.nonempty (by simp) with
    ⟨index, entry, hit, present, covers⟩ |
      ⟨free, index, entry, victim, uncovered, present, isFree⟩
  · have found := hit
    rw [List.length_nil] at found
    rw [norCacheGetPage, found]
    refine ⟨coherent.touch present (accessTime cache), _,
      getElem?_setEntry.mpr ⟨entry, present, rfl⟩, ?_⟩
    rw [if_pos rfl]
    exact covers
  · have found := victim
    rw [List.length_nil] at found
    rw [norCacheGetPage, found]
    by_cases flushes : free = false ∧ (cache.entry index).dirty = true
    · simp only [if_pos flushes]
      obtain ⟨flushed, cleaned⟩ := coherent.flush
      have presentCleaned :
          (norCacheFlush cache).cacheEntries[index]? = some entry.cleaned := by
        rw [cleaned, List.getElem?_map, present, Option.map_some]
      apply flushed.load presentCleaned rfl inside
      intro i other was otherCovers
      rw [cleaned, List.getElem?_map, Option.map_eq_some_iff] at was
      obtain ⟨before, wasBefore, rfl⟩ := was
      exact uncovered before (List.mem_of_getElem? wasBefore) otherCovers
    · simp only [if_neg flushes]
      rw [entry_eq present] at flushes
      have clean : entry.dirty = false := by
        cases free with
        | true => exact (coherent.pages.free index entry present (isFree rfl)).2
        | false => simpa using flushes
      exact coherent.load present clean inside
        fun i other was => uncovered other (List.mem_of_getElem? was)

end Coherence

end IteSdk.Fat
