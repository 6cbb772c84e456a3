import IteSdk.Fat.NorCacheCoherent
import IteSdk.Lib.Packetiser

/-!
# The NOR cache refines a flat array of sectors

Every request does to the cache what it does to the array that the cache stands
for, and returns the same data.
-/

namespace IteSdk.Fat

open Lib

inductive NorRequest
  | readSectors (sector numSectors : Nat)
  | writeSectors (sector : Nat) (buffer : List Sector)
  | readPartialSector (sector offset size : Nat)
  | writePartialSector (buffer : List UInt8) (sector offset : Nat)
  | eraseWritePartialSector (buffer : List UInt8) (sector offset : Nat)
  | flush
  | invalidate
  deriving DecidableEq

def NorRequest.Within (endOfPartition : Nat) : NorRequest → Prop
  | .readSectors sector numSectors =>
    sector + numSectors ≤ endOfPartition + 1
  | .writeSectors sector buffer =>
    sector + buffer.length ≤ endOfPartition + 1
  | .readPartialSector sector _ _ => sector ≤ endOfPartition
  | .writePartialSector _ sector _ => sector ≤ endOfPartition
  | .eraseWritePartialSector _ sector _ => sector ≤ endOfPartition
  | .flush => True
  | .invalidate => True

instance NorRequest.Within.decidable (endOfPartition : Nat) :
    ∀ request : NorRequest, Decidable (request.Within endOfPartition)
  | .readSectors _ _ | .writeSectors _ _ | .readPartialSector _ _ _ | .writePartialSector _ _ _
  | .eraseWritePartialSector _ _ _ => inferInstanceAs (Decidable (_ ≤ _))
  | .flush | .invalidate => inferInstanceAs (Decidable True)

/-- The data that a request returns and the cache after it. -/
def norCacheStep (cache : NorCache) : NorRequest → List Sector × NorCache
  | .readSectors sector numSectors =>
    norCacheReadSectors cache sector numSectors
  | .writeSectors sector buffer =>
    ([], norCacheWriteSectors cache sector buffer)
  | .readPartialSector sector offset size =>
    let result := norCacheReadPartialSector cache sector offset size
    (result.1.toList, result.2)
  | .writePartialSector buffer sector offset =>
    ([], norCacheWritePartialSector cache buffer sector offset)
  | .eraseWritePartialSector buffer sector offset =>
    ([], norCacheEraseWritePartialSector cache buffer sector offset)
  | .flush => ([], norCacheFlush cache)
  | .invalidate => ([], norCacheInvalidate cache)

/-- The purpose of the cache: the same requests on a plain array of sectors. -/
def flatStep (sectorSize : Nat) (content : Nat → Sector) : NorRequest → List Sector × (Nat → Sector)
  | .readSectors sector numSectors =>
    (window content sector numSectors, content)
  | .writeSectors sector buffer => ([], patch content sector buffer)
  | .readPartialSector sector offset size =>
    if offset + size > sectorSize then ([], content)
    else ([slice offset size (content sector)], content)
  | .writePartialSector buffer sector offset =>
    if offset + buffer.length > sectorSize then ([], content)
    else
      ([], patch content sector [overwrite offset buffer (content sector)])
  | .eraseWritePartialSector buffer sector offset =>
    if offset + buffer.length > sectorSize then ([], content)
    else
      ([], patch content sector [overwrite offset buffer (List.replicate sectorSize 0)])
  | .flush => ([], content)
  | .invalidate => ([], content)

section Requests

variable {geometry : NorGeometry} {cache : NorCache}
  {content : Nat → Sector}

variable {entry : NorCacheEntry}

theorem Coherent.window_entry (coherent : Coherent geometry cache content) {index : Nat}
    (present : cache.cacheEntries[index]? = some entry) {sector count : Nat}
    (above : entry.sector ≤ sector) (inside : sector + count ≤ entry.sector + entry.count) :
    window entry.cache (sector - entry.sector) count = window content sector count := by
  apply window_congr
  intro offset below
  rw [coherent.cached index entry present _ (by omega)]
  congr 1
  omega

variable {sector : Nat}

theorem Coherent.writeEntry (coherent : Coherent geometry cache content) {index : Nat}
    (present : cache.cacheEntries[index]? = some entry) {data : List Sector}
    (covers : entry.Covers sector) (inside : sector + data.length ≤ entry.sector + entry.count) :
    Coherent geometry
      (cache.setEntry index fun other =>
        { other with
          cache := patch other.cache (sector - entry.sector) data
          dirty := true })
      (patch content sector data) := by
  have live := coherent.pages.live present covers
  obtain ⟨above, below⟩ := covers
  refine ⟨coherent.sameEnd, coherent.samePage, coherent.sameSize,
    coherent.flushEnabled, ?_, ?_, ?_, ?_⟩
  · show 0 < (cache.cacheEntries.modify index _).length
    rw [List.length_modify]
    exact coherent.nonempty
  · refine coherent.pages.setEntry (fun _ => ⟨rfl, rfl⟩) ?_
    intro other was freed
    obtain rfl : entry = other := Option.some.inj (present.symm.trans was)
    exact absurd freed live
  · intro i other was offset offsetInside
    obtain ⟨before, wasBefore, rfl⟩ := getElem?_setEntry.mp was
    by_cases here : index = i
    · subst here
      obtain rfl : entry = before := Option.some.inj (present.symm.trans wasBefore)
      rw [if_pos rfl] at offsetInside ⊢
      have same := coherent.cached index entry present offset offsetInside
      have sameSide : sector - entry.sector ≤ offset ↔ sector ≤ entry.sector + offset := by omega
      have sameDistance :
          offset - (sector - entry.sector) = entry.sector + offset - sector := by omega
      exact patch_congr data same sameSide sameDistance
    · rw [if_neg here] at offsetInside ⊢
      rw [coherent.cached i before wasBefore offset offsetInside]
      -- Another page has none of the written sectors.
      refine (patch_outside content fun written => here ?_).symm
      have ours : entry.Covers (before.sector + offset) := ⟨by omega, by omega⟩
      have theirs : before.Covers (before.sector + offset) :=
        ⟨Nat.le_add_right _ _, Nat.add_lt_add_left offsetInside _⟩
      exact coherent.pages.disjoint present wasBefore ours theirs
  · intro address uncovered
    have notCovered : ¬ entry.Covers address := by
      intro covers
      refine uncovered index _ (getElem?_setEntry.mpr ⟨entry, present, rfl⟩) ?_ ?_
      · rw [if_pos rfl]
      · rw [if_pos rfl]
        exact covers
    have notWritten :
        ¬ (sector ≤ address ∧ address < sector + data.length) :=
      fun written => notCovered ⟨by omega, by omega⟩
    rw [patch_outside content notWritten]
    apply coherent.stored
    intro i other was dirty otherCovers
    refine uncovered i _ (getElem?_setEntry.mpr ⟨other, was, rfl⟩) ?_ ?_
    · split
      · rfl
      · exact dirty
    · split <;> exact otherCovers

theorem Coherent.readLoop (turns : Nat) :
    ∀ {cache : NorCache} {sector numSectors : Nat}, Coherent geometry cache content →
      numSectors ≤ turns →
      sector + numSectors ≤ geometry.endOfPartition + 1 →
      (norCacheReadLoop turns cache sector numSectors).1 = window content sector numSectors ∧
        Coherent geometry (norCacheReadLoop turns cache sector numSectors).2 content := by
  induction turns with
  | zero =>
    intro cache sector numSectors coherent enough _
    obtain rfl : numSectors = 0 := Nat.le_zero.mp enough
    exact ⟨rfl, coherent⟩
  | succ turns ih =>
    intro cache sector numSectors coherent enough inside
    rw [norCacheReadLoop]
    by_cases more : 0 < numSectors
    · obtain ⟨loaded, entry, present, covers⟩ :=
        coherent.getPage (by omega : sector ≤ geometry.endOfPartition)
      obtain ⟨above, below⟩ := covers
      simp only [if_pos more, entry_eq present]
      obtain ⟨count, countEq⟩ :
          ∃ count, count =
            if entry.count - (sector - entry.sector) > numSectors then
              numSectors
            else
              entry.count - (sector - entry.sector) := ⟨_, rfl⟩
      have progress :
          0 < count ∧ count ≤ numSectors ∧ sector + count ≤ entry.sector + entry.count := by
        rw [countEq]
        split <;> omega
      rw [← countEq]
      obtain ⟨later, coherentAfter⟩ :=
        ih loaded (by omega : numSectors - count ≤ turns)
          (by omega : sector + count + (numSectors - count) ≤ geometry.endOfPartition + 1)
      refine ⟨?_, coherentAfter⟩
      rw [later, loaded.window_entry present above progress.2.2, ← window_add]
      congr 1
      omega
    · obtain rfl : numSectors = 0 := by omega
      simp only [if_neg more]
      exact ⟨rfl, coherent⟩

theorem Coherent.writePage (coherent : Coherent geometry cache content)
    (inside : sector ≤ geometry.endOfPartition) :
    Coherent geometry (norCacheWritePage cache sector).2 content ∧
      ∃ entry, (norCacheWritePage cache sector).2.cacheEntries[
          (norCacheWritePage cache sector).1]? = some entry ∧
        entry.Covers sector := by
  rw [norCacheWritePage]
  cases search : norCacheFindPage cache sector with
  | none => exact coherent.getPage inside
  | some index =>
    obtain ⟨within, intersects, _⟩ := List.findIdx?_eq_some_iff_getElem.mp search
    rw [decide_eq_true_eq] at intersects
    refine ⟨coherent, _, List.getElem?_eq_getElem within, ?_⟩
    exact ⟨by omega, by omega⟩

theorem Coherent.writeLoop (turns : Nat) :
    ∀ {cache : NorCache} {content : Nat → Sector} {sector : Nat} {src : List Sector},
      Coherent geometry cache content →
      src.length ≤ turns →
      sector + src.length ≤ geometry.endOfPartition + 1 →
      Coherent geometry (norCacheWriteLoop turns cache sector src) (patch content sector src) := by
  induction turns with
  | zero =>
    intro cache content sector src coherent enough _
    obtain rfl : src = [] := List.eq_nil_of_length_eq_zero (Nat.le_zero.mp enough)
    rw [patch_nil]
    exact coherent
  | succ turns ih =>
    intro cache content sector src coherent enough inside
    rw [norCacheWriteLoop]
    by_cases more : 0 < src.length
    · obtain ⟨loaded, entry, present, covers⟩ :=
        coherent.writePage (by omega : sector ≤ geometry.endOfPartition)
      have covered := covers
      obtain ⟨above, below⟩ := covers
      have noDirect : entry.sector - sector = 0 := Nat.sub_eq_zero_of_le above
      simp only [if_pos more, entry_eq present, noDirect,
        List.take_zero, patch_nil, List.drop_zero, Nat.add_zero]
      obtain ⟨count, countEq⟩ :
          ∃ count, count =
            if entry.count - (sector - entry.sector) > src.length then
              src.length
            else
              entry.count - (sector - entry.sector) := ⟨_, rfl⟩
      have progress :
          0 < count ∧ count ≤ src.length ∧ sector + count ≤ entry.sector + entry.count := by
        rw [countEq]
        split <;> omega
      rw [← countEq]
      have takeLength : (src.take count).length = count := by
        rw [List.length_take]
        omega
      have dropLength : (src.drop count).length = src.length - count := List.length_drop
      have moved : ¬ (src.drop count).length = src.length := by omega
      rw [if_neg moved]
      have fitsEntry :
          sector + (src.take count).length ≤ entry.sector + entry.count := by
        omega
      have later :=
        ih (loaded.writeEntry present covered fitsEntry)
          (by omega : (src.drop count).length ≤ turns)
          (by omega : sector + count + (src.drop count).length ≤ geometry.endOfPartition + 1)
      have parts :
          patch content sector src =
            patch (patch content sector (src.take count)) (sector + count) (src.drop count) := by
        have appended := patch_append content sector (src.take count) (src.drop count)
        rw [List.take_append_drop, takeLength] at appended
        exact appended
      rw [parts]
      exact later
    · obtain rfl : src = [] := List.eq_nil_of_length_eq_zero (by omega)
      simp only [if_neg more]
      rw [patch_nil]
      exact coherent

section

variable (coherent : Coherent geometry cache content)

include coherent

theorem Coherent.readPartialSector (inside : sector ≤ geometry.endOfPartition) (offset size : Nat) :
    ((norCacheReadPartialSector cache sector offset size).1.toList, content) =
        flatStep geometry.sectorSize content (.readPartialSector sector offset size) ∧
      Coherent geometry (norCacheReadPartialSector cache sector offset size).2 content := by
  rw [norCacheReadPartialSector, coherent.sameSize]
  by_cases tooLong : offset + size > geometry.sectorSize
  · simp only [flatStep, if_pos tooLong]
    exact ⟨rfl, coherent⟩
  · obtain ⟨loaded, entry, present, above, below⟩ := coherent.getPage inside
    have held := loaded.cached _ entry present (sector - entry.sector) (by omega)
    simp only [flatStep, if_neg tooLong, entry_eq present, held, Nat.add_sub_cancel' above]
    exact ⟨rfl, loaded⟩

theorem Coherent.changeSector (inside : sector ≤ geometry.endOfPartition)
    (change : Sector → Sector) :
    Coherent geometry (norCacheChangeSector change cache sector)
      (patch content sector [change (content sector)]) := by
  obtain ⟨loaded, entry, present, covers⟩ := coherent.getPage inside
  have held :=
    loaded.cached _ entry present (sector - entry.sector)
      (by obtain ⟨above, below⟩ := covers; omega)
  rw [Nat.add_sub_cancel' covers.1] at held
  have written :=
    loaded.writeEntry present covers
      (show sector + [change (content sector)].length ≤ entry.sector + entry.count from covers.2)
  rw [norCacheChangeSector]
  simp only [entry_eq present, held]
  exact written

theorem Coherent.invalidate : Coherent geometry (norCacheInvalidate cache) content := by
  obtain ⟨flushed, cleaned⟩ := coherent.flush
  have freed :
      ∀ (i : Nat) entry, (norCacheInvalidate cache).cacheEntries[i]? = some entry →
        entry.sector = cacheFree ∧ entry.count = 0 ∧ entry.dirty = false := by
    intro i entry present
    rw [norCacheInvalidate, List.getElem?_map, Option.map_eq_some_iff] at present
    obtain ⟨before, _, rfl⟩ := present
    exact ⟨rfl, rfl, rfl⟩
  refine ⟨flushed.sameEnd, flushed.samePage, flushed.sameSize,
    flushed.flushEnabled, ?_, ⟨?_, ?_, ?_⟩, ?_, ?_⟩
  · rw [norCacheInvalidate, List.length_map]
    exact flushed.nonempty
  · intro i entry present live
    exact absurd (freed i entry present).1 live
  · intro i entry present _
    exact (freed i entry present).2
  · intro i j entry other present _ live
    exact absurd (freed i entry present).1 live
  · intro i entry present offset below
    rw [(freed i entry present).2.1] at below
    omega
  · intro address _
    exact congrFun coherent.flush_disc address

/-- Every request keeps the cache coherent with the array and returns what the
array returns. -/
theorem Coherent.step (request : NorRequest) (within : request.Within geometry.endOfPartition) :
    (norCacheStep cache request).1 = (flatStep geometry.sectorSize content request).1 ∧
      Coherent geometry (norCacheStep cache request).2
        (flatStep geometry.sectorSize content request).2 := by
  cases request with
  | readSectors sector numSectors =>
    exact coherent.readLoop numSectors (Nat.le_refl numSectors) within
  | writeSectors sector buffer =>
    exact ⟨rfl, coherent.writeLoop _ (Nat.le_refl buffer.length) within⟩
  | readPartialSector sector offset size =>
    obtain ⟨same, after⟩ := coherent.readPartialSector within offset size
    rw [← same]
    exact ⟨rfl, after⟩
  | writePartialSector buffer sector offset =>
    simp only [norCacheStep, norCacheWritePartialSector, flatStep, coherent.sameSize]
    split
    · exact ⟨rfl, coherent⟩
    · exact ⟨rfl, coherent.changeSector within _⟩
  | eraseWritePartialSector buffer sector offset =>
    simp only [norCacheStep, norCacheEraseWritePartialSector, flatStep, coherent.sameSize]
    split
    · exact ⟨rfl, coherent⟩
    · exact ⟨rfl, coherent.changeSector within _⟩
  | flush => exact ⟨rfl, coherent.flush.1⟩
  | invalidate => exact ⟨rfl, coherent.invalidate⟩

end

end Requests

def norCacheRespond (cache : NorCache) (request : NorRequest) : List (List Sector) × NorCache :=
  ([(norCacheStep cache request).1], (norCacheStep cache request).2)

def flatRespond (sectorSize : Nat) (content : Nat → Sector)
    (request : NorRequest) : List (List Sector) × (Nat → Sector) :=
  ([(flatStep sectorSize content request).1], (flatStep sectorSize content request).2)

variable {disc fresh : Nat → Sector}

theorem norCacheConstructor_positive
    {numberOfPages sectorsPerPage endOfPartition sectorSize : Nat} {cache : NorCache}
    (created :
      norCacheConstructor numberOfPages sectorsPerPage disc endOfPartition sectorSize fresh =
        some cache) :
    0 < cache.sectorsPerPage := by
  rw [norCacheConstructor] at created
  split at created
  · cases created
  · obtain rfl := Option.some.inj created
    show 0 < if sectorsPerPage < 32 then 32 else sectorsPerPage
    split <;> omega

theorem coherent_norInitfunc {geometry : NorGeometry} {numberOfPages sectorsPerPage : Nat}
    {cache : NorCache}
    (created :
      norCacheConstructor numberOfPages sectorsPerPage disc
          geometry.endOfPartition geometry.sectorSize fresh =
        some cache) (samePage : cache.sectorsPerPage = geometry.sectorsPerPage) :
    Coherent geometry (norInitfunc cache) disc := by
  rw [norCacheConstructor] at created
  split at created
  · cases created
  · obtain rfl := Option.some.inj created
    have freed :
        ∀ (i : Nat) entry,
          (List.replicate (if numberOfPages < 4 then 4 else numberOfPages)
              (NorCacheEntry.freed fresh))[i]? = some entry →
          entry = NorCacheEntry.freed fresh := by
      intro i entry present
      exact List.eq_of_mem_replicate (List.mem_of_getElem? present)
    refine ⟨rfl, samePage, rfl, rfl, ?_, ⟨?_, ?_, ?_⟩, ?_, ?_⟩
    · show 0 < (List.replicate _ _).length
      rw [List.length_replicate]
      split <;> omega
    · intro i entry present live
      rw [freed i entry present] at live
      exact absurd rfl live
    · intro i entry present _
      rw [freed i entry present]
      exact ⟨rfl, rfl⟩
    · intro i j entry other present _ live
      rw [freed i entry present] at live
      exact absurd rfl live
    · intro i entry present offset below
      rw [freed i entry present] at below
      cases below
    · intro address _
      rfl

/-- The cache serves every sequence of requests as the plain array does, after a
flush the disc is that array, and the entries are pages of which no two meet. -/
theorem norCache_refines_flat
    {numberOfPages sectorsPerPage endOfPartition sectorSize : Nat}
    {disc fresh : Nat → Sector} {cache : NorCache}
    (created :
      norCacheConstructor numberOfPages sectorsPerPage disc endOfPartition sectorSize fresh =
        some cache)
    (addressable : endOfPartition + cache.sectorsPerPage < 2 ^ 32)
    {requests : List NorRequest}
    (within : ∀ request ∈ requests, request.Within endOfPartition) :
    let served := transduce norCacheRespond (norInitfunc cache) requests
    let flat := transduce (flatRespond sectorSize) disc requests
    served.1 = flat.1 ∧ (norCacheFlush served.2).disc = flat.2 ∧
      (∀ entry ∈ served.2.cacheEntries, entry.sector ≠ cacheFree →
        cache.sectorsPerPage ∣ entry.sector ∧
          entry.sector + entry.count =
            min (entry.sector + cache.sectorsPerPage) (endOfPartition + 1)) ∧
      ∀ (i j : Nat) entry other address, served.2.cacheEntries[i]? = some entry →
        served.2.cacheEntries[j]? = some other →
        i ≠ j → entry.Covers address → ¬ other.Covers address := by
  intro served flat
  let geometry : NorGeometry :=
    ⟨endOfPartition, cache.sectorsPerPage, sectorSize,
      norCacheConstructor_positive created, addressable⟩
  have opened : Coherent geometry (norInitfunc cache) disc := coherent_norInitfunc created rfl
  have kept :
      ∀ before content request, Coherent geometry before content → request.Within endOfPartition →
        (norCacheRespond before request).1 = (flatRespond sectorSize content request).1 ∧
          Coherent geometry (norCacheRespond before request).2
            (flatRespond sectorSize content request).2 := by
    intro before content request coherent inside
    obtain ⟨data, after⟩ := coherent.step request inside
    exact ⟨congrArg (fun response => [response]) data, after⟩
  obtain ⟨same, coherent⟩ :=
    transduce_related (Coherent geometry) (NorRequest.Within endOfPartition) kept opened within
  refine ⟨same, coherent.flush_disc, ?_, ?_⟩
  · intro entry member live
    obtain ⟨i, present⟩ := List.mem_iff_getElem?.mp member
    obtain ⟨aligned, inside, count⟩ := coherent.pages.page i entry present live
    refine ⟨aligned, ?_⟩
    have inPartition : entry.sector ≤ endOfPartition := inside
    have length :
        entry.count = min cache.sectorsPerPage (endOfPartition + 1 - entry.sector) :=
      count
    omega
  · intro i j entry other address present otherPresent differs covers otherCovers
    exact differs (coherent.pages.disjoint present otherPresent covers otherCovers)

/-- A request that straddles three pages of a partition of seventy sectors. -/
theorem norCache_refines_flat_straddling :
    let cache : NorCache :=
      { disc := fun _ => [0]
        endOfPartition := 69
        sectorsPerPage := 32
        sectorSize := 1
        cacheEntries := List.replicate 4 (NorCacheEntry.freed fun _ => [])
        accessCounter := 0
        cacheValidFlush := false }
    (transduce norCacheRespond (norInitfunc cache)
        [.writeSectors 31 (List.replicate 35 [7]), .readSectors 30 3]).1 =
      (transduce (flatRespond 1) (fun _ => [0])
        [.writeSectors 31 (List.replicate 35 [7]), .readSectors 30 3]).1 :=
  (norCache_refines_flat
    (rfl : norCacheConstructor 4 32 (fun _ => [0]) 69 1 (fun _ => []) = some _)
    (by decide) (by decide)).1

end IteSdk.Fat
