import IteSdk.Fat.NorCacheFlat

/-!
# The NOR cache over a disc that fails

The functions of `cache2.c` again, with an answer for each operation on the disc.
A failed operation leaves anything in the sectors that it was to transfer.
-/

namespace IteSdk.Fat

open Lib

inductive DiscAnswer
  | done
  /-- What is in the sectors afterwards, counted from the first one. -/
  | failed (left : Nat → Sector)

def DiscAnswer.isDone : DiscAnswer → Bool
  | .done => true
  | .failed _ => false

/-- The answers within one turn: to the writes of a flush, to the read of a page
and to a write past the cache. -/
structure DiscAnswers where
  writes : Nat → DiscAnswer
  read : DiscAnswer
  direct : DiscAnswer

/-- A disc after `data` was to be written from `sector` on. -/
def discAfterWrite (disc : Nat → Sector) (sector : Nat) (data : List Sector) :
    DiscAnswer → Nat → Sector
  | .done => patch disc sector data
  | .failed left => patch disc sector (window left 0 data.length)

/-- The outer loop of `_NOR_cache_flush`: it ends at the first write that
fails. -/
def norCacheFlushLoopBy : Nat → NorCache → (Nat → DiscAnswer) → NorCache
  | 0, cache, _ => cache
  | rounds + 1, cache, answers =>
    match norCacheLowestDirty cache.cacheEntries 0 none cacheFree with
    | none => cache
    | some flushIndex =>
      match answers 0 with
      | .done =>
        norCacheFlushLoopBy rounds (norCacheWriteBack cache flushIndex)
          fun turn => answers (turn + 1)
      | .failed left =>
        let entry := cache.entry flushIndex
        { cache with
          disc :=
            discAfterWrite cache.disc entry.sector
              (window entry.cache 0 entry.count) (.failed left) }

/-- `_NOR_cache_flush`. -/
def norCacheFlushBy (cache : NorCache) (answers : Nat → DiscAnswer) : NorCache :=
  if cache.cacheValidFlush = false then cache
  else norCacheFlushLoopBy cache.numberOfPages cache answers

/-- The first sector of the page of a sector and the sectors in that page. -/
def norCachePageOf (cache : NorCache) (sector : Nat) : Nat × Nat :=
  let sector := sector / cache.sectorsPerPage * cache.sectorsPerPage
  let nextPage := sector + cache.sectorsPerPage
  let nextPage :=
    if nextPage > cache.endOfPartition then cache.endOfPartition + 1
    else nextPage
  (sector, nextPage - sector)

/-- What a failed read leaves in the buffer of the entry, which keeps its
sector. -/
def norCacheFailLoad (cache : NorCache) (index sector : Nat) (left : Nat → Sector) : NorCache :=
  cache.setEntry index fun entry =>
    { entry with
      cache := patch entry.cache 0 (window left 0 (norCachePageOf cache sector).2) }

/-- `_NOR_cache_getPage`: the entry, `none` for `NULL`, and the cache afterwards.
The result of the flush is not looked at. -/
def norCacheGetPageBy (cache : NorCache) (sector : Nat)
    (answers : DiscAnswers) : Option Nat × NorCache :=
  match norCacheScan sector cache.cacheEntries 0 false 0 uintMax with
  | .hit i =>
    (some i,
      { cache.setEntry i fun entry =>
          { entry with lastAccess := accessTime cache } with
        accessCounter := accessTime cache })
  | .victim foundFree oldUsed =>
    let cache :=
      if foundFree = false ∧ (cache.entry oldUsed).dirty = true then
        norCacheFlushBy cache answers.writes
      else
        cache
    match answers.read with
    | .done => (some oldUsed, norCacheLoad cache oldUsed sector)
    | .failed left => (none, norCacheFailLoad cache oldUsed sector left)

/-- What a turn of `_NOR_cache_writeSectors` does to the entry at hand; `src` is
what is left of the buffer. -/
def norCacheWriteInto (cache : NorCache) (index sector : Nat)
    (src : List Sector) (direct : DiscAnswer) : NorCache :=
  let entry := cache.entry index
  let before := entry.sector - sector
  let cache :=
    if entry.sector > sector then
      { cache with
        disc := discAfterWrite cache.disc sector (src.take before) direct }
    else
      cache
  let rest := src.drop before
  let sec := sector + before - entry.sector
  let secsToWrite :=
    if entry.count - sec > rest.length then rest.length
    else entry.count - sec
  cache.setEntry index fun entry =>
    { entry with
      cache := patch entry.cache sec (rest.take secsToWrite)
      dirty := true }

def norCacheTaken (cache : NorCache) (index sector : Nat) (src : List Sector) : Nat :=
  let entry := cache.entry index
  let before := entry.sector - sector
  let rest := src.drop before
  let sec := sector + before - entry.sector
  before + if entry.count - sec > rest.length then rest.length else entry.count - sec

/-- What `_NOR_cache_writePartialSector` and `_NOR_cache_eraseWritePartialSector`
do to the entry at hand. -/
def norCacheChangeInto (change : Sector → Sector) (cache : NorCache)
    (index sector : Nat) : NorCache :=
  let entry := cache.entry index
  let sec := sector - entry.sector
  let changed := change (entry.cache sec)
  cache.setEntry index fun entry =>
    { entry with
      cache := patch entry.cache sec [changed]
      dirty := true }

/-- What is done with the cache while its mutex is held: a page is fetched and
read, written to or changed in one sector; or everything is flushed. -/
inductive NorTurn (endOfPartition : Nat)
  | read (sector : Nat) (inside : sector ≤ endOfPartition) (answers : DiscAnswers)
  | write (sector : Nat) (inside : sector ≤ endOfPartition)
      (src : List Sector) (fits : sector + src.length ≤ endOfPartition + 1)
      (answers : DiscAnswers)
  | change (sector : Nat) (inside : sector ≤ endOfPartition)
      (change : Sector → Sector) (answers : DiscAnswers)
  | flush (writes : Nat → DiscAnswer)

/-! ## What the turns should keep -/

/-- The dirty pages that a flush writes before the page at `sector`. -/
def dirtyBelow (entries : List NorCacheEntry) (sector : Nat) : Nat :=
  entries.countP fun entry => entry.dirty && decide (entry.sector < sector)

/-- The write of the page at `sector` and all writes before it succeed. -/
def WrittenBack (entries : List NorCacheEntry) (sector : Nat) (writes : Nat → DiscAnswer) : Prop :=
  ∀ turn, turn < dirtyBelow entries sector + 1 → (writes turn).isDone = true

instance (entries : List NorCacheEntry) (sector : Nat) (writes : Nat → DiscAnswer) :
    Decidable (WrittenBack entries sector writes) :=
  inferInstanceAs (Decidable (∀ turn, turn < dirtyBelow entries sector + 1 →
    (writes turn).isDone = true))

/-- The dirty page that is evicted though it could not be written back. -/
def norCacheUnwritten (cache : NorCache) (sector : Nat)
    (writes : Nat → DiscAnswer) : Option (Nat × NorCacheEntry) :=
  match norCacheScan sector cache.cacheEntries 0 false 0 uintMax with
  | .hit _ => none
  | .victim foundFree oldUsed =>
    let entry := cache.entry oldUsed
    if foundFree = false ∧ entry.dirty = true ∧
        ¬WrittenBack cache.cacheEntries entry.sector writes then
      some (oldUsed, entry)
    else
      none

/-- A cache, the array that it should stand for, and the page that the last turn
evicted without having written it back. -/
structure NorFailing where
  cache : NorCache
  content : Nat → Sector
  unwritten : Option (Nat × NorCacheEntry)

/-- A turn that fetches a page of `sector` and, if that succeeds, goes on with
it. -/
def NorFailing.fetch (state : NorFailing) (sector : Nat) (answers : DiscAnswers)
    (goOn : NorCache → Nat → NorCache × (Nat → Sector)) : NorFailing :=
  let found := norCacheGetPageBy state.cache sector answers
  let unwritten := norCacheUnwritten state.cache sector answers.writes
  match found.1 with
  | none => ⟨found.2, state.content, unwritten⟩
  | some index =>
    let result := goOn found.2 index
    ⟨result.1, result.2, unwritten⟩

def norFailingNext {endOfPartition : Nat} (state : NorFailing) : NorTurn endOfPartition → NorFailing
  | .read sector _ answers =>
    state.fetch sector answers fun cache _ => (cache, state.content)
  | .write sector _ src _ answers =>
    let goOn := fun cache index =>
      (norCacheWriteInto cache index sector src answers.direct,
        patch state.content sector (src.take (norCacheTaken cache index sector src)))
    match norCacheFindPage state.cache sector with
    | some index =>
      let result := goOn state.cache index
      ⟨result.1, result.2, none⟩
    | none => state.fetch sector answers goOn
  | .change sector _ change answers =>
    state.fetch sector answers fun cache index =>
      (norCacheChangeInto change cache index sector,
        patch state.content sector [change (state.content sector)])
  | .flush writes =>
    ⟨norCacheFlushBy state.cache writes, state.content, none⟩

/-- A page that could not be written back is still there and dirty, no entry
claims sectors that its buffer does not hold, and reading gives the data of the
sectors asked for. -/
structure NorFailing.Safe (endOfPartition : Nat) (state : NorFailing) :
    Prop where
  kept : ∀ index entry, state.unwritten = some (index, entry) →
    ∃ now, state.cache.cacheEntries[index]? = some now ∧
      now.sector = entry.sector ∧ now.count = entry.count ∧ now.dirty = true
  truthful : ∀ (i : Nat) entry, state.cache.cacheEntries[i]? = some entry →
    ∀ offset, offset < entry.count → entry.cache offset = state.content (entry.sector + offset)
  reads : ∀ sector numSectors, sector + numSectors ≤ endOfPartition + 1 →
    (norCacheReadSectors state.cache sector numSectors).1 = window state.content sector numSectors

/-- What the eviction of a page needs of the disc: if the new page is read, then
a dirty page in its place has been written back; if not, then the failing read
has left the data of the old page in the buffer. -/
def EvictionAllowed (cache : NorCache) (sector : Nat)
    (writes : Nat → DiscAnswer) (foundFree : Bool) (entry : NorCacheEntry) :
    DiscAnswer → Prop
  | .done =>
    foundFree = false ∧ entry.dirty = true → WrittenBack cache.cacheEntries entry.sector writes
  | .failed left =>
    ∀ offset, offset < entry.count →
      offset < (norCachePageOf cache sector).2 → left offset = entry.cache offset

instance (cache : NorCache) (sector : Nat) (writes : Nat → DiscAnswer)
    (foundFree : Bool) (entry : NorCacheEntry) :
    ∀ read, Decidable (EvictionAllowed cache sector writes foundFree entry read)
  | .done => inferInstanceAs (Decidable (_ → _))
  | .failed _ => inferInstanceAs (Decidable (∀ offset, offset < entry.count → _))

/-- The condition on a fetch, by what the search for the page finds. -/
def ScanAllowed (cache : NorCache) (sector : Nat) (answers : DiscAnswers) : PageScan → Prop
  | .hit _ => True
  | .victim foundFree oldUsed =>
    EvictionAllowed cache sector answers.writes foundFree (cache.entry oldUsed) answers.read

instance (cache : NorCache) (sector : Nat) (answers : DiscAnswers) :
    ∀ scan, Decidable (ScanAllowed cache sector answers scan)
  | .hit _ => inferInstanceAs (Decidable True)
  | .victim _ _ => inferInstanceAs (Decidable (EvictionAllowed _ _ _ _ _ _))

def FetchAllowed (cache : NorCache) (sector : Nat) (answers : DiscAnswers) : Prop :=
  ScanAllowed cache sector answers (norCacheScan sector cache.cacheEntries 0 false 0 uintMax)

instance (cache : NorCache) (sector : Nat) (answers : DiscAnswers) :
    Decidable (FetchAllowed cache sector answers) :=
  inferInstanceAs (Decidable (ScanAllowed _ _ _ _))

def NorTurn.Allowed {endOfPartition : Nat} (state : NorFailing) : NorTurn endOfPartition → Prop
  | .read sector _ answers => FetchAllowed state.cache sector answers
  | .write sector _ _ _ answers =>
    norCacheFindPage state.cache sector = none → FetchAllowed state.cache sector answers
  | .change sector _ _ answers => FetchAllowed state.cache sector answers
  | .flush _ => True

instance {endOfPartition : Nat} (state : NorFailing) :
    ∀ turn : NorTurn endOfPartition, Decidable (turn.Allowed state)
  | .read _ _ _ | .change _ _ _ _ => inferInstanceAs (Decidable (FetchAllowed _ _ _))
  | .write _ _ _ _ _ => inferInstanceAs (Decidable (_ → _))
  | .flush _ => inferInstanceAs (Decidable True)

end IteSdk.Fat
