import IteSdk.Lib.FlatMemory
import IteSdk.Lib.Memory

/-!
# The sector cache of the NOR drive

`cache2.c` over a disc that never fails.  The disc and the pages of the cache
are flat memories of sectors.
-/

namespace IteSdk.Fat

open Lib

abbrev Sector := List UInt8

def uintMax : Nat := 2 ^ 32 - 1

def cacheFree : Nat := uintMax

structure NorCacheEntry where
  sector : Nat
  count : Nat
  lastAccess : Nat
  dirty : Bool
  cache : Nat → Sector

/-- `NOR_CACHE` with the disc below it, the static `accessCounter` of the file
and `CacheValidFlush` of the driver. -/
structure NorCache where
  disc : Nat → Sector
  endOfPartition : Nat
  sectorsPerPage : Nat
  sectorSize : Nat
  cacheEntries : List NorCacheEntry
  accessCounter : Nat
  cacheValidFlush : Bool

def NorCache.numberOfPages (cache : NorCache) : Nat := cache.cacheEntries.length

/-- An entry as the constructor and `_NOR_cache_invalidate` leave it. -/
def NorCacheEntry.freed (cache : Nat → Sector) : NorCacheEntry where
  sector := cacheFree
  count := 0
  lastAccess := 0
  dirty := false
  cache := cache

/-- `cacheEntries[index]`. -/
def NorCache.entry (cache : NorCache) (index : Nat) : NorCacheEntry :=
  cache.cacheEntries.getD index (NorCacheEntry.freed fun _ => [])

def NorCache.setEntry (cache : NorCache) (index : Nat)
    (change : NorCacheEntry → NorCacheEntry) : NorCache :=
  { cache with cacheEntries := cache.cacheEntries.modify index change }

/-- `_NOR_cache_constructor`, with whatever is in the fresh pages. -/
def norCacheConstructor (numberOfPages sectorsPerPage : Nat)
    (disc : Nat → Sector) (endOfPartition sectorSize : Nat)
    (fresh : Nat → Sector) : Option NorCache :=
  if numberOfPages = 0 ∨ sectorsPerPage = 0 then
    none
  else
    some
      { disc
        endOfPartition
        sectorsPerPage := if sectorsPerPage < 32 then 32 else sectorsPerPage
        sectorSize
        cacheEntries :=
          List.replicate (if numberOfPages < 4 then 4 else numberOfPages)
            (NorCacheEntry.freed fresh)
        accessCounter := 0
        cacheValidFlush := false }

/-- The part of `nor_initfunc` that follows the constructor. -/
def norInitfunc (cache : NorCache) : NorCache := { cache with cacheValidFlush := true }

def accessTime (cache : NorCache) : Nat := (cache.accessCounter + 1) % 2 ^ 32

/-- The inner loop of `_NOR_cache_flush`: the dirty entry with the lowest sector
below `flushSector`. -/
def norCacheLowestDirty : List NorCacheEntry → Nat → Option Nat → Nat → Option Nat
  | [], _, flushIndex, _ => flushIndex
  | entry :: rest, j, flushIndex, flushSector =>
    if entry.dirty = true ∧ entry.sector < flushSector then
      norCacheLowestDirty rest (j + 1) (some j) entry.sector
    else
      norCacheLowestDirty rest (j + 1) flushIndex flushSector

def norCacheWriteBack (cache : NorCache) (index : Nat) : NorCache :=
  let entry := cache.entry index
  { cache.setEntry index fun entry => { entry with dirty := false } with
    disc := patch cache.disc entry.sector (window entry.cache 0 entry.count) }

/-- The outer loop of `_NOR_cache_flush`. -/
def norCacheFlushLoop : Nat → NorCache → NorCache
  | 0, cache => cache
  | rounds + 1, cache =>
    match norCacheLowestDirty cache.cacheEntries 0 none cacheFree with
    | none => cache
    | some flushIndex =>
      norCacheFlushLoop rounds (norCacheWriteBack cache flushIndex)

/-- `_NOR_cache_flush`.  Its result is not modelled: on success the source
returns a variable that it never assigned, and no caller looks at it. -/
def norCacheFlush (cache : NorCache) : NorCache :=
  if cache.cacheValidFlush = false then cache
  else norCacheFlushLoop cache.numberOfPages cache

/-- What the loop of `_NOR_cache_getPage` finds. -/
inductive PageScan
  | hit (index : Nat)
  | victim (foundFree : Bool) (oldUsed : Nat)
  deriving DecidableEq

/-- The loop of `_NOR_cache_getPage`. -/
def norCacheScan (sector : Nat) : List NorCacheEntry → Nat → Bool → Nat → Nat → PageScan
  | [], _, foundFree, oldUsed, _ => .victim foundFree oldUsed
  | entry :: rest, i, foundFree, oldUsed, oldAccess =>
    if entry.sector ≤ sector ∧ sector < entry.sector + entry.count then
      .hit i
    else if foundFree = false ∧ (entry.sector = cacheFree ∨ entry.lastAccess < oldAccess) then
      norCacheScan sector rest (i + 1) (decide (entry.sector = cacheFree)) i entry.lastAccess
    else
      norCacheScan sector rest (i + 1) foundFree oldUsed oldAccess

/-- The end of `_NOR_cache_getPage`: the page of `sector` is read into an
entry. -/
def norCacheLoad (cache : NorCache) (index sector : Nat) : NorCache :=
  let sector := sector / cache.sectorsPerPage * cache.sectorsPerPage
  let nextPage := sector + cache.sectorsPerPage
  let nextPage :=
    if nextPage > cache.endOfPartition then cache.endOfPartition + 1
    else nextPage
  let page := window cache.disc sector (nextPage - sector)
  { cache.setEntry index fun entry =>
      { entry with
        sector := sector
        count := nextPage - sector
        lastAccess := accessTime cache
        cache := patch entry.cache 0 page } with
    accessCounter := accessTime cache }

/-- `_NOR_cache_getPage`: the index of the entry and the cache afterwards. -/
def norCacheGetPage (cache : NorCache) (sector : Nat) : Nat × NorCache :=
  match norCacheScan sector cache.cacheEntries 0 false 0 uintMax with
  | .hit i =>
    (i,
      { cache.setEntry i fun entry =>
          { entry with lastAccess := accessTime cache } with
        accessCounter := accessTime cache })
  | .victim foundFree oldUsed =>
    let cache :=
      if foundFree = false ∧ (cache.entry oldUsed).dirty = true then
        norCacheFlush cache
      else
        cache
    (oldUsed, norCacheLoad cache oldUsed sector)

/-- `_NOR_cache_findPage`.  The loop ends at the first entry that intersects. -/
def norCacheFindPage (cache : NorCache) (sector : Nat) : Option Nat :=
  cache.cacheEntries.findIdx? fun entry =>
    decide
      (entry.sector ≠ cacheFree ∧ entry.sector < sector ∧
        sector - entry.sector < entry.count ∧ entry.sector < uintMax)

/-- The loop of `_NOR_cache_readSectors`, one page a turn. -/
def norCacheReadLoop : Nat → NorCache → Nat → Nat → List Sector × NorCache
  | 0, cache, _, _ => ([], cache)
  | turns + 1, cache, sector, numSectors =>
    if 0 < numSectors then
      let found := norCacheGetPage cache sector
      let entry := found.2.entry found.1
      let sec := sector - entry.sector
      let secsToRead :=
        if entry.count - sec > numSectors then numSectors
        else entry.count - sec
      let later := norCacheReadLoop turns found.2 (sector + secsToRead) (numSectors - secsToRead)
      (window entry.cache sec secsToRead ++ later.1, later.2)
    else
      ([], cache)

def norCacheReadSectors (cache : NorCache) (sector numSectors : Nat) : List Sector × NorCache :=
  norCacheReadLoop numSectors cache sector numSectors

/-- The entry that a turn of `_NOR_cache_writeSectors` writes to. -/
def norCacheWritePage (cache : NorCache) (sector : Nat) : Nat × NorCache :=
  match norCacheFindPage cache sector with
  | some index => (index, cache)
  | none => norCacheGetPage cache sector

/-- The loop of `_NOR_cache_writeSectors`, one page a turn; `src` is what is left
of the buffer, `numSectors` sectors. -/
def norCacheWriteLoop : Nat → NorCache → Nat → List Sector → NorCache
  | 0, cache, _, _ => cache
  | turns + 1, cache, sector, src =>
    if 0 < src.length then
      let found := norCacheWritePage cache sector
      let entry := found.2.entry found.1
      -- The sectors in front of the page go to the disc directly.
      let direct := entry.sector - sector
      let cache :=
        { found.2 with
          disc := patch found.2.disc sector (src.take direct) }
      let rest := src.drop direct
      let sec := sector + direct - entry.sector
      let secsToWrite :=
        if entry.count - sec > rest.length then rest.length
        else entry.count - sec
      let cache :=
        cache.setEntry found.1 fun entry =>
          { entry with
            cache := patch entry.cache sec (rest.take secsToWrite)
            dirty := true }
      let rest := rest.drop secsToWrite
      if rest.length = src.length then
        cache
      else
        norCacheWriteLoop turns cache (sector + direct + secsToWrite) rest
    else
      cache

def norCacheWriteSectors (cache : NorCache) (sector : Nat) (buffer : List Sector) : NorCache :=
  norCacheWriteLoop buffer.length cache sector buffer

/-- `_NOR_cache_readPartialSector`, `none` where it returns false. -/
def norCacheReadPartialSector (cache : NorCache) (sector offset size : Nat) :
    Option (List UInt8) × NorCache :=
  if offset + size > cache.sectorSize then
    (none, cache)
  else
    let found := norCacheGetPage cache sector
    let entry := found.2.entry found.1
    let sec := sector - entry.sector
    (some (slice offset size (entry.cache sec)), found.2)

/-- What `_NOR_cache_writePartialSector` and `_NOR_cache_eraseWritePartialSector`
share: one sector of a page is changed in place. -/
def norCacheChangeSector (change : Sector → Sector) (cache : NorCache) (sector : Nat) : NorCache :=
  let found := norCacheGetPage cache sector
  let entry := found.2.entry found.1
  let sec := sector - entry.sector
  let changed := change (entry.cache sec)
  found.2.setEntry found.1 fun entry =>
    { entry with
      cache := patch entry.cache sec [changed]
      dirty := true }

def norCacheWritePartialSector (cache : NorCache) (buffer : List UInt8)
    (sector offset : Nat) : NorCache :=
  if offset + buffer.length > cache.sectorSize then cache
  else norCacheChangeSector (overwrite offset buffer) cache sector

def norCacheEraseWritePartialSector (cache : NorCache) (buffer : List UInt8)
    (sector offset : Nat) : NorCache :=
  if offset + buffer.length > cache.sectorSize then cache
  else
    norCacheChangeSector (fun _ => overwrite offset buffer (List.replicate cache.sectorSize 0))
      cache sector

def norCacheInvalidate (cache : NorCache) : NorCache :=
  let cache := norCacheFlush cache
  { cache with
    cacheEntries := cache.cacheEntries.map fun entry => NorCacheEntry.freed entry.cache }

end IteSdk.Fat
