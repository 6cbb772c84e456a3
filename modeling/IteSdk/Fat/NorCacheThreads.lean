import IteSdk.Fat.NorCache
import IteSdk.Fat.NorCacheFlat
import IteSdk.Lib.Transition

/-!
# The NOR cache under its two locks

`accessMutex` is held for one page of a read or a write, `flushMutex` for a
flush.  One step is one transfer or one access to fields of an entry; the
fields that only the holder of `accessMutex` reads or writes are taken together.
The requests that hold no lock are `pending`.
-/

namespace IteSdk.Fat

section

open Lib

inductive NorJob
  | read (sector numSectors : Nat)
  | write (sector : Nat) (src : List Sector)
  deriving DecidableEq

namespace NorJob

def sector : NorJob → Nat
  | .read sector _ => sector
  | .write sector _ => sector

def numSectors : NorJob → Nat
  | .read _ numSectors => numSectors
  | .write _ src => src.length

def advance (count : Nat) : NorJob → NorJob
  | .read sector numSectors => .read (sector + count) (numSectors - count)
  | .write sector src => .write (sector + count) (src.drop count)

/-- Whether the loop over pages ends; a write also ends when a turn has stored
nothing. -/
def Ends (loopDetect : Nat) : NorJob → Prop
  | .read _ numSectors => numSectors = 0
  | .write _ src => src.length = 0 ∨ src.length = loopDetect

instance (loopDetect : Nat) : ∀ job : NorJob, Decidable (job.Ends loopDetect)
  | .read _ _ => inferInstanceAs (Decidable (_ = _))
  | .write _ _ => inferInstanceAs (Decidable (_ ∨ _))

def taken (count : Nat) : NorJob → List Sector
  | .read _ _ => []
  | .write _ src => src.take count

/-- The sectors that a request still stores, with their addresses. -/
def stores : NorJob → List (Nat × Sector)
  | .read _ _ => []
  | .write sector src => addressed sector src

end NorJob

/-- Where the holder of `accessMutex` is: in `_NOR_cache_findPage`, in
`_NOR_cache_getPage` (from `scan` to `setLastAccess`), or behind them. -/
inductive AccessPc
  | findPage (i : Nat)
  | scan (i : Nat) (foundFree : Bool) (oldUsed oldAccess : Nat)
  | checkDirty (foundFree : Bool) (oldUsed : Nat)
  | flushing (oldUsed : Nat)
  | load (oldUsed : Nat)
  | setSector (oldUsed sector count : Nat)
  | setCount (oldUsed count : Nat)
  | setLastAccess (oldUsed : Nat)
  | found (index : Nat)
  | copy (index : Nat)
  | setDirty (index : Nat)
  | unlock
  deriving DecidableEq

/-- One turn of a loop over pages; `loopDetect` is `numSectors` at its start. -/
structure AccessTurn where
  job : NorJob
  loopDetect : Nat
  pc : AccessPc
  deriving DecidableEq

/-- Where the holder of `flushMutex` is; `rounds` are the turns of the outer loop
behind this one. -/
inductive FlushPc
  | readDirty (rounds j : Nat) (flushIndex : Option Nat) (flushSector : Nat)
  | compareSector (rounds j : Nat) (flushIndex : Option Nat) (flushSector : Nat)
  | takeSector (rounds j : Nat)
  | readSector (rounds flushIndex : Nat)
  | readCount (rounds flushIndex sector : Nat)
  | transfer (rounds flushIndex sector count : Nat)
  | clear (rounds flushIndex : Nat)
  | unlock
  deriving DecidableEq

/-- A flush; `nested` if `_NOR_cache_getPage` has called it. -/
structure FlushTurn where
  nested : Bool
  pc : FlushPc
  deriving DecidableEq

/-- The cache, the holders of the locks and the requests that wait.  `begun` are
the writes so far and `copied` the pieces that were copied for them, in
order. -/
structure NorSystem where
  cache : NorCache
  access : Option AccessTurn
  flush : Option FlushTurn
  pending : List NorJob
  begun : List (Nat × List Sector)
  copied : List (Nat × List Sector)

def NorSystem.start (cache : NorCache) : NorSystem := ⟨cache, none, none, [], [], []⟩

def lastCopied (disc : Nat → Sector) (copied : List (Nat × List Sector)) : Nat → Sector :=
  copied.foldl (fun memory piece => patch memory piece.1 piece.2) disc

structure NorSystem.Quiet (system : NorSystem) : Prop where
  access : system.access = none
  flush : system.flush = none
  pending : system.pending = []

inductive NorEvent
  | begin (job : NorJob)
  | lockAccess (waiting : Nat)
  | access
  | lockFlush
  | flush
  deriving DecidableEq

def NorJob.Within (endOfPartition : Nat) (job : NorJob) : Prop :=
  job.sector + job.numSectors ≤ endOfPartition + 1

instance (endOfPartition : Nat) (job : NorJob) : Decidable (job.Within endOfPartition) :=
  inferInstanceAs (Decidable (_ ≤ _))

namespace NorSystem

variable (system : NorSystem)

def setTurn (turn : AccessTurn) (pc : AccessPc) : NorSystem :=
  { system with access := some { turn with pc := pc } }

/-- The holder of `accessMutex` changes the cache and goes on. -/
def setCache (turn : AccessTurn) (cache : NorCache) (pc : AccessPc) : NorSystem :=
  { system with cache := cache, access := some { turn with pc := pc } }

/-- A piece of a write is copied, to the disc or to an entry. -/
def setCopied (turn : AccessTurn) (cache : NorCache) (count : Nat) (pc : AccessPc) : NorSystem :=
  let piece := turn.job.taken count
  { system with
    cache := cache
    access := some { turn with job := turn.job.advance count, pc := pc }
    copied := system.copied ++ [(turn.job.sector, piece)] }

/-- The page that `_NOR_cache_getPage` reads for a sector: its first sector and
how many it has. -/
def page (cache : NorCache) (sector : Nat) : Nat × Nat :=
  let sector := sector / cache.sectorsPerPage * cache.sectorsPerPage
  let nextPage := sector + cache.sectorsPerPage
  let nextPage :=
    if nextPage > cache.endOfPartition then cache.endOfPartition + 1
    else nextPage
  (sector, nextPage - sector)

def turnCount (entry : NorCacheEntry) (job : NorJob) : Nat :=
  let sec := job.sector - entry.sector
  if entry.count - sec > job.numSectors then job.numSectors
  else entry.count - sec

def touched (cache : NorCache) (index : Nat) : NorCache :=
  { cache.setEntry index fun entry =>
      { entry with lastAccess := accessTime cache } with
    accessCounter := accessTime cache }

/-- The outer loop of `_NOR_cache_flush` goes on or ends. -/
def flushRound : Nat → FlushPc
  | 0 => .unlock
  | rounds + 1 => .readDirty rounds 0 none cacheFree

def flushStart (cache : NorCache) : FlushPc :=
  if cache.cacheValidFlush = false then .unlock
  else flushRound cache.numberOfPages

/-- The next step of the holder of `accessMutex`. -/
def accessNext (turn : AccessTurn) : Option NorSystem :=
  let cache := system.cache
  let job := turn.job
  match turn.pc with
  | .findPage i =>
    if i < cache.numberOfPages then
      let entry := cache.entry i
      if entry.sector ≠ cacheFree ∧ entry.sector < job.sector ∧
          job.sector - entry.sector < entry.count ∧ entry.sector < uintMax then
        some (system.setTurn turn (.found i))
      else
        some (system.setTurn turn (.findPage (i + 1)))
    else
      some (system.setTurn turn (.scan 0 false 0 uintMax))
  | .scan i foundFree oldUsed oldAccess =>
    if i < cache.numberOfPages then
      let entry := cache.entry i
      if entry.sector ≤ job.sector ∧ job.sector < entry.sector + entry.count then
        some (system.setCache turn (touched cache i) (.found i))
      else if foundFree = false ∧ (entry.sector = cacheFree ∨ entry.lastAccess < oldAccess) then
        some
          (system.setTurn turn
            (.scan (i + 1) (decide (entry.sector = cacheFree)) i entry.lastAccess))
      else
        some (system.setTurn turn (.scan (i + 1) foundFree oldUsed oldAccess))
    else
      some (system.setTurn turn (.checkDirty foundFree oldUsed))
  | .checkDirty foundFree oldUsed =>
    if foundFree = false ∧ (cache.entry oldUsed).dirty = true then
      some (system.setTurn turn (.flushing oldUsed))
    else
      some (system.setTurn turn (.load oldUsed))
  | .flushing _ =>
    -- Waits while another flush holds `flushMutex`.
    if system.flush = none then
      some { system with flush := some ⟨true, flushStart cache⟩ }
    else
      none
  | .load oldUsed =>
    let page := page cache job.sector
    some
      (system.setCache turn
        (cache.setEntry oldUsed fun entry =>
          { entry with
            cache := patch entry.cache 0 (window cache.disc page.1 page.2) })
        (.setSector oldUsed page.1 page.2))
  | .setSector oldUsed sector count =>
    some
      (system.setCache turn (cache.setEntry oldUsed fun entry => { entry with sector := sector })
        (.setCount oldUsed count))
  | .setCount oldUsed count =>
    some
      (system.setCache turn (cache.setEntry oldUsed fun entry => { entry with count := count })
        (.setLastAccess oldUsed))
  | .setLastAccess oldUsed =>
    some (system.setCache turn (touched cache oldUsed) (.found oldUsed))
  | .found index =>
    let entry := cache.entry index
    match job with
    | .read _ _ =>
      some
        { system with
          access :=
            some
              { turn with
                job := job.advance (turnCount entry job)
                pc := .unlock } }
    | .write sector src =>
      if sector < entry.sector then
        let direct := entry.sector - sector
        some
          (system.setCopied turn { cache with disc := patch cache.disc sector (src.take direct) }
            direct (.copy index))
      else
        some (system.setTurn turn (.copy index))
  | .copy index =>
    let entry := cache.entry index
    let count := turnCount entry job
    some
      (system.setCopied turn
        (cache.setEntry index fun entry =>
          { entry with
            cache := patch entry.cache (job.sector - entry.sector) (job.taken count) })
        count (.setDirty index))
  | .setDirty index =>
    some
      (system.setCache turn (cache.setEntry index fun entry => { entry with dirty := true })
        .unlock)
  | .unlock =>
    some
      { system with
        access := none
        pending :=
          if job.Ends turn.loopDetect then system.pending
          else job :: system.pending }

/-- The next step of the holder of `flushMutex`. -/
def flushNext (turn : FlushTurn) : NorSystem :=
  let cache := system.cache
  let goOn (pc : FlushPc) : NorSystem := { system with flush := some { turn with pc := pc } }
  match turn.pc with
  | .readDirty rounds j flushIndex flushSector =>
    if j < cache.numberOfPages then
      if (cache.entry j).dirty = true then
        goOn (.compareSector rounds j flushIndex flushSector)
      else
        goOn (.readDirty rounds (j + 1) flushIndex flushSector)
    else
      match flushIndex with
      | some index => goOn (.readSector rounds index)
      | none => goOn .unlock
  | .compareSector rounds j flushIndex flushSector =>
    if (cache.entry j).sector < flushSector then
      goOn (.takeSector rounds j)
    else
      goOn (.readDirty rounds (j + 1) flushIndex flushSector)
  | .takeSector rounds j =>
    goOn (.readDirty rounds (j + 1) (some j) (cache.entry j).sector)
  | .readSector rounds index =>
    goOn (.readCount rounds index (cache.entry index).sector)
  | .readCount rounds index sector =>
    goOn (.transfer rounds index sector (cache.entry index).count)
  | .transfer rounds index sector count =>
    { system with
      cache :=
        { cache with
          disc := patch cache.disc sector (window (cache.entry index).cache 0 count) }
      flush := some { turn with pc := .clear rounds index } }
  | .clear rounds index =>
    { system with
      cache := cache.setEntry index fun entry => { entry with dirty := false }
      flush := some { turn with pc := flushRound rounds } }
  | .unlock =>
    { system with
      flush := none
      access :=
        -- A nested flush returns to `_NOR_cache_getPage`.
        if turn.nested = true then
          system.access.map fun access =>
            match access.pc with
            | .flushing oldUsed => { access with pc := .load oldUsed }
            | _ => access
        else
          system.access }

def next : NorEvent → Option NorSystem
  | .begin job =>
    if job.Within system.cache.endOfPartition then
      some
        { system with
          pending :=
            if job.numSectors = 0 then system.pending
            else job :: system.pending
          begun :=
            match job with
            | .read _ _ => system.begun
            | .write sector src => (sector, src) :: system.begun }
    else
      none
  | .lockAccess waiting =>
    match system.access, system.pending[waiting]? with
    | none, some job =>
      some
        { system with
          access :=
            some
              ⟨job, job.numSectors,
                match job with
                | .read _ _ => .scan 0 false 0 uintMax
                | .write _ _ => .findPage 0⟩
          pending := system.pending.eraseIdx waiting }
    | _, _ => none
  | .access =>
    match system.access with
    | some turn => system.accessNext turn
    | none => none
  | .lockFlush =>
    if system.flush = none then
      some { system with flush := some ⟨false, flushStart system.cache⟩ }
    else
      none
  | .flush =>
    match system.flush with
    | some turn => some (system.flushNext turn)
    | none => none

/-- A flush may clean an entry when the disc has its data, or when a write is
about to mark it. -/
def MayClean (index : Nat) : Prop :=
  (∀ offset < (system.cache.entry index).count,
      (system.cache.entry index).cache offset =
        system.cache.disc ((system.cache.entry index).sector + offset)) ∨
    system.access.map AccessTurn.pc = some (.setDirty index)

instance (index : Nat) : Decidable (system.MayClean index) := inferInstanceAs (Decidable (_ ∨ _))

end NorSystem

def FlushPc.clears : FlushPc → Option Nat
  | .clear _ index => some index
  | _ => none

/-- No flush cleans an entry that was written to since its transfer, unless the
write has not marked it yet. -/
def NorAllowed (system : NorSystem) : NorEvent → Prop
  | .flush =>
    ∀ turn ∈ system.flush, ∀ index ∈ turn.pc.clears, system.MayClean index
  | _ => True

instance (system : NorSystem) : ∀ event : NorEvent, Decidable (NorAllowed system event)
  | .flush => inferInstanceAs (Decidable (∀ turn ∈ system.flush, _))
  | .begin _ | .lockAccess _ | .access | .lockFlush => inferInstanceAs (Decidable True)

end

/-!
# Flushes among writes

While a lock is held an entry may be half replaced or changed and not yet marked.
The cache that one sees when such an entry is hidden or marked is coherent, as
long as no flush cleans an entry that has changed since it was transferred.
-/

section

open Lib

section Coherence

variable {geometry : NorGeometry} {cache : NorCache} {content : Nat → Sector}
  {index : Nat} {entry : NorCacheEntry}

def NorCacheEntry.hidden (entry : NorCacheEntry) : NorCacheEntry :=
  { entry with sector := cacheFree, count := 0 }

def NorCacheEntry.marked (entry : NorCacheEntry) : NorCacheEntry := { entry with dirty := true }

@[simp] theorem setEntry_setEntry (cache : NorCache) (index : Nat)
    (first second : NorCacheEntry → NorCacheEntry) :
    (cache.setEntry index first).setEntry index second = cache.setEntry index (second ∘ first) := by
  rw [NorCache.setEntry, NorCache.setEntry, NorCache.setEntry]
  simp only [List.modify_modify_eq]

theorem setEntry_congr (present : cache.cacheEntries[index]? = some entry)
    {change other : NorCacheEntry → NorCacheEntry} (same : change entry = other entry) :
    cache.setEntry index change = cache.setEntry index other := by
  have entries :
      cache.cacheEntries.modify index change = cache.cacheEntries.modify index other := by
    apply List.ext_getElem?
    intro i
    rw [List.getElem?_modify, List.getElem?_modify]
    by_cases here : index = i
    · subst here
      simp [present, same]
    · simp [here]
  rw [NorCache.setEntry, NorCache.setEntry, entries]

theorem Coherent.hide (coherent : Coherent geometry cache content)
    (present : cache.cacheEntries[index]? = some entry)
    (clean : entry.dirty = false) (loaded : Nat → Sector) :
    Coherent geometry
      (cache.setEntry index fun other =>
        { other.hidden with cache := loaded }) content := by
  refine coherent.setEntry present ⟨?_, ?_, ?_⟩
    (fun offset inside => absurd inside (Nat.not_lt_zero offset)) fun _ dirty => ?_
  · intro i other was live
    obtain ⟨before, wasBefore, rfl⟩ := getElem?_setEntry.mp was
    by_cases here : index = i
    · rw [if_pos here] at live
      exact absurd rfl live
    · rw [if_neg here] at live ⊢
      exact coherent.pages.page i before wasBefore live
  · intro i other was freed
    obtain ⟨before, wasBefore, rfl⟩ := getElem?_setEntry.mp was
    by_cases here : index = i
    · subst here
      obtain rfl : entry = before := Option.some.inj (present.symm.trans wasBefore)
      rw [if_pos rfl]
      exact ⟨rfl, clean⟩
    · rw [if_neg here] at freed ⊢
      exact coherent.pages.free i before wasBefore freed
  · intro i j first second was otherWas live same
    obtain ⟨before, wasBefore, rfl⟩ := getElem?_setEntry.mp was
    obtain ⟨otherBefore, otherWasBefore, rfl⟩ := getElem?_setEntry.mp otherWas
    by_cases here : index = i
    · rw [if_pos here] at live
      exact absurd rfl live
    · rw [if_neg here] at live same
      by_cases there : index = j
      · rw [if_pos there] at same
        exact absurd same live
      · rw [if_neg there] at same
        exact coherent.pages.distinct i j before otherBefore wasBefore otherWasBefore live same
  · rw [clean] at dirty
    cases dirty

theorem Coherent.reveal (coherent : Coherent geometry cache content)
    (present : cache.cacheEntries[index]? = some entry)
    (clean : entry.dirty = false) {sector count : Nat} (page : geometry.IsPage sector count)
    (unheld : ∀ (i : Nat) other, cache.cacheEntries[i]? = some other → other.sector ≠ sector)
    (data : ∀ offset < count, entry.cache offset = content (sector + offset)) :
    Coherent geometry
      (cache.setEntry index fun other =>
        { other with sector := sector, count := count }) content := by
  refine coherent.setEntry present
    (coherent.pages.replace page (fun _ => ⟨rfl, rfl⟩) unheld) data fun _ dirty => ?_
  rw [clean] at dirty
  cases dirty

end Coherence

/-! ## What the holders of the locks know -/

/-- The cache as it is seen while the holder of `accessMutex` is here: an entry
that is replaced has no page, and one that was changed is dirty. -/
def AccessPc.view (cache : NorCache) : AccessPc → NorCache
  | .setSector oldUsed _ _ => cache.setEntry oldUsed NorCacheEntry.hidden
  | .setCount oldUsed _ => cache.setEntry oldUsed NorCacheEntry.hidden
  | .setDirty index => cache.setEntry index NorCacheEntry.marked
  | _ => cache

structure Loaded (geometry : NorGeometry) (cache : NorCache)
    (content : Nat → Sector) (job : NorJob) (oldUsed sector count : Nat) :
    Prop where
  page : geometry.IsPage sector count
  above : sector ≤ job.sector
  below : job.sector < sector + count
  unheld : ∀ (i : Nat) entry, cache.cacheEntries[i]? = some entry →
    i ≠ oldUsed → entry.sector ≠ sector
  entry : ∃ entry, cache.cacheEntries[oldUsed]? = some entry ∧
    entry.dirty = false ∧ ∀ offset < count, entry.cache offset = content (sector + offset)

/-- What the holder of `accessMutex` has found out. -/
def AccessPc.Knows (geometry : NorGeometry) (cache : NorCache)
    (content : Nat → Sector) (job : NorJob) : AccessPc → Prop
  | .findPage _ => True
  | .scan i foundFree oldUsed _ =>
    (∀ k < i, ∀ entry, cache.cacheEntries[k]? = some entry → ¬ entry.Covers job.sector) ∧
    ∃ entry, cache.cacheEntries[oldUsed]? = some entry ∧
      (foundFree = true → entry.sector = cacheFree)
  | .checkDirty foundFree oldUsed =>
    (∀ (k : Nat) entry, cache.cacheEntries[k]? = some entry → ¬ entry.Covers job.sector) ∧
    ∃ entry, cache.cacheEntries[oldUsed]? = some entry ∧
      (foundFree = true → entry.sector = cacheFree)
  | .flushing oldUsed =>
    (∀ (k : Nat) entry, cache.cacheEntries[k]? = some entry → ¬ entry.Covers job.sector) ∧
    ∃ entry, cache.cacheEntries[oldUsed]? = some entry
  | .load oldUsed =>
    (∀ (k : Nat) entry, cache.cacheEntries[k]? = some entry → ¬ entry.Covers job.sector) ∧
    ∃ entry, cache.cacheEntries[oldUsed]? = some entry ∧ entry.dirty = false
  | .setSector oldUsed sector count =>
    Loaded geometry cache content job oldUsed sector count
  | .setCount oldUsed count =>
    Loaded geometry cache content job oldUsed (cache.entry oldUsed).sector count
  | .setLastAccess index =>
    ∃ entry, cache.cacheEntries[index]? = some entry ∧ entry.Covers job.sector
  | .found index =>
    ∃ entry, cache.cacheEntries[index]? = some entry ∧ entry.Covers job.sector
  | .copy index =>
    ∃ entry, cache.cacheEntries[index]? = some entry ∧ entry.Covers job.sector
  | .setDirty _ => True
  | .unlock => True

def AccessPc.Behind : AccessPc → Prop
  | .setDirty _ => True
  | .unlock => True
  | _ => False

structure AccessTurn.Sound (geometry : NorGeometry) (cache : NorCache)
    (content : Nat → Sector) (turn : AccessTurn) : Prop where
  within : turn.job.Within geometry.endOfPartition
  waiting : ¬ turn.pc.Behind → 0 < turn.job.numSectors ∧ turn.job.numSectors = turn.loopDetect
  served : turn.pc.Behind → turn.job.numSectors < turn.loopDetect
  knows : turn.pc.Knows geometry cache content turn.job

def NorCache.IsDirty (cache : NorCache) (index : Nat) : Prop :=
  ∃ entry, cache.cacheEntries[index]? = some entry ∧ entry.dirty = true

/-- What the holder of `flushMutex` has found out. -/
def FlushPc.Knows (cache : NorCache) : FlushPc → Prop
  | .readDirty _ _ flushIndex _ => ∀ index ∈ flushIndex, cache.IsDirty index
  | .compareSector _ j flushIndex _ =>
    cache.IsDirty j ∧ ∀ index ∈ flushIndex, cache.IsDirty index
  | .takeSector _ j => cache.IsDirty j
  | .readSector _ index => cache.IsDirty index
  | .readCount _ index sector =>
    cache.IsDirty index ∧ sector = (cache.entry index).sector
  | .transfer _ index sector count =>
    cache.IsDirty index ∧ sector = (cache.entry index).sector ∧ count = (cache.entry index).count
  | .clear _ index => cache.IsDirty index
  | .unlock => True

def NorCache.dirtyCount (cache : NorCache) : Nat := cache.cacheEntries.countP (·.dirty)

/-- What a flush leaves to do while nobody else changes the cache. -/
def FlushPc.Drains (cache : NorCache) : FlushPc → Prop
  | .readDirty rounds j flushIndex flushSector =>
    cache.dirtyCount ≤ rounds + 1 ∧
      (flushIndex = none → flushSector = cacheFree ∧ ∀ k < j, ¬ cache.IsDirty k)
  | .compareSector rounds j flushIndex flushSector =>
    cache.dirtyCount ≤ rounds + 1 ∧
      (flushIndex = none → flushSector = cacheFree ∧ ∀ k < j, ¬ cache.IsDirty k)
  | .takeSector rounds _ => cache.dirtyCount ≤ rounds + 1
  | .readSector rounds _ => cache.dirtyCount ≤ rounds + 1
  | .readCount rounds _ _ => cache.dirtyCount ≤ rounds + 1
  | .transfer rounds _ _ _ => cache.dirtyCount ≤ rounds + 1
  | .clear rounds _ => cache.dirtyCount ≤ rounds + 1
  | .unlock => cache.dirtyCount = 0

namespace NorSystem

def view (system : NorSystem) : NorCache :=
  match system.access with
  | none => system.cache
  | some turn => turn.pc.view system.cache

/-- The flush is one that `_NOR_cache_getPage` waits for. -/
def Nested (system : NorSystem) (turn : FlushTurn) : Prop :=
  (∃ access oldUsed, system.access = some access ∧ access.pc = .flushing oldUsed) ∧
  turn.pc.Drains system.cache

def outstanding (system : NorSystem) : List (Nat × Sector) :=
  system.access.elim [] (fun turn => turn.job.stores) ++ system.pending.flatMap NorJob.stores

/-- The invariant of the system over a disc that first held `disc`. -/
structure Sound (geometry : NorGeometry) (disc : Nat → Sector)
    (system : NorSystem) : Prop where
  coherent : Coherent geometry system.view (lastCopied disc system.copied)
  access : ∀ turn, system.access = some turn →
    turn.Sound geometry system.cache (lastCopied disc system.copied)
  flush : ∀ turn, system.flush = some turn → turn.pc.Knows system.cache
  nested : ∀ turn, system.flush = some turn → turn.nested = true → system.Nested turn
  pending : ∀ job ∈ system.pending, job.Within geometry.endOfPartition ∧ 0 < job.numSectors
  copied :
    (system.copied.flatMap (fun piece => addressed piece.1 piece.2) ++ system.outstanding).Perm
      (system.begun.flatMap fun write => addressed write.1 write.2)

end NorSystem

end

end IteSdk.Fat
