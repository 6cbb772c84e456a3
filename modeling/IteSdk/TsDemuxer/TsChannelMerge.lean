import IteSdk.TsDemuxer.TsChannelList

/-!
# Databases that share a heap

Any number of databases take their nodes from one heap.  What a user sees of
them, and the invariant behind it.
-/

namespace IteSdk.TsDemuxer

section

open Lib

universe u v

variable {κ : Type u} {ν : Type v}

/-! ## What a user sees -/

section View

variable [DecidableEq ν]

/-- The nodes from `node` on, until the pointers come back to `stop`. -/
def ringFrom (next : ν → Option ν) (stop : ν) : Nat → ν → List ν
  | 0, _ => []
  | fuel + 1, node =>
    match next node with
    | none => [node]
    | some following =>
      if following = stop then
        [node]
      else
        node :: ringFrom next stop fuel following

theorem ringFrom_chain {links : RingLinks ν} {node stop : ν} {rest : List ν}
    {fuel : Nat} (chain : (node :: (rest ++ [stop])).IsChain links.Linked)
    (passes : stop ∉ rest) (enough : rest.length < fuel) :
    ringFrom links.next stop fuel node = node :: rest := by
  induction rest generalizing node fuel with
  | nil =>
    obtain ⟨fuel, rfl⟩ : ∃ fewer, fuel = fewer + 1 :=
      ⟨fuel - 1, by rw [List.length_nil] at enough; omega⟩
    have leads : links.next node = some stop := (List.isChain_pair.mp chain).1
    simp [ringFrom, leads]
  | cons following rest ih =>
    obtain ⟨fuel, rfl⟩ : ∃ fewer, fuel = fewer + 1 :=
      ⟨fuel - 1, by rw [List.length_cons] at enough; omega⟩
    rw [List.cons_append, List.isChain_cons_cons] at chain
    obtain ⟨⟨leads, _⟩, later⟩ := chain
    obtain ⟨notHere, notLater⟩ := List.ne_and_not_mem_of_not_mem_cons passes
    have goesOn : following ≠ stop := fun same => notHere same.symm
    have fewer : rest.length < fuel := by
      rw [List.length_cons] at enough
      omega
    rw [ringFrom, leads]
    dsimp only
    rw [if_neg goesOn, ih later notLater fewer]

variable [Fintype ν]

def TsChnlState.channels (state : TsChnlState κ ν) (handle : κ) : List ν :=
  match (state.dbs handle).bind (·.pStartChnlInfo) with
  | none => []
  | some start => ringFrom state.heap.links.next start (ringBound ν) start

def TsChnlHeap.cmpDatas (heap : TsChnlHeap ν) (nodes : List ν) : List (UInt32 × UInt32) :=
  nodes.map fun n => (heap.info n).cmpData

/-- Every database lists its own channels, with the numbers from zero on. -/
structure ChannelsNumbered (state : TsChnlState κ ν) : Prop where
  numbers :
    ∀ handle db, state.dbs handle = some db →
      (state.channels handle).map (fun n => (state.heap.info n).orderNum) = List.range db.totalChnls
  hChnl :
    ∀ handle db, state.dbs handle = some db →
      db.hChnl = ⟨(state.channels handle).head?, (state.channels handle).getLast?, db.totalChnls⟩
  nodup : ∀ handle, (state.channels handle).Nodup
  apart : ∀ left right, left ≠ right → (state.channels left).Disjoint (state.channels right)
  live : ∀ node, node ∈ state.heap.live ↔ ∃ handle, node ∈ state.channels handle

/-- A merge for which there is memory, into channels that are all different. -/
structure MergeFits (state : TsChnlState κ ν) (master slave : κ)
    (malloc : TsdMalloc ν) : Prop where
  working : ∃ db, state.dbs master = some db ∧ db.chnlStatus ≠ .fail
  memory :
    ∀ live : Finset ν,
      live.card < state.heap.live.card + (state.channels slave).length → malloc live ≠ none
  distinct : (state.heap.cmpDatas (state.channels master)).Nodup
  begun : state.channels master ≠ [] ∨ (state.heap.cmpDatas (state.channels slave)).Nodup

structure Merged (state after : TsChnlState κ ν) (master slave : κ) : Prop where
  distinct : (after.heap.cmpDatas (after.channels master)).Nodup
  union :
    ∀ cmpData,
      cmpData ∈ after.heap.cmpDatas (after.channels master) ↔
        cmpData ∈ state.heap.cmpDatas (state.channels master) ∨
          cmpData ∈ state.heap.cmpDatas (state.channels slave)

def CallRight (state after : TsChnlState κ ν) : TsChnlCall κ ν → Prop
  | .createHandle handle _ =>
    after.channels handle = [] ∧ after.heap.freed = state.heap.freed
  | .destroyHandle handle =>
    after.dbs handle = none ∧ after.heap.freed = state.heap.freed ++ state.channels handle
  | .addChannel _ _ _ => after.heap.freed = state.heap.freed
  | .delAllChnlInfo handle =>
    ∀ db, state.dbs handle = some db → db.chnlStatus ≠ .fail →
      after.channels handle = [] ∧ after.heap.freed = state.heap.freed ++ state.channels handle
  | .mergeChnlInfo master slave type malloc =>
    after.heap.freed = state.heap.freed ∧
      (type = .merge2Handle → MergeFits state master slave malloc → Merged state after master slave)

/-- What the callers see to, and that the first channel of a list has the number
zero. -/
def CallAllowed (state : TsChnlState κ ν) : TsChnlCall κ ν → Prop
  | .createHandle handle allocated =>
    state.dbs handle = none ∧ allocated = true
  | .destroyHandle _ => True
  | .addChannel handle insChnlInfo malloc =>
    Fresh malloc ∧
      ∀ db, state.dbs handle = some db → state.channels handle = [] → insChnlInfo.orderNum = 0
  | .delAllChnlInfo _ => True
  | .mergeChnlInfo _ slave _ malloc =>
    Fresh malloc ∧ (state.dbs slave).isSome = true

variable [DecidableEq κ]

def RunAllowed : TsChnlState κ ν → List (TsChnlCall κ ν) → Prop
  | _, [] => True
  | state, call :: calls =>
    CallAllowed state call ∧ ∀ after, state.tsChnlStep call = some after → RunAllowed after calls

end View

/-! ## The invariant -/

structure Placed (state : TsChnlState κ ν) (lists : κ → List ν) : Prop where
  listed : ∀ handle db, state.dbs handle = some db → Listed state.heap db (lists handle)
  absent : ∀ handle, state.dbs handle = none → lists handle = []
  apart : ∀ left right, left ≠ right → (lists left).Disjoint (lists right)
  complete : ∀ node ∈ state.heap.live, ∃ handle, node ∈ lists handle

/-- `hChnl` says what the database says. -/
def Synced (state : TsChnlState κ ν) : Prop :=
  ∀ handle db, state.dbs handle = some db →
    db.hChnl = ⟨db.pStartChnlInfo, db.pCurChnlInfo, db.totalChnls⟩

section Invariant

variable {state : TsChnlState κ ν} {lists : κ → List ν} {handle : κ}

theorem Placed.live (placed : Placed state lists) {node : ν}
    (member : node ∈ lists handle) : node ∈ state.heap.live := by
  cases known : state.dbs handle with
  | none =>
    rw [placed.absent handle known] at member
    cases member
  | some db => exact (placed.listed handle db known).live node member

section Seen

variable [DecidableEq ν] [Fintype ν]

theorem Placed.channels (placed : Placed state lists) : state.channels = lists := by
  funext handle
  rw [TsChnlState.channels]
  cases answer : state.dbs handle with
  | none =>
    rw [placed.absent handle answer]
    rfl
  | some db =>
    have listed := placed.listed handle db answer
    rw [Option.bind_some, listed.start]
    have ring := listed.ring
    have nodup := listed.nodup
    revert ring nodup
    cases lists handle with
    | nil =>
      intro _ _
      rfl
    | cons node rest =>
      intro ring nodup
      exact ringFrom_chain (RingLinks.ring_cons.mp ring)
        (List.nodup_cons.mp nodup).1 nodup.length_le_card

theorem Placed.numbered (placed : Placed state lists) (synced : Synced state) :
    ChannelsNumbered state := by
  have seen := placed.channels
  refine ⟨?_, ?_, ?_, ?_, ?_⟩
  · intro handle db known
    have listed := placed.listed handle db known
    rw [seen, listed.total]
    exact listed.numbers
  · intro handle db known
    have listed := placed.listed handle db known
    rw [synced handle db known, seen, listed.start, listed.cur]
  · intro handle
    rw [seen]
    cases known : state.dbs handle with
    | none =>
      rw [placed.absent handle known]
      exact List.nodup_nil
    | some db => exact (placed.listed handle db known).nodup
  · rw [seen]
    exact placed.apart
  · intro node
    rw [seen]
    refine ⟨placed.complete node, ?_⟩
    intro ⟨handle, member⟩
    cases known : state.dbs handle with
    | none =>
      rw [placed.absent handle known] at member
      cases member
    | some db => exact (placed.listed handle db known).live node member

end Seen

variable [DecidableEq κ]

section

variable (placed : Placed state lists)

include placed

theorem Placed.change {after : TsChnlHeap ν} {db : Option (TsChnlDb ν)} {nodes changed : List ν}
    (listed : ∀ some_, db = some some_ → Listed after some_ nodes)
    (absent : db = none → nodes = []) (frame : HeapFrame state.heap after changed)
    (untouched : ∀ other ≠ handle, (lists other).Disjoint changed)
    (apart : ∀ other ≠ handle, (lists other).Disjoint nodes)
    (complete : ∀ n ∈ after.live, n ∈ nodes ∨ n ∈ state.heap.live ∧ n ∉ lists handle) :
    Placed ⟨after, Function.update state.dbs handle db⟩ (Function.update lists handle nodes) := by
  refine ⟨?_, ?_, ?_, ?_⟩
  · intro other some_ known
    dsimp only at known ⊢
    by_cases same : other = handle
    · subst same
      rw [Function.update_self] at known ⊢
      exact listed some_ known
    · rw [Function.update_of_ne same] at known ⊢
      exact (placed.listed other some_ known).frame frame (untouched other same)
  · intro other known
    dsimp only at known
    by_cases same : other = handle
    · subst same
      rw [Function.update_self] at known ⊢
      exact absent known
    · rw [Function.update_of_ne same] at known ⊢
      exact placed.absent other known
  · intro left right different
    by_cases leftSame : left = handle
    · subst leftSame
      rw [Function.update_self, Function.update_of_ne different.symm]
      exact (apart right different.symm).symm
    · by_cases rightSame : right = handle
      · subst rightSame
        rw [Function.update_self, Function.update_of_ne leftSame]
        exact apart left leftSame
      · rw [Function.update_of_ne leftSame, Function.update_of_ne rightSame]
        exact placed.apart left right different
  · intro n member
    rcases complete n member with here | ⟨old, elsewhere⟩
    · refine ⟨handle, ?_⟩
      rw [Function.update_self]
      exact here
    · obtain ⟨other, inside⟩ := placed.complete n old
      have different : other ≠ handle := by
        rintro rfl
        exact elsewhere inside
      refine ⟨other, ?_⟩
      rw [Function.update_of_ne different]
      exact inside

theorem Placed.added [DecidableEq ν] {db db' : TsChnlDb ν} {heap' : TsChnlHeap ν}
    {insChnlInfo : TsChnlInfo} {node : ν}
    (added : Added state.heap db (lists handle) insChnlInfo node heap' db') :
    Placed ⟨heap', Function.update state.dbs handle (some db')⟩
      (Function.update lists handle (lists handle ++ [node])) := by
  have elsewhere (other : κ) : node ∉ lists other := fun member => added.fresh (placed.live member)
  apply placed.change _ (by nofun) added.frame
  · intro other different
    apply List.disjoint_cons_right.mpr
    exact ⟨elsewhere other, placed.apart other handle different⟩
  · intro other different
    apply List.disjoint_append_right.mpr
    refine ⟨placed.apart other handle different, ?_⟩
    exact List.disjoint_singleton.mpr (elsewhere other)
  · intro n member
    rw [added.live, Finset.mem_insert] at member
    by_cases inside : n ∈ lists handle
    · exact Or.inl (List.mem_append_left [node] inside)
    · rcases member with rfl | old
      · exact Or.inl (List.mem_append_right (lists handle) List.mem_cons_self)
      · exact Or.inr ⟨old, inside⟩
  · intro some_ same
    rw [← Option.some.inj same]
    exact added.listed

theorem Placed.freed {heap' : TsChnlHeap ν} {db : Option (TsChnlDb ν)}
    (empty : ∀ some_, db = some some_ → Listed heap' some_ [])
    (freed : Freed state.heap heap' (lists handle)) :
    Placed ⟨heap', Function.update state.dbs handle db⟩ (Function.update lists handle []) := by
  apply placed.change empty (fun _ => rfl) freed.frame
  · intro other different
    exact placed.apart other handle different
  · intro other _
    exact List.disjoint_nil_right (lists other)
  · intro n member
    exact Or.inr ((freed.live n).mp member)

theorem Placed.setDb {db db' : TsChnlDb ν} (known : state.dbs handle = some db)
    (start : db'.pStartChnlInfo = db.pStartChnlInfo) (cur : db'.pCurChnlInfo = db.pCurChnlInfo)
    (total : db'.totalChnls = db.totalChnls) (counter : db'.orderNum = db.orderNum) :
    Placed (state.setDb handle db') lists := by
  have listed := placed.listed handle db known
  refine ⟨?_, ?_, placed.apart, placed.complete⟩
  · intro other some_ found
    change Function.update state.dbs handle (some db') other = some some_ at found
    by_cases same : other = handle
    · subst same
      rw [Function.update_self] at found
      obtain rfl := Option.some.inj found
      exact
        ⟨listed.nodup, listed.live, listed.ring, start.trans listed.start,
          cur.trans listed.cur, total.trans listed.total,
          counter.trans listed.counter, listed.numbers⟩
    · rw [Function.update_of_ne same] at found
      exact placed.listed other some_ found
  · intro other found
    change Function.update state.dbs handle (some db') other = none at found
    by_cases same : other = handle
    · subst same
      rw [Function.update_self] at found
      cases found
    · rw [Function.update_of_ne same] at found
      exact placed.absent other found

end

end Invariant

end

/-!
# Merging two channel databases

The loop of `_Merge_Channel_List` over the channels of the slave, which may be
the master as well.
-/

section

open Lib

universe u v

variable {κ : Type u} {ν : Type v} [DecidableEq κ]
  {before state : TsChnlState κ ν} {lists : κ → List ν} {master slave : κ}
  {malloc : TsdMalloc ν} {added : List ν}

structure Merging (before : TsChnlState κ ν) (lists : κ → List ν)
    (master slave : κ) (added : List ν) (state : TsChnlState κ ν) : Prop where
  placed : Placed state (Function.update lists master (lists master ++ added))
  db :
    ∃ db db', before.dbs master = some db ∧ state.dbs master = some db' ∧
      db'.hChnl = db.hChnl ∧ db'.chnlStatus = db.chnlStatus
  others : ∀ other ≠ master, state.dbs other = before.dbs other
  info : ∀ handle, ∀ n ∈ lists handle, state.heap.info n = before.heap.info n
  freed : state.heap.freed = before.heap.freed
  alone : master = slave → added = []
  card : state.heap.live.card = before.heap.live.card + added.length

/-- The master holds its own channels and the first ones of the slave. -/
structure MergedUpTo (before : TsChnlState κ ν) (lists : κ → List ν)
    (master slave : κ) (state : TsChnlState κ ν) (nodes : List ν) (i : Nat) : Prop where
  distinct : (state.heap.cmpDatas nodes).Nodup
  union :
    ∀ cmpData,
      cmpData ∈ state.heap.cmpDatas nodes ↔
        cmpData ∈ before.heap.cmpDatas (lists master) ∨
          cmpData ∈ (before.heap.cmpDatas (lists slave)).take i

section

variable (merging : Merging before lists master slave added state)

include merging

theorem Merging.masterListed :
    ∃ db db', before.dbs master = some db ∧ state.dbs master = some db' ∧
      db'.hChnl = db.hChnl ∧ db'.chnlStatus = db.chnlStatus ∧
      Listed state.heap db' (lists master ++ added) := by
  obtain ⟨db, db', known, knownNow, hChnl, status⟩ := merging.db
  have listed := merging.placed.listed master db' knownNow
  rw [Function.update_self] at listed
  exact ⟨db, db', known, knownNow, hChnl, status, listed⟩

theorem Merging.slaveListed (exists_ : (before.dbs slave).isSome = true) :
    ∃ db, state.dbs slave = some db ∧ Listed state.heap db (lists slave) := by
  by_cases same : master = slave
  · subst same
    obtain ⟨_, db, _, known, _, _, listed⟩ := merging.masterListed
    rw [merging.alone rfl, List.append_nil] at listed
    exact ⟨db, known, listed⟩
  · obtain ⟨db, known⟩ := Option.isSome_iff_exists.mp exists_
    rw [← merging.others slave fun equal => same equal.symm] at known
    have listed := merging.placed.listed slave db known
    rw [Function.update_of_ne fun equal => same equal.symm] at listed
    exact ⟨db, known, listed⟩

theorem Merging.add [DecidableEq ν] (other : master ≠ slave) {db : TsChnlDb ν}
    (known : state.dbs master = some db) {node : ν} {insChnlInfo : TsChnlInfo}
    {heap' : TsChnlHeap ν} {db' : TsChnlDb ν}
    (adds : Added state.heap db (lists master ++ added) insChnlInfo node heap' db') :
    Merging before lists master slave (added ++ [node])
      (TsChnlState.setDb { state with heap := heap' } master db') := by
  obtain ⟨first, now, knownFirst, knownNow, hChnl, status⟩ := merging.db
  obtain rfl := Option.some.inj (knownNow.symm.trans known)
  have here :
      Function.update lists master (lists master ++ added) master = lists master ++ added :=
    Function.update_self master _ lists
  have kept (n : ν) (handle : κ) (member : n ∈ lists handle) : n ≠ node := by
    rintro rfl
    apply adds.fresh
    by_cases same : handle = master
    · subst same
      have still : n ∈ lists handle ++ added := List.mem_append_left added member
      rw [← here] at still
      exact merging.placed.live still
    · rw [← Function.update_of_ne same (lists master ++ added) lists] at member
      exact merging.placed.live member
  refine ⟨?_, ?_, ?_, ?_, ?_, ?_, ?_⟩
  · rw [← here] at adds
    have placed := merging.placed.added adds
    rw [here, Function.update_idem, List.append_assoc] at placed
    exact placed
  · exact
      ⟨first, db', knownFirst, Function.update_self master _ _,
        adds.hChnl.trans hChnl, adds.chnlStatus.trans status⟩
  · intro another different
    exact (Function.update_of_ne different _ _).trans (merging.others another different)
  · intro handle n member
    exact (adds.kept n (kept n handle member)).trans (merging.info handle n member)
  · exact adds.freed.trans merging.freed
  · exact fun same => absurd same other
  · have inserted : heap'.live.card = state.heap.live.card + 1 := by
      rw [adds.live, Finset.card_insert_of_notMem adds.fresh]
    have counted := merging.card
    change heap'.live.card = _
    rw [List.length_append, List.length_singleton]
    omega

end

section Union

variable {nodes : List ν} {i : Nat}

theorem Merging.key (merging : Merging before lists master slave added state)
    (more : i < (lists slave).length) :
    (before.heap.cmpDatas (lists slave)).take (i + 1) =
      (before.heap.cmpDatas (lists slave)).take i ++
        [(state.heap.info (lists slave)[i]).cmpData] := by
  have same := merging.info slave _ (List.getElem_mem more)
  rw [same, List.take_succ_eq_append_getElem (by simpa [TsChnlHeap.cmpDatas])]
  simp [TsChnlHeap.cmpDatas]

section

variable (upTo : MergedUpTo before lists master slave state nodes i)
  (merging : Merging before lists master slave added state) (more : i < (lists slave).length)

include upTo merging more

theorem MergedUpTo.found
    (known : (state.heap.info (lists slave)[i]).cmpData ∈ state.heap.cmpDatas nodes) :
    MergedUpTo before lists master slave state nodes (i + 1) where
  distinct := upTo.distinct
  union := by
    intro cmpData
    rw [merging.key more, List.mem_append, List.mem_singleton, ← or_assoc, ← upTo.union cmpData]
    constructor
    · exact Or.inl
    · rintro (here | rfl)
      · exact here
      · exact known

theorem MergedUpTo.add
    (unknown : (state.heap.info (lists slave)[i]).cmpData ∉ state.heap.cmpDatas nodes)
    {after : TsChnlState κ ν} {node : ν} (kept : ∀ n ∈ nodes, after.heap.info n = state.heap.info n)
    (copied : (after.heap.info node).cmpData = (state.heap.info (lists slave)[i]).cmpData) :
    MergedUpTo before lists master slave after (nodes ++ [node]) (i + 1) := by
  have keys :
      after.heap.cmpDatas (nodes ++ [node]) =
        state.heap.cmpDatas nodes ++ [(state.heap.info (lists slave)[i]).cmpData] := by
    have before_ : after.heap.cmpDatas nodes = state.heap.cmpDatas nodes := by
      apply List.map_congr_left
      intro n member
      rw [kept n member]
    rw [TsChnlHeap.cmpDatas, List.map_append, List.map_singleton, copied, ← before_]
    rfl
  refine ⟨?_, ?_⟩
  · rw [keys, ← List.concat_eq_append, List.nodup_concat]
    exact ⟨unknown, upTo.distinct⟩
  · intro cmpData
    rw [keys, merging.key more, List.mem_append, List.mem_append, ← or_assoc, ← upTo.union cmpData]

end

end Union

section Loop

variable [DecidableEq ν] [Fintype ν] (few : Fintype.card ν < 2 ^ 32)
  (start : Placed before lists) (synced : Synced before)
  (fresh : Fresh malloc) (exists_ : (before.dbs slave).isSome = true)
include few start synced fresh exists_

variable (malloc) in
omit few synced fresh exists_ in
theorem Merging.find (merging : Merging before lists master slave added state) {i : Nat}
    {curMaster : Option ν} (empty : lists master = [] → curMaster = none ∧ added.length = i)
    (begun : lists master ≠ [] → ∃ c ∈ lists master ++ added, curMaster = some c)
    (more : i < (lists slave).length) :
    ∃ found,
      state.heap.links.find (state.heap.hasCmpData (state.heap.info (lists slave)[i]).cmpData)
          (ringBound ν) curMaster = some found ∧
        (∀ n, found = some n → n ∈ lists master ++ added ∧
          (state.heap.info n).cmpData = (state.heap.info (lists slave)[i]).cmpData) ∧
        (found = none → master ≠ slave ∧
          (MergeFits before master slave malloc →
            MergedUpTo before lists master slave state (lists master ++ added) i →
            (state.heap.info (lists slave)[i]).cmpData ∉
              state.heap.cmpDatas (lists master ++ added))) := by
  have here := List.getElem_mem more
  by_cases none_ : lists master = []
  · obtain ⟨rfl, _⟩ := empty none_
    refine ⟨none, rfl, nofun, fun _ => ⟨?_, ?_⟩⟩
    · rintro rfl
      rw [none_] at more
      cases more
    · intro fits upTo known
      rw [upTo.union, none_] at known
      -- The keys of the slave differ, so this one did not come before.
      have distinct : (before.heap.cmpDatas (lists slave)).Nodup := by
        have begins := fits.begun
        rw [start.channels] at begins
        exact begins.resolve_left (not_not.mpr none_)
      have cut := (List.take_sublist (i + 1) _).nodup distinct
      rw [merging.key more, ← List.concat_eq_append, List.nodup_concat] at cut
      exact cut.1 (known.resolve_left (by simp [TsChnlHeap.cmpDatas]))
  · obtain ⟨c, inside, rfl⟩ := begun none_
    obtain ⟨_, _, _, _, _, _, listed⟩ := merging.masterListed
    obtain ⟨found, finds, good, refuses⟩ :=
      RingLinks.find_ring (state.heap.hasCmpData (state.heap.info (lists slave)[i]).cmpData)
        listed.ring listed.nodup inside listed.nodup.length_le_card
    refine ⟨found, finds, ?_, fun missed => ⟨?_, ?_⟩⟩
    · intro n same
      obtain ⟨member, wanted⟩ := good n same
      exact ⟨member, of_decide_eq_true wanted⟩
    · rintro rfl
      have refused := refuses missed _ (List.mem_append_left added here)
      exact of_decide_eq_false refused rfl
    · intro _ _ known
      obtain ⟨n, member, same⟩ := List.mem_map.mp known
      exact of_decide_eq_false (refuses missed n member) same

/-- The loop goes through the channels of the slave, and unless there is no memory
the master ends up with all of them. -/
theorem mergeLoop_merging (fuel : Nat) :
    ∀ (i : Nat) (curMaster : Option ν) (curSlave : ν) (added : List ν) (state : TsChnlState κ ν),
      Merging before lists master slave added state →
      added.length ≤ i → i ≤ (lists slave).length →
      (lists slave).length - i < fuel →
      (lists master = [] → curMaster = none ∧ added.length = i) →
      (lists master ≠ [] → ∃ c ∈ lists master ++ added, curMaster = some c) →
      curSlave ∈ lists slave →
      (MergeFits before master slave malloc →
        MergedUpTo before lists master slave state (lists master ++ added) i) →
      ∃ added' state' ok,
        TsChnlState.mergeLoop malloc master slave fuel i curMaster
            (some curSlave) state = some (state', ok) ∧
          Merging before lists master slave added' state' ∧
          (MergeFits before master slave malloc →
            MergedUpTo before lists master slave state'
              (lists master ++ added') (lists slave).length) := by
  induction fuel with
  | zero =>
    intro i _ _ _ _ _ _ _ enough
    cases Nat.not_lt_zero _ enough
  | succ fuel ih =>
    intro i curMaster curSlave added state merging few_ within enough empty begun inside upTo
    obtain ⟨db, masterDb, known, masterKnown, hChnl, _, masterListed⟩ := merging.masterListed
    obtain ⟨slaveDb, slaveKnown, slaveListed⟩ := merging.slaveListed exists_
    rw [TsChnlState.mergeLoop, masterKnown, slaveKnown]
    dsimp only
    rw [slaveListed.total]
    by_cases more : i < (lists slave).length
    · have numbered :
          (state.heap.info (lists slave)[i]).orderNum = i := by
        have numbers := congrArg (·[i]?) slaveListed.numbers
        simpa [more] using numbers
      have apart :
          ((lists slave).map fun n => (state.heap.info n).orderNum).Nodup := by
        rw [slaveListed.numbers]
        exact List.nodup_range
      have here := List.getElem_mem more
      obtain ⟨found, finds, good, missed⟩ := merging.find malloc start empty begun more
      rw [if_pos more, find_orderNum slaveListed.ring apart inside here numbered]
      dsimp only
      rw [finds]
      cases found with
      | some n =>
        dsimp only
        obtain ⟨member, same⟩ := good n rfl
        have some_ : lists master ≠ [] := by
          intro none_
          rw [(empty none_).1] at finds
          cases finds
        apply ih (i + 1) (some n) _ added state merging
          (by omega) more (by omega) (fun none_ => absurd none_ some_)
          (fun _ => ⟨n, member, rfl⟩) here
        intro fits
        apply (upTo fits).found merging more
        rw [← same]
        exact List.mem_map_of_mem member
      | none =>
        obtain ⟨other, unknown⟩ := missed rfl
        have first : lists master ++ added = [] →
            (state.heap.info (lists slave)[i]).orderNum = 0 := by
          intro none_
          obtain ⟨noneMaster, noneAdded⟩ := List.append_eq_nil_iff.mp none_
          have counted := (empty noneMaster).2
          rw [noneAdded, List.length_nil] at counted
          rw [numbered, counted]
        dsimp only
        rcases addToChannelList_listed few masterListed fresh first with
          ⟨adds, noMemory⟩ | ⟨node, heap', db', adds, changes⟩
        · rw [adds]
          dsimp only
          rw [if_neg Bool.false_ne_true]
          have same :
              TsChnlState.setDb { state with heap := state.heap } master masterDb = state := by
            rw [TsChnlState.setDb, ← masterKnown, Function.update_eq_self]
          rw [same]
          refine ⟨added, state, false, rfl, merging, fun fits => ?_⟩
          have counted := merging.card
          have room := fits.memory state.heap.live (by
            rw [start.channels]
            omega)
          exact absurd noMemory room
        · rw [adds]
          dsimp only
          rw [if_pos rfl]
          have next := merging.add other masterKnown changes
          have pStart : db'.hChnl.pStartChnlInfo = (lists master).head? := by
            rw [changes.hChnl, hChnl, synced master db known]
            exact (start.listed master db known).start
          apply ih (i + 1) _ _ _ _ next _ more (by omega)
          · intro none_
            have counted := (empty none_).2
            rw [pStart, none_, List.length_append, List.length_singleton]
            exact ⟨rfl, by omega⟩
          · intro some_
            rw [pStart, ← List.append_assoc]
            exact ⟨(lists master).head some_,
              List.mem_append_left _ (List.mem_append_left added (List.head_mem some_)),
              List.head?_eq_some_head some_⟩
          · exact here
          · intro fits
            rw [← List.append_assoc]
            apply (upTo fits).add merging more (unknown fits (upTo fits))
            · intro n member
              apply changes.kept n
              rintro rfl
              exact changes.fresh (masterListed.live n member)
            · exact changes.cmpData
          · rw [List.length_append, List.length_singleton]
            omega
    · rw [if_neg more]
      have all : i = (lists slave).length := by omega
      exact ⟨added, state, true, rfl, merging, all ▸ upTo⟩

end Loop

end

end IteSdk.TsDemuxer
