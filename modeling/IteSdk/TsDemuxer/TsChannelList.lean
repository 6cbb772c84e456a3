import IteSdk.Lib.CircularList
import Mathlib.Data.Fintype.Card
import Mathlib.Data.List.Range

/-!
# Channel databases

`ts_channel_info.c` with the lists of `list_template.h`.  Nodes are addresses of
any type; counters are the 32-bit numbers of the source.  `none` stands for a
null pointer that is followed, a node that is freed twice or a loop that does not
end.
-/

namespace IteSdk.TsDemuxer

section

open Lib

universe u v

variable {κ : Type u} {ν : Type v}

structure TsdChnlUserInfo where
  bandwidth : UInt32
  frequency : UInt32
  totalSrvcCnt : UInt32
  deriving DecidableEq

/-- What a `TS_CHNL_INFO` holds besides its pointers. -/
structure TsChnlInfo where
  orderNum : Nat
  userInfo : TsdChnlUserInfo
  deriving DecidableEq

/-- `chnl_cmp_data_t`. -/
def TsChnlInfo.cmpData (info : TsChnlInfo) : UInt32 × UInt32 :=
  (info.userInfo.frequency, info.userInfo.bandwidth)

/-- The nodes: their pointers and contents, which are allocated, and the calls of
`free` so far. -/
structure TsChnlHeap (ν : Type v) where
  links : RingLinks ν
  info : ν → TsChnlInfo
  live : Finset ν
  freed : List ν

/-- `TS_CHNL_HANDLE`, the part of a database that its users see. -/
@[ext] structure TsChnlHandle (ν : Type v) where
  pStartChnlInfo : Option ν
  pCurChnlInfo : Option ν
  totalChnls : Nat
  deriving DecidableEq

inductive ChnlStatus
  | idle
  | busy
  | fail
  deriving DecidableEq

structure TsChnlDb (ν : Type v) where
  hChnl : TsChnlHandle ν
  chnlStatus : ChnlStatus
  pStartChnlInfo : Option ν
  pCurChnlInfo : Option ν
  totalChnls : Nat
  orderNum : Nat
  deriving DecidableEq

structure TsChnlState (κ : Type u) (ν : Type v) where
  heap : TsChnlHeap ν
  dbs : κ → Option (TsChnlDb ν)

inductive TsChnlMergeType
  | mergeDefault
  | merge2Handle
  deriving DecidableEq

/-- A call of `malloc`: a node that is free, or none. -/
abbrev TsdMalloc (ν : Type v) := Finset ν → Option ν

variable [DecidableEq κ] [DecidableEq ν]

namespace TsChnlHeap

def malloc (heap : TsChnlHeap ν) (node : ν) (info : TsChnlInfo) : TsChnlHeap ν :=
  { heap with
    live := insert node heap.live
    info := Function.update heap.info node info }

def free (heap : TsChnlHeap ν) (node : ν) : Option (TsChnlHeap ν) :=
  if node ∈ heap.live then
    some
      { heap with
        live := heap.live.erase node
        freed := heap.freed ++ [node] }
  else
    none

def hasOrderNum (heap : TsChnlHeap ν) (orderNum : Nat) (node : ν) : Bool :=
  (heap.info node).orderNum = orderNum

def hasCmpData (heap : TsChnlHeap ν) (cmpData : UInt32 × UInt32) (node : ν) : Bool :=
  (heap.info node).cmpData = cmpData

end TsChnlHeap

/-- `hChnl` is brought up to date. -/
def TsChnlDb.sync (db : TsChnlDb ν) : TsChnlDb ν :=
  { db with hChnl := ⟨db.pStartChnlInfo, db.pCurChnlInfo, db.totalChnls⟩ }

/-- `totalChnls++` and `order_num++`. -/
def TsChnlDb.count (db : TsChnlDb ν) : TsChnlDb ν :=
  { db with
    totalChnls := (db.totalChnls + 1) % 2 ^ 32
    orderNum := (db.orderNum + 1) % 2 ^ 32 }

/-- `_Add_to_Channel_List`; the last result says whether there was memory. -/
def addToChannelList (malloc : TsdMalloc ν) (heap : TsChnlHeap ν)
    (db : TsChnlDb ν) (insChnlInfo : TsChnlInfo) :
    Option (TsChnlHeap ν × TsChnlDb ν × Bool) :=
  match malloc heap.live with
  | none => some (heap, db, false)
  | some node =>
    match db.pStartChnlInfo with
    | none =>
      -- The number of the first channel stays as it came.
      let heap := heap.malloc node insChnlInfo
      some
        ({ heap with links := heap.links.close node },
          TsChnlDb.count
            { db with
              pStartChnlInfo := some node
              pCurChnlInfo := some node },
          true)
    | some _ =>
      let heap := heap.malloc node { insChnlInfo with orderNum := db.orderNum }
      match db.pCurChnlInfo with
      | none => some (heap, db.count, true)
      | some cur =>
        (heap.links.insert cur node).map fun links =>
          ({ heap with links := links }, TsChnlDb.count { db with pCurChnlInfo := some node }, true)

section Loops

variable [Fintype ν]

/-- No loop along a ring takes more turns than there are nodes. -/
def ringBound (ν : Type v) [Fintype ν] : Nat := Fintype.card ν

/-- The loop of `_Del_Channel_List` and of `tsChnl_DestroyHandle`: the channels
with the numbers from `i` on are taken out and freed. -/
def delChannels : Nat → Nat → Option ν → TsChnlHeap ν → Option (TsChnlHeap ν)
  | 0, _, _, heap => some heap
  | turns + 1, i, pCurChnlInfo, heap =>
    match heap.links.find (heap.hasOrderNum i) (ringBound ν) pCurChnlInfo with
    | none => none
    | some none => delChannels turns (i + 1) pCurChnlInfo heap
    | some (some node) =>
      match heap.links.remove node with
      | none => none
      | some (links, before) =>
        match TsChnlHeap.free { heap with links := links } node with
        | none => none
        | some heap => delChannels turns (i + 1) before heap

def delChannelList (heap : TsChnlHeap ν) (db : TsChnlDb ν) : Option (TsChnlHeap ν × TsChnlDb ν) :=
  (delChannels db.totalChnls 0 db.pCurChnlInfo heap).map fun heap =>
    (heap,
      { db with
        totalChnls := 0
        orderNum := 0
        pStartChnlInfo := none
        pCurChnlInfo := none })

namespace TsChnlState

def setDb (state : TsChnlState κ ν) (handle : κ) (db : TsChnlDb ν) : TsChnlState κ ν :=
  { state with dbs := Function.update state.dbs handle (some db) }

/-- The loop of `_Merge_Channel_List`; the last result says whether there was
memory for all nodes. -/
def mergeLoop (malloc : TsdMalloc ν) (master slave : κ) :
    Nat → Nat → Option ν → Option ν → TsChnlState κ ν → Option (TsChnlState κ ν × Bool)
  | 0, _, _, _, _ => none
  | fuel + 1, i, curMaster, curSlave, state =>
    match state.dbs master, state.dbs slave with
    | some masterDb, some slaveDb =>
      if i < slaveDb.totalChnls then
        match state.heap.links.find (state.heap.hasOrderNum i) (ringBound ν) curSlave with
        | none => none
        | some none =>
          mergeLoop malloc master slave fuel (i + 1) curMaster slaveDb.hChnl.pStartChnlInfo state
        | some (some node) =>
          match
            state.heap.links.find (state.heap.hasCmpData (state.heap.info node).cmpData)
              (ringBound ν) curMaster with
          | none => none
          | some (some found) =>
            mergeLoop malloc master slave fuel (i + 1) (some found) (some node) state
          | some none =>
            match addToChannelList malloc state.heap masterDb (state.heap.info node) with
            | none => none
            | some (heap, masterDb, added) =>
              let state := TsChnlState.setDb { state with heap := heap } master masterDb
              if added then
                -- `hChnl` is older than the nodes of this merge.
                mergeLoop malloc master slave fuel (i + 1)
                  masterDb.hChnl.pStartChnlInfo (some node) state
              else
                some (state, false)
      else
        some (state, true)
    | _, _ => none

/-- `_Merge_Channel_List`.  The slave is not looked at but for a merge of two
handles. -/
def mergeChannelList (malloc : TsdMalloc ν) (master slave : κ)
    (type : TsChnlMergeType) (state : TsChnlState κ ν) :
    Option (TsChnlState κ ν × Bool) :=
  match type with
  | .mergeDefault => some (state, true)
  | .merge2Handle =>
    match state.dbs master, state.dbs slave with
    | some masterDb, some slaveDb =>
      if slaveDb.totalChnls = 0 then
        some (state, true)
      else
        mergeLoop malloc master slave (ringBound ν + 1) 0
          masterDb.hChnl.pStartChnlInfo slaveDb.hChnl.pStartChnlInfo state
    | _, _ => none

end TsChnlState

/-! ## The functions of the interface -/

/-- The calls.  `none` for a handle is a null pointer in its variable. -/
inductive TsChnlCall (κ : Type u) (ν : Type v)
  | createHandle (handle : κ) (allocated : Bool)
  | destroyHandle (handle : κ)
  | addChannel (handle : κ) (insChnlInfo : TsChnlInfo) (malloc : TsdMalloc ν)
  | delAllChnlInfo (handle : κ)
  | mergeChnlInfo (master slave : κ) (type : TsChnlMergeType) (malloc : TsdMalloc ν)

namespace TsChnlState

/-- `tsChnl_CreateHandle`, which marks a failure in the database it has not. -/
def tsChnlCreateHandle (handle : κ) (allocated : Bool)
    (state : TsChnlState κ ν) : Option (TsChnlState κ ν) :=
  if state.dbs handle = none ∧ allocated = true then
    some (state.setDb handle ⟨⟨none, none, 0⟩, .idle, none, none, 0, 0⟩)
  else
    none

def tsChnlDestroyHandle (handle : κ) (state : TsChnlState κ ν) : Option (TsChnlState κ ν) :=
  match state.dbs handle with
  | none => some state
  | some db =>
    (delChannels db.totalChnls 0 db.hChnl.pCurChnlInfo state.heap).map
      fun heap => ⟨heap, Function.update state.dbs handle none⟩

def tsChnlAddChannel (handle : κ) (insChnlInfo : TsChnlInfo)
    (malloc : TsdMalloc ν) (state : TsChnlState κ ν) :
    Option (TsChnlState κ ν) :=
  match state.dbs handle with
  | none => some state
  | some db =>
    if db.chnlStatus = .fail then
      some state
    else
      (addToChannelList malloc state.heap db insChnlInfo).map
        fun (heap, db, added) =>
          TsChnlState.setDb { state with heap := heap } handle
            (if added then db.sync else { db.sync with chnlStatus := .fail })

/-- `tsChnl_Control` with `TS_CHNL_CTL_DEL_ALL_CHNL_INFO`. -/
def tsChnlDelAll (handle : κ) (state : TsChnlState κ ν) : Option (TsChnlState κ ν) :=
  match state.dbs handle with
  | none => some state
  | some db =>
    if db.chnlStatus = .fail then
      some state
    else
      (delChannelList state.heap db).map fun (heap, db) =>
        TsChnlState.setDb { state with heap := heap } handle db.sync

/-- `tsChnl_Control` with `TS_CHNL_CTL_MERGE_CHNL_INFO`; the result of the merge
is not looked at. -/
def tsChnlMerge (master slave : κ) (type : TsChnlMergeType)
    (malloc : TsdMalloc ν) (state : TsChnlState κ ν) :
    Option (TsChnlState κ ν) :=
  match state.dbs master with
  | none => some state
  | some db =>
    if db.chnlStatus = .fail then
      some state
    else
      (state.mergeChannelList malloc master slave type).bind
        fun (state, _) => (state.dbs master).map fun db => state.setDb master db.sync

def tsChnlStep (state : TsChnlState κ ν) : TsChnlCall κ ν → Option (TsChnlState κ ν)
  | .createHandle handle allocated => state.tsChnlCreateHandle handle allocated
  | .destroyHandle handle => state.tsChnlDestroyHandle handle
  | .addChannel handle insChnlInfo malloc =>
    state.tsChnlAddChannel handle insChnlInfo malloc
  | .delAllChnlInfo handle => state.tsChnlDelAll handle
  | .mergeChnlInfo master slave type malloc =>
    state.tsChnlMerge master slave type malloc

def initial (links : RingLinks ν) (info : ν → TsChnlInfo) : TsChnlState κ ν where
  heap := ⟨links, info, ∅, []⟩
  dbs := fun _ => none

end TsChnlState

end Loops

end

/-!
# The numbers of the channels

What the functions of `ts_channel_info.c` do to one list, as long as its channels
are numbered in their order.
-/

section

open Lib

universe v

variable {ν : Type v} {heap : TsChnlHeap ν} {db : TsChnlDb ν} {nodes : List ν}
  {malloc : TsdMalloc ν}

/-- The nodes of a database are a ring of allocated nodes from the first to the
current one, counted and numbered in their order. -/
structure Listed (heap : TsChnlHeap ν) (db : TsChnlDb ν) (nodes : List ν) :
    Prop where
  nodup : nodes.Nodup
  live : ∀ n ∈ nodes, n ∈ heap.live
  ring : heap.links.Ring nodes
  start : db.pStartChnlInfo = nodes.head?
  cur : db.pCurChnlInfo = nodes.getLast?
  total : db.totalChnls = nodes.length
  counter : db.orderNum = nodes.length
  numbers : nodes.map (fun n => (heap.info n).orderNum) = List.range nodes.length

structure HeapFrame (before after : TsChnlHeap ν) (nodes : List ν) : Prop where
  next : ∀ n ∉ nodes, after.links.next n = before.links.next n
  prev : ∀ n ∉ nodes, after.links.prev n = before.links.prev n
  info : ∀ n ∉ nodes, after.info n = before.info n
  live : ∀ n ∉ nodes, n ∈ after.live ↔ n ∈ before.live

/-- No call of `malloc` answers with a node that is in use. -/
def Fresh (malloc : TsdMalloc ν) : Prop := ∀ live, ∀ node ∈ malloc live, node ∉ live

theorem Listed.frame {after : TsChnlHeap ν} {changed : List ν}
    (listed : Listed heap db nodes) (frame : HeapFrame heap after changed)
    (apart : nodes.Disjoint changed) : Listed after db nodes where
  nodup := listed.nodup
  live := fun n member => (frame.live n (apart member)).mpr (listed.live n member)
  ring :=
    listed.ring.congr (fun n member => frame.next n (apart member))
      fun n member => frame.prev n (apart member)
  start := listed.start
  cur := listed.cur
  total := listed.total
  counter := listed.counter
  numbers := by
    rw [← listed.numbers]
    apply List.map_congr_left
    intro n member
    rw [frame.info n (apart member)]

variable [DecidableEq ν]

structure Added (heap : TsChnlHeap ν) (db : TsChnlDb ν) (nodes : List ν)
    (insChnlInfo : TsChnlInfo) (node : ν) (heap' : TsChnlHeap ν)
    (db' : TsChnlDb ν) : Prop where
  listed : Listed heap' db' (nodes ++ [node])
  frame : HeapFrame heap heap' (node :: nodes)
  fresh : node ∉ heap.live
  live : heap'.live = insert node heap.live
  kept : ∀ n ≠ node, heap'.info n = heap.info n
  cmpData : (heap'.info node).cmpData = insChnlInfo.cmpData
  freed : heap'.freed = heap.freed
  hChnl : db'.hChnl = db.hChnl
  chnlStatus : db'.chnlStatus = db.chnlStatus

section Bounded

variable [Fintype ν] (few : Fintype.card ν < 2 ^ 32)
include few

omit [DecidableEq ν] in
theorem count_length {node : ν} (nodup : (nodes ++ [node]).Nodup) :
    (nodes.length + 1) % 2 ^ 32 = (nodes ++ [node]).length := by
  have bound := nodup.length_le_card
  rw [List.length_append, List.length_singleton] at bound ⊢
  exact Nat.mod_eq_of_lt (by omega)

theorem Listed.append {node : ν} {heap' : TsChnlHeap ν} {db' : TsChnlDb ν}
    (listed : Listed heap db nodes) (absent : node ∉ nodes)
    (live : heap'.live = insert node heap.live) (ring : heap'.links.Ring (nodes ++ [node]))
    (kept : ∀ n ≠ node, heap'.info n = heap.info n)
    (number : (heap'.info node).orderNum = nodes.length)
    (start : db'.pStartChnlInfo = (nodes ++ [node]).head?) (cur : db'.pCurChnlInfo = some node)
    (total : db'.totalChnls = (db.totalChnls + 1) % 2 ^ 32)
    (counter : db'.orderNum = (db.orderNum + 1) % 2 ^ 32) :
    Listed heap' db' (nodes ++ [node]) := by
  have nodup : (nodes ++ [node]).Nodup := by
    rw [← List.concat_eq_append, List.nodup_concat]
    exact ⟨absent, listed.nodup⟩
  refine ⟨nodup, ?_, ring, start, ?_, ?_, ?_, ?_⟩
  · intro n member
    rw [live, Finset.mem_insert]
    rcases List.mem_append.mp member with before | here
    · exact Or.inr (listed.live n before)
    · exact Or.inl (List.mem_singleton.mp here)
  · rw [cur, List.getLast?_concat]
  · rw [total, listed.total, count_length few nodup]
  · rw [counter, listed.counter, count_length few nodup]
  · have numbers : nodes.map (fun n => (heap'.info n).orderNum) = List.range nodes.length := by
      rw [← listed.numbers]
      apply List.map_congr_left
      intro n member
      rw [kept n (ne_of_mem_of_not_mem member absent)]
    rw [List.map_append, numbers, List.map_singleton, number,
      List.length_append, List.length_singleton, List.range_succ]

theorem addToChannelList_listed (listed : Listed heap db nodes)
    (fresh : Fresh malloc) {insChnlInfo : TsChnlInfo}
    (numbered : nodes = [] → insChnlInfo.orderNum = 0) :
    (addToChannelList malloc heap db insChnlInfo = some (heap, db, false) ∧
        malloc heap.live = none) ∨
      ∃ node heap' db',
        addToChannelList malloc heap db insChnlInfo = some (heap', db', true) ∧
          Added heap db nodes insChnlInfo node heap' db' := by
  cases answer : malloc heap.live with
  | none =>
    left
    rw [addToChannelList, answer]
    exact ⟨rfl, rfl⟩
  | some node =>
    right
    have notLive : node ∉ heap.live := fresh heap.live node answer
    have absent : node ∉ nodes := fun member => notLive (listed.live node member)
    have liveFrame {n : ν} (other : n ∉ node :: nodes) :
        n ∈ insert node heap.live ↔ n ∈ heap.live := by
      rw [Finset.mem_insert]
      exact or_iff_right (List.ne_of_not_mem_cons other)
    rcases List.eq_nil_or_concat nodes with rfl | ⟨front, cur, rfl⟩
    · let after := { heap.malloc node insChnlInfo with links := heap.links.close node }
      have kept : ∀ n ≠ node, after.info n = heap.info n := by
        intro n other
        exact Function.update_of_ne other _ _
      have here : after.info node = insChnlInfo := by exact Function.update_self _ _ _
      have start : db.pStartChnlInfo = none := listed.start
      refine
        ⟨node, after,
          TsChnlDb.count
            { db with
              pStartChnlInfo := some node
              pCurChnlInfo := some node },
          ?_, ?_, ?_, notLive, rfl, kept, ?_, rfl, rfl, rfl⟩
      · rw [addToChannelList, answer]
        dsimp only
        rw [start]
        rfl
      · apply listed.append few absent rfl RingLinks.close_ring kept _ rfl rfl rfl rfl
        rw [here]
        exact numbered rfl
      · refine ⟨?_, ?_, ?_, fun n other => liveFrame other⟩
        · exact fun n other =>
            Function.update_of_ne (List.ne_of_not_mem_cons other) _ _
        · exact fun n other =>
            Function.update_of_ne (List.ne_of_not_mem_cons other) _ _
        · exact fun n other => kept n (List.ne_of_not_mem_cons other)
      · rw [here]
    · rw [List.concat_eq_append] at listed absent liveFrame numbered ⊢
      let info : TsChnlInfo := { insChnlInfo with orderNum := db.orderNum }
      have turned : (front ++ [cur]).Perm (cur :: front) := List.perm_append_singleton cur front
      obtain ⟨links, inserted, ring, next, prev⟩ :=
        RingLinks.insert_ring (RingLinks.ring_rotate.mp listed.ring)
          (turned.nodup_iff.mp listed.nodup)
          (fun member => absent (turned.mem_iff.mpr member))
      have outside {n : ν} (other : n ∉ node :: (front ++ [cur])) :
          n ∉ node :: cur :: front := fun member =>
        other ((turned.cons node).mem_iff.mpr member)
      let after := { heap.malloc node info with links := links }
      have kept : ∀ n ≠ node, after.info n = heap.info n := by
        intro n other
        exact Function.update_of_ne other _ _
      have here : after.info node = info := by exact Function.update_self _ _ _
      obtain ⟨first, some_⟩ : ∃ first, (front ++ [cur]).head? = some first :=
        Option.isSome_iff_exists.mp (by simp)
      have start : db.pStartChnlInfo = some first := listed.start.trans some_
      have curEq : db.pCurChnlInfo = some cur := by rw [listed.cur, List.getLast?_concat]
      refine ⟨node, after, TsChnlDb.count { db with pCurChnlInfo := some node },
        ?_, ?_, ?_, notLive, rfl, kept, ?_, rfl, rfl, rfl⟩
      · rw [addToChannelList, answer, start]
        dsimp only
        rw [curEq]
        dsimp only
        have linked : (heap.malloc node info).links.insert cur node = some links := inserted
        rw [linked]
        rfl
      · apply listed.append few absent rfl _ kept _ _ rfl rfl rfl
        · have turnedBack : links.Ring ([cur, node] ++ front) := ring
          rw [List.append_assoc]
          exact RingLinks.ring_rotate.mp turnedBack
        · rw [here]
          exact listed.counter
        · rw [List.head?_append, some_]
          exact start
      · exact ⟨fun n other => next n (outside other), fun n other => prev n (outside other),
          fun n other => kept n (List.ne_of_not_mem_cons other),
          fun n other => liveFrame other⟩
      · rw [here]
        rfl

end Bounded

structure Freed (heap after : TsChnlHeap ν) (nodes : List ν) : Prop where
  freed : after.freed = heap.freed ++ nodes
  live : ∀ n, n ∈ after.live ↔ n ∈ heap.live ∧ n ∉ nodes
  info : after.info = heap.info
  next : ∀ n ∉ nodes, after.links.next n = heap.links.next n
  prev : ∀ n ∉ nodes, after.links.prev n = heap.links.prev n

omit [DecidableEq ν] in
theorem Freed.frame {after : TsChnlHeap ν} (freed : Freed heap after nodes) :
    HeapFrame heap after nodes where
  next := freed.next
  prev := freed.prev
  info := fun n _ => congrFun freed.info n
  live := fun n outside => by
    rw [freed.live]
    exact and_iff_left outside

variable [Fintype ν]

theorem find_orderNum {start node : ν} (ring : heap.links.Ring nodes)
    (apart : (nodes.map fun n => (heap.info n).orderNum).Nodup)
    (inside : start ∈ nodes) (member : node ∈ nodes) {number : Nat}
    (numbered : (heap.info node).orderNum = number) :
    heap.links.find (heap.hasOrderNum number) (ringBound ν) (some start) = some (some node) := by
  obtain ⟨found, finds, good, none_⟩ :=
    RingLinks.find_ring (heap.hasOrderNum number) ring (apart.of_map _) inside
      (apart.of_map _).length_le_card
  rw [ringBound, finds]
  cases found with
  | none =>
    have refused := none_ rfl node member
    exact absurd numbered (of_decide_eq_false refused)
  | some other =>
    obtain ⟨otherMember, wanted⟩ := good other rfl
    have same := (of_decide_eq_true wanted).trans numbered.symm
    rw [List.inj_on_of_nodup_map apart otherMember member same]

theorem delChannels_numbered :
    ∀ (heap : TsChnlHeap ν) (i : Nat) (cur : Option ν),
      heap.links.Ring nodes → nodes.Nodup → (∀ n ∈ nodes, n ∈ heap.live) →
      nodes.map (fun n => (heap.info n).orderNum) = List.range' i nodes.length →
      (nodes ≠ [] → ∃ c ∈ nodes, cur = some c) →
      ∃ after, delChannels nodes.length i cur heap = some after ∧ Freed heap after nodes := by
  induction nodes with
  | nil =>
    intro heap i cur _ _ _ _ _
    refine ⟨heap, rfl, ?_, ?_, rfl, fun _ _ => rfl, fun _ _ => rfl⟩
    · rw [List.append_nil]
    · simp
  | cons node rest ih =>
    intro heap i cur ring nodup live numbers starts
    obtain ⟨c, inside, rfl⟩ := starts (List.cons_ne_nil node rest)
    obtain ⟨absent, restNodup⟩ := List.nodup_cons.mp nodup
    have apart :
        ((node :: rest).map fun n => (heap.info n).orderNum).Nodup := by
      rw [numbers]
      exact List.nodup_range'
    rw [List.map_cons, List.length_cons, List.range'_succ] at numbers
    obtain ⟨number, restNumbers⟩ := List.cons.inj numbers
    have finds := find_orderNum ring apart inside List.mem_cons_self number
    obtain ⟨links, removed, restRing, next, prev⟩ := RingLinks.remove_ring ring nodup
    let after : TsChnlHeap ν :=
      { heap with
        links := links
        live := heap.live.erase node
        freed := heap.freed ++ [node] }
    have frees : TsChnlHeap.free { heap with links := links } node = some after :=
      if_pos (live node List.mem_cons_self)
    obtain ⟨last, ends, freed⟩ :=
      ih after (i + 1) rest.getLast? restRing restNodup
        (fun n member => Finset.mem_erase.mpr
          ⟨ne_of_mem_of_not_mem member absent, live n (List.mem_cons_of_mem node member)⟩)
        restNumbers
        (fun some_ => ⟨rest.getLast some_, List.getLast_mem some_,
          List.getLast?_eq_some_getLast some_⟩)
    refine ⟨last, ?_, ?_, ?_, freed.info, ?_, ?_⟩
    · rw [List.length_cons, delChannels, finds]
      dsimp only
      rw [removed]
      dsimp only
      rw [frees]
      exact ends
    · rw [freed.freed, List.append_assoc]
      rfl
    · intro n
      rw [freed.live, Finset.mem_erase, List.mem_cons]
      tauto
    · intro n outside
      rw [freed.next n (List.not_mem_of_not_mem_cons outside)]
      exact next n outside
    · intro n outside
      rw [freed.prev n (List.not_mem_of_not_mem_cons outside)]
      exact prev n outside

theorem Listed.delChannels (listed : Listed heap db nodes) :
    ∃ after,
      delChannels db.totalChnls 0 db.pCurChnlInfo heap = some after ∧ Freed heap after nodes := by
  rw [listed.total, listed.cur]
  apply delChannels_numbered heap 0 _ listed.ring listed.nodup listed.live
  · rw [listed.numbers, List.range_eq_range']
  · intro some_
    exact ⟨nodes.getLast some_, List.getLast_mem some_, List.getLast?_eq_some_getLast some_⟩

end

end IteSdk.TsDemuxer
