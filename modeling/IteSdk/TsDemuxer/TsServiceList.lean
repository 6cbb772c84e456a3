import IteSdk.Lib.RingHeap
import Mathlib.Data.Fintype.Card
import Mathlib.Data.List.Range

/-!
# Service databases

The lists of `ts_service_info.c` and how they are merged.  Nodes are addresses of
any type, taken from one heap; counts and order numbers are the 32-bit numbers of
the source.  `none` stands for a null pointer that is followed, a node that is
freed while it is not allocated, or a name that is copied beyond its array.
-/

namespace IteSdk.TsDemuxer

section

open Lib

universe u v w

variable {κ : Type u} {ν : Type v} {δ : Type w}

def tsdMaxSrvcNameSize : Nat := 256

/-- What a `TS_SERVICE_INFO` holds besides its pointers.  `other` is what is only
copied along with it: the PIDs and types of its streams, and the like. -/
structure TsServiceInfo (δ : Type w) where
  orderNum : Nat
  versionNumber : UInt32
  frequency : UInt32
  programNumber : UInt32
  serviceName : Fin tsdMaxSrvcNameSize → UInt8
  nameSize : UInt32
  other : δ

/-- `srvc_cmp_data`. -/
def TsServiceInfo.cmpData (info : TsServiceInfo δ) : UInt32 × UInt32 :=
  (info.frequency, info.programNumber)

/-- `TS_SRVC_PRS_INFO`, a list of services. -/
@[ext] structure TsSrvcPrsInfo (ν : Type v) where
  curVersionNumber : UInt32
  srvcCnt : Nat
  pFirstSrvc : Option ν
  pCurSrvc : Option ν
  deriving DecidableEq

/-- `TS_SRVC_HANDLE`, the part of a database that its users see. -/
structure TsSrvcHandle (ν : Type v) where
  pStartSrvcInfo : Option ν
  pCurSrvcInfo : Option ν
  totalSrvc : Nat
  deriving DecidableEq

structure TsSrvcDb (ν : Type v) where
  hSrvc : TsSrvcHandle ν
  actSrvcInfo : TsSrvcPrsInfo ν
  pmtSrvcInfo : TsSrvcPrsInfo ν
  sdtSrvcInfo : TsSrvcPrsInfo ν
  deriving DecidableEq

inductive TsSrvcMergeType
  | mergeDefault
  | merge2Handle
  deriving DecidableEq

/-- The heap, and how often `tsd_malloc` was called. -/
structure TsSrvcMemory (ν : Type v) (δ : Type w) where
  heap : RingHeap ν (TsServiceInfo δ)
  calls : Nat

/-- What the calls of `tsd_malloc` answer, one after the other: a node that is
free, or none. -/
abbrev TsdMallocs (ν : Type v) := Nat → Finset ν → Option ν

structure TsSrvcState (κ : Type u) (ν : Type v) (δ : Type w) where
  memory : TsSrvcMemory ν δ
  dbs : κ → TsSrvcDb ν

def TsSrvcPrsInfo.cleared : TsSrvcPrsInfo ν := ⟨-1, 0, none, none⟩

/-- `srvc_cnt++`. -/
def TsSrvcPrsInfo.count (list : TsSrvcPrsInfo ν) : TsSrvcPrsInfo ν :=
  { list with srvcCnt := (list.srvcCnt + 1) % 2 ^ 32 }

namespace TsServiceInfo

/-- `SRVC_FIND_CMP_OREDER_NUM`. -/
def hasOrderNum (number : Nat) (info : TsServiceInfo δ) : Bool := info.orderNum = number

/-- `SRVC_FIND_CMP_PROGRAM_NUM`. -/
def hasCmpData (cmpData : UInt32 × UInt32) (info : TsServiceInfo δ) : Bool :=
  info.cmpData = cmpData

/-- The first `nameSize` bytes of the name come from another service, the rest
stays. -/
def named (info from_ : TsServiceInfo δ) : TsServiceInfo δ :=
  { info with
    serviceName := fun k =>
      if k.val < from_.nameSize.toNat then
        from_.serviceName k
      else
        info.serviceName k
    nameSize := from_.nameSize }

end TsServiceInfo

variable [DecidableEq ν]

def addToServiceList (malloc : TsdMallocs ν) (memory : TsSrvcMemory ν δ)
    (list : TsSrvcPrsInfo ν) (info : TsServiceInfo δ) (checkExist : Bool) :
    Option (TsSrvcMemory ν δ × TsSrvcPrsInfo ν) :=
  let calls := memory.calls + 1
  match malloc memory.calls memory.heap.live with
  | none => some (⟨memory.heap, calls⟩, list)
  | some node =>
    let new := { info with orderNum := list.srvcCnt }
    let heap := memory.heap.malloc node new
    let new := { new with versionNumber := list.curVersionNumber }
    match list.pFirstSrvc with
    | none =>
      some
        (⟨(heap.store node new).close node, calls⟩,
          TsSrvcPrsInfo.count { list with pFirstSrvc := some node, pCurSrvc := some node })
    | some _ =>
      let found :=
        if checkExist then
          heap.find (·.hasCmpData info.cmpData) list.pCurSrvc
        else
          some none
      match found with
      | none => none
      | some none =>
        let heap := heap.store node new
        match list.pCurSrvc with
        | none => some (⟨heap, calls⟩, list.count)
        | some cur =>
          (heap.link cur node).map fun heap =>
            (⟨heap, calls⟩, TsSrvcPrsInfo.count { list with pCurSrvc := some node })
      | some (some old) =>
        -- The users keep pointers to the old node, so it stays.
        let number := (heap.info old).orderNum
        let heap := heap.store old { new with orderNum := number }
        (heap.free node).map fun heap => (⟨heap, calls⟩, list)

/-- The loop of `_Del_Service_List`: the services with the numbers from `i` on. -/
def delServices :
    Nat → Nat → Option ν → RingHeap ν (TsServiceInfo δ) → Option (RingHeap ν (TsServiceInfo δ))
  | 0, _, _, heap => some heap
  | turns + 1, i, cur, heap =>
    match heap.find (·.hasOrderNum i) cur with
    | none => none
    | some none => delServices turns (i + 1) cur heap
    | some (some node) =>
      match heap.unlink node with
      | none => none
      | some (heap, before) =>
        match heap.free node with
        | none => none
        | some heap => delServices turns (i + 1) before heap

def delServiceList (heap : RingHeap ν (TsServiceInfo δ)) (list : TsSrvcPrsInfo ν) :
    Option (RingHeap ν (TsServiceInfo δ) × TsSrvcPrsInfo ν) :=
  match list.pFirstSrvc, list.pCurSrvc with
  | some _, some cur =>
    (delServices list.srvcCnt 0 (some cur) heap).map fun heap => (heap, TsSrvcPrsInfo.cleared)
  | _, _ => some (heap, TsSrvcPrsInfo.cleared)

/-- What a turn of the default merge does for the service `sdt`, before that is
freed.  A service of the PMT that matches is taken out of its list, and a copy of
it goes into the active one. -/
def mergeMatch (malloc : TsdMallocs ν) (sdt : ν) (curPmt : Option ν)
    (memory : TsSrvcMemory ν δ) (act : TsSrvcPrsInfo ν) :
    Option (TsSrvcMemory ν δ × TsSrvcPrsInfo ν × Option ν) :=
  let sdtInfo := memory.heap.info sdt
  match memory.heap.find (·.hasCmpData sdtInfo.cmpData) curPmt with
  | none => none
  | some none => some (memory, act, curPmt)
  | some (some pmt) =>
    match memory.heap.unlink pmt with
    | none => none
    | some (heap, before) =>
      if sdtInfo.nameSize.toNat ≤ tsdMaxSrvcNameSize then
        let valid := (heap.info pmt).named sdtInfo
        let memory := { memory with heap := heap.store pmt valid }
        (addToServiceList malloc memory act valid true).map
          fun (memory, act) => (memory, act, before)
      else
        none

/-- The loop over the services of the SDT, with the numbers from `i` on. -/
def mergeLoop (malloc : TsdMallocs ν) :
    Nat → Nat → Option ν → Option ν → TsSrvcMemory ν δ → TsSrvcPrsInfo ν →
      Option (TsSrvcMemory ν δ × TsSrvcPrsInfo ν × Option ν)
  | 0, _, _, curPmt, memory, act => some (memory, act, curPmt)
  | turns + 1, i, curSdt, curPmt, memory, act =>
    match memory.heap.find (·.hasOrderNum i) curSdt with
    | none => none
    | some none => mergeLoop malloc turns (i + 1) curSdt curPmt memory act
    | some (some sdt) =>
      match mergeMatch malloc sdt curPmt memory act with
      | none => none
      | some (memory, act, curPmt) =>
        match memory.heap.unlink sdt with
        | none => none
        | some (heap, before) =>
          match heap.free sdt with
          | none => none
          | some heap =>
            mergeLoop malloc turns (i + 1) before curPmt { memory with heap := heap } act

/-- `_Merge_Service_List` with `TS_SRVC_MERGE_DEFAULT`, but for `hSrvc`. -/
def mergeDefault (malloc : TsdMallocs ν) (memory : TsSrvcMemory ν δ)
    (db : TsSrvcDb ν) : Option (TsSrvcMemory ν δ × TsSrvcDb ν) :=
  match
    mergeLoop malloc db.sdtSrvcInfo.srvcCnt 0 db.sdtSrvcInfo.pFirstSrvc
      db.pmtSrvcInfo.pFirstSrvc memory db.actSrvcInfo with
  | none => none
  | some (memory, act, curPmt) =>
    (delServiceList memory.heap { db.pmtSrvcInfo with pCurSrvc := curPmt }).map
      fun (heap, pmt) =>
        ({ memory with heap := heap },
          { db with
            actSrvcInfo := act
            pmtSrvcInfo := pmt
            sdtSrvcInfo := TsSrvcPrsInfo.cleared })

/-! ## The merge of two handles -/

variable [DecidableEq κ]

namespace TsSrvcState

def setDb (state : TsSrvcState κ ν δ) (handle : κ) (db : TsSrvcDb ν) : TsSrvcState κ ν δ :=
  { state with dbs := Function.update state.dbs handle db }

/-- The loop over the services of the slave, with the numbers from `i` on; the
counter of the loop has 32 bits. -/
def merge2HandleLoop (malloc : TsdMallocs ν) (master slave : κ) :
    Nat → Nat → Option ν → Option ν → TsSrvcState κ ν δ → Option (TsSrvcState κ ν δ)
  | 0, _, _, _, _ => none
  | fuel + 1, i, curMaster, curSlave, state =>
    let slaveInfo := (state.dbs slave).actSrvcInfo
    let heap := state.memory.heap
    if i < slaveInfo.srvcCnt then
      match heap.find (·.hasOrderNum i) curSlave with
      | none => none
      | some none =>
        merge2HandleLoop malloc master slave fuel (i + 1) curMaster slaveInfo.pFirstSrvc state
      | some (some node) =>
        match heap.find (·.hasCmpData (heap.info node).cmpData) curMaster with
        | none => none
        | some (some found) =>
          merge2HandleLoop malloc master slave fuel (i + 1) (some found) (some node) state
        | some none =>
          match
            addToServiceList malloc state.memory
              (state.dbs master).actSrvcInfo (heap.info node) true with
          | none => none
          | some (memory, act) =>
            merge2HandleLoop malloc master slave fuel (i + 1) act.pFirstSrvc (some node)
              (setDb { state with memory := memory } master
                { state.dbs master with actSrvcInfo := act })
    else
      some state

/-- The end of `_Merge_Service_List`. -/
def syncHandle (state : TsSrvcState κ ν δ) (master : κ) : TsSrvcState κ ν δ :=
  let db := state.dbs master
  let act := db.actSrvcInfo
  state.setDb master { db with hSrvc := ⟨act.pFirstSrvc, act.pCurSrvc, act.srvcCnt⟩ }

/-- `_Merge_Service_List`.  The slave is not looked at but for a merge of two
handles. -/
def mergeServiceList (malloc : TsdMallocs ν) (master slave : κ)
    (type : TsSrvcMergeType) (state : TsSrvcState κ ν δ) :
    Option (TsSrvcState κ ν δ) :=
  match type with
  | .mergeDefault =>
    (mergeDefault malloc state.memory (state.dbs master)).map
      fun (memory, db) => (setDb { state with memory := memory } master db).syncHandle master
  | .merge2Handle =>
    let masterInfo := (state.dbs master).actSrvcInfo
    let slaveInfo := (state.dbs slave).actSrvcInfo
    if slaveInfo.srvcCnt = 0 then
      some (state.syncHandle master)
    else
      (merge2HandleLoop malloc master slave (2 ^ 32) 0 masterInfo.pFirstSrvc
        slaveInfo.pFirstSrvc state).map (·.syncHandle master)

end TsSrvcState

end

/-!
# Lists of services

What `_Add_to_Service_List` and `_Del_Service_List` do to a list whose services
have the numbers from zero on.  The order along the ring is of no account: every
search goes once around it.
-/

section

open Lib

universe v w

variable {ν : Type v} {δ : Type w} {heap after : RingHeap ν (TsServiceInfo δ)}
  {list : TsSrvcPrsInfo ν} {nodes changed : List ν} {node : ν}
  {info : TsServiceInfo δ}

/-- A list of services, given in the order of their numbers. -/
structure SrvcListed (heap : RingHeap ν (TsServiceInfo δ))
    (list : TsSrvcPrsInfo ν) (nodes : List ν) : Prop where
  held : heap.Held nodes
  first : Cursor nodes list.pFirstSrvc
  cur : Cursor nodes list.pCurSrvc
  count : list.srvcCnt = nodes.length
  numbers : nodes.map (fun n => (heap.info n).orderNum) = List.range nodes.length

def srvcKeys (heap : RingHeap ν (TsServiceInfo δ)) (nodes : List ν) : List (UInt32 × UInt32) :=
  nodes.map fun n => (heap.info n).cmpData

/-- A service without its place in a list and the version it came with. -/
def TsServiceInfo.service (info : TsServiceInfo δ) : TsServiceInfo δ :=
  { info with orderNum := 0, versionNumber := 0 }

def services (heap : RingHeap ν (TsServiceInfo δ)) (nodes : List ν) : List (TsServiceInfo δ) :=
  nodes.map fun n => (heap.info n).service

/-- No call of `tsd_malloc` answers with a node that is in use. -/
def TsdMallocs.Fresh (malloc : TsdMallocs ν) : Prop :=
  ∀ calls live, ∀ node ∈ malloc calls live, node ∉ live

theorem srvcKeys_cons (heap : RingHeap ν (TsServiceInfo δ)) (node : ν) (nodes : List ν) :
    srvcKeys heap (node :: nodes) = (heap.info node).cmpData :: srvcKeys heap nodes :=
  rfl

theorem srvcKeys_congr (same : ∀ n ∈ nodes, after.info n = heap.info n) :
    srvcKeys after nodes = srvcKeys heap nodes :=
  List.map_congr_left fun n member => by rw [same n member]

theorem services_congr (same : ∀ n ∈ nodes, after.info n = heap.info n) :
    services after nodes = services heap nodes :=
  List.map_congr_left fun n member => by rw [same n member]

theorem mem_srvcKeys {key : UInt32 × UInt32} :
    key ∈ srvcKeys heap nodes ↔ ∃ s ∈ services heap nodes, s.cmpData = key := by
  simp [srvcKeys, services, TsServiceInfo.service, TsServiceInfo.cmpData]

theorem TsServiceInfo.cmpData_of_service {left right : TsServiceInfo δ}
    (same : left.service = right.service) : left.cmpData = right.cmpData := by
  have keys : left.service.cmpData = right.service.cmpData := by rw [same]
  exact keys

theorem SrvcListed.frame (listed : SrvcListed heap list nodes)
    (frame : heap.Frame after changed) (apart : nodes.Disjoint changed) :
    SrvcListed after list nodes where
  held := listed.held.frame frame apart
  first := listed.first
  cur := listed.cur
  count := listed.count
  numbers := by
    rw [← listed.numbers]
    apply List.map_congr_left
    intro n member
    rw [frame.info n (apart member)]

theorem srvcListed_cleared (heap : RingHeap ν (TsServiceInfo δ)) :
    SrvcListed heap TsSrvcPrsInfo.cleared [] where
  held := ⟨[], List.Perm.refl [], List.nodup_nil, fun _ => nofun, RingLinks.ring_nil⟩
  first := Or.inl ⟨rfl, rfl⟩
  cur := Or.inl ⟨rfl, rfl⟩
  count := rfl
  numbers := rfl

variable [DecidableEq ν]

theorem SrvcListed.find_number (listed : SrvcListed heap list nodes)
    {cur : Option ν} (cursor : Cursor nodes cur) {i : Nat} (here : nodes[i]? = some node) :
    heap.find (·.hasOrderNum i) cur = some (some node) := by
  have apart : (nodes.map fun n => (heap.info n).orderNum).Nodup := by
    rw [listed.numbers]
    exact List.nodup_range
  have number : (heap.info node).orderNum = i := by
    obtain ⟨more, rfl⟩ := List.getElem?_eq_some_iff.mp here
    have same := congrArg (·[i]?) listed.numbers
    simpa [more] using same
  have member : node ∈ nodes := List.mem_of_getElem? here
  apply listed.held.find_unique cursor member (decide_eq_true number)
  intro n inside wanted
  exact List.inj_on_of_nodup_map apart inside member ((of_decide_eq_true wanted).trans number.symm)

theorem SrvcListed.unique {others : List ν} (left : SrvcListed heap list nodes)
    (right : SrvcListed heap list others) : nodes = others := by
  have length : nodes.length = others.length := left.count.symm.trans right.count
  apply List.ext_getElem length
  intro i inside insideRight
  have leftFinds := left.find_number left.first (List.getElem?_eq_getElem inside)
  have rightFinds := right.find_number right.first (List.getElem?_eq_getElem insideRight)
  rw [leftFinds] at rightFinds
  exact Option.some.inj (Option.some.inj rightFinds)

/-! ## Adding -/

section Add

variable {malloc : TsdMallocs ν} {calls : Nat}

theorem addToServiceList_refused (refused : malloc calls heap.live = none) :
    addToServiceList malloc ⟨heap, calls⟩ list info true = some (⟨heap, calls + 1⟩, list) := by
  rw [addToServiceList]
  dsimp only
  rw [refused]

structure SrvcNew (heap : RingHeap ν (TsServiceInfo δ)) (nodes : List ν)
    (info : TsServiceInfo δ) (node : ν) (after : RingHeap ν (TsServiceInfo δ)) :
    Prop where
  held : after.Held (nodes ++ [node])
  frame : heap.Frame after (nodes ++ [node])
  live : after.live = insert node heap.live
  kept : ∀ n ≠ node, after.info n = heap.info n
  number : (after.info node).orderNum = nodes.length
  service : (after.info node).service = info.service
  freed : after.freed = heap.freed

section Bounded

variable [Fintype ν] (few : Fintype.card ν < 2 ^ 32)
include few

theorem SrvcNew.listed (new : SrvcNew heap nodes info node after)
    (listed : SrvcListed heap list nodes) (absent : node ∉ nodes)
    {first : Option ν} (begins : Cursor (nodes ++ [node]) first) :
    SrvcListed after
      (TsSrvcPrsInfo.count { list with pFirstSrvc := first, pCurSrvc := some node })
      (nodes ++ [node]) where
  held := new.held
  first := begins
  cur := Cursor.of_mem (List.mem_append_right nodes (List.mem_singleton_self node))
  count := by
    show (list.srvcCnt + 1) % 2 ^ 32 = _
    have bound := new.held.nodup.length_le_card
    rw [List.length_append, List.length_singleton] at bound ⊢
    rw [listed.count]
    exact Nat.mod_eq_of_lt (by omega)
  numbers := by
    have numbers : nodes.map (fun n => (after.info n).orderNum) = List.range nodes.length := by
      rw [← listed.numbers]
      apply List.map_congr_left
      intro n member
      rw [new.kept n (ne_of_mem_of_not_mem member absent)]
    rw [List.map_append, numbers, List.map_singleton, new.number,
      List.length_append, List.length_singleton, List.range_succ]

theorem addToServiceList_new (listed : SrvcListed heap list nodes)
    (granted : malloc calls heap.live = some node) (fresh : node ∉ heap.live)
    (unknown : info.cmpData ∉ srvcKeys heap nodes) :
    ∃ after list',
      addToServiceList malloc ⟨heap, calls⟩ list info true = some (⟨after, calls + 1⟩, list') ∧
        SrvcListed after list' (nodes ++ [node]) ∧
        SrvcNew heap nodes info node after := by
  let first := { info with orderNum := list.srvcCnt }
  let new := { first with versionNumber := list.curVersionNumber }
  let made := heap.malloc node first
  let base := made.store node new
  have absent : node ∉ nodes := fun member => fresh (listed.held.live member)
  have apart : nodes.Disjoint [node] := List.disjoint_singleton.mpr absent
  have frame : heap.Frame base [node] :=
    (RingHeap.malloc_frame node first).trans (RingHeap.store_frame node new)
  have held : base.Held nodes := listed.held.frame frame apart
  have here : base.info node = new := Function.update_self node _ _
  have live : node ∈ base.live := Finset.mem_insert_self node heap.live
  have whole : [node] ⊆ nodes ++ [node] := List.subset_append_right nodes [node]
  have kept : ∀ n ≠ node, base.info n = heap.info n := fun n other =>
    frame.info n fun member => other (List.mem_singleton.mp member)
  have number : (base.info node).orderNum = nodes.length := by
    rw [here]
    exact listed.count
  have service : (base.info node).service = info.service := by
    rw [here]
    rfl
  rw [addToServiceList]
  dsimp only
  rw [granted]
  dsimp only
  rcases listed.first with ⟨rfl, null⟩ | ⟨start, startMember, start_⟩
  · obtain ⟨ring, closed⟩ := RingHeap.held_close live
    have changes : SrvcNew heap [] info node (base.close node) :=
      ⟨ring, frame.trans closed, rfl, kept, number, service, rfl⟩
    have begins : Cursor [node] (some node) := Cursor.of_mem (List.mem_singleton_self node)
    rw [null]
    exact ⟨_, _, rfl, changes.listed few listed absent begins, changes⟩
  · rcases listed.cur with ⟨rfl, -⟩ | ⟨cur, curMember, cur_⟩
    · cases startMember
    · have missed : made.find (·.hasCmpData info.cmpData) list.pCurSrvc = some none := by
        apply RingHeap.Held.find_none
          (listed.held.frame (RingHeap.malloc_frame node first) apart) listed.cur
        intro n member
        rw [(RingHeap.malloc_frame node first).info n (apart member)]
        apply decide_eq_false
        intro same
        exact unknown (List.mem_map.mpr ⟨n, member, same⟩)
      obtain ⟨links, linked, ring, linkFrame⟩ := held.link curMember live absent
      have linkedHere : RingHeap.link (made.store node new) cur node =
          some { base with links := links } := linked
      have changes : SrvcNew heap nodes info node { base with links := links } :=
        ⟨ring, (frame.mono whole).trans linkFrame, rfl, kept, number, service, rfl⟩
      have begins : Cursor (nodes ++ [node]) (some start) :=
        Cursor.of_mem (List.mem_append_left [node] startMember)
      rw [start_]
      dsimp only
      rw [if_pos rfl, missed]
      dsimp only
      rw [cur_]
      dsimp only
      rw [linkedHere]
      exact ⟨_, _, rfl, changes.listed few listed absent begins, changes⟩

end Bounded

structure SrvcUpdated (heap : RingHeap ν (TsServiceInfo δ)) (nodes : List ν)
    (info : TsServiceInfo δ) (old node : ν)
    (after : RingHeap ν (TsServiceInfo δ)) : Prop where
  held : after.Held nodes
  frame : heap.Frame after [old, node]
  live : after.live = heap.live
  number : (after.info old).orderNum = (heap.info old).orderNum
  service : (after.info old).service = info.service
  freed : after.freed = heap.freed ++ [node]

theorem addToServiceList_known (listed : SrvcListed heap list nodes)
    (distinct : (srvcKeys heap nodes).Nodup)
    (granted : malloc calls heap.live = some node) (fresh : node ∉ heap.live)
    {old : ν} (member : old ∈ nodes) (same : (heap.info old).cmpData = info.cmpData) :
    ∃ after,
      addToServiceList malloc ⟨heap, calls⟩ list info true = some (⟨after, calls + 1⟩, list) ∧
        SrvcUpdated heap nodes info old node after := by
  let first := { info with orderNum := list.srvcCnt }
  let made := heap.malloc node first
  let number := (made.info old).orderNum
  let new : TsServiceInfo δ :=
    { first with versionNumber := list.curVersionNumber, orderNum := number }
  let stored := made.store old new
  have absent : node ∉ nodes := fun inside => fresh (listed.held.live inside)
  have apart : nodes.Disjoint [node] := List.disjoint_singleton.mpr absent
  have other : old ≠ node := ne_of_mem_of_not_mem member absent
  have frame : heap.Frame made [node] := RingHeap.malloc_frame node first
  have held : made.Held nodes := listed.held.frame frame apart
  have oldSame : made.info old = heap.info old := frame.info old (apart member)
  have live : node ∈ stored.live := Finset.mem_insert_self node heap.live
  have found : made.find (·.hasCmpData info.cmpData) list.pCurSrvc = some (some old) := by
    apply held.find_unique listed.cur member
    · rw [oldSame]
      exact decide_eq_true same
    · intro n inside wanted
      rw [frame.info n (apart inside)] at wanted
      exact
        List.inj_on_of_nodup_map distinct inside member ((of_decide_eq_true wanted).trans same.symm)
  obtain ⟨after, frees, freed, alive, infos, freeFrame⟩ := RingHeap.free_live live
  refine ⟨after, ?_, ?_, ?_, ?_, ?_, ?_, ?_⟩
  · rw [addToServiceList]
    dsimp only
    rw [granted]
    dsimp only
    rcases listed.first with ⟨rfl, -⟩ | ⟨start, -, start_⟩
    · cases member
    · rw [start_]
      dsimp only
      rw [if_pos rfl, found]
      dsimp only
      have freesHere : (made.store old new).free node = some after := frees
      rw [freesHere]
      rfl
  · exact (held.store old new).frame freeFrame apart
  · have toMade := frame.mono (List.subset_cons_self old [node])
    have toStored : made.Frame stored [old, node] :=
      (RingHeap.store_frame old new).mono (List.cons_subset_cons old (List.nil_subset [node]))
    exact (toMade.trans toStored).trans (freeFrame.mono (List.subset_cons_self old [node]))
  · rw [alive]
    exact Finset.erase_insert fresh
  · rw [infos]
    have here : stored.info old = new := Function.update_self old _ _
    have numbered : number = (heap.info old).orderNum := congrArg TsServiceInfo.orderNum oldSame
    rw [here]
    exact numbered
  · rw [infos]
    have here : stored.info old = new := Function.update_self old _ _
    rw [here]
    rfl
  · exact freed

/-- What any call of `_Add_to_Service_List` does; `new` is what `tsd_malloc`
answered, and the service is there afterwards if it answered with a node. -/
structure SrvcAdded (malloc : TsdMallocs ν) (calls : Nat)
    (heap : RingHeap ν (TsServiceInfo δ)) (nodes : List ν)
    (info : TsServiceInfo δ) (after : RingHeap ν (TsServiceInfo δ))
    (list' : TsSrvcPrsInfo ν) (nodes' new : List ν) : Prop where
  listed : SrvcListed after list' nodes'
  distinct : (srvcKeys after nodes').Nodup
  fresh : ∀ n ∈ new, n ∉ heap.live
  within : nodes' ⊆ nodes ++ new
  frame : heap.Frame after (nodes ++ new)
  freed : ∃ frees, frees ⊆ new ∧ after.freed = heap.freed ++ frees
  live : heap.live ⊆ after.live
  card : after.live.card ≤ heap.live.card + 1
  services :
    malloc calls heap.live ≠ none →
      ∀ s, s ∈ services after nodes' ↔
        s = info.service ∨ (s ∈ services heap nodes ∧ s.cmpData ≠ info.cmpData)

theorem SrvcNew.keys (new : SrvcNew heap nodes info node after)
    (kept : ∀ n ∈ nodes, after.info n = heap.info n) :
    srvcKeys after (nodes ++ [node]) = srvcKeys heap nodes ++ [info.cmpData] := by
  have same := srvcKeys_congr kept
  rw [srvcKeys] at same
  rw [srvcKeys, List.map_append, same, List.map_singleton,
    TsServiceInfo.cmpData_of_service new.service]

theorem SrvcNew.added [Fintype ν] (new : SrvcNew heap nodes info node after)
    (distinct : (srvcKeys heap nodes).Nodup) (held : heap.Held nodes) (fresh : node ∉ heap.live)
    (unknown : info.cmpData ∉ srvcKeys heap nodes)
    {list' : TsSrvcPrsInfo ν} (listed : SrvcListed after list' (nodes ++ [node])) :
    SrvcAdded malloc calls heap nodes info after list' (nodes ++ [node]) [node] := by
  have kept : ∀ n ∈ nodes, after.info n = heap.info n := fun n member =>
    new.kept n fun same => fresh (same ▸ held.live member)
  refine ⟨listed, ?_, ?_, fun _ => id, new.frame, ⟨[], List.nil_subset _, ?_⟩, ?_, ?_, ?_⟩
  · rw [new.keys kept, ← List.concat_eq_append, List.nodup_concat]
    exact ⟨unknown, distinct⟩
  · intro n here
    rw [List.mem_singleton.mp here]
    exact fresh
  · rw [new.freed, List.append_nil]
  · rw [new.live]
    exact Finset.subset_insert node heap.live
  · rw [new.live]
    exact Finset.card_insert_le node heap.live
  · intro _ s
    have same := services_congr kept
    rw [services] at same
    rw [services, List.map_append, List.map_singleton, new.service, same,
      List.mem_append, List.mem_singleton, or_comm]
    apply or_congr_right
    refine (and_iff_left_of_imp ?_).symm
    rintro member same
    exact unknown (mem_srvcKeys.mpr ⟨s, member, same⟩)

theorem SrvcUpdated.added {old : ν} (update : SrvcUpdated heap nodes info old node after)
    (listed : SrvcListed heap list nodes) (distinct : (srvcKeys heap nodes).Nodup)
    (fresh : node ∉ heap.live) (member : old ∈ nodes)
    (same : (heap.info old).cmpData = info.cmpData) :
    SrvcAdded malloc calls heap nodes info after list nodes [node] := by
  have kept {n : ν} (inside : n ∈ nodes) (other : n ≠ old) :
      after.info n = heap.info n := by
    apply update.frame.info n
    intro changed
    rcases List.mem_cons.mp changed with here | here
    · exact other here
    · rw [List.mem_singleton.mp here] at inside
      exact fresh (listed.held.live inside)
  have key : (after.info old).cmpData = info.cmpData :=
    TsServiceInfo.cmpData_of_service update.service
  have keys : srvcKeys after nodes = srvcKeys heap nodes := by
    apply List.map_congr_left
    intro n inside
    by_cases here : n = old
    · rw [here, key, same]
    · rw [kept inside here]
  refine ⟨⟨update.held, listed.first, listed.cur, listed.count, ?_⟩, ?_, ?_, ?_, ?_,
    ⟨[node], fun _ => id, update.freed⟩, ?_, ?_, ?_⟩
  · rw [← listed.numbers]
    apply List.map_congr_left
    intro n inside
    by_cases here : n = old
    · rw [here, update.number]
    · rw [kept inside here]
  · rw [keys]
    exact distinct
  · intro n here
    rw [List.mem_singleton.mp here]
    exact fresh
  · exact List.subset_append_left nodes [node]
  · apply update.frame.mono
    intro n changed
    rcases List.mem_cons.mp changed with rfl | here
    · exact List.mem_append_left [node] member
    · exact List.mem_append_right nodes here
  · rw [update.live]
  · rw [update.live]
    exact Nat.le_succ _
  · intro _ s
    constructor
    · intro there
      obtain ⟨n, inside, rfl⟩ := List.mem_map.mp there
      by_cases here : n = old
      · rw [here]
        exact Or.inl update.service
      · rw [kept inside here]
        refine Or.inr ⟨List.mem_map_of_mem inside, ?_⟩
        intro equal
        exact here (List.inj_on_of_nodup_map distinct inside member (equal.trans same.symm))
    · rintro (rfl | ⟨there, different⟩)
      · rw [← update.service]
        exact List.mem_map_of_mem member
      · obtain ⟨n, inside, rfl⟩ := List.mem_map.mp there
        have other : n ≠ old := by
          rintro rfl
          exact different same
        rw [← kept inside other]
        exact List.mem_map_of_mem inside

theorem addToServiceList_added [Fintype ν] (few : Fintype.card ν < 2 ^ 32)
    (freshly : malloc.Fresh) (listed : SrvcListed heap list nodes)
    (distinct : (srvcKeys heap nodes).Nodup) (calls : Nat) (info : TsServiceInfo δ) :
    ∃ after list' nodes' new,
      addToServiceList malloc ⟨heap, calls⟩ list info true = some (⟨after, calls + 1⟩, list') ∧
        SrvcAdded malloc calls heap nodes info after list' nodes' new := by
  cases granted : malloc calls heap.live with
  | none =>
    refine ⟨heap, list, nodes, [], addToServiceList_refused granted, listed,
      distinct, fun _ => nofun, List.subset_append_left nodes [],
      RingHeap.Frame.refl heap _, ⟨[], fun _ => id, (List.append_nil _).symm⟩,
      fun _ => id, Nat.le_succ _, ?_⟩
    exact fun some_ => absurd granted some_
  | some node =>
    have fresh : node ∉ heap.live := freshly calls heap.live node granted
    by_cases known : info.cmpData ∈ srvcKeys heap nodes
    · obtain ⟨old, member, same⟩ := List.mem_map.mp known
      obtain ⟨after, adds, update⟩ :=
        addToServiceList_known listed distinct granted fresh member same
      exact ⟨after, list, nodes, [node], adds, update.added listed distinct fresh member same⟩
    · obtain ⟨after, list', adds, listed', new⟩ :=
        addToServiceList_new few listed granted fresh known
      exact ⟨after, list', nodes ++ [node], [node], adds,
        new.added distinct listed.held fresh known listed'⟩

end Add

structure SrvcFreed (heap : RingHeap ν (TsServiceInfo δ)) (nodes : List ν)
    (after : RingHeap ν (TsServiceInfo δ)) : Prop where
  freed : ∃ frees, frees.Perm nodes ∧ after.freed = heap.freed ++ frees
  frame : heap.Frame after nodes
  gone : ∀ n ∈ nodes, n ∉ after.live
  info : after.info = heap.info

/-- Services with different numbers are all freed, even if some of the numbers
that are looked for are missing. -/
theorem delServices_freed (turns : Nat) :
    ∀ (i : Nat) (cur : Option ν) (heap : RingHeap ν (TsServiceInfo δ)) (nodes : List ν),
      heap.Held nodes → Cursor nodes cur →
      (nodes.map fun n => (heap.info n).orderNum).Nodup →
      (∀ n ∈ nodes, i ≤ (heap.info n).orderNum ∧ (heap.info n).orderNum < i + turns) →
      ∃ after, delServices turns i cur heap = some after ∧ SrvcFreed heap nodes after := by
  induction turns with
  | zero =>
    intro i cur heap nodes _ _ _ within
    obtain rfl : nodes = [] := by
      apply List.eq_nil_iff_forall_not_mem.mpr
      intro n member
      have := within n member
      omega
    exact ⟨heap, rfl, ⟨[], List.Perm.refl [], (List.append_nil _).symm⟩,
      RingHeap.Frame.refl heap [], fun _ => nofun, rfl⟩
  | succ turns ih =>
    intro i cur heap nodes held cursor apart within
    rw [delServices]
    by_cases some_ : ∃ node ∈ nodes, (heap.info node).orderNum = i
    · obtain ⟨node, member, number⟩ := some_
      have finds : heap.find (·.hasOrderNum i) cur = some (some node) := by
        apply held.find_unique cursor member (decide_eq_true number)
        intro n inside wanted
        exact
          List.inj_on_of_nodup_map apart inside member
            ((of_decide_eq_true wanted).trans number.symm)
      obtain ⟨links, before, middle, unlinks, frees, rest, left, frame, info,
        freed, live⟩ := held.unlink_free member
      have inside {n : ν} (there : n ∈ nodes.erase node) : n ∈ nodes := List.mem_of_mem_erase there
      obtain ⟨after, ends, others⟩ :=
        ih (i + 1) before middle (nodes.erase node) rest left
          (by
            rw [info]
            exact apart.sublist (List.erase_sublist.map _))
          (by
            intro n there
            have bounds := within n (inside there)
            have different : (heap.info n).orderNum ≠ i := by
              intro same
              have equal := List.inj_on_of_nodup_map apart (inside there) member
                (same.trans number.symm)
              subst equal
              exact held.nodup.not_mem_erase there
            rw [info]
            omega)
      obtain ⟨list, same, list_⟩ := others.freed
      rw [finds]
      dsimp only
      rw [unlinks]
      dsimp only
      rw [frees]
      refine ⟨after, ends, ⟨node :: list, ?_, ?_⟩, ?_, ?_, ?_⟩
      · exact (same.cons node).trans (List.perm_cons_erase member).symm
      · rw [list_, freed, List.append_assoc]
        rfl
      · exact frame.trans (others.frame.mono fun n there => inside there)
      · intro n there
        by_cases here : n = node
        · subst here
          rw [others.frame.live n held.nodup.not_mem_erase, live]
          exact Finset.notMem_erase n heap.live
        · exact others.gone n ((List.mem_erase_of_ne here).mpr there)
      · exact others.info.trans info
    · have finds : heap.find (·.hasOrderNum i) cur = some none := by
        apply held.find_none cursor
        intro n member
        exact decide_eq_false fun same => some_ ⟨n, member, same⟩
      rw [finds]
      apply ih (i + 1) cur heap nodes held cursor apart
      intro n member
      have bounds := within n member
      have different : (heap.info n).orderNum ≠ i := fun same => some_ ⟨n, member, same⟩
      omega

end

end IteSdk.TsDemuxer
