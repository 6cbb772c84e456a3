import IteSdk.TsDemuxer.TsServiceMerge

/-!
# The merge of two handles

The loop of `_Merge_Service_List` over the active list of the slave, which may be
the one of the master as well.
-/

namespace IteSdk.TsDemuxer

section

open Lib

universe u v w

variable {κ : Type u} {ν : Type v} {δ : Type w} [DecidableEq ν]
  {malloc : TsdMallocs ν} {heap : RingHeap ν (TsServiceInfo δ)}
  {state : TsSrvcState κ ν δ} {master slave : κ} {nodes others rest : List ν}
  {curMaster curSlave : Option ν}

/-- The next calls of `tsd_malloc` all answer with a node. -/
def TsdMallocs.GrantsNext (malloc : TsdMallocs ν) : Nat → Nat → Finset ν → Prop
  | 0, _, _ => True
  | more + 1, calls, live =>
    ∃ node, malloc calls live = some node ∧ malloc.GrantsNext more (calls + 1) (insert node live)

/-- The services whose keys are not among those of `nodes`. -/
def missing (heap : RingHeap ν (TsServiceInfo δ)) (nodes others : List ν) : List ν :=
  others.filter fun n => (heap.info n).cmpData ∉ srvcKeys heap nodes

omit [DecidableEq ν] in
theorem missing_known {n : ν} (known : (heap.info n).cmpData ∈ srvcKeys heap nodes) :
    missing heap nodes (n :: rest) = missing heap nodes rest := by
  rw [missing, List.filter_cons_of_neg]
  · rfl
  · rw [decide_eq_true_iff]
    exact not_not.mpr known

omit [DecidableEq ν] in
theorem missing_unknown {n : ν} (unknown : (heap.info n).cmpData ∉ srvcKeys heap nodes) :
    missing heap nodes (n :: rest) = n :: missing heap nodes rest := by
  rw [missing, List.filter_cons_of_pos]
  · rfl
  · exact decide_eq_true unknown

variable {after : RingHeap ν (TsServiceInfo δ)} {n node : ν}

omit [DecidableEq ν] in
theorem missing_add
    (keys : srvcKeys after (nodes ++ [node]) = srvcKeys heap nodes ++ [(heap.info n).cmpData])
    (kept : ∀ r ∈ rest, after.info r = heap.info r)
    (distinct : (heap.info n).cmpData ∉ srvcKeys heap rest) :
    missing after (nodes ++ [node]) rest = missing heap nodes rest := by
  apply List.filter_congr
  intro r inside
  have other : (heap.info r).cmpData ≠ (heap.info n).cmpData := by
    intro same
    apply distinct
    rw [← same]
    exact List.mem_map_of_mem inside
  rw [keys, kept r inside, decide_eq_decide, List.mem_append, List.mem_singleton, or_iff_left other]

structure SrvcJoining (state : TsSrvcState κ ν δ) (master slave : κ)
    (nodes others : List ν) : Prop where
  listed : SrvcListed state.memory.heap (state.dbs master).actSrvcInfo nodes
  distinct : (srvcKeys state.memory.heap nodes).Nodup
  slaveListed : SrvcListed state.memory.heap (state.dbs slave).actSrvcInfo others
  slaveDistinct : (srvcKeys state.memory.heap others).Nodup
  same : master = slave → nodes = others
  apart : master ≠ slave → nodes.Disjoint others

structure SrvcUnchanged (before after : TsSrvcState κ ν δ) (handle : κ)
    (nodes : List ν) : Prop where
  header : (after.dbs handle).actSrvcInfo = (before.dbs handle).actSrvcInfo
  next : ∀ n ∈ nodes, after.memory.heap.links.next n = before.memory.heap.links.next n
  prev : ∀ n ∈ nodes, after.memory.heap.links.prev n = before.memory.heap.links.prev n
  info : ∀ n ∈ nodes, after.memory.heap.info n = before.memory.heap.info n
  live : ∀ n ∈ nodes, n ∈ after.memory.heap.live

/-- What the loop does with the services `rest` of the slave. -/
structure SrvcJoined (malloc : TsdMallocs ν) (before after : TsSrvcState κ ν δ)
    (master slave : κ) (nodes others rest nodes' : List ν) : Prop where
  listed : SrvcListed after.memory.heap (after.dbs master).actSrvcInfo nodes'
  distinct : (srvcKeys after.memory.heap nodes').Nodup
  slave : SrvcUnchanged before after slave others
  keys :
    ∀ key ∈ srvcKeys after.memory.heap nodes',
      key ∈ srvcKeys before.memory.heap nodes ∨ key ∈ srvcKeys before.memory.heap rest
  union :
    malloc.GrantsNext (missing before.memory.heap nodes rest).length
        before.memory.calls before.memory.heap.live →
      ∀ s, s ∈ services after.memory.heap nodes' ↔
        s ∈ services before.memory.heap nodes ∨
          (s ∈ services before.memory.heap rest ∧ s.cmpData ∉ srvcKeys before.memory.heap nodes)
  lost :
    ¬ malloc.GrantsNext (missing before.memory.heap nodes rest).length
        before.memory.calls before.memory.heap.live →
      ∃ n ∈ rest, (before.memory.heap.info n).cmpData ∉ srvcKeys after.memory.heap nodes'

theorem SrvcJoining.ended (joining : SrvcJoining state master slave nodes others) :
    SrvcJoined malloc state state master slave nodes others [] nodes where
  listed := joining.listed
  distinct := joining.distinct
  slave := ⟨rfl, fun _ _ => rfl, fun _ _ => rfl, fun _ _ => rfl,
    fun _ => joining.slaveListed.held.live⟩
  keys := fun _ => Or.inl
  union := fun _ _ => (or_iff_left fun none_ => List.not_mem_nil none_.1).symm
  lost := fun refused => absurd trivial refused

variable {nodes' : List ν}

theorem SrvcJoined.found {after : TsSrvcState κ ν δ} {n : ν}
    (joined : SrvcJoined malloc state after master slave nodes others rest nodes')
    (known : (state.memory.heap.info n).cmpData ∈ srvcKeys state.memory.heap nodes) :
    SrvcJoined malloc state after master slave nodes others (n :: rest) nodes' where
  listed := joined.listed
  distinct := joined.distinct
  slave := joined.slave
  keys := fun key inside => (joined.keys key inside).imp_right (List.mem_cons_of_mem _)
  union := by
    rw [missing_known known]
    intro granted s
    rw [joined.union granted s]
    apply or_congr_right
    constructor
    · rintro ⟨member, unknown⟩
      exact ⟨List.mem_cons_of_mem _ member, unknown⟩
    · rintro ⟨member, unknown⟩
      rcases List.mem_cons.mp member with rfl | later
      · exact absurd known unknown
      · exact ⟨later, unknown⟩
  lost := by
    rw [missing_known known]
    intro refused
    obtain ⟨m, inside, absent⟩ := joined.lost refused
    exact ⟨m, List.mem_cons_of_mem n inside, absent⟩

theorem SrvcJoined.refused {after : TsSrvcState κ ν δ} {n : ν}
    (joined :
      SrvcJoined malloc { state with memory := ⟨state.memory.heap, state.memory.calls + 1⟩ } after
        master slave nodes others rest nodes')
    (distinct : (srvcKeys state.memory.heap (n :: rest)).Nodup)
    (unknown : (state.memory.heap.info n).cmpData ∉ srvcKeys state.memory.heap nodes)
    (noMemory : malloc state.memory.calls state.memory.heap.live = none) :
    SrvcJoined malloc state after master slave nodes others (n :: rest) nodes' where
  listed := joined.listed
  distinct := joined.distinct
  slave := ⟨joined.slave.header, joined.slave.next, joined.slave.prev,
    joined.slave.info, joined.slave.live⟩
  keys := fun key inside => (joined.keys key inside).imp_right (List.mem_cons_of_mem _)
  union := by
    rw [missing_unknown unknown]
    rintro ⟨node, granted, -⟩
    rw [noMemory] at granted
    cases granted
  lost := by
    intro _
    refine ⟨n, List.mem_cons_self, fun inside => ?_⟩
    rcases joined.keys _ inside with there | later
    · exact unknown there
    · exact (List.nodup_cons.mp distinct).1 later

theorem SrvcJoined.added {middle after : TsSrvcState κ ν δ}
    (joined : SrvcJoined malloc middle after master slave (nodes ++ [node]) others rest nodes')
    (joining : SrvcJoining state master slave nodes others) (inside : n :: rest ⊆ others)
    (distinct : (srvcKeys state.memory.heap (n :: rest)).Nodup)
    (unknown : (state.memory.heap.info n).cmpData ∉ srvcKeys state.memory.heap nodes)
    (granted : malloc state.memory.calls state.memory.heap.live = some node)
    (fresh : node ∉ state.memory.heap.live) (calls : middle.memory.calls = state.memory.calls + 1)
    (new : SrvcNew state.memory.heap nodes (state.memory.heap.info n) node middle.memory.heap)
    (unchanged : SrvcUnchanged state middle slave others) :
    SrvcJoined malloc state after master slave nodes others (n :: rest) nodes' := by
  have restKept : ∀ r ∈ rest, middle.memory.heap.info r = state.memory.heap.info r :=
    fun r later => unchanged.info r (inside (List.mem_cons_of_mem n later))
  have nodesKept : ∀ m ∈ nodes, middle.memory.heap.info m = state.memory.heap.info m := by
    intro m member
    apply new.kept m
    rintro rfl
    exact fresh (joining.listed.held.live member)
  have keys := new.keys nodesKept
  have infos : services middle.memory.heap (nodes ++ [node]) =
      services state.memory.heap nodes ++ [(state.memory.heap.info n).service] := by
    have same := services_congr nodesKept
    rw [services] at same
    rw [services, List.map_append, same, List.map_singleton, new.service]
  have headAbsent := (List.nodup_cons.mp distinct).1
  have grants :
      malloc.GrantsNext (missing state.memory.heap nodes (n :: rest)).length
          state.memory.calls state.memory.heap.live ↔
        malloc.GrantsNext (missing middle.memory.heap (nodes ++ [node]) rest).length
          middle.memory.calls middle.memory.heap.live := by
    rw [missing_unknown unknown, missing_add keys restKept headAbsent, calls,
      new.live, List.length_cons]
    constructor
    · rintro ⟨answer, same, more⟩
      rw [granted] at same
      rw [← Option.some.inj same] at more
      exact more
    · exact fun more => ⟨node, granted, more⟩
  refine ⟨joined.listed, joined.distinct, ?_, ?_, ?_, ?_⟩
  · exact
      ⟨joined.slave.header.trans unchanged.header,
        fun m there => (joined.slave.next m there).trans (unchanged.next m there),
        fun m there => (joined.slave.prev m there).trans (unchanged.prev m there),
        fun m there => (joined.slave.info m there).trans (unchanged.info m there),
        joined.slave.live⟩
  · intro k there
    have split := joined.keys k there
    rw [keys, srvcKeys_congr restKept, List.mem_append, List.mem_singleton] at split
    rw [srvcKeys_cons, List.mem_cons]
    tauto
  · intro allGranted s
    rw [joined.union (grants.mp allGranted) s, infos, keys, services_congr restKept]
    have headKey (there : s ∈ services state.memory.heap rest) :
        s.cmpData ≠ (state.memory.heap.info n).cmpData := by
      intro same
      exact headAbsent (mem_srvcKeys.mpr ⟨s, there, same⟩)
    have headUnknown (same : s = (state.memory.heap.info n).service) :
        s.cmpData ∉ srvcKeys state.memory.heap nodes := by
      rw [same]
      exact unknown
    have headMember : s ∈ services state.memory.heap (n :: rest) ↔
        s = (state.memory.heap.info n).service ∨ s ∈ services state.memory.heap rest :=
      List.mem_cons
    rw [headMember]
    simp only [List.mem_append, List.mem_singleton]
    constructor
    · rintro ((former | isNew) | ⟨later, unknownHere⟩)
      · exact Or.inl former
      · exact Or.inr ⟨Or.inl isNew, headUnknown isNew⟩
      · exact Or.inr ⟨Or.inr later, fun there => unknownHere (Or.inl there)⟩
    · rintro (former | ⟨isNew | later, unknownHere⟩)
      · exact Or.inl (Or.inl former)
      · exact Or.inl (Or.inr isNew)
      · exact Or.inr ⟨later, fun there => there.elim unknownHere (headKey later)⟩
  · intro refused
    obtain ⟨m, later, absent⟩ := joined.lost fun more => refused (grants.mpr more)
    rw [restKept m later] at absent
    exact ⟨m, List.mem_cons_of_mem n later, absent⟩

variable [DecidableEq κ]

open TsSrvcState

theorem SrvcJoining.add {act : TsSrvcPrsInfo ν}
    (joining : SrvcJoining state master slave nodes others) (other : master ≠ slave)
    (unknown : (state.memory.heap.info n).cmpData ∉ srvcKeys state.memory.heap nodes)
    (fresh : node ∉ state.memory.heap.live) (listed : SrvcListed after act (nodes ++ [node]))
    (new : SrvcNew state.memory.heap nodes (state.memory.heap.info n) node after) (calls : Nat) :
    let middle :=
      setDb { state with memory := ⟨after, calls⟩ } master
        { state.dbs master with actSrvcInfo := act }
    SrvcJoining middle master slave (nodes ++ [node]) others ∧
      SrvcUnchanged state middle slave others := by
  intro middle
  have header : (middle.dbs master).actSrvcInfo = act := by
    show (Function.update state.dbs master _ master).actSrvcInfo = act
    rw [Function.update_self]
  have slaveDb : middle.dbs slave = state.dbs slave := Function.update_of_ne other.symm _ _
  have apart : others.Disjoint (nodes ++ [node]) := by
    intro m there changed
    rcases List.mem_append.mp changed with inside | isNew
    · exact joining.apart other inside there
    · rw [List.mem_singleton.mp isNew] at there
      exact fresh (joining.slaveListed.held.live there)
  have nodesKept : ∀ m ∈ nodes, after.info m = state.memory.heap.info m := by
    intro m member
    apply new.kept m
    rintro rfl
    exact fresh (joining.listed.held.live member)
  have othersKept : ∀ m ∈ others, after.info m = state.memory.heap.info m :=
    fun m there => new.frame.info m (apart there)
  have slaveListed := joining.slaveListed.frame new.frame apart
  refine ⟨⟨?_, ?_, ?_, ?_, fun equal => absurd equal other,
    fun _ => apart.symm⟩, ?_, ?_, ?_, othersKept, ?_⟩
  · rw [header]
    exact listed
  · show (srvcKeys after (nodes ++ [node])).Nodup
    rw [new.keys nodesKept, ← List.concat_eq_append, List.nodup_concat]
    exact ⟨unknown, joining.distinct⟩
  · rw [slaveDb]
    exact slaveListed
  · show (srvcKeys after others).Nodup
    rw [srvcKeys_congr othersKept]
    exact joining.slaveDistinct
  · rw [slaveDb]
  · exact fun m there => new.frame.next m (apart there)
  · exact fun m there => new.frame.prev m (apart there)
  · exact fun m there => slaveListed.held.live there

theorem merge2HandleLoop_joined [Fintype ν] (few : Fintype.card ν < 2 ^ 32)
    (freshly : malloc.Fresh) (others : List ν) :
    ∀ (rest front : List ν) (fuel : Nat) (curMaster curSlave : Option ν)
      (state : TsSrvcState κ ν δ) (nodes : List ν),
      others = front ++ rest → rest.length < fuel →
      SrvcJoining state master slave nodes others → Cursor others curSlave →
      Cursor nodes curMaster →
      ∃ after nodes',
        merge2HandleLoop malloc master slave fuel front.length curMaster curSlave
            state = some after ∧
          SrvcJoined malloc state after master slave nodes others rest nodes' := by
  intro rest
  induction rest with
  | nil =>
    intro front fuel curMaster curSlave state nodes split enough joining _ _
    obtain ⟨fuel, rfl⟩ : ∃ fewer, fuel = fewer + 1 :=
      ⟨fuel - 1, by rw [List.length_nil] at enough; omega⟩
    have ended : ¬ front.length < (state.dbs slave).actSrvcInfo.srvcCnt := by
      rw [joining.slaveListed.count, split, List.append_nil]
      exact Nat.lt_irrefl _
    refine ⟨state, nodes, ?_, joining.ended⟩
    rw [merge2HandleLoop]
    dsimp only
    rw [if_neg ended]
  | cons n rest ih =>
    intro front fuel curMaster curSlave state nodes split enough joining cursorSlave cursorMaster
    obtain ⟨fuel, rfl⟩ : ∃ fewer, fuel = fewer + 1 :=
      ⟨fuel - 1, by rw [List.length_cons] at enough; omega⟩
    have enoughLater : rest.length < fuel := by
      rw [List.length_cons] at enough
      omega
    have more : front.length < (state.dbs slave).actSrvcInfo.srvcCnt := by
      rw [joining.slaveListed.count, split, List.length_append, List.length_cons]
      omega
    have splitLater : others = (front ++ [n]) ++ rest := by
      rw [List.append_assoc]
      exact split
    have behind : (front ++ [n]).length = front.length + 1 := by
      rw [List.length_append, List.length_singleton]
    have inside : n :: rest ⊆ others := by
      rw [split]
      exact List.subset_append_right front (n :: rest)
    have here : n ∈ others := inside List.mem_cons_self
    have distinct : (srvcKeys state.memory.heap (n :: rest)).Nodup := by
      have all := joining.slaveDistinct
      rw [split, srvcKeys, List.map_append] at all
      exact all.of_append_right
    rw [merge2HandleLoop]
    dsimp only
    rw [if_pos more,
      joining.slaveListed.find_number cursorSlave
        (show others[front.length]? = some n by simp [split])]
    dsimp only
    by_cases known :
        (state.memory.heap.info n).cmpData ∈ srvcKeys state.memory.heap nodes
    · obtain ⟨m, member, same⟩ := List.mem_map.mp known
      have finds :
          state.memory.heap.find (·.hasCmpData (state.memory.heap.info n).cmpData) curMaster =
            some (some m) := by
        apply joining.listed.held.find_unique cursorMaster member (decide_eq_true same)
        intro other there wanted
        exact
          List.inj_on_of_nodup_map joining.distinct there member
            ((of_decide_eq_true wanted).trans same.symm)
      obtain ⟨after, nodes', ends, joined⟩ :=
        ih (front ++ [n]) fuel (some m) (some n) state nodes
          splitLater enoughLater joining (Cursor.of_mem here)
          (Cursor.of_mem member)
      rw [behind] at ends
      rw [finds]
      exact ⟨after, nodes', ends, joined.found known⟩
    · have finds :
          state.memory.heap.find (·.hasCmpData (state.memory.heap.info n).cmpData) curMaster =
            some none := by
        apply joining.listed.held.find_none cursorMaster
        intro m member
        exact decide_eq_false fun same => known (List.mem_map.mpr ⟨m, member, same⟩)
      have other : master ≠ slave := by
        intro equal
        apply known
        rw [joining.same equal]
        exact List.mem_map_of_mem here
      rw [finds]
      dsimp only
      cases answer : malloc state.memory.calls state.memory.heap.live with
      | none =>
        have adds :
            addToServiceList malloc state.memory
                (state.dbs master).actSrvcInfo (state.memory.heap.info n) true =
              some (⟨state.memory.heap, state.memory.calls + 1⟩, (state.dbs master).actSrvcInfo) :=
          addToServiceList_refused answer
        have same :
            setDb
                { state with
                  memory := ⟨state.memory.heap, state.memory.calls + 1⟩ }
                master (state.dbs master) =
              { state with
                memory := ⟨state.memory.heap, state.memory.calls + 1⟩ } := by
          rw [setDb, Function.update_eq_self]
        rw [adds]
        dsimp only
        rw [same]
        obtain ⟨after, nodes', ends, joined⟩ :=
          ih (front ++ [n]) fuel (state.dbs master).actSrvcInfo.pFirstSrvc (some n)
            { state with
              memory := ⟨state.memory.heap, state.memory.calls + 1⟩ }
            nodes splitLater enoughLater
            ⟨joining.listed, joining.distinct, joining.slaveListed,
              joining.slaveDistinct, joining.same, joining.apart⟩
            (Cursor.of_mem here) joining.listed.first
        rw [behind] at ends
        exact ⟨after, nodes', ends, joined.refused distinct known answer⟩
      | some node =>
        have fresh := freshly _ _ node answer
        obtain ⟨heap', act, adds, listed, new⟩ :=
          addToServiceList_new few joining.listed answer fresh known
        obtain ⟨joiningLater, unchanged⟩ :=
          joining.add other known fresh listed new (state.memory.calls + 1)
        obtain ⟨after, nodes', ends, joined⟩ :=
          ih (front ++ [n]) fuel act.pFirstSrvc (some n) _
            (nodes ++ [node]) splitLater enoughLater joiningLater
            (Cursor.of_mem here) listed.first
        have addsHere :
            addToServiceList malloc state.memory
                (state.dbs master).actSrvcInfo (state.memory.heap.info n) true =
              some (⟨heap', state.memory.calls + 1⟩, act) := adds
        rw [behind] at ends
        rw [addsHere]
        exact ⟨after, nodes', ends,
          joined.added joining inside distinct known answer fresh rfl new unchanged⟩

end

/-!
# Merged services

What both merges of `_Merge_Service_List` should do, and when they do it.  A service
of the PMT that has a partner in the SDT is copied, and the node that it leaves
behind is in no list any more and never freed.
-/

section

open Lib

universe u v w

variable {κ : Type u} {ν : Type v} {δ : Type w}

structure SrvcLists (heap : RingHeap ν (TsServiceInfo δ)) (db : TsSrvcDb ν)
    (act pmt sdt : List ν) : Prop where
  actListed : SrvcListed heap db.actSrvcInfo act
  pmtListed : SrvcListed heap db.pmtSrvcInfo pmt
  sdtListed : SrvcListed heap db.sdtSrvcInfo sdt
  actDistinct : (srvcKeys heap act).Nodup
  pmtDistinct : (srvcKeys heap pmt).Nodup
  sdtDistinct : (srvcKeys heap sdt).Nodup
  actPmt : act.Disjoint pmt
  actSdt : act.Disjoint sdt
  pmtSdt : pmt.Disjoint sdt

/-- What a default merge should do.  Every node of the PMT and of the SDT is freed;
a second call for it, before `tsd_malloc` answers with it again, would have no
result. -/
structure DefaultMerged (before after : TsSrvcState κ ν δ) (master : κ)
    (act pmt sdt : List ν) : Prop where
  active :
    ∃ nodes,
      SrvcListed after.memory.heap (after.dbs master).actSrvcInfo nodes ∧
        (srvcKeys after.memory.heap nodes).Nodup ∧
        ∀ s, s ∈ services after.memory.heap nodes ↔
          DefaultService (services before.memory.heap act)
            (before.memory.heap.contents pmt) (before.memory.heap.contents sdt) s
  pmtEmpty : (after.dbs master).pmtSrvcInfo = TsSrvcPrsInfo.cleared
  sdtEmpty : (after.dbs master).sdtSrvcInfo = TsSrvcPrsInfo.cleared
  freed :
    ∃ frees, after.memory.heap.freed = before.memory.heap.freed ++ frees ∧
      ∀ n ∈ pmt ++ sdt, n ∈ frees

structure HandlesMerged (before after : TsSrvcState κ ν δ) (master slave : κ)
    (nodes others : List ν) : Prop where
  active :
    ∃ nodes',
      SrvcListed after.memory.heap (after.dbs master).actSrvcInfo nodes' ∧
        (srvcKeys after.memory.heap nodes').Nodup ∧
        ∀ s, s ∈ services after.memory.heap nodes' ↔
          s ∈ services before.memory.heap nodes ∨
            (s ∈ services before.memory.heap others ∧ s.cmpData ∉ srvcKeys before.memory.heap nodes)
  slave : SrvcUnchanged before after slave others

variable [DecidableEq ν] {malloc : TsdMallocs ν} {bound : Nat}
  {heap : RingHeap ν (TsServiceInfo δ)} {db : TsSrvcDb ν} {act pmt sdt : List ν}

structure DefaultDone (malloc : TsdMallocs ν)
    (heap : RingHeap ν (TsServiceInfo δ)) (act pmt sdt : List ν)
    (after : RingHeap ν (TsServiceInfo δ)) (db : TsSrvcDb ν) (nodes : List ν) :
    Prop where
  listed : SrvcListed after db.actSrvcInfo nodes
  distinct : (srvcKeys after nodes).Nodup
  services :
    (malloc.Grants heap.live.card ∨ (srvcKeys heap pmt).Disjoint (srvcKeys heap sdt)) →
      ∀ s, s ∈ services after nodes ↔
        DefaultService (services heap act) (heap.contents pmt) (heap.contents sdt) s
  pmtEmpty : db.pmtSrvcInfo = TsSrvcPrsInfo.cleared
  sdtEmpty : db.sdtSrvcInfo = TsSrvcPrsInfo.cleared
  freed :
    ∃ frees, after.freed = heap.freed ++ frees ∧ sdt ⊆ frees ∧
      ∀ n ∈ pmt, n ∈ frees ↔ (heap.info n).cmpData ∉ srvcKeys heap sdt

theorem delServiceList_freed {list : TsSrvcPrsInfo ν} {left : List ν}
    {cur : Option ν} {middle : RingHeap ν (TsServiceInfo δ)}
    (listed : SrvcListed heap list pmt) (inside : left ⊆ pmt)
    (held : middle.Held left) (cursor : Cursor left cur)
    (same : ∀ n ∈ left, middle.info n = heap.info n) :
    ∃ after,
      delServiceList middle { list with pCurSrvc := cur } = some (after, TsSrvcPrsInfo.cleared) ∧
        SrvcFreed middle left after := by
  have apart : (pmt.map fun n => (heap.info n).orderNum).Nodup := by
    rw [listed.numbers]
    exact List.nodup_range
  rw [delServiceList]
  rcases cursor with ⟨rfl, null⟩ | ⟨node, member, here⟩
  · refine ⟨middle, ?_, ⟨[], List.Perm.refl [], (List.append_nil _).symm⟩,
      RingHeap.Frame.refl middle [], fun _ => nofun, rfl⟩
    rw [null]
    cases list.pFirstSrvc with
    | none | some _ => rfl
  · rcases listed.first with ⟨rfl, -⟩ | ⟨start, -, begins⟩
    · cases inside member
    · obtain ⟨after, ends, freed⟩ :=
        delServices_freed list.srvcCnt 0 cur middle left held (Or.inr ⟨node, member, here⟩)
          (by
            apply List.Nodup.map_on _ held.nodup
            intro x there y here' equal
            rw [same x there, same y here'] at equal
            exact List.inj_on_of_nodup_map apart (inside there) (inside here') equal)
          (by
            intro n there
            rw [same n there]
            have number : (heap.info n).orderNum ∈ List.range pmt.length := by
              rw [← listed.numbers]
              exact List.mem_map_of_mem (inside there)
            rw [List.mem_range] at number
            rw [listed.count]
            omega)
      refine ⟨after, ?_, freed⟩
      rw [begins]
      dsimp only
      rw [here] at ends ⊢
      dsimp only
      rw [ends]
      rfl

theorem mergeDefault_done [Fintype ν] (few : Fintype.card ν < 2 ^ 32)
    (freshly : malloc.Fresh) (lists : SrvcLists heap db act pmt sdt) (calls : Nat) :
    (mergeDefault malloc ⟨heap, calls⟩ db = none ∧
        ¬ NamesFit (heap.contents pmt) (heap.contents sdt)) ∨
      ∃ after calls' db' nodes,
        mergeDefault malloc ⟨heap, calls⟩ db = some (⟨after, calls'⟩, db') ∧
          DefaultDone malloc heap act pmt sdt after db' nodes := by
  have merging :
      SrvcMerging heap.live.card heap db.actSrvcInfo db.pmtSrvcInfo.pFirstSrvc act pmt sdt :=
    ⟨lists.actListed, lists.actDistinct, lists.pmtListed.held, lists.pmtDistinct,
      lists.pmtListed.first, lists.sdtListed.held, lists.sdtDistinct, lists.actPmt, lists.actSdt,
      lists.pmtSdt, Nat.le_refl _⟩
  have numbers := lists.sdtListed.numbers
  rw [List.range_eq_range'] at numbers
  rw [mergeDefault]
  dsimp only
  rw [lists.sdtListed.count]
  rcases mergeLoop_merged few freshly sdt 0 db.sdtSrvcInfo.pFirstSrvc
      db.pmtSrvcInfo.pFirstSrvc heap calls db.actSrvcInfo act pmt merging
      lists.sdtListed.first numbers with
    ⟨refused, misfit⟩ | ⟨middle, calls', act', curPmt', nodes, left, ends, merged⟩
  · left
    rw [refused]
    exact ⟨rfl, misfit⟩
  · right
    have inside : left ⊆ pmt := fun n there => ((merged.remaining n).mp there).1
    obtain ⟨after, deletes, freed⟩ :=
      delServiceList_freed lists.pmtListed inside merged.held merged.cursor merged.info
    obtain ⟨first, firstFreed, all, others⟩ := merged.freed
    obtain ⟨second, perm, secondFreed⟩ := freed.freed
    rw [ends]
    dsimp only
    rw [deletes]
    refine ⟨after, calls', _, nodes, rfl, merged.listed.frame freed.frame merged.apart,
      ?_, ?_, rfl, rfl, first ++ second, ?_, ?_, ?_⟩
    · rw [srvcKeys_congr fun n _ => congrFun freed.info n]
      exact merged.distinct
    · intro allowed s
      rw [services_congr fun n _ => congrFun freed.info n]
      exact merged.services allowed s
    · rw [secondFreed, firstFreed, List.append_assoc]
    · exact fun n there => List.mem_append_left second (all there)
    · intro n member
      have notFirst : n ∉ first := others n (lists.pmtListed.held.live member)
        fun there => lists.pmtSdt member there
      rw [List.mem_append, or_iff_right notFirst, perm.mem_iff, merged.remaining]
      exact and_iff_right member

variable [DecidableEq κ] {before after : TsSrvcState κ ν δ} {master slave : κ}
  {nodes nodes' others : List ν}

open TsSrvcState

omit [DecidableEq ν] in
theorem syncHandle_act (handle : κ) :
    ((before.syncHandle master).dbs handle).actSrvcInfo = (before.dbs handle).actSrvcInfo := by
  by_cases same : handle = master
  · subst same
    show (Function.update before.dbs handle _ handle).actSrvcInfo = _
    rw [Function.update_self]
  · exact congrArg TsSrvcDb.actSrvcInfo (Function.update_of_ne same _ _)

theorem SrvcJoined.merged_iff
    (joined : SrvcJoined malloc before after master slave nodes others others nodes') :
    HandlesMerged before (after.syncHandle master) master slave nodes others ↔
      malloc.GrantsNext (missing before.memory.heap nodes others).length
        before.memory.calls before.memory.heap.live := by
  constructor
  · intro merged
    by_contra refused
    obtain ⟨n, inside, absent⟩ := joined.lost refused
    obtain ⟨there, listed, -, union⟩ := merged.active
    rw [syncHandle_act] at listed
    obtain rfl : there = nodes' := listed.unique joined.listed
    apply absent
    rw [mem_srvcKeys]
    by_cases known :
        (before.memory.heap.info n).cmpData ∈ srvcKeys before.memory.heap nodes
    · obtain ⟨s, member, key⟩ := mem_srvcKeys.mp known
      exact ⟨s, (union s).mpr (Or.inl member), key⟩
    · exact
        ⟨(before.memory.heap.info n).service,
          (union _).mpr (Or.inr ⟨List.mem_map_of_mem inside, known⟩), rfl⟩
  · intro granted
    refine ⟨⟨nodes', ?_, joined.distinct, joined.union granted⟩, ?_, joined.slave.next,
      joined.slave.prev, joined.slave.info, joined.slave.live⟩
    · rw [syncHandle_act]
      exact joined.listed
    · rw [syncHandle_act]
      exact joined.slave.header

variable [Fintype ν]

/-- The default merge is right exactly if no service is in both lists, and the merge
of two handles if there is memory for what the master does not have. -/
theorem mergeServiceList_iff (few : Fintype.card ν < 2 ^ 32)
    (freshly : malloc.Fresh) {lists : κ → List ν}
    (masterLists : SrvcLists before.memory.heap (before.dbs master) (lists master) pmt sdt)
    (slaveListed : SrvcListed before.memory.heap (before.dbs slave).actSrvcInfo (lists slave))
    (slaveDistinct : (srvcKeys before.memory.heap (lists slave)).Nodup)
    (apart : master ≠ slave → (lists master).Disjoint (lists slave)) :
    ((∃ after,
        before.mergeServiceList malloc master slave .mergeDefault = some after ∧
          DefaultMerged before after master (lists master) pmt sdt) ↔
      (srvcKeys before.memory.heap pmt).Disjoint (srvcKeys before.memory.heap sdt)) ∧
    ((∃ after,
        before.mergeServiceList malloc master slave .merge2Handle = some after ∧
          HandlesMerged before after master slave (lists master) (lists slave)) ↔
      malloc.GrantsNext (missing before.memory.heap (lists master) (lists slave)).length
        before.memory.calls before.memory.heap.live) := by
  constructor
  · let middle (memory : TsSrvcMemory ν δ) (db : TsSrvcDb ν) :=
      (setDb { before with memory := memory } master db).syncHandle master
    have unfolded :
        before.mergeServiceList malloc master slave .mergeDefault =
          (mergeDefault malloc ⟨before.memory.heap, before.memory.calls⟩
            (before.dbs master)).map fun result => middle result.1 result.2 := rfl
    have header (memory : TsSrvcMemory ν δ) (db : TsSrvcDb ν) :
        (middle memory db).dbs master =
          { db with
            hSrvc :=
              ⟨db.actSrvcInfo.pFirstSrvc, db.actSrvcInfo.pCurSrvc, db.actSrvcInfo.srvcCnt⟩ } := by
      simp [middle, syncHandle, setDb]
    rw [unfolded]
    rcases mergeDefault_done few freshly masterLists before.memory.calls with
      ⟨refused, misfit⟩ | ⟨heap, calls, db, nodes, ends, done⟩
    · rw [refused]
      constructor
      · rintro ⟨_, none_, _⟩
        cases none_
      · intro disjoint
        refine absurd (fun p inside q member same => ?_) misfit
        have inPmt : p.cmpData ∈ cmpDatas (before.memory.heap.contents pmt) :=
          List.mem_map_of_mem inside
        have inSdt : q.cmpData ∈ cmpDatas (before.memory.heap.contents sdt) :=
          List.mem_map_of_mem member
        rw [cmpDatas_contents] at inPmt inSdt
        rw [same] at inPmt
        exact absurd inSdt (disjoint inPmt)
    · rw [ends]
      constructor
      · rintro ⟨after, same, merged⟩ key inPmt inSdt
        obtain rfl := Option.some.inj same
        obtain ⟨n, member, rfl⟩ := List.mem_map.mp inPmt
        obtain ⟨frees, freed, all⟩ := merged.freed
        obtain ⟨others, othersFreed, -, kept⟩ := done.freed
        have equal : frees = others := List.append_cancel_left (freed.symm.trans othersFreed)
        have isFreed := all n (List.mem_append_left sdt member)
        rw [equal] at isFreed
        exact (kept n member).mp isFreed inSdt
      · intro disjoint
        obtain ⟨frees, freed, all, others⟩ := done.freed
        refine ⟨_, rfl, ⟨nodes, ?_, done.distinct, done.services (Or.inr disjoint)⟩,
          ?_, ?_, frees, freed, ?_⟩
        · rw [header]
          exact done.listed
        · rw [header]
          exact done.pmtEmpty
        · rw [header]
          exact done.sdtEmpty
        · intro n there
          rcases List.mem_append.mp there with inPmt | inSdt
          · exact (others n inPmt).mpr (disjoint (List.mem_map_of_mem inPmt))
          · exact all inSdt
  · have joining : SrvcJoining before master slave (lists master) (lists slave) :=
      ⟨masterLists.actListed, masterLists.actDistinct, slaveListed, slaveDistinct,
        fun same => by rw [same], apart⟩
    rw [mergeServiceList]
    by_cases empty : (before.dbs slave).actSrvcInfo.srvcCnt = 0
    · have none_ : lists slave = [] := by
        rw [slaveListed.count] at empty
        exact List.eq_nil_of_length_eq_zero empty
      have joined :
          SrvcJoined malloc before before master slave (lists master) (lists slave)
            (lists slave) (lists master) := by
        have ended :
            SrvcJoined malloc before before master slave (lists master) (lists slave)
              [] (lists master) := joining.ended
        rwa [none_] at ended ⊢
      rw [if_pos empty, ← joined.merged_iff]
      constructor
      · rintro ⟨after, same, merged⟩
        obtain rfl := Option.some.inj same
        exact merged
      · exact fun merged => ⟨_, rfl, merged⟩
    · have short : (lists slave).length < 2 ^ 32 :=
        Nat.lt_of_le_of_lt slaveListed.held.nodup.length_le_card few
      obtain ⟨after, nodes', ends, joined⟩ :=
        merge2HandleLoop_joined few freshly (lists slave) (lists slave) [] (2 ^ 32) _ _
          before (lists master) rfl short joining slaveListed.first
          masterLists.actListed.first
      rw [if_neg empty, ← joined.merged_iff]
      rw [List.length_nil] at ends
      rw [ends]
      constructor
      · rintro ⟨_, same, merged⟩
        obtain rfl := Option.some.inj same
        exact merged
      · exact fun merged => ⟨_, rfl, merged⟩

local instance srvcNodes_ne_zero : @NeZero Nat Zero.ofOfNat0 4 := ⟨by decide⟩

/-- The master has a service of the PMT and one of the SDT, the slave an active
one. -/
def srvcSample (frequency : Fin 4 → UInt32) : TsSrvcState Bool (Fin 4) Unit where
  memory :=
    { heap :=
        { links := ⟨some, some⟩
          info := fun n => ⟨0, 0, frequency n, 1, fun _ => 0, 0, ()⟩
          live := {0, 1, 2}
          freed := [] }
      calls := 0 }
  dbs
    | true =>
      { hSrvc := ⟨none, none, 0⟩
        actSrvcInfo := TsSrvcPrsInfo.cleared
        pmtSrvcInfo := ⟨0, 1, some 0, some 0⟩
        sdtSrvcInfo := ⟨0, 1, some 1, some 1⟩ }
    | false =>
      { hSrvc := ⟨some 2, some 2, 1⟩
        actSrvcInfo := ⟨0, 1, some 2, some 2⟩
        pmtSrvcInfo := TsSrvcPrsInfo.cleared
        sdtSrvcInfo := TsSrvcPrsInfo.cleared }

def srvcSampleActive : Bool → List (Fin 4)
  | true => []
  | false => [2]

/-- `tsd_malloc` with one more node. -/
def srvcSampleMalloc : TsdMallocs (Fin 4) := fun _ live => if 3 ∈ live then none else some 3

theorem srvcSample_fresh : srvcSampleMalloc.Fresh := by
  intro calls live node answer
  rw [srvcSampleMalloc] at answer
  split at answer
  · cases answer
  · obtain rfl := Option.some.inj answer
    assumption

theorem srvcSample_listed (frequency : Fin 4 → UInt32) {n : Fin 4}
    (live : n ∈ ({0, 1, 2} : Finset (Fin 4))) :
    SrvcListed (srvcSample frequency).memory.heap ⟨0, 1, some n, some n⟩ [n] where
  held := ⟨[n], List.Perm.refl _, List.nodup_singleton n, fun m here => by
      rw [List.mem_singleton.mp here]
      exact live,
    RingLinks.ring_cons.mpr (List.isChain_pair.mpr ⟨rfl, rfl⟩)⟩
  first := Cursor.of_mem (List.mem_singleton_self n)
  cur := Cursor.of_mem (List.mem_singleton_self n)
  count := rfl
  numbers := rfl

theorem srvcSample_lists (frequency : Fin 4 → UInt32) :
    SrvcLists (srvcSample frequency).memory.heap ((srvcSample frequency).dbs true) []
      [0] [1] where
  actListed := srvcListed_cleared _
  pmtListed := srvcSample_listed frequency (by decide)
  sdtListed := srvcSample_listed frequency (by decide)
  actDistinct := List.nodup_nil
  pmtDistinct := List.nodup_singleton _
  sdtDistinct := List.nodup_singleton _
  actPmt := List.disjoint_nil_left _
  actSdt := List.disjoint_nil_left _
  pmtSdt := List.disjoint_singleton.mpr (by decide)

/-- With nothing in common both merges are right. -/
theorem mergeServiceList_iff_apart :
    let before := srvcSample fun n => UInt32.ofNat n.val
    (∃ after,
      before.mergeServiceList srvcSampleMalloc true false .mergeDefault = some after ∧
        DefaultMerged before after true [] [0] [1]) ∧
    ∃ after,
      before.mergeServiceList srvcSampleMalloc true false .merge2Handle = some after ∧
        HandlesMerged before after true false [] [2] := by
  intro before
  have masterLists :
      SrvcLists before.memory.heap (before.dbs true) (srvcSampleActive true) [0] [1] :=
    srvcSample_lists _
  have slaveListed :
      SrvcListed before.memory.heap (before.dbs false).actSrvcInfo (srvcSampleActive false) :=
    srvcSample_listed _ (by decide)
  have both :=
    mergeServiceList_iff (by decide) srvcSample_fresh masterLists slaveListed
      (List.nodup_singleton _) fun _ => List.disjoint_nil_left _
  exact ⟨both.1.mpr (List.disjoint_singleton.mpr (by decide)), both.2.mpr ⟨3, by decide, trivial⟩⟩

/-- The same service in both lists: the node of the PMT is not freed. -/
theorem mergeServiceList_leak :
    let before := srvcSample fun _ => 1
    SrvcLists before.memory.heap (before.dbs true) [] [0] [1] ∧
      ¬ ∃ after,
        before.mergeServiceList srvcSampleMalloc true false .mergeDefault = some after ∧
          DefaultMerged before after true [] [0] [1] := by
  refine ⟨srvcSample_lists _, ?_⟩
  rintro ⟨after, ends, merged⟩
  have freed :
      ((srvcSample fun _ => 1).mergeServiceList srvcSampleMalloc true false
        .mergeDefault).map (·.memory.heap.freed) = some [1] := by
    decide
  rw [ends] at freed
  obtain ⟨frees, all, every⟩ := merged.freed
  have left := every 0 (by decide)
  have same : frees = [1] := all.symm.trans (Option.some.inj freed)
  rw [same] at left
  revert left
  decide

end

end IteSdk.TsDemuxer
