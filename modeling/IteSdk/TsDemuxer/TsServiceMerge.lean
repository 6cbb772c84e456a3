import IteSdk.TsDemuxer.TsServiceList

/-!
# The default merge

The loop of `_Merge_Service_List` over the services of the SDT, and which services
are in the active list when it ends.
-/

namespace IteSdk.TsDemuxer

open Lib

universe v w

variable {ν : Type v} {δ : Type w}

def cmpDatas (infos : List (TsServiceInfo δ)) : List (UInt32 × UInt32) :=
  infos.map TsServiceInfo.cmpData

/-- What a default merge should leave in the active list: what is in the lists of
the PMT and of the SDT, with the name from the SDT, and the former services that
are not in both. -/
def DefaultService (act pmt sdt : List (TsServiceInfo δ)) (s : TsServiceInfo δ) : Prop :=
  (∃ p ∈ pmt, ∃ q ∈ sdt, p.cmpData = q.cmpData ∧ s = (p.named q).service) ∨
    (s ∈ act ∧ ¬ (s.cmpData ∈ cmpDatas pmt ∧ s.cmpData ∈ cmpDatas sdt))

/-- The services that do not match `q`. -/
def unmatched (q : TsServiceInfo δ) (infos : List (TsServiceInfo δ)) : List (TsServiceInfo δ) :=
  infos.filter fun p => p.cmpData ≠ q.cmpData

variable {infos : List (TsServiceInfo δ)}

theorem mem_unmatched {q p : TsServiceInfo δ} :
    p ∈ unmatched q infos ↔ p ∈ infos ∧ p.cmpData ≠ q.cmpData := by
  rw [unmatched, List.mem_filter, decide_eq_true_iff]

variable {q : TsServiceInfo δ}

theorem mem_cmpDatas_unmatched {key : UInt32 × UInt32} :
    key ∈ cmpDatas (unmatched q infos) ↔ key ∈ cmpDatas infos ∧ key ≠ q.cmpData := by
  simp only [cmpDatas, List.mem_map, mem_unmatched]
  constructor
  · rintro ⟨p, ⟨member, other⟩, rfl⟩
    exact ⟨⟨p, member, rfl⟩, other⟩
  · rintro ⟨⟨p, member, rfl⟩, other⟩
    exact ⟨p, ⟨member, other⟩, rfl⟩

theorem defaultService_cons {act act' pmt sdt : List (TsServiceInfo δ)}
    (distinct : q.cmpData ∉ cmpDatas sdt)
    (here : ∀ s, s ∈ act' ↔ DefaultService act pmt [q] s) (s : TsServiceInfo δ) :
    DefaultService act' (unmatched q pmt) sdt s ↔ DefaultService act pmt (q :: sdt) s := by
  have headKeys (key : UInt32 × UInt32) :
      key ∈ cmpDatas (q :: sdt) ↔ key = q.cmpData ∨ key ∈ cmpDatas sdt :=
    List.mem_cons
  have oneKey (key : UInt32 × UInt32) : key ∈ cmpDatas [q] ↔ key = q.cmpData := List.mem_singleton
  constructor
  · rintro (⟨p, member, r, later, same, rfl⟩ | ⟨member, notLater⟩)
    · exact Or.inl ⟨p, (mem_unmatched.mp member).1, r, List.mem_cons_of_mem q later, same, rfl⟩
    · rw [mem_cmpDatas_unmatched] at notLater
      rcases (here s).mp member with ⟨p, inside, r, isHead, same, rfl⟩ | ⟨former, not⟩
      · rw [List.mem_singleton.mp isHead] at same ⊢
        exact Or.inl ⟨p, inside, q, List.mem_cons_self, same, rfl⟩
      · rw [oneKey] at not
        refine Or.inr ⟨former, ?_⟩
        rw [headKeys]
        tauto
  · rintro (⟨p, inside, r, member, same, rfl⟩ | ⟨former, not⟩)
    · have key : (p.named r).service.cmpData = p.cmpData := rfl
      rcases List.mem_cons.mp member with rfl | later
      · refine Or.inr ⟨(here _).mpr ?_, ?_⟩
        · exact Or.inl ⟨p, inside, r, List.mem_singleton_self r, same, rfl⟩
        · rw [mem_cmpDatas_unmatched, key, same]
          tauto
      · have other : p.cmpData ≠ q.cmpData := by
          intro equal
          apply distinct
          rw [← equal, same]
          exact List.mem_map_of_mem later
        exact Or.inl ⟨p, mem_unmatched.mpr ⟨inside, other⟩, r, later, same, rfl⟩
    · rw [headKeys] at not
      refine Or.inr ⟨(here s).mpr (Or.inr ⟨former, ?_⟩), ?_⟩
      · rw [oneKey]
        tauto
      · rw [mem_cmpDatas_unmatched]
        tauto

theorem defaultService_unmatched {act pmt : List (TsServiceInfo δ)}
    (alone : q.cmpData ∉ cmpDatas pmt) (s : TsServiceInfo δ) :
    s ∈ act ↔ DefaultService act pmt [q] s := by
  constructor
  · intro member
    refine Or.inr ⟨member, fun both => alone ?_⟩
    rw [← List.mem_singleton.mp both.2]
    exact both.1
  · rintro (⟨p, inside, r, isHead, same, rfl⟩ | ⟨member, -⟩)
    · rw [List.mem_singleton.mp isHead] at same
      rw [← same] at alone
      exact absurd (List.mem_map_of_mem inside) alone
    · exact member

def NamesFit (pmt sdt : List (TsServiceInfo δ)) : Prop :=
  ∀ p ∈ pmt, ∀ q ∈ sdt, p.cmpData = q.cmpData → q.nameSize.toNat ≤ tsdMaxSrvcNameSize

variable [DecidableEq ν] [Fintype ν] {malloc : TsdMallocs ν} {calls bound : Nat}
  {heap : RingHeap ν (TsServiceInfo δ)} {act : TsSrvcPrsInfo ν}
  {actNodes pmt sdt : List ν} {curPmt : Option ν} {q : ν}

/-- There is memory for one more node than `bound`. -/
def TsdMallocs.Grants (malloc : TsdMallocs ν) (bound : Nat) : Prop :=
  ∀ calls live, live.card ≤ bound → malloc calls live ≠ none

/-- What a turn of the default merge does for a service `q` of the SDT. -/
structure SrvcMatched (malloc : TsdMallocs ν) (bound : Nat)
    (heap : RingHeap ν (TsServiceInfo δ)) (actNodes pmt : List ν)
    (q : TsServiceInfo δ) (after : RingHeap ν (TsServiceInfo δ))
    (act' : TsSrvcPrsInfo ν) (actNodes' left : List ν) (curPmt' : Option ν)
    (new : List ν) : Prop where
  listed : SrvcListed after act' actNodes'
  distinct : (srvcKeys after actNodes').Nodup
  held : after.Held left
  cursor : Cursor left curPmt'
  remaining : left = pmt.filter fun n => (heap.info n).cmpData ≠ q.cmpData
  info : ∀ n ∈ left, after.info n = heap.info n
  fresh : ∀ n ∈ new, n ∉ heap.live
  frame : heap.Frame after (pmt ++ (actNodes ++ new))
  within : actNodes' ⊆ actNodes ++ new
  freed : ∃ frees, frees ⊆ new ∧ after.freed = heap.freed ++ frees
  live : heap.live ⊆ after.live
  card : after.live.card ≤ heap.live.card + 1
  services :
    malloc.Grants bound ∨ q.cmpData ∉ srvcKeys heap pmt →
      ∀ s, s ∈ services after actNodes' ↔
        DefaultService (services heap actNodes) (heap.contents pmt) [q] s

omit [DecidableEq ν] [Fintype ν] in
theorem cmpDatas_contents (heap : RingHeap ν (TsServiceInfo δ))
    (nodes : List ν) : cmpDatas (heap.contents nodes) = srvcKeys heap nodes := by
  rw [cmpDatas, RingHeap.contents, List.map_map]
  rfl

omit [Fintype ν] in
theorem erase_match {p : ν} (nodup : pmt.Nodup)
    (same : (heap.info p).cmpData = (heap.info q).cmpData)
    (unique : ∀ n ∈ pmt, (heap.info n).cmpData = (heap.info q).cmpData → n = p) :
    pmt.erase p = pmt.filter fun n => (heap.info n).cmpData ≠ (heap.info q).cmpData := by
  rw [nodup.erase_eq_filter]
  apply List.filter_congr
  intro n inside
  rw [Bool.eq_iff_iff, bne_iff_ne, decide_eq_true_iff]
  apply not_congr
  constructor
  · rintro rfl
    exact same
  · exact unique n inside

theorem mergeMatch_matched (few : Fintype.card ν < 2 ^ 32)
    (freshly : malloc.Fresh) (listed : SrvcListed heap act actNodes)
    (distinct : (srvcKeys heap actNodes).Nodup) (held : heap.Held pmt)
    (apart : (srvcKeys heap pmt).Nodup) (cursor : Cursor pmt curPmt)
    (disjoint : actNodes.Disjoint pmt) (room : heap.live.card ≤ bound) :
    (mergeMatch malloc q curPmt ⟨heap, calls⟩ act = none ∧
        ¬ NamesFit (heap.contents pmt) [heap.info q]) ∨
      ∃ after calls' act' actNodes' left curPmt' new,
        mergeMatch malloc q curPmt ⟨heap, calls⟩ act = some (⟨after, calls'⟩, act', curPmt') ∧
          SrvcMatched malloc bound heap actNodes pmt (heap.info q) after act'
            actNodes' left curPmt' new := by
  by_cases known : (heap.info q).cmpData ∈ srvcKeys heap pmt
  · obtain ⟨p, member, same⟩ := List.mem_map.mp known
    have unique : ∀ n ∈ pmt, (heap.info n).cmpData = (heap.info q).cmpData → n = p := by
      intro n inside equal
      exact List.inj_on_of_nodup_map apart inside member (equal.trans same.symm)
    have finds : heap.find (·.hasCmpData (heap.info q).cmpData) curPmt = some (some p) := by
      apply held.find_unique cursor member (decide_eq_true same)
      exact fun n inside wanted => unique n inside (of_decide_eq_true wanted)
    obtain ⟨links, before, unlinks, rest, cursorRest, frame⟩ := held.unlink member
    rw [mergeMatch]
    dsimp only
    rw [finds]
    dsimp only
    rw [unlinks]
    dsimp only
    by_cases fits : (heap.info q).nameSize.toNat ≤ tsdMaxSrvcNameSize
    · right
      let valid := (heap.info p).named (heap.info q)
      let base := RingHeap.store { heap with links := links } p valid
      have toBase : heap.Frame base pmt := by
        apply frame.trans
        apply (RingHeap.store_frame p valid).mono
        intro n here
        rw [List.mem_singleton.mp here]
        exact member
      have actKept : ∀ n ∈ actNodes, base.info n = heap.info n := fun n inside =>
        toBase.info n (disjoint inside)
      have actKeys := srvcKeys_congr actKept
      have actServices := services_congr actKept
      obtain ⟨after, act', actNodes', new, adds, added⟩ :=
        addToServiceList_added few freshly (listed.frame toBase disjoint)
          (actKeys ▸ distinct) calls valid
      have restInside : pmt.erase p ⊆ pmt := List.erase_subset
      have restApart : (pmt.erase p).Disjoint (actNodes ++ new) := by
        intro n inside changed
        rcases List.mem_append.mp changed with active | isNew
        · exact disjoint active (restInside inside)
        · exact added.fresh n isNew (held.live (restInside inside))
      have restBase : base.Held (pmt.erase p) := rest.store p valid
      have services (s : TsServiceInfo δ) :
          (s = valid.service ∨ (s ∈ services base actNodes ∧ s.cmpData ≠ valid.cmpData)) ↔
            DefaultService (services heap actNodes) (heap.contents pmt) [heap.info q] s := by
        rw [actServices]
        constructor
        · rintro (rfl | ⟨former, other⟩)
          · exact Or.inl ⟨_, List.mem_map_of_mem member, _, List.mem_singleton_self _, same, rfl⟩
          · refine Or.inr ⟨former, fun both => other ?_⟩
            rw [List.mem_singleton.mp both.2]
            exact same.symm
        · rintro (⟨p', inside, q', isHead, equal, rfl⟩ | ⟨former, not⟩)
          · obtain ⟨n, there, rfl⟩ := List.mem_map.mp inside
            rw [List.mem_singleton.mp isHead] at equal ⊢
            rw [unique n there equal]
            exact Or.inl rfl
          · refine Or.inr ⟨former, fun equal => not ⟨?_, ?_⟩⟩
            · rw [equal]
              exact List.mem_map.mpr ⟨_, List.mem_map_of_mem member, rfl⟩
            · rw [equal]
              exact List.mem_singleton.mpr same
      refine ⟨after, calls + 1, act', actNodes', pmt.erase p, before, new, ?_,
        added.listed, added.distinct, restBase.frame added.frame restApart,
        cursorRest, erase_match held.nodup same unique, ?_, added.fresh, ?_, added.within, added.freed,
        added.live, added.card, ?_⟩
      · rw [if_pos fits]
        have addsHere :
            addToServiceList malloc
                ⟨RingHeap.store { heap with links := links } p valid, calls⟩ act valid
                true = some (⟨after, calls + 1⟩, act') := adds
        rw [addsHere]
        rfl
      · intro n inside
        have other : n ≠ p := by
          rintro rfl
          exact held.nodup.not_mem_erase inside
        exact (added.frame.info n (restApart inside)).trans
          ((RingHeap.store_frame p valid).info n fun here => other (List.mem_singleton.mp here))
      · apply (toBase.mono (List.subset_append_left pmt _)).trans
        exact added.frame.mono (List.subset_append_right pmt _)
      · intro allowed s
        have granted : malloc calls base.live ≠ none := by
          rcases allowed with grants | alone
          · exact grants calls heap.live room
          · exact absurd known alone
        rw [added.services granted s]
        exact services s
    · left
      rw [if_neg fits]
      refine ⟨rfl, fun names => fits ?_⟩
      exact names _ (List.mem_map_of_mem member) _ (List.mem_singleton_self _) same
  · right
    have finds : heap.find (·.hasCmpData (heap.info q).cmpData) curPmt = some none := by
      apply held.find_none cursor
      intro n inside
      exact decide_eq_false fun same => known (List.mem_map.mpr ⟨n, inside, same⟩)
    refine ⟨heap, calls, act, actNodes, pmt, curPmt, [], ?_, listed, distinct, held,
      cursor, ?_, fun _ _ => rfl, fun _ => nofun,
      RingHeap.Frame.refl heap _, List.subset_append_left actNodes [],
      ⟨[], fun _ => id, (List.append_nil _).symm⟩, fun _ => id, Nat.le_succ _, ?_⟩
    · rw [mergeMatch]
      dsimp only
      rw [finds]
    · symm
      rw [List.filter_eq_self]
      intro n inside
      exact decide_eq_true fun same => known (List.mem_map.mpr ⟨n, inside, same⟩)
    · intro _ s
      apply defaultService_unmatched
      rw [cmpDatas_contents]
      exact known

section Matched

variable {info : TsServiceInfo δ} {after : RingHeap ν (TsServiceInfo δ)}
  {act' : TsSrvcPrsInfo ν} {actNodes' left new : List ν} {curPmt' : Option ν}
  (matched : SrvcMatched malloc bound heap actNodes pmt info after act' actNodes' left curPmt' new)
include matched

omit [Fintype ν] [DecidableEq ν] in
theorem SrvcMatched.mem_left {n : ν} :
    n ∈ left ↔ n ∈ pmt ∧ (heap.info n).cmpData ≠ info.cmpData := by
  rw [matched.remaining, List.mem_filter, decide_eq_true_iff]

omit [Fintype ν] [DecidableEq ν] in
theorem SrvcMatched.contents : heap.contents left = unmatched info (heap.contents pmt) := by
  rw [matched.remaining, RingHeap.contents, unmatched, RingHeap.contents, List.filter_map]
  rfl

end Matched

structure SrvcMerging (bound : Nat) (heap : RingHeap ν (TsServiceInfo δ))
    (act : TsSrvcPrsInfo ν) (curPmt : Option ν) (actNodes pmt sdt : List ν) :
    Prop where
  listed : SrvcListed heap act actNodes
  distinct : (srvcKeys heap actNodes).Nodup
  pmtHeld : heap.Held pmt
  pmtDistinct : (srvcKeys heap pmt).Nodup
  pmtCursor : Cursor pmt curPmt
  sdtHeld : heap.Held sdt
  sdtDistinct : (srvcKeys heap sdt).Nodup
  actPmt : actNodes.Disjoint pmt
  actSdt : actNodes.Disjoint sdt
  pmtSdt : pmt.Disjoint sdt
  room : heap.live.card ≤ bound

/-- What the loop does with the services `sdt`. -/
structure SrvcMerged (malloc : TsdMallocs ν) (bound : Nat)
    (heap : RingHeap ν (TsServiceInfo δ)) (actNodes pmt sdt : List ν)
    (after : RingHeap ν (TsServiceInfo δ)) (act' : TsSrvcPrsInfo ν)
    (curPmt' : Option ν) (actNodes' left : List ν) : Prop where
  listed : SrvcListed after act' actNodes'
  distinct : (srvcKeys after actNodes').Nodup
  held : after.Held left
  cursor : Cursor left curPmt'
  apart : actNodes'.Disjoint left
  remaining : ∀ n, n ∈ left ↔ n ∈ pmt ∧ (heap.info n).cmpData ∉ srvcKeys heap sdt
  info : ∀ n ∈ left, after.info n = heap.info n
  freed :
    ∃ frees, after.freed = heap.freed ++ frees ∧ sdt ⊆ frees ∧ ∀ n ∈ heap.live, n ∉ sdt → n ∉ frees
  services :
    (malloc.Grants bound ∨ (srvcKeys heap pmt).Disjoint (srvcKeys heap sdt)) →
      ∀ s, s ∈ services after actNodes' ↔
        DefaultService (services heap actNodes) (heap.contents pmt) (heap.contents sdt) s

theorem SrvcMerging.turn (few : Fintype.card ν < 2 ^ 32) (freshly : malloc.Fresh)
    {rest : List ν} {i : Nat} {curSdt : Option ν} (calls : Nat)
    (merging : SrvcMerging bound heap act curPmt actNodes pmt (q :: rest))
    (cursor : Cursor (q :: rest) curSdt)
    (numbers :
      (q :: rest).map (fun n => (heap.info n).orderNum) = List.range' i (q :: rest).length) :
    (mergeLoop malloc (rest.length + 1) i curSdt curPmt ⟨heap, calls⟩ act = none ∧
        ¬ NamesFit (heap.contents pmt) [heap.info q]) ∨
      ∃ middle after calls' act' actNodes' left curPmt' new before,
        mergeLoop malloc (rest.length + 1) i curSdt curPmt ⟨heap, calls⟩ act =
            mergeLoop malloc rest.length (i + 1) before curPmt' ⟨after, calls'⟩ act' ∧
          SrvcMatched malloc bound heap actNodes pmt (heap.info q) middle act'
            actNodes' left curPmt' new ∧
          SrvcMerging bound after act' curPmt' actNodes' left rest ∧
          Cursor rest before ∧
          (∀ n ∈ rest, after.info n = heap.info n) ∧
          after.info = middle.info ∧
          after.freed = middle.freed ++ [q] ∧
          after.live = middle.live.erase q := by
  have apart : ((q :: rest).map fun n => (heap.info n).orderNum).Nodup := by
    rw [numbers]
    exact List.nodup_range'
  have number : (heap.info q).orderNum = i := by
    rw [List.map_cons, List.length_cons, List.range'_succ] at numbers
    exact (List.cons.inj numbers).1
  have finds : heap.find (·.hasOrderNum i) curSdt = some (some q) := by
    apply merging.sdtHeld.find_unique cursor List.mem_cons_self (decide_eq_true number)
    intro n inside wanted
    exact
      List.inj_on_of_nodup_map apart inside List.mem_cons_self
        ((of_decide_eq_true wanted).trans number.symm)
  rw [mergeLoop]
  dsimp only
  rw [finds]
  dsimp only
  rcases mergeMatch_matched few freshly merging.listed merging.distinct
      merging.pmtHeld merging.pmtDistinct merging.pmtCursor merging.actPmt
      merging.room with
    ⟨refused, misfit⟩ | ⟨middle, calls', act', actNodes', left, curPmt', new, matches_, matched⟩
  · left
    rw [refused]
    exact ⟨rfl, misfit⟩
  · right
    have newApart {n : ν} (isNew : n ∈ new) : n ∉ heap.live := matched.fresh n isNew
    have sdtApart : (q :: rest).Disjoint (pmt ++ (actNodes ++ new)) := by
      intro n inside changed
      rcases List.mem_append.mp changed with there | there
      · exact merging.pmtSdt there inside
      · rcases List.mem_append.mp there with active | isNew
        · exact merging.actSdt active inside
        · exact newApart isNew (merging.sdtHeld.live inside)
    have actApart : actNodes'.Disjoint (q :: rest) := fun n active inside =>
      sdtApart inside (List.mem_append_right pmt (matched.within active))
    have leftApart : left.Disjoint (q :: rest) := fun n there inside =>
      merging.pmtSdt (matched.mem_left.mp there).1 inside
    have sdtHeld := merging.sdtHeld.frame matched.frame sdtApart
    obtain ⟨links, before, after, unlinks, frees, restHeld, cursorRest, frame, info,
      freed, live⟩ := sdtHeld.unlink_free List.mem_cons_self
    rw [List.erase_cons_head] at restHeld cursorRest
    have restSame : ∀ n ∈ rest, after.info n = heap.info n := by
      intro n inside
      rw [info]
      exact matched.frame.info n (sdtApart (List.mem_cons_of_mem q inside))
    have leftSame : ∀ n ∈ left, after.info n = heap.info n := by
      intro n inside
      rw [info]
      exact matched.info n inside
    have qLive : q ∈ middle.live := sdtHeld.live List.mem_cons_self
    refine ⟨middle, after, calls', act', actNodes', left, curPmt', new, before, ?_,
      matched, ⟨matched.listed.frame frame actApart, ?_,
        matched.held.frame frame leftApart, ?_, matched.cursor, restHeld, ?_, ?_, ?_,
        ?_, ?_⟩, cursorRest, restSame, info, freed, live⟩
    · rw [matches_]
      dsimp only
      rw [unlinks]
      dsimp only
      rw [frees]
    · rw [srvcKeys_congr fun n _ => congrFun info n]
      exact matched.distinct
    · rw [srvcKeys_congr leftSame, ← cmpDatas_contents, matched.contents]
      have all := merging.pmtDistinct
      rw [← cmpDatas_contents] at all
      exact all.sublist (List.filter_sublist.map _)
    · rw [srvcKeys_congr restSame]
      exact (List.nodup_cons.mp merging.sdtDistinct).2
    · intro n active inside
      have member := (matched.mem_left.mp inside).1
      rcases List.mem_append.mp (matched.within active) with former | isNew
      · exact merging.actPmt former member
      · exact newApart isNew (merging.pmtHeld.live member)
    · exact fun n active inside => actApart active (List.mem_cons_of_mem q inside)
    · exact fun n there inside => leftApart there (List.mem_cons_of_mem q inside)
    · have counted := Finset.card_erase_of_mem qLive
      have grown := matched.card
      have room := merging.room
      rw [live]
      omega

theorem mergeLoop_merged (few : Fintype.card ν < 2 ^ 32) (freshly : malloc.Fresh) :
    ∀ (sdt : List ν) (i : Nat) (curSdt curPmt : Option ν)
      (heap : RingHeap ν (TsServiceInfo δ)) (calls : Nat) (act : TsSrvcPrsInfo ν)
      (actNodes pmt : List ν),
      SrvcMerging bound heap act curPmt actNodes pmt sdt → Cursor sdt curSdt →
      sdt.map (fun n => (heap.info n).orderNum) = List.range' i sdt.length →
      (mergeLoop malloc sdt.length i curSdt curPmt ⟨heap, calls⟩ act = none ∧
          ¬ NamesFit (heap.contents pmt) (heap.contents sdt)) ∨
        ∃ after calls' act' curPmt' actNodes' left,
          mergeLoop malloc sdt.length i curSdt curPmt ⟨heap, calls⟩ act =
              some (⟨after, calls'⟩, act', curPmt') ∧
            SrvcMerged malloc bound heap actNodes pmt sdt after act' curPmt' actNodes' left := by
  intro sdt
  induction sdt with
  | nil =>
    intro i curSdt curPmt heap calls act actNodes pmt merging _ _
    refine Or.inr ⟨heap, calls, act, curPmt, actNodes, pmt, rfl, merging.listed,
      merging.distinct, merging.pmtHeld, merging.pmtCursor, merging.actPmt, ?_,
      fun _ _ => rfl, ⟨[], (List.append_nil _).symm, fun _ => id, ?_⟩, ?_⟩
    · intro n
      exact (and_iff_left List.not_mem_nil).symm
    · exact fun _ _ _ => List.not_mem_nil
    · intro _ s
      constructor
      · exact fun member => Or.inr ⟨member, fun both => List.not_mem_nil both.2⟩
      · rintro (⟨_, _, _, none_, _⟩ | ⟨member, -⟩)
        · cases none_
        · exact member
  | cons q rest ih =>
    intro i curSdt curPmt heap calls act actNodes pmt merging cursor numbers
    rcases SrvcMerging.turn few freshly calls merging cursor numbers with
      ⟨refused, misfit⟩ |
        ⟨middle, after, calls', act', actNodes', left, curPmt', new, before, turns,
          matched, next, cursorRest, restSame, info, freed, live⟩
    · left
      refine ⟨refused, fun names => misfit ?_⟩
      intro p inside r isHead
      rw [List.mem_singleton.mp isHead]
      exact names p inside _ List.mem_cons_self
    · have restNumbers :
          rest.map (fun n => (after.info n).orderNum) = List.range' (i + 1) rest.length := by
        rw [List.map_cons, List.length_cons, List.range'_succ] at numbers
        rw [← (List.cons.inj numbers).2]
        apply List.map_congr_left
        intro n inside
        rw [restSame n inside]
      have leftSame : ∀ n ∈ left, after.info n = heap.info n := by
        intro n inside
        rw [info]
        exact matched.info n inside
      have leftContents :
          after.contents left = unmatched (heap.info q) (heap.contents pmt) := by
        rw [← matched.contents]
        exact List.map_congr_left leftSame
      have restContents : after.contents rest = heap.contents rest := List.map_congr_left restSame
      rw [List.length_cons, turns]
      rcases ih (i + 1) before curPmt' after calls' act' actNodes'
          left next cursorRest restNumbers with
        ⟨refused, misfit⟩ | ⟨last, calls'', act'', curPmt'', actNodes'', left'', ends, merged⟩
      · left
        refine ⟨refused, fun names => misfit ?_⟩
        intro p inside r later
        rw [leftContents] at inside
        rw [restContents] at later
        exact names p (mem_unmatched.mp inside).1 r (List.mem_cons_of_mem _ later)
      · right
        refine ⟨last, calls'', act'', curPmt'', actNodes'', left'', ends,
          merged.listed, merged.distinct, merged.held, merged.cursor, merged.apart,
          ?_, ?_, ?_, ?_⟩
        · intro n
          rw [merged.remaining, matched.mem_left, srvcKeys_congr restSame, and_assoc]
          apply and_congr_right
          intro inside
          rw [srvcKeys_cons, List.mem_cons, not_or]
          apply and_congr_right
          intro other
          rw [leftSame n (matched.mem_left.mpr ⟨inside, other⟩)]
        · intro n inside
          rw [merged.info n inside]
          exact leftSame n ((merged.remaining n).mp inside).1
        · obtain ⟨first, isNew, firstFreed⟩ := matched.freed
          obtain ⟨others, othersFreed, all, none_⟩ := merged.freed
          refine ⟨first ++ [q] ++ others, ?_, ?_, ?_⟩
          · rw [othersFreed, freed, firstFreed, List.append_assoc, List.append_assoc,
              List.append_assoc]
          · intro n inside
            rcases List.mem_cons.mp inside with rfl | later
            · simp
            · exact List.mem_append_right _ (all later)
          · intro n inUse outside
            obtain ⟨notHead, notLater⟩ := List.ne_and_not_mem_of_not_mem_cons outside
            have still : n ∈ after.live := by
              rw [live]
              exact Finset.mem_erase.mpr ⟨notHead, matched.live inUse⟩
            have notFirst : n ∉ first := fun there => matched.fresh n (isNew there) inUse
            have notOthers := none_ n still notLater
            simp only [List.mem_append, List.mem_singleton]
            tauto
        · intro allowed s
          have allowedHere :
              malloc.Grants bound ∨ (heap.info q).cmpData ∉ srvcKeys heap pmt :=
            allowed.imp_right fun apart inside => apart inside List.mem_cons_self
          have allowedLater :
              malloc.Grants bound ∨ (srvcKeys after left).Disjoint (srvcKeys after rest) := by
            apply allowed.imp_right
            intro apart key inLeft inRest
            rw [← cmpDatas_contents, leftContents,
              mem_cmpDatas_unmatched, cmpDatas_contents] at inLeft
            rw [srvcKeys_congr restSame] at inRest
            exact apart inLeft.1 (List.mem_cons_of_mem _ inRest)
          have distinct :
              (heap.info q).cmpData ∉ cmpDatas (heap.contents rest) := by
            rw [cmpDatas_contents]
            exact (List.nodup_cons.mp merging.sdtDistinct).1
          rw [merged.services allowedLater s, leftContents, restContents,
            services_congr fun n _ => congrFun info n]
          exact defaultService_cons distinct (matched.services allowedHere) s

end IteSdk.TsDemuxer
