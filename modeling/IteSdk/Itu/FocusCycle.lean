import IteSdk.Itu.SceneFocus
import IteSdk.Lib.CyclicOrder
import Mathlib.Data.Finset.Max

/-!
# Cycling the focus through siblings

From a tab stop the focus passes on to the sibling with the next larger or smaller tab
index.  Both directions only leave out the siblings that are not visible, so a visible
sibling that is no tab stop takes the focus unless a tab stop before it has its index.
-/

namespace IteSdk.Itu

open Lib

def isStop (siblings : List ItuWidget) (index : Nat) : Bool :=
  siblings[index]?.any ItuWidget.visibleStop

def isExtra (siblings : List ItuWidget) (index : Nat) : Bool :=
  siblings[index]?.any fun widget => widget.visible && !widget.tapStop

def stopsOf (siblings : List ItuWidget) : List Nat :=
  (List.range siblings.length).filter fun index => isStop siblings index

/-- Every visible sibling that is no tab stop has the tab index of a tab stop before it,
and is not beside a single one. -/
def Hidden (siblings : List ItuWidget) : Prop :=
  ∀ index < siblings.length, isExtra siblings index = true →
    2 ≤ (stopsOf siblings).length ∧
      ∃ stop ∈ stopsOf siblings, stop < index ∧ tabIndexOf siblings stop = tabIndexOf siblings index

section Siblings

variable {siblings : List ItuWidget}

variable {index : Nat}

theorem mem_stopsOf : index ∈ stopsOf siblings ↔ isStop siblings index = true := by
  rw [stopsOf, List.mem_filter, List.mem_range]
  refine and_iff_right_of_imp fun stops => ?_
  by_contra outside
  rw [isStop, List.getElem?_eq_none (Nat.le_of_not_lt outside)] at stops
  cases stops

theorem nodup_stopsOf : (stopsOf siblings).Nodup := List.nodup_range.filter _

theorem lt_length_of_mem_stopsOf (member : index ∈ stopsOf siblings) : index < siblings.length :=
  List.mem_range.mp (List.mem_filter.mp member).1

theorem visible_iff :
    siblings[index]?.any ItuWidget.visible = true ↔
      index ∈ stopsOf siblings ∨ isExtra siblings index = true := by
  rw [mem_stopsOf, isStop, isExtra]
  cases siblings[index]? with
  | none => simp
  | some widget =>
    cases visible : widget.visible <;> cases stop : widget.tapStop <;>
      simp [ItuWidget.visibleStop, visible, stop]

theorem not_extra_of_mem_stopsOf (member : index ∈ stopsOf siblings) :
    isExtra siblings index = false := by
  rw [mem_stopsOf, isStop] at member
  rw [isExtra]
  cases found : siblings[index]? with
  | none => rfl
  | some widget =>
    rw [found] at member
    have both : widget.visible = true ∧ widget.tapStop = true := by
      simpa [ItuWidget.visibleStop] using member
    simp [both.2]

section Order

universe v

variable {β : Type v} [LinearOrder β] {key : Int → β} {order : Int → Int → Bool}

omit [LinearOrder β] in
/-- The tab index of a sibling in the order of a direction. -/
def tabKey (key : Int → β) (siblings : List ItuWidget) (index : Nat) : β :=
  key (tabIndexOf siblings index)

theorem first_of_hidden
    {next other : Nat} (apart : KeyInjective (stopsOf siblings) (tabKey key siblings))
    (hidden : Hidden siblings) (isStop : next ∈ stopsOf siblings) (inside : other < siblings.length)
    (visible : siblings[other]?.any ItuWidget.visible = true)
    (least :
      ∀ stop ∈ stopsOf siblings,
        tabKey key siblings stop = tabKey key siblings other →
          tabKey key siblings next ≤ tabKey key siblings stop) :
    tabKey key siblings next < tabKey key siblings other ∨
      tabKey key siblings next = tabKey key siblings other ∧ next ≤ other := by
  rcases visible_iff.mp visible with stops | extra
  · rcases lt_or_eq_of_le (least other stops rfl) with less | same
    · exact Or.inl less
    · exact Or.inr ⟨same, Nat.le_of_eq (apart next isStop other stops same)⟩
  · obtain ⟨-, stop, stops, before, sameTab⟩ := hidden other inside extra
    have sameKey : tabKey key siblings stop = tabKey key siblings other := congrArg key sameTab
    rcases lt_or_eq_of_le (least stop stops sameKey) with less | same
    · exact Or.inl (sameKey ▸ less)
    · have isThat : next = stop := apart next isStop stop stops same
      exact Or.inr ⟨same.trans sameKey, isThat ▸ Nat.le_of_lt before⟩

variable (byKey : ∀ first second, order first second = decide (key first < key second))

include byKey

theorem isBeyond_iff {self curr : Nat} :
    isBeyond order siblings self curr = true ↔
      siblings[curr]?.any ItuWidget.visible = true ∧ curr ≠ self ∧
        tabKey key siblings self < tabKey key siblings curr := by
  rw [isBeyond, isCandidate, byKey, Bool.and_eq_true, Bool.and_eq_true, bne_iff_ne,
    decide_eq_true_eq, and_assoc]
  rfl

theorem better_eq (curr best : Nat) :
    order (tabIndexOf siblings curr) (tabIndexOf siblings best) =
      decide (tabKey key siblings curr < tabKey key siblings best) :=
  byKey _ _

theorem focusAlong_of_hidden (apart : KeyInjective (stopsOf siblings) (tabKey key siblings))
    (hidden : Hidden siblings) {self next : Nat} (member : self ∈ stopsOf siblings)
    (isNext : IsNext (stopsOf siblings) (tabKey key siblings) self next) :
    focusAlong order siblings self = next := by
  have nextInside := lt_length_of_mem_stopsOf isNext.member
  have nextVisible := visible_iff.mpr (Or.inl isNext.member)
  by_cases larger : ∃ k ∈ stopsOf siblings, tabKey key siblings self < tabKey key siblings k
  · obtain ⟨less, least⟩ := isNext.larger larger
    have notSelf : next ≠ self := by
      rintro rfl
      exact lt_irrefl _ less
    have best :
        IsFirstBest (isBeyond order siblings self) (tabKey key siblings) siblings.length next := by
      refine ⟨nextInside, (isBeyond_iff byKey).mpr ⟨nextVisible, notSelf, less⟩, ?_⟩
      intro other inside accepted
      obtain ⟨visible, -, beyond⟩ := (isBeyond_iff byKey).mp accepted
      refine first_of_hidden apart hidden isNext.member inside visible ?_
      intro stop stops sameTab
      exact least stop stops (sameTab ▸ beyond)
    rw [focusAlong, (firstBest_eq_some_iff (better_eq byKey)).mpr best]
  · have last :
        ∀ k ∈ stopsOf siblings, tabKey key siblings k ≤ tabKey key siblings self :=
      fun k stops => not_lt.mp fun less => larger ⟨k, stops, less⟩
    have none_ :
        firstBest (isBeyond order siblings self)
          (fun curr best => order (tabIndexOf siblings curr) (tabIndexOf siblings best))
          siblings.length = none := by
      rw [firstBest_eq_none_iff]
      intro curr inside
      apply Bool.eq_false_iff.mpr
      intro accepted
      obtain ⟨visible, -, beyond⟩ := (isBeyond_iff byKey).mp accepted
      rcases visible_iff.mp visible with stops | extra
      · exact absurd beyond (not_lt.mpr (last curr stops))
      · obtain ⟨-, stop, stops, -, sameTab⟩ := hidden curr inside extra
        have sameKey : tabKey key siblings stop = tabKey key siblings curr := congrArg key sameTab
        exact absurd (sameKey ▸ beyond) (not_lt.mpr (last stop stops))
    rw [focusAlong, none_]
    dsimp only
    by_cases alone : next = self
    · -- The tab stop is the only one, so nothing else is visible.
      subst alone
      have only : ∀ k ∈ stopsOf siblings, k = next := fun k stops =>
        apart k stops next member (le_antisymm (last k stops) (isNext.around last k stops))
      have nothing :
          firstBest (isCandidate siblings next)
            (fun curr best => order (tabIndexOf siblings curr) (tabIndexOf siblings best))
            siblings.length = none := by
        rw [firstBest_eq_none_iff]
        intro curr inside
        apply Bool.eq_false_iff.mpr
        intro accepted
        rw [isCandidate, Bool.and_eq_true, bne_iff_ne] at accepted
        rcases visible_iff.mp accepted.1 with stops | extra
        · exact accepted.2 (only curr stops)
        · obtain ⟨two, -⟩ := hidden curr inside extra
          have short := nodup_stopsOf.length_le_of_subset
            (fun k stops => List.mem_singleton.mpr (only k stops))
          rw [List.length_singleton] at short
          omega
      rw [nothing]
      rfl
    · have best :
          IsFirstBest (isCandidate siblings self) (tabKey key siblings) siblings.length next := by
        refine ⟨nextInside, ?_, ?_⟩
        · rw [isCandidate, Bool.and_eq_true, bne_iff_ne]
          exact ⟨nextVisible, alone⟩
        · intro other inside accepted
          rw [isCandidate, Bool.and_eq_true] at accepted
          refine first_of_hidden apart hidden isNext.member inside accepted.1 ?_
          intro stop stops _
          exact isNext.around last stop stops
      rw [(firstBest_eq_some_iff (better_eq byKey)).mpr best]
      rfl

end Order

theorem two_le_length {first second : Nat} (isFirst : first ∈ stopsOf siblings)
    (isSecond : second ∈ stopsOf siblings) (distinct : first ≠ second) :
    2 ≤ (stopsOf siblings).length := by
  have nodup : [first, second].Nodup := by simpa using distinct
  refine nodup.length_le_of_subset fun index listed => ?_
  rcases List.mem_cons.mp listed with rfl | last
  · exact isFirst
  · rwa [List.mem_singleton.mp last]

theorem exists_greatest {holds : Nat → Prop} [DecidablePred holds]
    (some_ : ∃ index ∈ stopsOf siblings, holds index) :
    ∃ index ∈ stopsOf siblings, holds index ∧
      ∀ other ∈ stopsOf siblings, holds other →
        tabIndexOf siblings other ≤ tabIndexOf siblings index := by
  obtain ⟨index, member, holdsIndex⟩ := some_
  obtain ⟨greatest, listed, most⟩ :=
    ((stopsOf siblings).filter fun index => holds index).toFinset.exists_max_image
      (tabIndexOf siblings) ⟨index, by simp [member, holdsIndex]⟩
  simp only [List.mem_toFinset, List.mem_filter, decide_eq_true_eq, and_imp] at listed most
  exact ⟨greatest, listed.1, listed.2, most⟩

theorem hidden_of_focusAlong (some_ : stopsOf siblings ≠ [])
    (passes :
      ∀ i ∈ stopsOf siblings,
        IsNext (stopsOf siblings) (tabIndexOf siblings) i
          (focusAlong (fun tabIndex other => tabIndex < other) siblings i)) :
    Hidden siblings := by
  intro extra extraInside isExtraOne
  have visible := visible_iff.mpr (Or.inr isExtraOne)
  have notStop : extra ∉ stopsOf siblings := by
    intro member
    rw [not_extra_of_mem_stopsOf member] at isExtraOne
    cases isExtraOne
  have byKey (first second : Int) :
      decide (first < second) = decide (id first < id second) :=
    rfl
  obtain ⟨someStop, someMember⟩ := List.exists_mem_of_ne_nil _ some_
  by_cases below : ∃ stop ∈ stopsOf siblings, tabIndexOf siblings stop < tabIndexOf siblings extra
  · -- From the last tab stop below the extra one the first loop takes one with its index.
    obtain ⟨self, member, less, most⟩ := exists_greatest below
    have notSelf : extra ≠ self := fun same => notStop (same ▸ member)
    have isNext := passes self member
    cases found :
        firstBest (isBeyond (fun tabIndex other => tabIndex < other) siblings self)
          (fun curr best => decide (tabIndexOf siblings curr < tabIndexOf siblings best))
          siblings.length with
    | none =>
      have rejected := firstBest_eq_none_iff.mp found extra extraInside
      rw [(isBeyond_iff byKey).mpr ⟨visible, notSelf, less⟩] at rejected
      cases rejected
    | some next =>
      have best := isFirstBest_of_firstBest (better_eq byKey) found
      rw [focusAlong, found] at isNext
      obtain ⟨-, differs, beyond⟩ := (isBeyond_iff byKey).mp best.accepted
      refine ⟨two_le_length isNext.member member differs, next, isNext.member, ?_⟩
      rcases best.first extra extraInside
          ((isBeyond_iff byKey).mpr ⟨visible, notSelf, less⟩) with before | ⟨same, le⟩
      · exact absurd (most next isNext.member before) (not_le.mpr beyond)
      · have apart : next ≠ extra := fun same => notStop (same ▸ isNext.member)
        exact ⟨Nat.lt_of_le_of_ne le apart, same⟩
  · -- From the last tab stop the second loop takes one with the smallest index.
    have anyStop : ∃ stop ∈ stopsOf siblings, True := ⟨someStop, someMember, trivial⟩
    obtain ⟨self, member, -, most⟩ := exists_greatest anyStop
    have notSelf : extra ≠ self := fun same => notStop (same ▸ member)
    have isNext := passes self member
    have candidate : isCandidate siblings self extra = true := by
      rw [isCandidate, Bool.and_eq_true, bne_iff_ne]
      exact ⟨visible, notSelf⟩
    cases found :
        firstBest (isBeyond (fun tabIndex other => tabIndex < other) siblings self)
          (fun curr best => decide (tabIndexOf siblings curr < tabIndexOf siblings best))
          siblings.length with
    | some next =>
      have best := isFirstBest_of_firstBest (better_eq byKey) found
      rw [focusAlong, found] at isNext
      obtain ⟨-, -, beyond⟩ := (isBeyond_iff byKey).mp best.accepted
      exact absurd (most next isNext.member trivial) (not_le.mpr beyond)
    | none =>
      cases second :
          firstBest (isCandidate siblings self)
            (fun curr best => decide (tabIndexOf siblings curr < tabIndexOf siblings best))
            siblings.length with
      | none =>
        rw [firstBest_eq_none_iff.mp second extra extraInside] at candidate
        cases candidate
      | some next =>
        have best := isFirstBest_of_firstBest (better_eq byKey) second
        rw [focusAlong, found] at isNext
        dsimp only at isNext
        rw [second] at isNext
        have differs := best.accepted
        rw [isCandidate, Bool.and_eq_true, bne_iff_ne] at differs
        refine ⟨two_le_length isNext.member member differs.2, next, isNext.member, ?_⟩
        rcases best.first extra extraInside candidate with before | ⟨same, le⟩
        · exact absurd ⟨next, isNext.member, before⟩ below
        · have apart : next ≠ extra := fun same => notStop (same ▸ isNext.member)
          exact ⟨Nat.lt_of_le_of_ne le apart, same⟩

end Siblings

/-! ## Scenes -/

theorem getElem?_chain (tree : ItuTree) (index : Nat) :
    tree.chain[index]? = (tree.drop index).head? := by
  induction tree generalizing index with
  | nil =>
    have stays : ItuTree.nil.drop index = .nil := by
      induction index with
      | zero => rfl
      | succ index stays => rw [ItuTree.drop, stays, ItuTree.sibling]
    rw [stays]
    rfl
  | node widget child sibling _ inSibling =>
    cases index with
    | zero => rfl
    | succ index =>
      have next : (ItuTree.node widget child sibling).drop (index + 1) = sibling.drop index := by
        induction index with
        | zero => rfl
        | succ index next => rw [ItuTree.drop, next, ItuTree.drop]
      rw [next]
      exact inSibling index

section Scene

variable {scene : ItuScene} {parent : List Nat}

theorem widgetAt_eq (index : Nat) :
    scene.widgetAt ⟨parent, index⟩ = (scene.siblings parent)[index]? :=
  (getElem?_chain _ index).symm

def passFrom (order : Int → Int → Bool) (siblings : List ItuWidget) (parent : List Nat)
    (index : Nat) : Nat :=
  if parent = [] then index else focusAlong order siblings index

theorem focusPast_eq (order : Int → Int → Bool) {index : Nat}
    (member : index ∈ stopsOf (scene.siblings parent)) :
    focusPast order scene ⟨parent, index⟩ =
      ⟨parent, passFrom order (scene.siblings parent) parent index⟩ := by
  have stops : (scene.widgetAt ⟨parent, index⟩).any ItuWidget.tapStop = true := by
    rw [mem_stopsOf, isStop] at member
    rw [widgetAt_eq]
    cases found : (scene.siblings parent)[index]? with
    | none =>
      rw [found] at member
      cases member
    | some widget =>
      rw [found] at member
      exact (Bool.and_eq_true_iff.mp member).2
  rw [focusPast, passFrom, stops, Bool.true_and]
  by_cases top : parent = []
  · rw [if_pos top, top]
    rfl
  · rw [if_neg top, if_pos (bne_iff_ne.mpr top)]

theorem ituSceneFocus_some {past : ItuScene → ItuPlace → ItuPlace} {place : ItuPlace}
    (focused : scene.focused = some place) :
    (ituSceneFocus past scene).focused = some (past scene place) ∧
      (ituSceneFocus past scene).root = scene.root := by
  rw [ituSceneFocus, focused]
  exact ⟨rfl, rfl⟩

theorem focused_iterate {order : Int → Int → Bool} {index : Nat}
    (focused : scene.focused = some ⟨parent, index⟩)
    (member : index ∈ stopsOf (scene.siblings parent))
    (stays :
      ∀ i ∈ stopsOf (scene.siblings parent),
        passFrom order (scene.siblings parent) parent i ∈ stopsOf (scene.siblings parent))
    (count : Nat) :
    ((ituSceneFocus (focusPast order))^[count] scene).focused =
        some ⟨parent, (passFrom order (scene.siblings parent) parent)^[count] index⟩ ∧
      ((ituSceneFocus (focusPast order))^[count] scene).root = scene.root ∧
      (passFrom order (scene.siblings parent) parent)^[count] index ∈
        stopsOf (scene.siblings parent) := by
  induction count with
  | zero => exact ⟨focused, rfl, member⟩
  | succ count along =>
    obtain ⟨here, sameRoot, stop⟩ := along
    rw [Function.iterate_succ_apply', Function.iterate_succ_apply']
    obtain ⟨moved, keptRoot⟩ := @ituSceneFocus_some _ (focusPast order) _ here
    have sameSiblings :
        ((ituSceneFocus (focusPast order))^[count] scene).siblings parent =
          scene.siblings parent := by
      rw [ItuScene.siblings, sameRoot]
      rfl
    refine ⟨?_, keptRoot.trans sameRoot, stays _ stop⟩
    rw [moved, focusPast_eq order (sameSiblings.symm ▸ stop), sameSiblings]

end Scene

/-- The focus on the sibling `index` of a scene. -/
def ItuScene.focusOn (scene : ItuScene) (parent : List Nat) (index : Nat) : ItuScene :=
  { scene with focused := some ⟨parent, index⟩ }

/-- From every visible tab stop `ituSceneFocusNext` moves to the one with the next
larger tab index, around the end, `ituSceneFocusPrev` undoes it, and as many calls as
there are tab stops visit each of them once and come back. -/
structure FocusCycles (scene : ItuScene) (parent : List Nat) : Prop where
  next :
    ∀ index ∈ stopsOf (scene.siblings parent),
      ∃ other,
        IsNext (stopsOf (scene.siblings parent))
            (tabIndexOf (scene.siblings parent)) index other ∧
          (ituSceneFocusNext (scene.focusOn parent index)).focused = some ⟨parent, other⟩
  undone :
    ∀ index ∈ stopsOf (scene.siblings parent),
      (ituSceneFocusPrev (ituSceneFocusNext (scene.focusOn parent index))).focused =
        some ⟨parent, index⟩
  visits :
    ∀ index ∈ stopsOf (scene.siblings parent),
      ((List.range (stopsOf (scene.siblings parent)).length).map fun count =>
          (ituSceneFocusNext^[count + 1] (scene.focusOn parent index)).focused).Perm
        ((stopsOf (scene.siblings parent)).map fun other => some ⟨parent, other⟩)
  returns :
    ∀ index ∈ stopsOf (scene.siblings parent),
      (ituSceneFocusNext^[(stopsOf (scene.siblings parent)).length]
        (scene.focusOn parent index)).focused = some ⟨parent, index⟩

/-- Top-level siblings keep the focus, so there must be a single tab stop among them. -/
def FocusCondition (scene : ItuScene) (parent : List Nat) : Prop :=
  if parent = [] then (stopsOf (scene.siblings parent)).length = 1
  else Hidden (scene.siblings parent)

section Condition

variable {scene : ItuScene} {parent : List Nat}
  (apart : KeyInjective (stopsOf (scene.siblings parent)) (tabIndexOf (scene.siblings parent)))

include apart

theorem isNext_passFrom (condition : FocusCondition scene parent) {index : Nat}
    (member : index ∈ stopsOf (scene.siblings parent)) :
    IsNext (stopsOf (scene.siblings parent)) (tabIndexOf (scene.siblings parent)) index
      (passFrom (fun tabIndex other => tabIndex < other) (scene.siblings parent) parent index) := by
  rw [FocusCondition] at condition
  rw [passFrom]
  split at condition
  · rename_i top
    rw [if_pos top]
    obtain ⟨only, isOnly⟩ := List.length_eq_one_iff.mp condition
    have same : ∀ k ∈ stopsOf (scene.siblings parent), k = index := by
      intro k stops
      rw [isOnly] at stops member
      rw [List.mem_singleton.mp stops, List.mem_singleton.mp member]
    refine ⟨member, ?_, fun _ k stops => le_of_eq (by rw [same k stops])⟩
    rintro ⟨k, stops, less⟩
    rw [same k stops] at less
    exact absurd less (lt_irrefl _)
  · rename_i below
    rw [if_neg below]
    obtain ⟨next, isNext⟩ := exists_isNext nodup_stopsOf apart member
    have byKey (first second : Int) :
        decide (first < second) = decide (id first < id second) :=
      rfl
    rw [focusAlong_of_hidden byKey apart condition member isNext]
    exact isNext

theorem passFrom_passFrom (condition : FocusCondition scene parent) {index : Nat}
    (member : index ∈ stopsOf (scene.siblings parent)) :
    passFrom (fun tabIndex other => other < tabIndex) (scene.siblings parent) parent
        (passFrom (fun tabIndex other => tabIndex < other) (scene.siblings parent) parent
          index) = index := by
  have isNext := isNext_passFrom apart condition member
  rw [FocusCondition] at condition
  by_cases top : parent = []
  · rw [passFrom, if_pos top, passFrom, if_pos top]
  · rw [if_neg top] at condition
    have byKey (first second : Int) :
        decide (second < first) = decide (OrderDual.toDual first < OrderDual.toDual second) :=
      rfl
    rw [passFrom, if_neg top]
    exact focusAlong_of_hidden byKey apart condition isNext.member (isNext.dual member)

theorem focusCycles_of_condition (condition : FocusCondition scene parent) :
    FocusCycles scene parent := by
  have steps (index : Nat) (member : index ∈ stopsOf (scene.siblings parent)) :=
    isNext_passFrom apart condition member
  have iterates (index : Nat) (member : index ∈ stopsOf (scene.siblings parent)) (count : Nat) :
      (ituSceneFocusNext^[count] (scene.focusOn parent index)).focused =
          some ⟨parent,
            (passFrom (fun tabIndex other => tabIndex < other) (scene.siblings parent)
              parent)^[count] index⟩ ∧
        (ituSceneFocusNext^[count] (scene.focusOn parent index)).root = scene.root ∧
        _ :=
    @focused_iterate (scene.focusOn parent index) parent
      (fun tabIndex other => tabIndex < other) index rfl member
      (fun i stops => (steps i stops).member) count
  have cycle (index : Nat) (member : index ∈ stopsOf (scene.siblings parent)) :=
    perm_iterate nodup_stopsOf apart steps member
  refine ⟨?_, ?_, ?_, ?_⟩
  · intro index member
    exact ⟨_, steps index member, (iterates index member 1).1⟩
  · intro index member
    obtain ⟨here, sameRoot, stop⟩ := iterates index member 1
    have sameSiblings :
        (ituSceneFocusNext (scene.focusOn parent index)).siblings parent = scene.siblings parent :=
      congrArg (fun root => (root.childrenAt parent).chain) sameRoot
    obtain ⟨moved, -⟩ := @ituSceneFocus_some _ focusPrev _ here
    refine moved.trans (congrArg some ?_)
    have placed := focusPast_eq (fun tabIndex other => other < tabIndex) (sameSiblings.symm ▸ stop)
    rw [sameSiblings] at placed
    refine placed.trans (congrArg (ItuPlace.mk parent) ?_)
    exact passFrom_passFrom apart condition member
  · intro index member
    have places :
        ((List.range (stopsOf (scene.siblings parent)).length).map fun count =>
            (ituSceneFocusNext^[count + 1] (scene.focusOn parent index)).focused) =
          (((List.range (stopsOf (scene.siblings parent)).length).map fun count =>
            (passFrom (fun tabIndex other => tabIndex < other) (scene.siblings parent)
              parent)^[count + 1] index).map fun other => some ⟨parent, other⟩) := by
      rw [List.map_map]
      exact List.map_congr_left fun count _ => (iterates index member (count + 1)).1
    rw [places]
    exact (cycle index member).1.map _
  · intro index member
    rw [(iterates index member _).1, (cycle index member).2]

theorem condition_of_focusCycles
    (some_ : stopsOf (scene.siblings parent) ≠ []) (cycles : FocusCycles scene parent) :
    FocusCondition scene parent := by
  have steps :
      ∀ index ∈ stopsOf (scene.siblings parent),
        IsNext (stopsOf (scene.siblings parent)) (tabIndexOf (scene.siblings parent)) index
          (passFrom (fun tabIndex other => tabIndex < other) (scene.siblings parent) parent
            index) := by
    intro index member
    obtain ⟨other, isNext, focused⟩ := cycles.next index member
    obtain ⟨moved, -⟩ :=
      @ituSceneFocus_some (scene.focusOn parent index) focusNext ⟨parent, index⟩ rfl
    have placed :=
      @focusPast_eq (scene.focusOn parent index) parent
        (fun tabIndex other => tabIndex < other) index member
    have same := Option.some.inj (focused.symm.trans (moved.trans (congrArg some placed)))
    rw [ItuPlace.mk.injEq] at same
    rw [same.2] at isNext
    exact isNext
  rw [FocusCondition]
  split
  · rename_i top
    obtain ⟨only, member⟩ := List.exists_mem_of_ne_nil _ some_
    have isNext := steps only member
    rw [passFrom, if_pos top] at isNext
    have last :
        ∀ k ∈ stopsOf (scene.siblings parent),
          tabIndexOf (scene.siblings parent) k ≤ tabIndexOf (scene.siblings parent) only :=
      fun k stops => not_lt.mp fun less => lt_irrefl _ (isNext.larger ⟨k, stops, less⟩).1
    have all : ∀ k ∈ stopsOf (scene.siblings parent), k = only := fun k stops =>
      apart k stops only member (le_antisymm (last k stops) (isNext.around last k stops))
    have short := nodup_stopsOf.length_le_of_subset fun k stops =>
      List.mem_singleton.mpr (all k stops)
    have long := List.length_pos_of_mem member
    rw [List.length_singleton] at short
    omega
  · rename_i below
    refine hidden_of_focusAlong some_ fun index member => ?_
    have isNext := steps index member
    rw [passFrom, if_neg below] at isNext
    exact isNext

end Condition

/-- The focus cycles through the visible tab stops of distinct tab indices exactly if no
other visible sibling gets in between. -/
theorem focusCycles_iff
    {scene : ItuScene} {parent : List Nat}
    (apart : KeyInjective (stopsOf (scene.siblings parent)) (tabIndexOf (scene.siblings parent)))
    (some_ : stopsOf (scene.siblings parent) ≠ []) :
    FocusCycles scene parent ↔ FocusCondition scene parent :=
  ⟨condition_of_focusCycles apart some_, focusCycles_of_condition apart⟩

def threeButtons : ItuScene :=
  sceneOf
    (.node label
      (.node ⟨ITU_TAPSTOP, true, 2⟩ .nil
        (.node ⟨ITU_TAPSTOP, true, 3⟩ .nil (.node ⟨ITU_TAPSTOP, true, 1⟩ .nil .nil)))
      .nil)

theorem focusCycles_iff_threeButtons :
    FocusCycles threeButtons [0] ↔ FocusCondition threeButtons [0] :=
  focusCycles_iff (by decide) (by decide)

/-- Two buttons with the tab indices 1 and 3 and a label with 2. -/
def labelBetween : ItuScene :=
  sceneOf
    (.node label
      (.node ⟨ITU_TAPSTOP, true, 1⟩ .nil
        (.node ⟨0, true, 2⟩ .nil (.node ⟨ITU_TAPSTOP, true, 3⟩ .nil .nil)))
      .nil)

/-- From the first button the focus passes to the label. -/
theorem focusCycles_labelBetween :
    KeyInjective (stopsOf (labelBetween.siblings [0])) (tabIndexOf (labelBetween.siblings [0])) ∧
      ¬ FocusCycles labelBetween [0] := by
  refine ⟨by decide, fun cycles => ?_⟩
  obtain ⟨other, isNext, focused⟩ := cycles.next 0 (by decide)
  have passed :
      (ituSceneFocusNext (labelBetween.focusOn [0] 0)).focused = some ⟨[0], 1⟩ := by
    decide
  rw [passed] at focused
  have isLabel : other = 1 := congrArg ItuPlace.index (Option.some.inj focused).symm
  have member := isNext.member
  rw [isLabel] at member
  exact absurd member (by decide)

end IteSdk.Itu
