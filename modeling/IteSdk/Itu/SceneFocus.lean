import IteSdk.Lib.FirstBest
import Mathlib.Data.BitVec
import Mathlib.Data.List.Basic
import Mathlib.Logic.Function.Basic

/-!
# The focus of a scene

The widgets of a scene hang together by first child and next sibling.  `itu_scene.c`
moves the focus between them.  While nothing is focused, `FocusFirst` looks for a widget
to begin with; it comes back from the first child whatever it has found there, so only a
widget that is reached by first children from a top-level widget is ever found.
-/

namespace IteSdk.Itu

open Lib

/-- The fields of an `ITUWidget` that the search reads. -/
structure ItuWidget where
  flags : BitVec 32
  visible : Bool
  tabIndex : Int
  deriving DecidableEq

def ITU_TAPSTOP : BitVec 32 := 0x1

/-- `widget->flags & ITU_TAPSTOP`. -/
def ItuWidget.tapStop (widget : ItuWidget) : Bool := widget.flags &&& ITU_TAPSTOP != 0

def ItuWidget.visibleStop (widget : ItuWidget) : Bool := widget.visible && widget.tapStop

/-- An `ITCTree`: a widget with its first child and its next sibling. -/
inductive ItuTree
  | nil
  | node (widget : ItuWidget) (child sibling : ItuTree)
  deriving DecidableEq

/-- A widget is named by the way to its parent and its place among the children. -/
structure ItuPlace where
  parent : List Nat
  index : Nat
  deriving DecidableEq

def ItuPlace.firstChild (place : ItuPlace) : ItuPlace := ⟨place.parent ++ [place.index], 0⟩

namespace ItuTree

@[grind =]
def sibling : ItuTree → ItuTree
  | nil => nil
  | node _ _ sibling => sibling

/-- The siblings from the one with number `index` on. -/
@[grind =]
def drop (tree : ItuTree) : Nat → ItuTree
  | 0 => tree
  | index + 1 => (tree.drop index).sibling

def head? : ItuTree → Option ItuWidget
  | nil => none
  | node widget _ _ => some widget

@[grind =]
def child : ItuTree → ItuTree
  | nil => nil
  | node _ child _ => child

@[grind =]
def chain : ItuTree → List ItuWidget
  | nil => []
  | node widget _ sibling => widget :: sibling.chain

/-- The children of the widget that `parent` leads to. -/
@[grind =]
def childrenAt : ItuTree → List Nat → ItuTree
  | tree, [] => tree
  | tree, index :: parent => (tree.drop index).child.childrenAt parent

@[grind =]
def widgets : ItuTree → List ItuWidget
  | nil => []
  | node widget child sibling => widget :: (child.widgets ++ sibling.widgets)

/-- A widget, its first child, the first child of that one, and so on. -/
@[grind =]
def firstChildren : ItuTree → List ItuWidget
  | nil => []
  | node widget child _ => widget :: child.firstChildren

@[grind =]
def firstLines : ItuTree → List ItuWidget
  | nil => []
  | node widget child sibling => (widget :: child.firstChildren) ++ sibling.firstLines

end ItuTree

/-- The fields of an `ITUScene` that take part, with the `active` and the `dirty` of
every widget. -/
structure ItuScene where
  root : ItuTree
  focused : Option ItuPlace
  active : ItuPlace → Bool
  dirty : ItuPlace → Bool

def ItuScene.widgetAt (scene : ItuScene) (place : ItuPlace) : Option ItuWidget :=
  ((scene.root.childrenAt place.parent).drop place.index).head?

/-- `ituWidgetSetActiveImpl`. -/
def ituWidgetSetActive (scene : ItuScene) (place : ItuPlace) (active : Bool) : ItuScene :=
  { scene with
    active := Function.update scene.active place active
    dirty := Function.update scene.dirty place true }

/-- `FocusFirst`; the loop over the children returns in its first round. -/
def focusFirst : ItuTree → ItuPlace → Option ItuPlace
  | .nil, _ => none
  | .node widget child _, place =>
    if widget.visible && widget.tapStop then some place
    else focusFirst child place.firstChild

def focusRoots : ItuTree → Nat → Option ItuPlace
  | .nil, _ => none
  | .node widget child sibling, index =>
    match focusFirst (.node widget child sibling) ⟨[], index⟩ with
    | some place => some place
    | none => focusRoots sibling (index + 1)

def ItuScene.siblings (scene : ItuScene) (parent : List Nat) : List ItuWidget :=
  (scene.root.childrenAt parent).chain

def tabIndexOf (siblings : List ItuWidget) (curr : Nat) : Int :=
  (siblings[curr]?.map ItuWidget.tabIndex).getD 0

/-- What is not left out by `!curr->visible || curr == widget`. -/
def isCandidate (siblings : List ItuWidget) (self curr : Nat) : Bool :=
  siblings[curr]?.any ItuWidget.visible && curr != self

/-- The candidates beyond `self`, which the first loop takes. -/
def isBeyond (order : Int → Int → Bool) (siblings : List ItuWidget) (self curr : Nat) : Bool :=
  isCandidate siblings self curr && order (tabIndexOf siblings self) (tabIndexOf siblings curr)

/-- The two loops of `FocusPrev` and `FocusNext` over the siblings of `self`: the first
best beyond it in the given order, else the first best of all. -/
def focusAlong (order : Int → Int → Bool) (siblings : List ItuWidget) (self : Nat) : Nat :=
  let better (curr best : Nat) := order (tabIndexOf siblings curr) (tabIndexOf siblings best)
  match firstBest (isBeyond order siblings self) better siblings.length with
  | some found => found
  | none => (firstBest (isCandidate siblings self) better siblings.length).getD self

/-- `FocusPrev` and `FocusNext`: a tab stop with a parent passes the focus on. -/
def focusPast (order : Int → Int → Bool) (scene : ItuScene) (place : ItuPlace) : ItuPlace :=
  if ((scene.widgetAt place).any ItuWidget.tapStop && place.parent != []) = true then
    ⟨place.parent, focusAlong order (scene.siblings place.parent) place.index⟩
  else place

def focusNext : ItuScene → ItuPlace → ItuPlace := focusPast fun tabIndex other => tabIndex < other

def focusPrev : ItuScene → ItuPlace → ItuPlace := focusPast fun tabIndex other => other < tabIndex

/-- `ituSceneFocusNext` and `ituSceneFocusPrev`. -/
def ituSceneFocus (past : ItuScene → ItuPlace → ItuPlace) (scene : ItuScene) : ItuScene :=
  let moved :=
    match scene.focused with
    | none => { scene with focused := focusRoots scene.root 0 }
    | some place =>
      { ituWidgetSetActive scene place false with focused := some (past scene place) }
  match moved.focused with
  | none => moved
  | some place => ituWidgetSetActive moved place true

def ituSceneFocusNext : ItuScene → ItuScene := ituSceneFocus focusNext

def ituSceneFocusPrev : ItuScene → ItuScene := ituSceneFocus focusPrev

namespace ItuTree

theorem childrenAt_append (tree : ItuTree) (parent : List Nat) (index : Nat) :
    tree.childrenAt (parent ++ [index]) = ((tree.childrenAt parent).drop index).child := by
  induction parent generalizing tree with
  | nil => rfl
  | cons first parent along => exact along _

end ItuTree

variable {scene : ItuScene} {tree : ItuTree}

theorem focusFirst_some {place found : ItuPlace}
    (located : (scene.root.childrenAt place.parent).drop place.index = tree)
    (finds : focusFirst tree place = some found) :
    ∃ widget, scene.widgetAt found = some widget ∧ widget.visibleStop = true := by
  induction tree generalizing place with
  | nil => cases finds
  | node widget child sibling inChild _ =>
    rw [focusFirst] at finds
    split at finds
    · rename_i stops
      cases finds
      refine ⟨widget, ?_, stops⟩
      rw [ItuScene.widgetAt, located]
      rfl
    · refine inChild ?_ finds
      change (scene.root.childrenAt (place.parent ++ [place.index])).drop 0 = child
      rw [ItuTree.childrenAt_append, located]
      rfl

theorem focusFirst_none_iff {place : ItuPlace} :
    focusFirst tree place = none ↔ ∀ widget ∈ tree.firstChildren, widget.visibleStop = false := by
  induction tree generalizing place with
  | nil => simp [focusFirst, ItuTree.firstChildren]
  | node widget child sibling inChild _ =>
    rw [focusFirst, ItuTree.firstChildren, List.forall_mem_cons]
    split
    · rename_i stops
      have found : widget.visibleStop = true := stops
      simp [found]
    · rename_i passes
      have notFound : widget.visibleStop = false := Bool.eq_false_iff.mpr passes
      exact inChild.trans (and_iff_right notFound).symm

theorem focusRoots_some {index : Nat} {found : ItuPlace} (located : scene.root.drop index = tree)
    (finds : focusRoots tree index = some found) :
    ∃ widget, scene.widgetAt found = some widget ∧ widget.visibleStop = true := by
  induction tree generalizing index with
  | nil => cases finds
  | node widget child sibling _ inSibling =>
    rw [focusRoots] at finds
    split at finds
    · rename_i place first
      cases finds
      exact focusFirst_some (show (scene.root.childrenAt []).drop index = _ from located) first
    · have next : scene.root.drop (index + 1) = sibling := congrArg ItuTree.sibling located
      exact inSibling next finds

theorem focusRoots_none_iff {index : Nat} :
    focusRoots tree index = none ↔ ∀ widget ∈ tree.firstLines, widget.visibleStop = false := by
  induction tree generalizing index with
  | nil => simp [focusRoots, ItuTree.firstLines]
  | node widget child sibling _ inSibling =>
    rw [focusRoots, ItuTree.firstLines, List.forall_mem_append]
    cases first : focusFirst (.node widget child sibling) ⟨[], index⟩ with
    | none => exact inSibling.trans (and_iff_right (focusFirst_none_iff.mp first)).symm
    | some place =>
      have found :
          ¬ ∀ widget' ∈ (ItuTree.node widget child sibling).firstChildren,
            widget'.visibleStop = false := by
        intro noneFound
        rw [focusFirst_none_iff.mpr noneFound] at first
        cases first
      simp only [reduceCtorEq, false_iff, not_and]
      exact fun noneFound => absurd noneFound found

theorem focusRoots_none
    {index : Nat} (noLine : ¬ ∃ widget ∈ tree.firstLines, widget.visibleStop = true) :
    focusRoots tree index = none := by
  rw [focusRoots_none_iff]
  intro widget listed
  exact Bool.eq_false_iff.mpr fun stops => noLine ⟨widget, listed, stops⟩

theorem mem_widgets_of_mem_firstChildren
    {widget : ItuWidget} (listed : widget ∈ tree.firstChildren) :
    widget ∈ tree.widgets := by
  induction tree with
  | nil => exact listed
  | node first child sibling inChild _ =>
    rcases List.mem_cons.mp listed with here | below
    · exact List.mem_cons.mpr (Or.inl here)
    · exact List.mem_cons_of_mem _ (List.mem_append_left _ (inChild below))

theorem mem_widgets_of_mem_firstLines {widget : ItuWidget} (listed : widget ∈ tree.firstLines) :
    widget ∈ tree.widgets := by
  induction tree with
  | nil => exact listed
  | node first child sibling _ inSibling =>
    rcases List.mem_append.mp listed with line | beside
    · exact mem_widgets_of_mem_firstChildren line
    · exact List.mem_cons_of_mem _ (List.mem_append_right _ (inSibling beside))

/-! ## The first focus -/

/-- The call focuses a visible tab stop, which becomes active, if the scene has one
anywhere, and changes nothing otherwise. -/
def FocusesFirst (scene : ItuScene) : Prop :=
  ((∃ widget ∈ scene.root.widgets, widget.visibleStop = true) →
    ∃ place widget, (ituSceneFocusNext scene).focused = some place ∧
      (ituSceneFocusNext scene).widgetAt place = some widget ∧
      widget.visibleStop = true ∧
      (ituSceneFocusNext scene).active place = true) ∧
  (¬ (∃ widget ∈ scene.root.widgets, widget.visibleStop = true) → ituSceneFocusNext scene = scene)

theorem ituSceneFocusNext_none
    (nothing : scene.focused = none) (absent : focusRoots scene.root 0 = none) :
    ituSceneFocusNext scene = scene := by
  rw [ituSceneFocusNext, ituSceneFocus, nothing, absent]
  dsimp only
  rw [← nothing]

theorem ituSceneFocusNext_some {place : ItuPlace} (nothing : scene.focused = none)
    (found : focusRoots scene.root 0 = some place) :
    ituSceneFocusNext scene =
      ituWidgetSetActive { scene with focused := some place } place true := by
  rw [ituSceneFocusNext, ituSceneFocus, nothing, found]

/-- The first focus is right exactly if there is no visible tab stop at all, or one of
the top-level widgets, of their first children, of the first children of these and so on
is one. -/
theorem ituSceneFocusNext_first_iff
    {scene : ItuScene} (nothing : scene.focused = none) :
    FocusesFirst scene ↔
      (∀ widget ∈ scene.root.widgets, widget.visibleStop = false) ∨
        ∃ widget ∈ scene.root.firstLines, widget.visibleStop = true := by
  constructor
  · rintro ⟨focuses, -⟩
    by_cases anywhere : ∃ widget ∈ scene.root.widgets, widget.visibleStop = true
    · right
      by_contra noLine
      obtain ⟨place, -, focused, -⟩ := focuses anywhere
      rw [ituSceneFocusNext_none nothing (focusRoots_none noLine), nothing] at focused
      cases focused
    · left
      intro widget listed
      exact Bool.eq_false_iff.mpr fun stops => anywhere ⟨widget, listed, stops⟩
  · intro condition
    cases found : focusRoots scene.root 0 with
    | none =>
      have noLine := focusRoots_none_iff.mp found
      refine ⟨fun anywhere => ?_, fun _ => ituSceneFocusNext_none nothing found⟩
      rcases condition with nowhere | ⟨widget, listed, stops⟩
      · obtain ⟨widget, listed, stops⟩ := anywhere
        rw [nowhere widget listed] at stops
        cases stops
      · rw [noLine widget listed] at stops
        cases stops
    | some place =>
      have located : scene.root.drop 0 = scene.root := rfl
      obtain ⟨widget, here, stops⟩ := focusRoots_some located found
      refine ⟨fun _ => ⟨place, widget, ?_⟩, fun nowhere => ?_⟩
      · rw [ituSceneFocusNext_some nothing found]
        exact ⟨rfl, here, stops, Function.update_self ..⟩
      · have line : ∃ widget ∈ scene.root.firstLines, widget.visibleStop = true := by
          by_contra noLine
          rw [focusRoots_none noLine] at found
          cases found
        obtain ⟨other, listed, stops⟩ := line
        exact absurd ⟨other, mem_widgets_of_mem_firstLines listed, stops⟩ nowhere

def label : ItuWidget := ⟨0, true, 0⟩

def button : ItuWidget := ⟨ITU_TAPSTOP, true, 1⟩

def sceneOf (root : ItuTree) : ItuScene := ⟨root, none, fun _ => false, fun _ => false⟩

def buttonFirst : ItuTree := .node label (.node button .nil (.node label .nil .nil)) .nil

def labelFirst : ItuTree := .node label (.node label .nil (.node button .nil .nil)) .nil

theorem ituSceneFocusNext_first_iff_button :
    FocusesFirst (sceneOf buttonFirst) ↔
      (∀ widget ∈ (sceneOf buttonFirst).root.widgets, widget.visibleStop = false) ∨
        ∃ widget ∈ (sceneOf buttonFirst).root.firstLines, widget.visibleStop = true :=
  ituSceneFocusNext_first_iff rfl

/-- Nothing is focused although there is a button. -/
theorem ituSceneFocusNext_label : ¬ FocusesFirst (sceneOf labelFirst) := by
  intro focuses
  have anywhere : ∃ widget ∈ labelFirst.widgets, widget.visibleStop = true := by decide
  obtain ⟨place, -, focused, -⟩ := focuses.1 anywhere
  have absent : focusRoots labelFirst 0 = none := by decide
  rw [ituSceneFocusNext_none rfl absent] at focused
  cases focused

end IteSdk.Itu
