import IteSdk.Lib.CyclicOrder
import Mathlib.Data.Int.Order.Basic
import Mathlib.Data.Prod.Lex

/-!
# The cursor of a list box

A list box shows one page of items at a time.  `ituListBoxNextImpl` and
`ituListBoxPrevImpl` move the focus by one item and load the next or the previous page at
the end of the page that is shown.
-/

namespace IteSdk.Itu

open Lib

structure ItuColor where
  alpha : UInt8
  red : UInt8
  green : UInt8
  blue : UInt8

/-- What a list box changes in a text that shows one of its items. -/
structure ItuListItem where
  backColor : ItuColor
  color : ItuColor
  isRead : Bool
  scrollDelay : Nat
  stopDelay : Nat
  scrolling : Bool

/-- `scrollType` is true for the three widget types whose children are the items of three
pages; `loads` are the texts of the load actions executed so far. -/
structure ItuListBox where
  scrollType : Bool
  children : List ItuListItem
  focusIndex : Int
  pageIndex : Int
  pageCount : Int
  itemCount : Int
  focusColor : ItuColor
  focusFontColor : ItuColor
  orgFontColor : ItuColor
  readFontColor : ItuColor
  scrollDelay : Nat
  stopDelay : Nat
  loads : List (Int × Int)
  dirty : Bool

namespace ItuListBox

def firstItem (listbox : ItuListBox) : Nat :=
  if listbox.scrollType then listbox.children.length / 3 else 0

def unfocused (listbox : ItuListBox) (item : ItuListItem) : ItuListItem :=
  { item with
    backColor := ⟨0, 0, 0, 0⟩
    color := if item.isRead then listbox.readFontColor else listbox.orgFontColor
    scrolling := false }

def focused (listbox : ItuListBox) (item : ItuListItem) : ItuListItem :=
  { item with
    backColor := listbox.focusColor
    color := if listbox.focusFontColor.alpha ≠ 0 then listbox.focusFontColor else item.color
    scrollDelay := listbox.scrollDelay
    stopDelay := listbox.stopDelay
    scrolling := true }

/-- `itcTreeGetChildAt` finds no child at an index behind the last one. -/
def changeItem (listbox : ItuListBox) (index : Int) (change : ItuListItem → ItuListItem) :
    ItuListBox :=
  { listbox with children := listbox.children.modify (listbox.firstItem + index.toNat) change }

/-- The first half of `ituListBoxSelect`. -/
def unselect (listbox : ItuListBox) : ItuListBox :=
  if 0 ≤ listbox.focusIndex then listbox.changeItem listbox.focusIndex listbox.unfocused
  else listbox

def ituListBoxSelect (listbox : ItuListBox) (index : Int) : ItuListBox :=
  let listbox := listbox.unselect
  let listbox :=
    if 0 ≤ index then
      if listbox.firstItem + index.toNat < listbox.children.length then
        { listbox.changeItem index listbox.focused with focusIndex := index }
      else listbox
    else { listbox with focusIndex := -1 }
  { listbox with dirty := true }

/-- A page is turned to: the load actions are executed, and `OnLoadPage` sets the number
of its items. -/
def turnTo (itemCounts : Int → Int) (listbox : ItuListBox) (page : Int) : ItuListBox :=
  { listbox with
    pageIndex := page
    loads := listbox.loads ++ [(page, listbox.pageCount)]
    itemCount := itemCounts page }

def ituListBoxPrevImpl (itemCounts : Int → Int) (listbox : ItuListBox) : ItuListBox :=
  if listbox.itemCount = 0 then listbox
  else if 0 < listbox.focusIndex then
    listbox.ituListBoxSelect (listbox.focusIndex - 1)
  else
    let listbox :=
      listbox.turnTo itemCounts
        (if listbox.pageIndex = 1 then listbox.pageCount else listbox.pageIndex - 1)
    listbox.ituListBoxSelect (listbox.itemCount - 1)

def ituListBoxNextImpl (itemCounts : Int → Int) (listbox : ItuListBox) : ItuListBox :=
  if listbox.itemCount = 0 then listbox
  else if listbox.focusIndex < listbox.itemCount - 1 then
    listbox.ituListBoxSelect (listbox.focusIndex + 1)
  else
    let listbox :=
      listbox.turnTo itemCounts
        (if listbox.pageIndex = listbox.pageCount then 1 else listbox.pageIndex + 1)
    listbox.ituListBoxSelect (-1 + 1)

/-! ## Positions -/

def position (listbox : ItuListBox) : Int × Int := (listbox.pageIndex, listbox.focusIndex)

/-- Every page has an item, and a child to show each of its items. -/
structure Filled (itemCounts : Int → Int) (listbox : ItuListBox) : Prop where
  pages : 1 ≤ listbox.pageCount
  items : ∀ page, 1 ≤ page → page ≤ listbox.pageCount → 1 ≤ itemCounts page
  shown :
    ∀ page, 1 ≤ page → page ≤ listbox.pageCount →
      listbox.firstItem + itemCounts page ≤ listbox.children.length

structure Selected (itemCounts : Int → Int) (listbox : ItuListBox) : Prop where
  page : 1 ≤ listbox.pageIndex ∧ listbox.pageIndex ≤ listbox.pageCount
  loaded : listbox.itemCount = itemCounts listbox.pageIndex
  item : 0 ≤ listbox.focusIndex ∧ listbox.focusIndex < listbox.itemCount

def positions (itemCounts : Int → Int) (listbox : ItuListBox) : List (Int × Int) :=
  (List.range listbox.pageCount.toNat).flatMap fun page : Nat =>
    (List.range (itemCounts (page + 1)).toNat).map fun item : Nat => ((page : Int) + 1, (item : Int))

def order (place : Int × Int) : Int ×ₗ Int := toLex place

/-- The position behind one in the order of pages and items. -/
def behindOf (itemCounts : Int → Int) (pageCount : Int) (place : Int × Int) : Int × Int :=
  if place.2 < itemCounts place.1 - 1 then (place.1, place.2 + 1)
  else (if place.1 = pageCount then 1 else place.1 + 1, 0)

section Steps

variable {itemCounts : Int → Int} {listbox : ItuListBox} {page index : Int}

structure Same (before after : ItuListBox) : Prop where
  pageIndex : after.pageIndex = before.pageIndex
  pageCount : after.pageCount = before.pageCount
  itemCount : after.itemCount = before.itemCount
  length : after.children.length = before.children.length
  firstItem : after.firstItem = before.firstItem

theorem unselect_same : Same listbox listbox.unselect := by
  unfold unselect
  split <;> constructor <;> simp [changeItem, ItuListBox.firstItem]

theorem select_spec
    (notNegative : 0 ≤ index) (shown : listbox.firstItem + index < listbox.children.length) :
    (listbox.ituListBoxSelect index).focusIndex = index ∧
      Same listbox (listbox.ituListBoxSelect index) := by
  have same := @unselect_same listbox
  have inside : listbox.unselect.firstItem + index.toNat < listbox.unselect.children.length := by
    rw [same.firstItem, same.length]
    omega
  rw [ituListBoxSelect, if_pos notNegative, if_pos inside]
  refine ⟨rfl, same.pageIndex, same.pageCount, same.itemCount, ?_, ?_⟩
  · simpa [changeItem] using same.length
  · simpa [changeItem, ItuListBox.firstItem] using same.firstItem

theorem Filled.congr {other : ItuListBox}
    (filled : Filled itemCounts listbox) (same : Same listbox other) :
    Filled itemCounts other where
  pages := same.pageCount ▸ filled.pages
  items := same.pageCount ▸ filled.items
  shown := by
    rw [same.pageCount, same.firstItem, same.length]
    exact filled.shown

theorem Filled.turnTo (filled : Filled itemCounts listbox) (page : Int) :
    Filled itemCounts (listbox.turnTo itemCounts page) :=
  ⟨filled.pages, filled.items, filled.shown⟩

structure Moved (itemCounts : Int → Int) (before after : ItuListBox) (place : Int × Int) :
    Prop where
  filled : Filled itemCounts after
  selected : Selected itemCounts after
  pageCount : after.pageCount = before.pageCount
  position : after.position = place

section

variable (filled : Filled itemCounts listbox)

include filled

/-- Selecting an item of the page that is loaded. -/
theorem moved_select (pageInside : 1 ≤ listbox.pageIndex ∧ listbox.pageIndex ≤ listbox.pageCount)
    (loaded : listbox.itemCount = itemCounts listbox.pageIndex)
    (item : 0 ≤ index ∧ index < listbox.itemCount) :
    Moved itemCounts listbox (listbox.ituListBoxSelect index) (listbox.pageIndex, index) := by
  have room := filled.shown _ pageInside.1 pageInside.2
  obtain ⟨focusIndex, same⟩ := @select_spec listbox index item.1 (by omega)
  refine ⟨filled.congr same, ⟨?_, ?_, ?_⟩, same.pageCount, ?_⟩
  · rw [same.pageIndex, same.pageCount]
    exact pageInside
  · rw [same.itemCount, same.pageIndex]
    exact loaded
  · rw [focusIndex, same.itemCount]
    exact item
  · rw [position, same.pageIndex, focusIndex]

/-- Selecting an item of another page. -/
theorem moved_turnTo (pageInside : 1 ≤ page ∧ page ≤ listbox.pageCount)
    (item : 0 ≤ index ∧ index < itemCounts page) :
    Moved itemCounts listbox ((listbox.turnTo itemCounts page).ituListBoxSelect index)
      (page, index) := by
  have moved := moved_select (filled.turnTo page) pageInside rfl item
  exact ⟨moved.filled, moved.selected, moved.pageCount, moved.position⟩

theorem moved_next (selected : Selected itemCounts listbox) :
    Moved itemCounts listbox (ituListBoxNextImpl itemCounts listbox)
      (behindOf itemCounts listbox.pageCount listbox.position) := by
  obtain ⟨pageInside, loaded, item⟩ := selected
  have some_ : listbox.itemCount ≠ 0 := by omega
  rw [ituListBoxNextImpl, if_neg some_, behindOf, position, ← loaded]
  split
  · exact moved_select filled pageInside loaded ⟨by omega, by omega⟩
  · have turned :
        1 ≤ (if listbox.pageIndex = listbox.pageCount then 1 else listbox.pageIndex + 1) ∧
          (if listbox.pageIndex = listbox.pageCount then 1 else listbox.pageIndex + 1) ≤
            listbox.pageCount := by
      have pages := filled.pages
      split <;> omega
    have more := filled.items _ turned.1 turned.2
    exact moved_turnTo filled turned ⟨by omega, by omega⟩

/-- A step back from the position behind `place` comes to `place`. -/
theorem moved_prev {place : Int × Int} (selected : Selected itemCounts listbox)
    (pageInside : 1 ≤ place.1 ∧ place.1 ≤ listbox.pageCount)
    (item : 0 ≤ place.2 ∧ place.2 < itemCounts place.1)
    (here : listbox.position = behindOf itemCounts listbox.pageCount place) :
    Moved itemCounts listbox (ituListBoxPrevImpl itemCounts listbox) place := by
  obtain ⟨pageHere, loaded, itemHere⟩ := selected
  obtain ⟨page, index⟩ := place
  have some_ : listbox.itemCount ≠ 0 := by omega
  rw [ituListBoxPrevImpl, if_neg some_]
  rw [position, behindOf] at here
  split at here
  · obtain ⟨rfl, focusIndex⟩ := Prod.mk.inj here
    rw [if_pos (by omega), show index = listbox.focusIndex - 1 by omega]
    exact moved_select filled pageHere loaded ⟨by omega, by omega⟩
  · rename_i last
    obtain ⟨pageIndex, focusIndex⟩ := Prod.mk.inj here
    have back :
        (if listbox.pageIndex = 1 then listbox.pageCount else listbox.pageIndex - 1) = page := by
      dsimp only at pageInside pageIndex
      split at pageIndex <;> split <;> omega
    rw [if_neg (by omega), back]
    have atEnd : index = itemCounts page - 1 := by
      dsimp only at item last
      omega
    subst atEnd
    exact moved_turnTo filled pageInside item

end

end Steps

/-! ## The cycle -/

section Cycle

variable {itemCounts : Int → Int} {listbox : ItuListBox} {place : Int × Int}

theorem mem_positions {page item : Int} :
    (page, item) ∈ positions itemCounts listbox ↔
      (1 ≤ page ∧ page ≤ listbox.pageCount) ∧ 0 ≤ item ∧ item < itemCounts page := by
  simp only [positions, List.mem_flatMap, List.mem_map, List.mem_range, Prod.mk.injEq]
  constructor
  · rintro ⟨p, pInside, i, iInside, rfl, rfl⟩
    exact ⟨⟨by omega, by omega⟩, by omega, by omega⟩
  · rintro ⟨pageInside, itemInside⟩
    have there : ((page - 1).toNat : Int) + 1 = page := by omega
    refine ⟨(page - 1).toNat, by omega, item.toNat, ?_, there, by omega⟩
    rw [there]
    omega

theorem nodup_positions : (positions itemCounts listbox).Nodup := by
  rw [positions, List.nodup_flatMap]
  constructor
  · intro page _
    exact List.nodup_range.map fun i j same => Int.ofNat.inj (Prod.mk.inj same).2
  · refine List.nodup_range.imp ?_
    intro page other distinct place inPage inOther
    obtain ⟨_, _, here⟩ := List.mem_map.mp inPage
    obtain ⟨_, _, there⟩ := List.mem_map.mp inOther
    have same := congrArg Prod.fst (here.trans there.symm)
    dsimp only at same
    omega

theorem isNext_behindOf
    (filled : Filled itemCounts listbox) (member : place ∈ positions itemCounts listbox) :
    IsNext (positions itemCounts listbox) order place
      (behindOf itemCounts listbox.pageCount place) := by
  obtain ⟨page, item⟩ := place
  obtain ⟨pageInside, itemInside⟩ := mem_positions.mp member
  have pages := filled.pages
  simp only [behindOf]
  split
  · rename_i more
    refine ⟨mem_positions.mpr ⟨pageInside, by omega, by omega⟩, ?_, ?_⟩
    · rintro -
      refine ⟨Prod.Lex.toLex_lt_toLex.mpr (.inr ⟨rfl, Int.lt_succ item⟩), ?_⟩
      rintro ⟨p, i⟩ - less
      rw [order, order, Prod.Lex.toLex_lt_toLex] at less
      rw [order, order, Prod.Lex.toLex_le_toLex]
      exact less.imp_right fun same => ⟨same.1, same.2⟩
    · intro last
      have beyond := last (page, item + 1) (mem_positions.mpr ⟨pageInside, by omega, by omega⟩)
      rw [order, order, Prod.Lex.toLex_le_toLex] at beyond
      dsimp only at beyond
      omega
  · rename_i atEnd
    split
    · rename_i lastPage
      refine ⟨mem_positions.mpr ⟨⟨by omega, by omega⟩, by omega, filled.items 1 (by omega) pages⟩,
        ?_, ?_⟩
      · rintro ⟨⟨p, i⟩, inside, less⟩
        obtain ⟨pInside, iInside⟩ := mem_positions.mp inside
        rw [order, order, Prod.Lex.toLex_lt_toLex] at less
        dsimp only at less
        rcases less with beyond | ⟨rfl, beyond⟩ <;> omega
      · rintro - ⟨p, i⟩ inside
        obtain ⟨pInside, iInside⟩ := mem_positions.mp inside
        rw [order, order, Prod.Lex.toLex_le_toLex]
        dsimp only
        omega
    · rename_i notLast
      have nextInside : 1 ≤ page + 1 ∧ page + 1 ≤ listbox.pageCount := ⟨by omega, by omega⟩
      have some_ := filled.items _ nextInside.1 nextInside.2
      have nextMember : ((page + 1, 0) : Int × Int) ∈ positions itemCounts listbox :=
        mem_positions.mpr ⟨nextInside, by omega, by omega⟩
      have less : order (page, item) < order (page + 1, 0) :=
        Prod.Lex.toLex_lt_toLex.mpr (.inl (Int.lt_succ page))
      refine ⟨nextMember, fun _ => ⟨less, ?_⟩, fun last => ?_⟩
      · rintro ⟨p, i⟩ inside beyond
        obtain ⟨-, iInside⟩ := mem_positions.mp inside
        rw [order, order, Prod.Lex.toLex_lt_toLex] at beyond
        rw [order, order, Prod.Lex.toLex_le_toLex]
        dsimp only at beyond ⊢
        rcases beyond with beyond | ⟨rfl, beyond⟩ <;> omega
      · exact absurd (last _ nextMember) (not_le.mpr less)

theorem keyInjective_order (members : List (Int × Int)) : KeyInjective members order :=
  fun _ _ _ _ same => toLex.injective same

theorem iterate_next
    (filled : Filled itemCounts listbox) (selected : Selected itemCounts listbox) (count : Nat) :
    Moved itemCounts listbox ((ituListBoxNextImpl itemCounts)^[count] listbox)
      ((behindOf itemCounts listbox.pageCount)^[count] listbox.position) := by
  induction count with
  | zero => exact ⟨filled, selected, rfl, rfl⟩
  | succ count ih =>
    rw [Function.iterate_succ_apply', Function.iterate_succ_apply', ← ih.position, ← ih.pageCount]
    have moved := moved_next ih.filled ih.selected
    exact ⟨moved.filled, moved.selected, moved.pageCount.trans ih.pageCount, moved.position⟩

theorem position_mem (selected : Selected itemCounts listbox) :
    listbox.position ∈ positions itemCounts listbox :=
  mem_positions.mpr ⟨selected.page, selected.loaded ▸ selected.item⟩

/-- The cursor comes by every position once and in order, then to where it started, and a
step back undoes a step. -/
structure Cycles (itemCounts : Int → Int) (listbox : ItuListBox) : Prop where
  ordered :
    ∀ count, IsNext (positions itemCounts listbox) order
      ((ituListBoxNextImpl itemCounts)^[count] listbox).position
      ((ituListBoxNextImpl itemCounts)^[count + 1] listbox).position
  once :
    ((List.range (positions itemCounts listbox).length).map fun count =>
      ((ituListBoxNextImpl itemCounts)^[count + 1] listbox).position).Perm
        (positions itemCounts listbox)
  returns :
    ((ituListBoxNextImpl itemCounts)^[(positions itemCounts listbox).length] listbox).position =
      listbox.position
  prevNext :
    (ituListBoxPrevImpl itemCounts (ituListBoxNextImpl itemCounts listbox)).position =
      listbox.position
  nextPrev :
    (ituListBoxNextImpl itemCounts (ituListBoxPrevImpl itemCounts listbox)).position =
      listbox.position

/-- Each position is the one behind another. -/
theorem exists_behindOf
    (filled : Filled itemCounts listbox) (member : place ∈ positions itemCounts listbox) :
    ∃ before ∈ positions itemCounts listbox,
      place = behindOf itemCounts listbox.pageCount before := by
  obtain ⟨same, -⟩ :=
    perm_iterate nodup_positions (keyInjective_order _) (fun _ => isNext_behindOf filled) member
  obtain ⟨count, -, reached⟩ := List.mem_map.mp (same.mem_iff.mpr member)
  rw [Function.iterate_succ_apply'] at reached
  refine ⟨_, ?_, reached.symm⟩
  clear reached
  induction count with
  | zero => exact member
  | succ count ih =>
    rw [Function.iterate_succ_apply']
    exact (isNext_behindOf filled ih).member

/-- From a selected item the cursor cycles through all items of all pages. -/
theorem ituListBox_cycles
    (filled : Filled itemCounts listbox) (selected : Selected itemCounts listbox) :
    Cycles itemCounts listbox := by
  have along := iterate_next filled selected
  have member := position_mem selected
  obtain ⟨same, around⟩ :=
    perm_iterate nodup_positions (keyInjective_order _) (fun _ => isNext_behindOf filled) member
  have next := moved_next filled selected
  obtain ⟨inside, item⟩ := mem_positions.mp member
  refine ⟨fun count => ?_, ?_, ?_, ?_, ?_⟩
  · have here := along count
    have hereMember := position_mem here.selected
    have samePositions : positions itemCounts ((ituListBoxNextImpl itemCounts)^[count] listbox) =
        positions itemCounts listbox := by
      rw [positions, here.pageCount, positions]
    rw [samePositions] at hereMember
    rw [(along (count + 1)).position, Function.iterate_succ_apply', ← here.position]
    exact isNext_behindOf filled hereMember
  · simpa only [(along _).position] using same
  · rw [(along _).position, around]
  · refine (moved_prev next.filled next.selected ?_ item ?_).position
    · rw [next.pageCount]
      exact inside
    · rw [next.position, next.pageCount]
  · obtain ⟨before, beforeMember, isBehind⟩ := exists_behindOf filled member
    obtain ⟨beforeInside, beforeItem⟩ := mem_positions.mp beforeMember
    have prev := moved_prev filled selected beforeInside beforeItem isBehind
    rw [(moved_next prev.filled prev.selected).position, prev.position, prev.pageCount, isBehind]

/-- Two pages of two items and of one item, with the second item in focus. -/
def twoPages : ItuListBox :=
  let white := ItuColor.mk 255 255 255 255
  let item := ItuListItem.mk white white false 0 0 false
  ⟨false, [item, item], 1, 1, 2, 2, white, white, white, white, 0, 0, [], false⟩

def twoThenOne (page : Int) : Int := if page = 1 then 2 else 1

theorem ituListBox_cycles_twoPages : Cycles twoThenOne twoPages :=
  ituListBox_cycles
    ⟨by decide, fun page _ _ => by unfold twoThenOne; split <;> decide,
      fun page _ _ => by unfold twoThenOne; split <;> decide⟩
    ⟨by decide, by decide, by decide⟩

end Cycle

end ItuListBox

end IteSdk.Itu
