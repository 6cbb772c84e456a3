import IteSdk.Lib.LinkedList

/-!
# The list functions of the hardware layer

`ithListPushFront`, `ithListInsertBefore`, `ithListInsertAfter` and
`ithListRemove` of `ith_utility.c`, statement by statement.
-/

namespace IteSdk.Ith

open Lib Lib.Links

universe u

variable {ν : Type u} [DecidableEq ν]

def ithListPushFront (links : Links ν) (node : ν) : Links ν :=
  let links :=
    if links.next .list = .null then
      (links.setPrev .list (.node node)).setNext (.node node) .null
    else
      let links := links.setNext (.node node) (links.next .list)
      links.setPrev (links.next (.node node)) (.node node)
  (links.setNext .list (.node node)).setPrev (.node node) .list

def ithListInsertBefore (links : Links ν) (listNode node : ν) : Links ν :=
  let links := links.setPrev (.node node) (links.prev (.node listNode))
  let links := links.setNext (.node node) (.node listNode)
  let links := links.setNext (links.prev (.node listNode)) (.node node)
  links.setPrev (.node listNode) (.node node)

def ithListInsertAfter (links : Links ν) (listNode node : ν) : Links ν :=
  let links := links.setNext (.node node) (links.next (.node listNode))
  let links := links.setPrev (.node node) (.node listNode)
  let links :=
    if links.next (.node listNode) ≠ .null then
      links.setPrev (links.next (.node listNode)) (.node node)
    else
      links.setPrev .list (.node node)
  links.setNext (.node listNode) (.node node)

def ithListRemove (links : Links ν) (node : ν) : Links ν :=
  let links :=
    if links.prev .list = .node node then
      links.setPrev .list
        (if links.prev (.node node) = .list then
          .null
        else
          links.prev (.node node))
    else
      links
  let links :=
    if links.next (.node node) ≠ .null then
      links.setPrev (links.next (.node node)) (links.prev (.node node))
    else
      links
  links.setNext (links.prev (.node node)) (links.next (.node node))

section Represents

variable {links : Links ν} {front rest : List ν} {listNode node : ν}

theorem ithListPushFront_cleared (node : ν) :
    (ithListPushFront Links.cleared node).Represents [node] where
  nodup := List.nodup_singleton node
  segment := by simp [ithListPushFront, cleared, Segment, setNext, setPrev]
  ends := by
    constructor <;> simp [ithListPushFront, cleared, last, setNext, setPrev]

theorem ithListInsertBefore_represents (represents : links.Represents (front ++ listNode :: rest))
    (fresh : node ∉ front ++ listNode :: rest) :
    (ithListInsertBefore links listNode node).Represents (front ++ node :: listNode :: rest) := by
  have prev := represents.prev_node
  have next := represents.next_last
  have listNodeNe : listNode ≠ node := by
    rintro rfl
    exact fresh (by simp)
  have lastNe : last .list front ≠ .node node := by
    apply last_ne_node
    intro member
    exact fresh (List.mem_append_left _ member)
  have back : back (listNode :: rest) = .node listNode := rfl
  apply represents.insert fresh
  · simp [ithListInsertBefore, setNext, setPrev, prev, listNodeNe]
  · simp [ithListInsertBefore, setNext, setPrev, prev, listNodeNe.symm]
  · simp [ithListInsertBefore, setNext, setPrev, prev, next, first, listNodeNe, lastNe.symm]
  · simp [ithListInsertBefore, setNext, setPrev, back]
  · intro place notLast notNode
    simp [ithListInsertBefore, setNext, setPrev, prev, listNodeNe, notLast, notNode]
  · intro place notBack notNode
    rw [back] at notBack
    simp [ithListInsertBefore, setNext, setPrev, notBack, notNode]

theorem ithListInsertAfter_represents (represents : links.Represents (front ++ listNode :: rest))
    (fresh : node ∉ front ++ listNode :: rest) :
    (ithListInsertAfter links listNode node).Represents (front ++ listNode :: node :: rest) := by
  have next := represents.next_node
  have listNodeNe : listNode ≠ node := by
    rintro rfl
    exact fresh (by simp)
  have split : ∀ nodes : List ν, front ++ listNode :: nodes = (front ++ [listNode]) ++ nodes := by
    simp
  have stop : last .list (front ++ [listNode]) = .node listNode := by
    rw [last_append]
    rfl
  rw [split] at represents fresh ⊢
  apply represents.insert fresh
  · simp [ithListInsertAfter, setNext, stop]
  · rw [stop]
    cases rest with
    | nil =>
      simp [ithListInsertAfter, setNext, setPrev, next, first, listNodeNe]
    | cons m rest =>
      have different : node ≠ m := by
        rintro rfl
        exact fresh (by simp)
      simp [ithListInsertAfter, setNext, setPrev, next, first, listNodeNe, different]
  · rw [stop]
    cases rest with
    | nil | cons m rest =>
      simp [ithListInsertAfter, setNext, setPrev, next, first, listNodeNe, listNodeNe.symm]
  · cases rest with
    | nil | cons m rest =>
      simp [ithListInsertAfter, setNext, setPrev, next, first, back, listNodeNe]
  · intro place notLast notNode
    rw [stop] at notLast
    cases rest with
    | nil | cons m rest =>
      simp [ithListInsertAfter, setNext, setPrev, next, first, listNodeNe, notLast, notNode]
  · intro place notBack notNode
    cases rest with
    | nil | cons m rest =>
      rw [back] at notBack
      simp [ithListInsertAfter, setNext, setPrev, next, first, listNodeNe, notBack, notNode]

theorem ithListRemove_represents (represents : links.Represents (front ++ node :: rest)) :
    (ithListRemove links node).Represents (front ++ rest) := by
  have next := represents.next_node
  have prev := represents.prev_node
  have list := represents.prev_list_iff
  have nodeRest : node ∉ rest := (List.nodup_cons.mp (List.nodup_append.mp represents.nodup).2.1).1
  cases rest with
  | nil =>
    have list := list.mpr rfl
    apply represents.remove
    · simp [ithListRemove, setNext, setPrev, next, prev, list, first]
    · intro elsewhere
      have elsewhere := elsewhere.resolve_left (fun h => h rfl)
      simp [ithListRemove, setNext, setPrev, next, prev, list, first, back, elsewhere]
    · intro _ empty
      simp [ithListRemove, setNext, setPrev, next, prev, list, first, empty]
    · intro place notLast
      simp [ithListRemove, setNext, setPrev, next, prev, list, first, notLast]
    · intro place notBack
      rw [back] at notBack
      simp [ithListRemove, setNext, setPrev, next, list, first, notBack]
  | cons m rest =>
    have list : links.prev .list ≠ .node node := by
      intro same
      cases list.mp same
    have different : node ≠ m := by
      rintro rfl
      exact nodeRest List.mem_cons_self
    apply represents.remove
    · simp [ithListRemove, setNext, setPrev, next, prev, list, first, different]
    · intro _
      simp [ithListRemove, setNext, setPrev, next, prev, list, first, back]
    · intro empty
      cases empty
    · intro place notLast
      simp [ithListRemove, setNext, setPrev, next, prev, list, first, notLast, different]
    · intro place notBack
      rw [back] at notBack
      simp [ithListRemove, setNext, setPrev, next, list, first, notBack]

end Represents

end IteSdk.Ith
