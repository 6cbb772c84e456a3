import Mathlib.Data.List.Nodup
import Mathlib.Logic.Function.Basic

/-!
# Doubly linked lists

The nodes of an intrusive list are found only through their pointers.  The list
itself has the same two pointers as a node: `next` leads to the first node and
`prev` to the last one, and both are null when the list is empty.  The `prev` of
the first node leads back to the list.
-/

namespace IteSdk.Lib

universe u

variable {ν : Type u}

inductive Pointer (ν : Type u)
  | null
  | list
  | node (n : ν)
  deriving DecidableEq

structure Links (ν : Type u) where
  next : Pointer ν → Pointer ν
  prev : Pointer ν → Pointer ν

namespace Links

def cleared : Links ν := ⟨fun _ => .null, fun _ => .null⟩

def setNext [DecidableEq ν] (links : Links ν) (place value : Pointer ν) : Links ν :=
  { links with next := Function.update links.next place value }

def setPrev [DecidableEq ν] (links : Links ν) (place value : Pointer ν) : Links ν :=
  { links with prev := Function.update links.prev place value }

/-- The nodes that a loop along `next` visits until it meets a null pointer,
unless the fuel runs out first. -/
@[grind =]
def visited (links : Links ν) : Nat → Pointer ν → Option (List ν)
  | 0, _ => none
  | _ + 1, .null => some []
  | _ + 1, .list => none
  | fuel + 1, .node n =>
    (links.visited fuel (links.next (.node n))).map (n :: ·)

/-- The last place of a list that starts behind `place`. -/
@[grind =]
def last (place : Pointer ν) : List ν → Pointer ν
  | [] => place
  | n :: rest => last (.node n) rest

def first : List ν → Pointer ν
  | [] => .null
  | n :: _ => .node n

/-- The place whose `prev` leads to what is in front of some nodes. -/
def back : List ν → Pointer ν
  | [] => .list
  | n :: _ => .node n

/-- `nodes` are linked one behind the other, behind `place`. -/
@[grind =]
def Segment (links : Links ν) (place : Pointer ν) : List ν → Prop
  | [] => True
  | n :: rest =>
    links.next place = .node n ∧ links.prev (.node n) = place ∧ Segment links (.node n) rest

/-- The list ends at `place`. -/
structure Ends (links : Links ν) (place : Pointer ν) : Prop where
  next : links.next place = .null
  prevList : place ≠ .list → links.prev .list = place
  prevEmpty : place = .list → links.prev .list = .null

/-- The list consists of `nodes`, in this order. -/
structure Represents (links : Links ν) (nodes : List ν) : Prop where
  nodup : nodes.Nodup
  segment : links.Segment .list nodes
  ends : links.Ends (last .list nodes)

theorem last_append (place : Pointer ν) (front rest : List ν) :
    last place (front ++ rest) = last (last place front) rest := by
  induction front generalizing place with
  | nil => rfl
  | cons n front ih => exact ih _

theorem last_mem (place : Pointer ν) (nodes : List ν) :
    last place nodes = place ∨ ∃ n ∈ nodes, last place nodes = .node n := by
  induction nodes generalizing place with
  | nil => exact Or.inl rfl
  | cons n rest ih =>
    right
    rcases ih (.node n) with same | ⟨m, member, same⟩
    · exact ⟨n, List.mem_cons_self, same⟩
    · exact ⟨m, List.mem_cons_of_mem n member, same⟩

theorem last_ne_node {nodes : List ν} {n : ν} (absent : n ∉ nodes) :
    last .list nodes ≠ .node n := by
  rcases last_mem .list nodes with same | ⟨m, member, same⟩
  · rw [same]
    exact nofun
  · rw [same]
    intro equal
    cases equal
    exact absent member

theorem segment_append {links : Links ν} {place : Pointer ν} {front rest : List ν} :
    links.Segment place (front ++ rest) ↔
      links.Segment place front ∧ links.Segment (last place front) rest := by
  induction front generalizing place with
  | nil => exact (and_iff_right trivial).symm
  | cons n front ih =>
    simp only [List.cons_append, Segment, last, ih, and_assoc]

/-- A segment depends on the `next` of its places but the last one, and on the
`prev` of its nodes. -/
theorem Segment.congr {links links' : Links ν} {place : Pointer ν} {nodes : List ν}
    (segment : links.Segment place nodes)
    (nodup : nodes.Nodup) (outside : ∀ n ∈ nodes, place ≠ .node n)
    (nextSame :
      ∀ other, other = place ∨ (∃ n ∈ nodes, other = .node n) →
        other ≠ last place nodes → links'.next other = links.next other)
    (prevSame : ∀ n ∈ nodes, links'.prev (.node n) = links.prev (.node n)) :
    links'.Segment place nodes := by
  induction nodes generalizing place with
  | nil => trivial
  | cons n rest ih =>
    obtain ⟨nextPlace, prevNode, restSegment⟩ := segment
    obtain ⟨absent, restNodup⟩ := List.nodup_cons.mp nodup
    refine ⟨?_, ?_, ih restSegment restNodup ?_ ?_ ?_⟩
    · rw [nextSame place (Or.inl rfl), nextPlace]
      rcases last_mem (.node n) rest with same | ⟨m, member, same⟩
      · rw [last, same]
        exact outside n List.mem_cons_self
      · rw [last, same]
        exact outside m (List.mem_cons_of_mem n member)
    · rw [prevSame n List.mem_cons_self, prevNode]
    · intro m member same
      cases same
      exact absent member
    · intro other here
      apply nextSame other
      right
      rcases here with same | ⟨m, member, same⟩
      · exact ⟨n, List.mem_cons_self, same⟩
      · exact ⟨m, List.mem_cons_of_mem n member, same⟩
    · intro m member
      exact prevSame m (List.mem_cons_of_mem n member)

namespace Represents

variable {links links' : Links ν} {front rest : List ν} {n : ν}

section

variable (represents : links.Represents (front ++ rest))

include represents

theorem rebase {place : Pointer ν} (notInside : ∀ m ∈ rest, place ≠ .node m)
    (nextPlace : links'.next place = links.next (last .list front))
    (prevBack : rest ≠ [] ∨ place ≠ .list → links'.prev (back rest) = place)
    (prevEmpty : rest = [] → place = .list → links'.prev .list = .null)
    (nextSame : ∀ m ∈ rest, links'.next (.node m) = links.next (.node m))
    (prevSame : ∀ m ∈ rest, .node m ≠ back rest → links'.prev (.node m) = links.prev (.node m))
    (listSame : rest ≠ [] → links'.prev .list = links.prev .list) :
    links'.Segment place rest ∧ links'.Ends (last place rest) := by
  have segment := (segment_append.mp represents.segment).2
  have ends := represents.ends
  rw [last_append] at ends
  have nodup := (List.nodup_append.mp represents.nodup).2.1
  cases rest with
  | nil =>
    refine ⟨trivial, nextPlace.trans ends.next, ?_, prevEmpty rfl⟩
    intro elsewhere
    exact prevBack (Or.inr elsewhere)
  | cons m rest =>
    obtain ⟨nextGap, -, restSegment⟩ := segment
    obtain ⟨absent, restNodup⟩ := List.nodup_cons.mp nodup
    have notNull : last (Pointer.node m) rest ≠ .list := by
      rcases last_mem (.node m) rest with same | ⟨k, -, same⟩
      · rw [same]
        exact nofun
      · rw [same]
        exact nofun
    have lastSame :
        links'.next (last (.node m) rest) = links.next (last (.node m) rest) := by
      rcases last_mem (.node m) rest with same | ⟨k, member, same⟩
      · rw [same]
        exact nextSame m List.mem_cons_self
      · rw [same]
        exact nextSame k (List.mem_cons_of_mem m member)
    refine ⟨⟨nextPlace.trans nextGap, prevBack (Or.inl (by simp)), ?_⟩, ?_⟩
    · apply restSegment.congr restNodup
      · intro k member same
        cases same
        exact absent member
      · intro other here _
        rcases here with rfl | ⟨k, member, rfl⟩
        · exact nextSame m List.mem_cons_self
        · exact nextSame k (List.mem_cons_of_mem m member)
      · intro k member
        apply prevSame k (List.mem_cons_of_mem m member)
        intro same
        cases same
        exact absent member
    · refine ⟨lastSame.trans ends.next, fun _ => ?_, fun same => ?_⟩
      · rw [listSame (by simp)]
        exact ends.prevList notNull
      · exact absurd same notNull

theorem front_congr
    (nextSame :
      ∀ place, place ≠ last .list front →
        (place = .list ∨ ∃ m ∈ front, place = .node m) → links'.next place = links.next place)
    (prevSame : ∀ m ∈ front, links'.prev (.node m) = links.prev (.node m)) :
    links'.Segment .list front := by
  apply (segment_append.mp represents.segment).1.congr (List.nodup_append.mp represents.nodup).1
  · intro m _ same
    cases same
  · intro place here other
    exact nextSame place other here
  · exact prevSame

theorem insert (fresh : n ∉ front ++ rest) (nextFront : links'.next (last .list front) = .node n)
    (prevNode : links'.prev (.node n) = last .list front)
    (nextNode : links'.next (.node n) = links.next (last .list front))
    (prevBack : links'.prev (back rest) = .node n)
    (nextSame :
      ∀ place, place ≠ last .list front → place ≠ .node n → links'.next place = links.next place)
    (prevSame :
      ∀ place, place ≠ back rest → place ≠ .node n → links'.prev place = links.prev place) :
    links'.Represents (front ++ n :: rest) := by
  rw [List.mem_append, not_or] at fresh
  obtain ⟨frontNodup, restNodup, apart⟩ := List.nodup_append.mp represents.nodup
  have different : ∀ m, m ∈ front ∨ m ∈ rest → Pointer.node m ≠ .node n := by
    intro m member same
    cases same
    exact member.elim fresh.1 fresh.2
  have frontSegment : links'.Segment .list front := by
    apply represents.front_congr
    · intro place other here
      apply nextSame place other
      rcases here with rfl | ⟨m, member, rfl⟩
      · exact nofun
      · exact different m (Or.inl member)
    · intro m member
      apply prevSame _ _ (different m (Or.inl member))
      cases rest with
      | nil => exact nofun
      | cons k rest =>
        intro same
        cases same
        exact apart m member m List.mem_cons_self rfl
  have behind :
      links'.Segment (.node n) rest ∧ links'.Ends (last (.node n) rest) := by
    apply represents.rebase
    · intro m member same
      cases same
      exact fresh.2 member
    · exact nextNode
    · exact fun _ => prevBack
    · intro _ same
      cases same
    · intro m member
      apply nextSame _ _ (different m (Or.inr member))
      rcases last_mem .list front with same | ⟨k, other, same⟩
      · rw [same]
        exact nofun
      · rw [same]
        intro equal
        cases equal
        exact apart m other m member rfl
    · intro m member other
      exact prevSame _ other (different m (Or.inr member))
    · intro nonempty
      apply prevSame
      · cases rest with
        | nil => exact absurd rfl nonempty
        | cons m rest => exact nofun
      · exact nofun
  refine ⟨?_, segment_append.mpr ⟨frontSegment, nextFront, prevNode, behind.1⟩, ?_⟩
  · rw [List.nodup_append]
    refine ⟨frontNodup, List.nodup_cons.mpr ⟨fresh.2, restNodup⟩, ?_⟩
    intro m member k other
    rcases List.mem_cons.mp other with rfl | other
    · rintro rfl
      exact fresh.1 member
    · exact apart m member k other
  · rw [last_append]
    exact behind.2

end

theorem remove (represents : links.Represents (front ++ n :: rest))
    (nextFront : links'.next (last .list front) = links.next (.node n))
    (prevBack : rest ≠ [] ∨ last .list front ≠ .list → links'.prev (back rest) = last .list front)
    (prevEmpty : rest = [] → last .list front = .list → links'.prev .list = .null)
    (nextSame : ∀ place, place ≠ last .list front → links'.next place = links.next place)
    (prevSame : ∀ place, place ≠ back rest → links'.prev place = links.prev place) :
    links'.Represents (front ++ rest) := by
  obtain ⟨frontNodup, nodeNodup, apart⟩ := List.nodup_append.mp represents.nodup
  obtain ⟨absent, restNodup⟩ := List.nodup_cons.mp nodeNodup
  have lastOutside : ∀ m ∈ rest, last .list front ≠ .node m := by
    intro m member
    apply last_ne_node
    intro other
    exact apart m other m (List.mem_cons_of_mem n member) rfl
  have frontSegment : links'.Segment .list front := by
    apply represents.front_congr
    · intro place other _
      exact nextSame place other
    · intro m member
      apply prevSame
      cases rest with
      | nil => exact nofun
      | cons k rest =>
        intro same
        cases same
        exact apart m member m (List.mem_cons_of_mem n List.mem_cons_self) rfl
  have split : front ++ n :: rest = (front ++ [n]) ++ rest := by simp
  have behind :
      links'.Segment (last .list front) rest ∧ links'.Ends (last (last .list front) rest) := by
    rw [split] at represents
    apply represents.rebase lastOutside
    · rw [last_append]
      exact nextFront
    · exact prevBack
    · exact prevEmpty
    · intro m member
      exact nextSame _ (lastOutside m member).symm
    · intro m _ other
      exact prevSame _ other
    · intro nonempty
      apply prevSame
      cases rest with
      | nil => exact absurd rfl nonempty
      | cons m rest => exact nofun
  refine ⟨?_, segment_append.mpr ⟨frontSegment, behind.1⟩, ?_⟩
  · rw [List.nodup_append]
    refine ⟨frontNodup, restNodup, ?_⟩
    intro m member k other
    exact apart m member k (List.mem_cons_of_mem n other)
  · rw [last_append]
    exact behind.2

theorem next_last (represents : links.Represents (front ++ rest)) :
    links.next (last .list front) = first rest := by
  have segment := (segment_append.mp represents.segment).2
  have ends := represents.ends
  cases rest with
  | nil =>
    rw [List.append_nil] at ends
    exact ends.next
  | cons m rest => exact segment.1

theorem next_node (represents : links.Represents (front ++ n :: rest)) :
    links.next (.node n) = first rest := by
  have split : front ++ n :: rest = (front ++ [n]) ++ rest := by simp
  rw [split] at represents
  have next := represents.next_last
  rwa [last_append] at next

theorem prev_node (represents : links.Represents (front ++ n :: rest)) :
    links.prev (.node n) = last .list front :=
  (segment_append.mp represents.segment).2.2.1

theorem prev_list (represents : links.Represents (front ++ [n])) : links.prev .list = .node n := by
  have ends := represents.ends
  rw [last_append] at ends
  exact ends.prevList nofun

/-- The `prev` pointers of the list and of its nodes lead to different places,
so only the last node is where the list's own one leads. -/
theorem prev_list_iff (represents : links.Represents (front ++ n :: rest)) :
    links.prev .list = .node n ↔ rest = [] := by
  constructor
  · intro same
    by_contra nonempty
    obtain ⟨initial, m, rfl⟩ := List.eq_nil_or_concat rest |>.resolve_left nonempty
    have split :
        front ++ n :: initial.concat m = (front ++ n :: initial) ++ [m] := by
      simp
    have nodup := represents.nodup
    rw [split] at represents
    have equal := represents.prev_list.symm.trans same
    cases equal
    have absent := (List.nodup_cons.mp (List.nodup_append.mp nodup).2.1).1
    exact absent (by simp)
  · rintro rfl
    exact represents.prev_list

theorem visited_next {place : Pointer ν} {nodes : List ν}
    (segment : links.Segment place nodes) (ended : links.next (last place nodes) = .null)
    {fuel : Nat} (enough : nodes.length < fuel) :
    links.visited fuel (links.next place) = some nodes := by
  induction nodes generalizing place fuel with
  | nil =>
    obtain ⟨less, rfl⟩ := Nat.exists_eq_succ_of_ne_zero (Nat.pos_iff_ne_zero.mp enough)
    rw [show links.next place = .null from ended]
    rfl
  | cons m rest ih =>
    obtain ⟨less, rfl⟩ := Nat.exists_eq_succ_of_ne_zero (Nat.ne_zero_of_lt enough)
    obtain ⟨nextPlace, -, restSegment⟩ := segment
    have visited := ih restSegment ended (Nat.lt_of_succ_lt_succ enough)
    rw [nextPlace, Links.visited, visited]
    rfl

theorem visited {nodes : List ν} (represents : links.Represents nodes)
    {fuel : Nat} (enough : nodes.length < fuel) :
    links.visited fuel (links.next .list) = some nodes :=
  visited_next represents.segment represents.ends.next enough

end Represents

end Links

end IteSdk.Lib
