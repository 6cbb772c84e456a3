import Mathlib.Data.List.Rotate
import Mathlib.Order.Lattice
import Mathlib.Order.OrderDual

/-!
# The next element of a list by a key, around the end

`IsNext members key i j`: `j` has the next larger key, or the smallest one if there is
no larger one.  Keys that tell the members apart make this a cycle through all of
them.
-/

namespace IteSdk.Lib

universe u v

variable {α : Type u} {β : Type v} [LinearOrder β]

structure IsNext (members : List α) (key : α → β) (i j : α) : Prop where
  member : j ∈ members
  larger :
    (∃ k ∈ members, key i < key k) → key i < key j ∧ ∀ k ∈ members, key i < key k → key j ≤ key k
  around : (∀ k ∈ members, key k ≤ key i) → ∀ k ∈ members, key j ≤ key k

def KeyInjective (members : List α) (key : α → β) : Prop :=
  ∀ i ∈ members, ∀ j ∈ members, key i = key j → i = j

instance KeyInjective.decidable [DecidableEq α]
    (members : List α) (key : α → β) : Decidable (KeyInjective members key) :=
  inferInstanceAs (Decidable (∀ i ∈ members, ∀ j ∈ members, key i = key j → i = j))

namespace IsNext

variable {members : List α} {key : α → β} {i j : α}

theorem unique {other : α} (apart : KeyInjective members key) (isNext : IsNext members key i j)
    (isOther : IsNext members key i other) :
    j = other := by
  refine apart j isNext.member other isOther.member ?_
  by_cases beyond : ∃ k ∈ members, key i < key k
  · obtain ⟨less, least⟩ := isNext.larger beyond
    obtain ⟨otherLess, otherLeast⟩ := isOther.larger beyond
    exact le_antisymm (least other isOther.member otherLess) (otherLeast j isNext.member less)
  · have last : ∀ k ∈ members, key k ≤ key i := by
      intro k member
      exact not_lt.mp fun less => beyond ⟨k, member, less⟩
    exact le_antisymm (isNext.around last other isOther.member)
      (isOther.around last j isNext.member)

theorem dual (isNext : IsNext members key i j) (member : i ∈ members) :
    IsNext members (fun k => OrderDual.toDual (key k)) j i where
  member := member
  larger := by
    rintro ⟨k, kMember, less⟩
    have before : key k < key j := less
    by_cases beyond : ∃ k ∈ members, key i < key k
    · obtain ⟨after, least⟩ := isNext.larger beyond
      refine ⟨after, fun other otherMember otherLess => ?_⟩
      have otherBefore : key other < key j := otherLess
      change key other ≤ key i
      exact not_lt.mp fun more => absurd (least other otherMember more) (not_le.mpr otherBefore)
    · have last : ∀ k ∈ members, key k ≤ key i := by
        intro k member
        exact not_lt.mp fun less => beyond ⟨k, member, less⟩
      exact absurd (isNext.around last k kMember) (not_le.mpr before)
  around := by
    intro first k kMember
    change key k ≤ key i
    by_contra more
    obtain ⟨after, -⟩ := isNext.larger ⟨k, kMember, not_le.mp more⟩
    have notLess : key j ≤ key i := first i member
    exact absurd after (not_lt.mpr notLess)

theorem perm {others : List α} (isNext : IsNext members key i j) (same : members.Perm others) :
    IsNext others key i j where
  member := same.mem_iff.mp isNext.member
  larger := by
    rintro ⟨k, member, less⟩
    obtain ⟨after, least⟩ := isNext.larger ⟨k, same.mem_iff.mpr member, less⟩
    exact ⟨after, fun k member => least k (same.mem_iff.mpr member)⟩
  around := by
    intro last k member
    exact isNext.around (fun k member => last k (same.mem_iff.mp member)) k
      (same.mem_iff.mpr member)

end IsNext

section Cycle

variable {members : List α} {key : α → β}

theorem isNext_getElem
    {position : Nat} {i j : α} (sorted : members.Pairwise fun i j => key i < key j)
    (here : members[position]? = some i)
    (there : members[(position + 1) % members.length]? = some j) :
    IsNext members key i j := by
  have less := List.pairwise_iff_getElem.mp sorted
  obtain ⟨inside, isHere⟩ := List.getElem?_eq_some_iff.mp here
  obtain ⟨nextInside, isThere⟩ := List.getElem?_eq_some_iff.mp there
  refine ⟨List.mem_of_getElem? there, ?_, ?_⟩
  · rintro ⟨k, member, more⟩
    obtain ⟨place, placeInside, isPlace⟩ := List.getElem_of_mem member
    have notLast : position + 1 < members.length := by
      by_contra last
      rcases Nat.lt_or_ge place position with before | after
      · have earlier := less place position placeInside inside before
        rw [isPlace, isHere] at earlier
        exact lt_asymm earlier more
      · have same : place = position := by omega
        subst same
        rw [← isPlace, isHere] at more
        exact lt_irrefl _ more
    have next : (position + 1) % members.length = position + 1 := Nat.mod_eq_of_lt notLast
    have step := less position (position + 1) inside notLast (Nat.lt_succ_self _)
    simp only [next] at isThere
    rw [isHere, isThere] at step
    refine ⟨step, fun other otherMember otherMore => ?_⟩
    obtain ⟨otherPlace, otherInside, isOther⟩ := List.getElem_of_mem otherMember
    rcases Nat.lt_trichotomy otherPlace (position + 1) with before | same | after
    · exfalso
      rcases Nat.lt_succ_iff_lt_or_eq.mp before with earlier | same
      · have earlierLess := less otherPlace position otherInside inside earlier
        rw [isOther, isHere] at earlierLess
        exact lt_asymm earlierLess otherMore
      · subst same
        rw [← isOther, isHere] at otherMore
        exact lt_irrefl _ otherMore
    · subst same
      rw [← isOther, isThere]
    · have later := less (position + 1) otherPlace notLast otherInside after
      rw [isThere, isOther] at later
      exact le_of_lt later
  · intro last k member
    have atEnd : position + 1 = members.length := by
      by_contra notEnd
      have more := less position (position + 1) inside (by omega) (Nat.lt_succ_self _)
      rw [isHere] at more
      exact absurd (last _ (List.getElem_mem _)) (not_le.mpr more)
    have first : (position + 1) % members.length = 0 := by rw [atEnd, Nat.mod_self]
    simp only [first] at isThere
    obtain ⟨place, placeInside, isPlace⟩ := List.getElem_of_mem member
    rcases Nat.eq_zero_or_pos place with same | positive
    · subst same
      rw [← isPlace, isThere]
    · have later := less 0 place (by omega) placeInside positive
      rw [isThere, isPlace] at later
      exact le_of_lt later

theorem getElem?_iterate {next : α → α} {position : Nat} {i : α}
    (sorted : members.Pairwise fun i j => key i < key j) (apart : KeyInjective members key)
    (steps : ∀ i ∈ members, IsNext members key i (next i))
    (here : members[position]? = some i) (count : Nat) :
    members[(position + count) % members.length]? = some (next^[count] i) := by
  obtain ⟨inside, -⟩ := List.getElem?_eq_some_iff.mp here
  induction count with
  | zero =>
    rw [Nat.add_zero, Nat.mod_eq_of_lt inside]
    exact here
  | succ count along =>
    have placed : (position + count) % members.length < members.length := Nat.mod_lt _ (by omega)
    have nextPlace :
        ((position + count) % members.length + 1) % members.length =
          (position + (count + 1)) % members.length := by
      rw [Nat.mod_add_mod, Nat.add_assoc]
    obtain ⟨j, there⟩ :
        ∃ j, members[(position + (count + 1)) % members.length]? = some j :=
      ⟨_, List.getElem?_eq_getElem (Nat.mod_lt _ (by omega))⟩
    rw [there, Function.iterate_succ_apply']
    have isNext : IsNext members key (next^[count] i) j :=
      isNext_getElem sorted along (nextPlace ▸ there)
    exact congrArg some (isNext.unique apart (steps _ (List.mem_of_getElem? along)))

section

variable (nodup : members.Nodup) (apart : KeyInjective members key)

include nodup apart

theorem exists_sorted :
    ∃ sorted, members.Perm sorted ∧ sorted.Pairwise fun i j => key i < key j := by
  have ordered :
      (members.mergeSort fun i j => decide (key i ≤ key j)).Pairwise
        fun i j => decide (key i ≤ key j) = true :=
    List.pairwise_mergeSort (fun i j k => by simpa using le_trans)
      (fun i j => by simpa using le_total (key i) (key j)) members
  have same := List.mergeSort_perm members fun i j => decide (key i ≤ key j)
  refine ⟨_, same.symm, (ordered.and (same.nodup_iff.mpr nodup)).imp_of_mem ?_⟩
  rintro i j iMember jMember ⟨le, distinct⟩
  refine lt_of_le_of_ne (of_decide_eq_true le) fun sameKey => distinct ?_
  exact apart i (same.mem_iff.mp iMember) j (same.mem_iff.mp jMember) sameKey

theorem exists_isNext {i : α} (member : i ∈ members) : ∃ j, IsNext members key i j := by
  obtain ⟨sorted, same, less⟩ := exists_sorted nodup apart
  obtain ⟨position, inside, here⟩ := List.getElem_of_mem (same.mem_iff.mp member)
  have nextInside : (position + 1) % sorted.length < sorted.length := Nat.mod_lt _ (by omega)
  have isNext :=
    isNext_getElem less (List.getElem?_eq_some_iff.mpr ⟨inside, here⟩)
      (List.getElem?_eq_getElem nextInside)
  exact ⟨_, isNext.perm same.symm⟩

/-- As many steps as there are members come by every member once and end where they
began. -/
theorem perm_iterate {next : α → α} {i : α} (steps : ∀ i ∈ members, IsNext members key i (next i))
    (member : i ∈ members) :
    ((List.range members.length).map fun count => next^[count + 1] i).Perm members ∧
      next^[members.length] i = i := by
  obtain ⟨sorted, same, less⟩ := exists_sorted nodup apart
  have sameLength := same.length_eq
  have sortedApart : KeyInjective sorted key := fun i iMember j jMember =>
    apart i (same.mem_iff.mpr iMember) j (same.mem_iff.mpr jMember)
  have sortedSteps : ∀ i ∈ sorted, IsNext sorted key i (next i) := fun i iMember =>
    (steps i (same.mem_iff.mpr iMember)).perm same
  obtain ⟨position, inside, here⟩ := List.getElem_of_mem (same.mem_iff.mp member)
  have along :=
    getElem?_iterate less sortedApart sortedSteps (List.getElem?_eq_some_iff.mpr ⟨inside, here⟩)
  constructor
  · have rotated :
        ((List.range members.length).map fun count => next^[count + 1] i) =
          sorted.rotate (position + 1) := by
      apply List.ext_getElem?
      intro count
      rw [sameLength]
      rcases Nat.lt_or_ge count sorted.length with less | more
      · rw [List.getElem?_rotate less, List.getElem?_map, List.getElem?_range less]
        have place : count + (position + 1) = position + (count + 1) := by omega
        rw [place, along (count + 1)]
        rfl
      · rw [List.getElem?_eq_none (by simpa using more),
          List.getElem?_eq_none (by simpa using more)]
    rw [rotated]
    exact (List.rotate_perm _ _).trans same.symm
  · have around := along members.length
    rw [sameLength, Nat.add_mod_right, Nat.mod_eq_of_lt inside,
      List.getElem?_eq_getElem inside, here, ← sameLength] at around
    exact (Option.some.inj around).symm

end

end Cycle

end IteSdk.Lib
