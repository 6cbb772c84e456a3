import Mathlib.Data.List.Basic

/-!
# Threads in a list

A list gives each thread its program counter.  `AtMostOne` says that no two
threads are at a place of some kind at the same time.
-/

namespace IteSdk.Lib

universe u

variable {α : Type u}

def AtMostOne (at_ : α → Prop) (threads : List α) : Prop :=
  ∀ first second : Nat, ∀ one other : α,
    threads[first]? = some one → threads[second]? = some other →
      at_ one → at_ other → first = second

namespace AtMostOne

variable {at_ : α → Prop} {threads : List α}

theorem nil : AtMostOne at_ [] := by
  intro first second one other found
  simp at found

theorem of_none (none_ : ∀ pc ∈ threads, ¬ at_ pc) : AtMostOne at_ threads := by
  intro first second one other found _ place
  exact absurd place (none_ one (List.mem_of_getElem? found))

theorem set (once : AtMostOne at_ threads) {thread : Nat} {before after : α}
    (here : threads[thread]? = some before) (moves : at_ after → at_ before) :
    AtMostOne at_ (threads.set thread after) := by
  have was :
      ∀ (index : Nat) (pc : α),
        (threads.set thread after)[index]? = some pc → at_ pc →
          ∃ old, threads[index]? = some old ∧ at_ old := by
    intro index pc found place
    by_cases same : thread = index
    · subst same
      have bound := (List.getElem?_eq_some_iff.mp here).1
      rw [List.getElem?_set_self bound] at found
      exact ⟨before, here, moves (Option.some.inj found ▸ place)⟩
    · rw [List.getElem?_set_ne same] at found
      exact ⟨pc, found, place⟩
  intro first second one other foundFirst foundSecond placeFirst placeSecond
  obtain ⟨oldFirst, hereFirst, wasFirst⟩ := was first one foundFirst placeFirst
  obtain ⟨oldSecond, hereSecond, wasSecond⟩ := was second other foundSecond placeSecond
  exact once _ _ _ _ hereFirst hereSecond wasFirst wasSecond

theorem set_of_none (none_ : ∀ pc ∈ threads, ¬ at_ pc) (thread : Nat) (after : α) :
    AtMostOne at_ (threads.set thread after) := by
  have where_ :
      ∀ (index : Nat) (pc : α),
        (threads.set thread after)[index]? = some pc → at_ pc → index = thread := by
    intro index pc found place
    by_contra different
    rw [List.getElem?_set_ne (Ne.symm different)] at found
    exact none_ pc (List.mem_of_getElem? found) place
  intro first second one other foundFirst foundSecond placeFirst placeSecond
  rw [where_ first one foundFirst placeFirst, where_ second other foundSecond placeSecond]

theorem append_of_none (none_ : ∀ pc ∈ threads, ¬ at_ pc) (new : α) :
    AtMostOne at_ (threads ++ [new]) := by
  have where_ :
      ∀ (index : Nat) (pc : α),
        (threads ++ [new])[index]? = some pc → at_ pc → index = threads.length := by
    intro index pc found place
    have bound := (List.getElem?_eq_some_iff.mp found).1
    rw [List.length_append, List.length_singleton] at bound
    by_contra different
    rw [List.getElem?_append_left (by omega)] at found
    exact none_ pc (List.mem_of_getElem? found) place
  intro first second one other foundFirst foundSecond placeFirst placeSecond
  rw [where_ first one foundFirst placeFirst, where_ second other foundSecond placeSecond]

theorem mono {weaker : α → Prop} (once : AtMostOne weaker threads)
    (implied : ∀ pc, at_ pc → weaker pc) :
    AtMostOne at_ threads := by
  intro first second one other foundFirst foundSecond placeFirst placeSecond
  exact once _ _ _ _ foundFirst foundSecond (implied one placeFirst) (implied other placeSecond)

end AtMostOne

variable {thread : Nat} {threads : List α}

theorem mem_set {after pc : α} (member : pc ∈ threads.set thread after) :
    pc = after ∨ ∃ index, index ≠ thread ∧ threads[index]? = some pc := by
  obtain ⟨index, found⟩ := List.getElem?_of_mem member
  by_cases same : thread = index
  · subst same
    have bound := (List.getElem?_eq_some_iff.mp found).1
    rw [List.length_set] at bound
    rw [List.getElem?_set_self bound] at found
    exact .inl (Option.some.inj found).symm
  · rw [List.getElem?_set_ne same] at found
    exact .inr ⟨index, Ne.symm same, found⟩

theorem forall_set {holds : Nat → α → Prop} {after : α} (own : holds thread after)
    (others : ∀ other pc, other ≠ thread → threads[other]? = some pc → holds other pc) :
    ∀ other pc, (threads.set thread after)[other]? = some pc → holds other pc := by
  intro other pc found
  by_cases same : thread = other
  · subst same
    have bound := (List.getElem?_eq_some_iff.mp found).1
    rw [List.length_set] at bound
    rw [List.getElem?_set_self bound] at found
    exact Option.some.inj found ▸ own
  · rw [List.getElem?_set_ne same] at found
    exact others other pc (Ne.symm same) found

theorem countP_set_add {at_ : α → Bool}
    {before : α} (after : α) (here : threads[thread]? = some before) :
    (threads.set thread after).countP at_ + (if at_ before then 1 else 0) =
      threads.countP at_ + (if at_ after then 1 else 0) := by
  obtain ⟨bound, value⟩ := List.getElem?_eq_some_iff.mp here
  have counted := List.boole_getElem_le_countP (p := at_) bound
  rw [List.countP_set bound]
  rw [value] at counted ⊢
  omega

theorem mem_set_of_ne {before after pc : α}
    (here : threads[thread]? = some before) (member : pc ∈ threads) (different : pc ≠ before) :
    pc ∈ threads.set thread after := by
  obtain ⟨index, found⟩ := List.getElem?_of_mem member
  have apart : thread ≠ index := by
    rintro rfl
    exact different (Option.some.inj (found.symm.trans here))
  refine List.mem_of_getElem? (i := index) ?_
  rw [List.getElem?_set_ne apart, found]

theorem mem_set_self {before : α} (after : α) (here : threads[thread]? = some before) :
    after ∈ threads.set thread after :=
  List.mem_set (List.getElem?_eq_some_iff.mp here).1 after

theorem exists_mem_set {at_ : α → Prop} {before after : α} (here : threads[thread]? = some before)
    (stays : at_ before → at_ after) (one : ∃ pc ∈ threads, at_ pc) :
    ∃ pc ∈ threads.set thread after, at_ pc := by
  obtain ⟨pc, member, place⟩ := one
  by_cases moved : at_ before
  · exact ⟨after, mem_set_self after here, stays moved⟩
  · have different : pc ≠ before := by
      rintro rfl
      exact moved place
    exact ⟨pc, mem_set_of_ne here member different, place⟩

theorem set_eq_self {pc : α} (here : threads[thread]? = some pc) :
    threads.set thread pc = threads := by
  obtain ⟨bound, value⟩ := List.getElem?_eq_some_iff.mp here
  rw [← value]
  exact List.set_getElem_self bound

end IteSdk.Lib
