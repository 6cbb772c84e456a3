import IteSdk.Lib.Chain
import IteSdk.Lib.CircularList

/-!
# Open doubly linked lists

The pointers of `RingLinks` when they form a list with two ends: behind the last
node and in front of the first one they are null.  Each operation is that of one
direction, done in both.
-/

namespace IteSdk.Lib

universe u

variable {ν : Type u}

theorem Chain.remove [DecidableEq ν] {next : ν → Option ν} {start : Option ν}
    {front rest : List ν} {n : ν} (chain : Chain next start (front ++ n :: rest) none) :
    match front.getLast? with
    | none => Chain next (next n) (front ++ rest) none
    | some last =>
      Chain (Function.update next last (next n)) start (front ++ rest) none := by
  rcases List.eq_nil_or_concat front with rfl | ⟨earlier, last, rfl⟩
  · exact (chain_split.mp chain).2
  · rw [List.concat_eq_append] at chain ⊢
    have nodup := chain.nodup
    rw [List.append_assoc] at nodup
    have lastFresh : last ∉ earlier ∧ last ∉ rest := by
      have parts := List.nodup_append.mp nodup
      have tailFresh := (List.nodup_cons.mp parts.2.1).1
      constructor
      · intro inside
        exact parts.2.2 last inside last List.mem_cons_self rfl
      · intro behind
        exact tailFresh (List.mem_cons_of_mem n behind)
    obtain ⟨toNode, behind⟩ := chain_split.mp chain
    have toLast := (chain_split.mp toNode).1
    rw [List.getLast?_concat]
    refine chain_append.mpr ⟨next n, ?_, ?_⟩
    · exact toLast.redirect lastFresh.1 (next n)
    · exact behind.update_of_notMem lastFresh.2 (next n)

namespace RingLinks

/-- The nodes are a list, in this order, seen from both ends. -/
structure Line (links : RingLinks ν) (nodes : List ν) : Prop where
  forward : Chain links.next nodes.head? nodes none
  backward : Chain links.prev nodes.getLast? nodes.reverse none

variable {links : RingLinks ν} {nodes front rest : List ν} {n last : ν}

theorem Line.nil : links.Line [] := ⟨rfl, rfl⟩

theorem Line.nodup (line : links.Line nodes) : nodes.Nodup := line.forward.nodup

theorem Line.congr {links' : RingLinks ν} (line : links.Line nodes)
    (next : ∀ n ∈ nodes, links'.next n = links.next n)
    (prev : ∀ n ∈ nodes, links'.prev n = links.prev n) :
    links'.Line nodes where
  forward := line.forward.congr next
  backward := line.backward.congr fun n member => prev n (List.mem_reverse.mp member)

section

variable (line : links.Line (front ++ n :: rest))

include line

theorem Line.next_eq : links.next n = rest.head? := by
  have behind := (chain_split.mp line.forward).2
  cases rest with
  | nil => exact behind
  | cons m rest => exact behind.1

theorem Line.prev_eq : links.prev n = front.getLast? := by
  have backward := line.backward
  rw [List.reverse_append, List.reverse_cons, List.append_assoc, List.singleton_append] at backward
  have before := (chain_split.mp backward).2
  rw [← List.head?_reverse]
  cases shape : front.reverse with
  | nil =>
    rw [shape] at before
    exact before
  | cons m others =>
    rw [shape] at before
    exact before.1

theorem Line.prev_ne : links.prev n ≠ some n := by
  rw [line.prev_eq]
  intro same
  have inside : n ∈ front := List.mem_of_getLast? same
  exact (List.nodup_append.mp line.nodup).2.2 n inside n List.mem_cons_self rfl

theorem Line.seek_prev (fuel : Nat) (enough : front.length < fuel) :
    seek links.prev Option.isNone fuel n = (front ++ n :: rest).head? := by
  have backward := line.backward
  rw [List.reverse_append, List.reverse_cons, List.append_assoc, List.singleton_append] at backward
  have before : Chain links.prev (some n) (n :: front.reverse) none :=
    ⟨rfl, (chain_split.mp backward).2⟩
  cases front with
  | nil =>
    have alone : Chain links.prev (some n) ([] ++ [n]) none := before
    exact seek_chain alone (by simp) rfl enough
  | cons first front =>
    rw [List.reverse_cons, ← List.cons_append] at before
    refine seek_chain before (by simp) rfl ?_
    simpa using enough

end

theorem Line.seek_next (line : links.Line (n :: rest)) (fuel : Nat) (enough : rest.length < fuel) :
    seek links.next Option.isNone fuel n = (n :: rest).getLast? := by
  have forward := line.forward
  rcases List.eq_nil_or_concat rest with rfl | ⟨earlier, last, rfl⟩
  · have alone : Chain links.next (some n) ([] ++ [n]) none := forward
    exact seek_chain alone (by simp) rfl enough
  · rw [List.concat_eq_append, ← List.cons_append] at forward ⊢
    rw [List.getLast?_concat]
    refine seek_chain forward (by simp) rfl ?_
    simpa using enough

theorem Line.single (next : links.next n = none) (prev : links.prev n = none) : links.Line [n] :=
  ⟨⟨rfl, next⟩, ⟨rfl, prev⟩⟩

section Operations

variable [DecidableEq ν]

def addBehind (links : RingLinks ν) (node new : ν) : RingLinks ν :=
  let links :=
    match links.next node with
    | none => links
    | some follower => links.setPrev follower (some new)
  ((links.setNext new (links.next node)).setPrev new (some node)).setNext node (some new)

def takeOut (links : RingLinks ν) (node : ν) : RingLinks ν :=
  let links :=
    match links.prev node with
    | none => links
    | some before => links.setNext before (links.next node)
  match links.next node with
  | none => links
  | some behind => links.setPrev behind (links.prev node)

theorem Line.add (line : links.Line (front ++ [last])) (fresh : n ∉ front ++ [last]) :
    (links.addBehind last n).Line (front ++ [last] ++ [n]) := by
  have ends : links.next last = none := line.next_eq
  have different : last ≠ n := by
    rintro rfl
    exact fresh (List.mem_append_right front (List.mem_singleton_self last))
  have links_eq :
      links.addBehind last n =
        ⟨Function.update (Function.update links.next n none) last (some n),
          Function.update links.prev n (some last)⟩ := by
    simp only [addBehind, ends, setNext, setPrev]
  rw [links_eq]
  constructor
  · have untouched := line.forward.update_of_notMem fresh none
    have lastFresh := (nodup_append_singleton.mp line.nodup).2
    rw [List.head?_append_of_ne_nil _ (by simp)]
    refine chain_append.mpr ⟨some n, ?_, rfl, ?_⟩
    · exact (chain_split.mp untouched).1.redirect lastFresh (some n)
    · dsimp only
      rw [Function.update_of_ne (Ne.symm different), Function.update_self]
      rfl
  · have untouched :=
      line.backward.update_of_notMem (fun member => fresh (List.mem_reverse.mp member)) (some last)
    rw [List.getLast?_concat, List.reverse_concat]
    refine ⟨rfl, ?_⟩
    dsimp only
    rw [Function.update_self]
    rw [List.getLast?_concat] at untouched
    exact untouched

theorem takeOut_eq {node : ν} (apart : links.prev node ≠ some node) :
    links.takeOut node =
      ⟨match links.prev node with
        | none => links.next
        | some before => Function.update links.next before (links.next node),
        match links.next node with
        | none => links.prev
        | some behind =>
          Function.update links.prev behind (links.prev node)⟩ := by
  unfold takeOut
  cases before : links.prev node with
  | none =>
    dsimp only
    rw [before]
    cases links.next node <;> rfl
  | some earlier =>
    rw [before] at apart
    have other : node ≠ earlier := fun same => apart (by rw [same])
    dsimp only [setNext]
    rw [Function.update_of_ne other, before]
    cases links.next node <;> rfl

theorem Line.remove (line : links.Line (front ++ n :: rest)) :
    (links.takeOut n).Line (front ++ rest) := by
  have next := line.next_eq
  have prev := line.prev_eq
  constructor
  · have removed := line.forward.remove
    rw [takeOut_eq line.prev_ne, prev]
    dsimp only
    cases shape : front.getLast? with
    | none =>
      rw [shape] at removed
      have empty := List.getLast?_eq_none_iff.mp shape
      subst empty
      rw [next] at removed
      exact removed
    | some before =>
      rw [shape] at removed
      have some_ : front ≠ [] := by
        rintro rfl
        cases shape
      rw [List.head?_append_of_ne_nil _ some_] at removed ⊢
      exact removed
  · have backward := line.backward
    rw [List.reverse_append, List.reverse_cons, List.append_assoc,
      List.singleton_append] at backward
    have removed := backward.remove
    rw [takeOut_eq line.prev_ne, next, List.reverse_append]
    dsimp only
    rw [List.getLast?_reverse] at removed
    cases shape : rest.head? with
    | none =>
      rw [shape] at removed
      have empty := List.head?_eq_none_iff.mp shape
      subst empty
      rw [prev] at removed
      rw [List.append_nil]
      exact removed
    | some behind =>
      rw [shape] at removed
      have some_ : rest ≠ [] := by
        rintro rfl
        cases shape
      rw [List.getLast?_append_of_ne_nil _ (List.cons_ne_nil n rest),
        List.getLast?_cons_of_ne_nil some_] at removed
      rw [List.getLast?_append_of_ne_nil _ some_]
      exact removed

theorem Line.takeOut_apart (line : links.Line (front ++ n :: rest)) {m : ν}
    (apart : m ∉ front ++ n :: rest) :
    (links.takeOut n).next m = links.next m ∧ (links.takeOut n).prev m = links.prev m := by
  rw [takeOut_eq line.prev_ne, line.next_eq, line.prev_eq]
  constructor
  · cases shape : front.getLast? with
    | none => rfl
    | some before =>
      have inside : before ∈ front := List.mem_of_getLast? shape
      refine Function.update_of_ne ?_ _ _
      rintro rfl
      exact apart (List.mem_append_left _ inside)
  · cases shape : rest.head? with
    | none => rfl
    | some behind =>
      have inside : behind ∈ rest := List.mem_of_head? shape
      refine Function.update_of_ne ?_ _ _
      rintro rfl
      exact apart (List.mem_append_right _ (List.mem_cons_of_mem n inside))

theorem addBehind_apart (ends : links.next last = none) {m : ν}
    (notLast : m ≠ last) (notNew : m ≠ n) :
    (links.addBehind last n).next m = links.next m ∧
      (links.addBehind last n).prev m = links.prev m := by
  simp only [addBehind, ends, setNext, setPrev]
  rw [Function.update_of_ne notLast, Function.update_of_ne notNew, Function.update_of_ne notNew]
  exact ⟨rfl, rfl⟩

end Operations

end RingLinks

end IteSdk.Lib
