import Mathlib.Data.List.Cycle
import Mathlib.Logic.Function.Basic

/-!
# Circular lists

Nodes with a pointer to the next and to the previous one, closed to a ring.  A
ring has no first node: every rotation of its nodes describes it as well.
-/

namespace IteSdk.Lib

universe u

variable {ν : Type u}

@[ext] structure RingLinks (ν : Type u) where
  next : ν → Option ν
  prev : ν → Option ν

namespace RingLinks

/-- `right` is behind `left`, seen from both. -/
def Linked (links : RingLinks ν) (left right : ν) : Prop :=
  links.next left = some right ∧ links.prev right = some left

def Ring (links : RingLinks ν) (nodes : List ν) : Prop := Cycle.Chain links.Linked nodes

section Operations

variable [DecidableEq ν]

def setNext (links : RingLinks ν) (node : ν) (value : Option ν) : RingLinks ν :=
  { links with next := Function.update links.next node value }

def setPrev (links : RingLinks ν) (node : ν) (value : Option ν) : RingLinks ν :=
  { links with prev := Function.update links.prev node value }

def close (links : RingLinks ν) (node : ν) : RingLinks ν :=
  (links.setNext node (some node)).setPrev node (some node)

def insert (links : RingLinks ν) (node new : ν) : Option (RingLinks ν) :=
  match links.next node with
  | none => none
  | some follower =>
    let links := links.setPrev follower (some new)
    let links := links.setNext new (links.next node)
    let links := links.setPrev new (some node)
    some (links.setNext node (some new))

/-- A node is taken out; the second result is the node in front of it, if that is
another one. -/
def remove (links : RingLinks ν) (node : ν) : Option (RingLinks ν × Option ν) :=
  match links.prev node with
  | none => none
  | some before =>
    let links := links.setNext before (links.next node)
    match links.next node with
    | none => none
    | some follower =>
      let links := links.setPrev follower (links.prev node)
      some (links, if links.prev node ≠ some node then links.prev node else none)

/-- A loop along `next` from a node to the first one that is looked for; it ends
where it comes to `stop` again or to a null pointer. -/
def findFrom (next : ν → Option ν) (wanted : ν → Bool) (stop : ν) : Nat → ν → Option (Option ν)
  | 0, _ => none
  | fuel + 1, node =>
    if wanted node then
      some (some node)
    else
      match next node with
      | none => some none
      | some following =>
        if following = stop then
          some none
        else
          findFrom next wanted stop fuel following

def find (links : RingLinks ν) (wanted : ν → Bool) (fuel : Nat) : Option ν → Option (Option ν)
  | none => some none
  | some node => findFrom links.next wanted node fuel node

end Operations

variable {links : RingLinks ν} {nodes rest front back : List ν} {node new : ν}

@[simp] theorem ring_nil : links.Ring [] := Cycle.Chain.nil links.Linked

theorem ring_cons : links.Ring (node :: rest) ↔ (node :: (rest ++ [node])).IsChain links.Linked :=
  Cycle.chain_coe_cons links.Linked node rest

theorem ring_rotate : links.Ring (front ++ back) ↔ links.Ring (back ++ front) := by
  have rotated : (↑(front ++ back) : Cycle ν) = ↑(back ++ front) :=
    Cycle.coe_eq_coe.mpr List.isRotated_append
  rw [Ring, Ring, rotated]

theorem Ring.congr {links' : RingLinks ν} (ring : links.Ring nodes)
    (sameNext : ∀ n ∈ nodes, links'.next n = links.next n)
    (samePrev : ∀ n ∈ nodes, links'.prev n = links.prev n) :
    links'.Ring nodes := by
  cases nodes with
  | nil =>
    exact ring_nil
  | cons node rest =>
    have member {n : ν} (inside : n ∈ node :: (rest ++ [node])) :
        n ∈ node :: rest := by
      simp only [List.mem_cons, List.mem_append, List.not_mem_nil, or_false] at inside
      rcases inside with here | behind | here
      · exact List.mem_cons.mpr (Or.inl here)
      · exact List.mem_cons_of_mem node behind
      · exact List.mem_cons.mpr (Or.inl here)
    rw [ring_cons] at ring ⊢
    refine ring.imp_of_mem_imp fun left right leftInside rightInside linked => ?_
    exact
      ⟨(sameNext left (member leftInside)).trans linked.1,
        (samePrev right (member rightInside)).trans linked.2⟩

section Changes

variable [DecidableEq ν]

theorem close_ring : (links.close node).Ring [node] := by
  rw [ring_cons]
  refine List.isChain_pair.mpr ⟨?_, ?_⟩
  · exact Function.update_self node (some node) links.next
  · exact Function.update_self node (some node) links.prev

theorem insert_ring (ring : links.Ring (node :: rest))
    (nodup : (node :: rest).Nodup) (fresh : new ∉ node :: rest) :
    ∃ after, links.insert node new = some after ∧ after.Ring (node :: new :: rest) ∧
      (∀ n ∉ new :: node :: rest, after.next n = links.next n) ∧
      ∀ n ∉ new :: node :: rest, after.prev n = links.prev n := by
  obtain ⟨notNode, notRest⟩ := List.ne_and_not_mem_of_not_mem_cons fresh
  obtain ⟨follower, tail, behind⟩ :
      ∃ follower tail, rest ++ [node] = follower :: tail :=
    List.exists_cons_of_ne_nil (by simp)
  have members (n : ν) : n ∈ follower :: tail ↔ n ∈ node :: rest := by
    rw [← behind, List.mem_append, List.mem_singleton, List.mem_cons, or_comm]
  have tailNodup : (follower :: tail).Nodup := by
    rw [← behind]
    exact (List.perm_append_singleton node rest).nodup_iff.mpr nodup
  have notTail := (List.nodup_cons.mp tailNodup).1
  have inside : follower ∈ node :: rest := (members follower).mp List.mem_cons_self
  have notFollower : follower ≠ new := ne_of_mem_of_not_mem inside fresh
  rw [ring_cons, behind, List.isChain_cons_cons] at ring
  obtain ⟨⟨leads, back⟩, chain⟩ := ring
  let moved := links.setPrev follower (some new)
  let linked := moved.setNext new (moved.next node)
  let linkedBack := linked.setPrev new (some node)
  let after := linkedBack.setNext node (some new)
  have nextOther {n : ν} (other : n ≠ node) (notNew : n ≠ new) :
      after.next n = links.next n :=
    (Function.update_of_ne other _ _).trans (Function.update_of_ne notNew _ _)
  have prevOther {n : ν} (other : n ≠ follower) (notNew : n ≠ new) :
      after.prev n = links.prev n :=
    (Function.update_of_ne notNew _ _).trans (Function.update_of_ne other _ _)
  have nextNode : after.next node = some new := Function.update_self node _ _
  have nextNew : after.next new = some follower := by
    have kept : after.next new = linked.next new := Function.update_of_ne notNode _ _
    have taken : linked.next new = links.next node := Function.update_self new _ _
    rw [kept, taken, leads]
  have prevNew : after.prev new = some node := Function.update_self new _ _
  have prevFollower : after.prev follower = some new :=
    (Function.update_of_ne notFollower _ _).trans (Function.update_self follower _ _)
  refine ⟨after, ?_, ?_, ?_, ?_⟩
  · rw [insert, leads]
  · rw [ring_cons, List.cons_append, behind, List.isChain_cons_cons, List.isChain_cons_cons]
    refine ⟨⟨nextNode, prevNew⟩, ⟨nextNew, prevFollower⟩, ?_⟩
    apply chain.imp_of_mem_tail_imp
    intro left right leftInside rightInside pair
    rw [List.tail_cons] at rightInside
    have leftMember := (members left).mp leftInside
    have rightMember := (members right).mp (List.mem_cons_of_mem _ rightInside)
    -- Only the follower is behind `node`, and it does not come again.
    have leftOther : left ≠ node := by
      rintro rfl
      have same : follower = right := Option.some.inj (leads.symm.trans pair.1)
      exact notTail (same ▸ rightInside)
    have rightOther : right ≠ follower := ne_of_mem_of_not_mem rightInside notTail
    exact
      ⟨(nextOther leftOther (ne_of_mem_of_not_mem leftMember fresh)).trans pair.1,
        (prevOther rightOther (ne_of_mem_of_not_mem rightMember fresh)).trans pair.2⟩
  · intro n outside
    obtain ⟨other, outside⟩ := List.ne_and_not_mem_of_not_mem_cons outside
    exact nextOther (List.ne_of_not_mem_cons outside) other
  · intro n outside
    obtain ⟨other, outside⟩ := List.ne_and_not_mem_of_not_mem_cons outside
    have notBehind : n ≠ follower := (ne_of_mem_of_not_mem inside outside).symm
    exact prevOther notBehind other

theorem remove_ring (ring : links.Ring (node :: rest)) (nodup : (node :: rest).Nodup) :
    ∃ after, links.remove node = some (after, rest.getLast?) ∧ after.Ring rest ∧
      (∀ n ∉ node :: rest, after.next n = links.next n) ∧
      ∀ n ∉ node :: rest, after.prev n = links.prev n := by
  rw [ring_cons] at ring
  rcases List.eq_nil_or_concat rest with rfl | ⟨front, last, rfl⟩
  · -- The only node points to itself.
    obtain ⟨leads, back⟩ := List.isChain_pair.mp ring
    have nextSame : (links.setNext node (some node)).next = links.next := by
      rw [setNext, ← leads, Function.update_eq_self]
    have prevSame :
        ((links.setNext node (some node)).setPrev node (some node)).prev = links.prev := by
      rw [setPrev, setNext, ← back, Function.update_eq_self]
    refine
      ⟨(links.setNext node (some node)).setPrev node (some node), ?_, ring_nil,
        fun n _ => congrFun nextSame n, fun n _ => congrFun prevSame n⟩
    rw [remove, back]
    dsimp only
    rw [leads, nextSame, leads]
    dsimp only
    have kept : (links.setNext node (some node)).prev node = some node := back
    rw [kept, prevSame, back, if_neg (not_not.mpr rfl)]
    rfl
  · rw [List.concat_eq_append] at ring nodup ⊢
    obtain ⟨absent, _⟩ := List.nodup_cons.mp nodup
    obtain ⟨follower, tail, begins⟩ :
        ∃ follower tail, front ++ [last] = follower :: tail :=
      List.exists_cons_of_ne_nil (by simp)
    have lastInside : last ∈ front ++ [last] := by simp
    have followerInside : follower ∈ front ++ [last] := by
      rw [begins]
      exact List.mem_cons_self
    have notLast : node ≠ last := (ne_of_mem_of_not_mem lastInside absent).symm
    have notFollower : node ≠ follower := (ne_of_mem_of_not_mem followerInside absent).symm
    have leads : links.next node = some follower := by
      rw [begins] at ring
      exact (List.isChain_cons_cons.mp ring).1.1
    rw [List.append_assoc] at ring
    have later := List.isChain_split.mp ring.tail
    have back : links.prev node = some last := (List.isChain_pair.mp later.2).2
    have behind : links.prev follower = some node := by
      rw [← List.append_assoc, begins] at ring
      exact (List.isChain_cons_cons.mp ring).1.2
    have ends : links.next last = some node := (List.isChain_pair.mp later.2).1
    let after := (links.setNext last (some follower)).setPrev follower (some last)
    have nextOther {n : ν} (other : n ≠ last) : after.next n = links.next n :=
      Function.update_of_ne other _ _
    have prevOther {n : ν} (other : n ≠ follower) :
        after.prev n = links.prev n :=
      Function.update_of_ne other _ _
    refine ⟨after, ?_, ?_, ?_, ?_⟩
    · have keepsNext :
          (links.setNext last (some follower)).next node = some follower :=
        (Function.update_of_ne notLast _ _).trans leads
      have keepsPrev :
          ((links.setNext last (some follower)).setPrev follower
            (some last)).prev node = some last :=
        (Function.update_of_ne notFollower _ _).trans back
      have before : (links.setNext last (some follower)).prev node = some last := back
      rw [remove, back]
      dsimp only
      rw [leads, keepsNext]
      dsimp only
      rw [before, keepsPrev, if_pos, List.getLast?_append_cons]
      · rfl
      · exact fun same => notLast (Option.some.inj same).symm
    · rw [begins, ring_cons, ← List.cons_append, ← begins, List.append_assoc]
      refine List.isChain_split.mpr ⟨?_, List.isChain_pair.mpr ⟨?_, ?_⟩⟩
      · apply later.1.imp_of_mem_imp
        intro left right leftInside rightInside pair
        -- What was taken out is not among them.
        have leftOther : left ≠ last := by
          rintro rfl
          exact ne_of_mem_of_not_mem rightInside absent (Option.some.inj (pair.1.symm.trans ends))
        have rightOther : right ≠ follower := by
          rintro rfl
          exact ne_of_mem_of_not_mem leftInside absent (Option.some.inj (pair.2.symm.trans behind))
        exact ⟨(nextOther leftOther).trans pair.1, (prevOther rightOther).trans pair.2⟩
      · exact Function.update_self last _ _
      · exact Function.update_self follower _ _
    · intro n outside
      have notInside := List.not_mem_of_not_mem_cons outside
      exact nextOther (ne_of_mem_of_not_mem lastInside notInside).symm
    · intro n outside
      have notInside := List.not_mem_of_not_mem_cons outside
      exact prevOther (ne_of_mem_of_not_mem followerInside notInside).symm

theorem findFrom_chain {wanted : ν → Bool} {stop : ν} {fuel : Nat}
    (chain : (node :: (rest ++ [stop])).IsChain links.Linked)
    (passes : stop ∉ rest) (enough : rest.length < fuel) :
    findFrom links.next wanted stop fuel node = some ((node :: rest).find? wanted) := by
  induction rest generalizing node fuel with
  | nil =>
    obtain ⟨fuel, rfl⟩ : ∃ fewer, fuel = fewer + 1 :=
      ⟨fuel - 1, by rw [List.length_nil] at enough; omega⟩
    have leads : links.next node = some stop := (List.isChain_pair.mp chain).1
    cases found : wanted node with
    | true => simp [findFrom, found]
    | false => simp [findFrom, found, leads]
  | cons following rest ih =>
    obtain ⟨fuel, rfl⟩ : ∃ fewer, fuel = fewer + 1 :=
      ⟨fuel - 1, by rw [List.length_cons] at enough; omega⟩
    rw [List.cons_append, List.isChain_cons_cons] at chain
    obtain ⟨⟨leads, _⟩, later⟩ := chain
    obtain ⟨notHere, notLater⟩ := List.ne_and_not_mem_of_not_mem_cons passes
    have fewer : rest.length < fuel := by
      rw [List.length_cons] at enough
      omega
    cases found : wanted node with
    | true => simp [findFrom, found]
    | false =>
      have goesOn : following ≠ stop := fun same => notHere same.symm
      rw [findFrom, found, if_neg Bool.false_ne_true, leads]
      dsimp only
      have passesHere : ¬ wanted node = true := by simp [found]
      rw [if_neg goesOn, ih later notLater fewer,
        @List.find?_cons_of_neg _ wanted node _ passesHere]

theorem find_ring (wanted : ν → Bool) {fuel : Nat} (ring : links.Ring nodes)
    (nodup : nodes.Nodup) (inside : node ∈ nodes) (enough : nodes.length ≤ fuel) :
    ∃ found, links.find wanted fuel (some node) = some found ∧
      (∀ n, found = some n → n ∈ nodes ∧ wanted n = true) ∧
      (found = none → ∀ n ∈ nodes, wanted n = false) := by
  obtain ⟨front, back, rfl⟩ := List.append_of_mem inside
  have rotated : (front ++ node :: back).Perm (node :: back ++ front) := List.perm_append_comm
  have turned := rotated.nodup_iff.mp nodup
  have members {n : ν} : n ∈ node :: (back ++ front) ↔ n ∈ front ++ node :: back :=
    rotated.mem_iff.symm
  have ringHere : links.Ring (node :: (back ++ front)) := ring_rotate.mp ring
  have length := rotated.length_eq
  rw [List.cons_append, List.length_cons] at length
  refine ⟨(node :: (back ++ front)).find? wanted, ?_, ?_, ?_⟩
  · exact findFrom_chain (ring_cons.mp ringHere) (List.nodup_cons.mp turned).1 (by omega)
  · intro n found
    exact ⟨members.mp (List.mem_of_find?_eq_some found), List.find?_some found⟩
  · intro none_ n member
    have refused := List.find?_eq_none.mp none_ n (members.mpr member)
    exact Bool.eq_false_iff.mpr refused

end Changes

end RingLinks

end IteSdk.Lib
