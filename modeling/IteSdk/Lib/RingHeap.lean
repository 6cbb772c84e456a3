import Mathlib.Data.Finset.Dedup
import Mathlib.Data.List.Nodup
import IteSdk.Lib.CircularList

/-!
# Rings on a heap

Nodes that are allocated and freed, each with some content, and linked to rings.
A pointer into a ring is null exactly if the ring has no node.
-/

namespace IteSdk.Lib

universe u v

variable {ν : Type v} {α : Type u}

/-- The nodes: their pointers and contents, which are allocated, and the calls of
`free` so far. -/
structure RingHeap (ν : Type v) (α : Type u) where
  links : RingLinks ν
  info : ν → α
  live : Finset ν
  freed : List ν

/-- A pointer to some node of a list, null if there is none. -/
def Cursor (nodes : List ν) (cur : Option ν) : Prop :=
  (nodes = [] ∧ cur = none) ∨ ∃ node ∈ nodes, cur = some node

theorem cursor_getLast? (nodes : List ν) : Cursor nodes nodes.getLast? := by
  rcases List.eq_nil_or_concat nodes with rfl | ⟨front, last, rfl⟩
  · exact Or.inl ⟨rfl, rfl⟩
  · refine Or.inr ⟨last, ?_, ?_⟩
    · rw [List.concat_eq_append]
      exact List.mem_append_right _ (List.mem_singleton_self last)
    · rw [List.concat_eq_append, List.getLast?_concat]

theorem Cursor.of_mem {nodes : List ν} {node : ν} (member : node ∈ nodes) :
    Cursor nodes (some node) :=
  Or.inr ⟨node, member, rfl⟩

theorem Cursor.perm {nodes others : List ν} {cur : Option ν}
    (cursor : Cursor nodes cur) (same : nodes.Perm others) : Cursor others cur := by
  rcases cursor with ⟨rfl, null⟩ | ⟨node, member, here⟩
  · exact Or.inl ⟨List.nil_perm.mp same, null⟩
  · exact Or.inr ⟨node, same.mem_iff.mp member, here⟩

namespace RingHeap

variable {heap after : RingHeap ν α} {nodes changed : List ν}

structure Holds (heap : RingHeap ν α) (nodes : List ν) : Prop where
  nodup : nodes.Nodup
  live : ∀ n ∈ nodes, n ∈ heap.live
  ring : heap.links.Ring nodes

structure Frame (before after : RingHeap ν α) (changed : List ν) : Prop where
  next : ∀ n ∉ changed, after.links.next n = before.links.next n
  prev : ∀ n ∉ changed, after.links.prev n = before.links.prev n
  info : ∀ n ∉ changed, after.info n = before.info n
  live : ∀ n ∉ changed, n ∈ after.live ↔ n ∈ before.live

theorem Frame.refl (heap : RingHeap ν α) (changed : List ν) : Frame heap heap changed :=
  ⟨fun _ _ => rfl, fun _ _ => rfl, fun _ _ => rfl, fun _ _ => Iff.rfl⟩

theorem Frame.trans {last : RingHeap ν α} (first : Frame heap after changed)
    (second : Frame after last changed) : Frame heap last changed where
  next := fun n outside => (second.next n outside).trans (first.next n outside)
  prev := fun n outside => (second.prev n outside).trans (first.prev n outside)
  info := fun n outside => (second.info n outside).trans (first.info n outside)
  live := fun n outside => (second.live n outside).trans (first.live n outside)

theorem Frame.mono {more : List ν} (frame : Frame heap after changed)
    (subset : changed ⊆ more) : Frame heap after more where
  next := fun n outside => frame.next n fun member => outside (subset member)
  prev := fun n outside => frame.prev n fun member => outside (subset member)
  info := fun n outside => frame.info n fun member => outside (subset member)
  live := fun n outside => frame.live n fun member => outside (subset member)

theorem Holds.frame (holds : Holds heap nodes) (frame : Frame heap after changed)
    (apart : nodes.Disjoint changed) : Holds after nodes where
  nodup := holds.nodup
  live := fun n member => (frame.live n (apart member)).mpr (holds.live n member)
  ring :=
    holds.ring.congr (fun n member => frame.next n (apart member))
      fun n member => frame.prev n (apart member)

def contents (heap : RingHeap ν α) (nodes : List ν) : List α := nodes.map heap.info

def Held (heap : RingHeap ν α) (nodes : List ν) : Prop :=
  ∃ ring, ring.Perm nodes ∧ Holds heap ring

theorem Held.nodup (held : Held heap nodes) : nodes.Nodup := by
  obtain ⟨ring, same, holds⟩ := held
  exact same.nodup_iff.mp holds.nodup

theorem Held.live (held : Held heap nodes) {node : ν} (member : node ∈ nodes) :
    node ∈ heap.live := by
  obtain ⟨ring, same, holds⟩ := held
  exact holds.live node (same.mem_iff.mpr member)

theorem Held.frame (held : Held heap nodes) (frame : Frame heap after changed)
    (apart : nodes.Disjoint changed) : Held after nodes := by
  obtain ⟨ring, same, holds⟩ := held
  exact ⟨ring, same, holds.frame frame fun n inside => apart (same.mem_iff.mp inside)⟩

variable [DecidableEq ν]

theorem Holds.length_le (holds : Holds heap nodes) : nodes.length ≤ heap.live.card := by
  rw [← List.toFinset_card_of_nodup holds.nodup]
  apply Finset.card_le_card
  intro n member
  exact holds.live n (List.mem_toFinset.mp member)

def find (heap : RingHeap ν α) (wanted : α → Bool) (start : Option ν) : Option (Option ν) :=
  heap.links.find (fun node => wanted (heap.info node)) heap.live.card start

section

variable {start : Option ν} (holds : Holds heap nodes) (cursor : Cursor nodes start)

include holds cursor

theorem Holds.find (wanted : α → Bool) :
    ∃ found, heap.find wanted start = some found ∧
      (∀ n, found = some n → n ∈ nodes ∧ wanted (heap.info n) = true) ∧
      (found = none → ∀ n ∈ nodes, wanted (heap.info n) = false) := by
  rcases cursor with ⟨rfl, rfl⟩ | ⟨node, inside, rfl⟩
  · exact ⟨none, rfl, nofun, fun _ _ member => absurd member List.not_mem_nil⟩
  · exact RingLinks.find_ring _ holds.ring holds.nodup inside holds.length_le

theorem Holds.find_unique {wanted : α → Bool} {node : ν} (member : node ∈ nodes)
    (good : wanted (heap.info node) = true)
    (unique : ∀ n ∈ nodes, wanted (heap.info n) = true → n = node) :
    heap.find wanted start = some (some node) := by
  obtain ⟨found, finds, right, missed⟩ := holds.find cursor wanted
  rw [finds]
  cases found with
  | none =>
    have refused := missed rfl node member
    rw [good] at refused
    cases refused
  | some other =>
    obtain ⟨otherMember, otherGood⟩ := right other rfl
    rw [unique other otherMember otherGood]

theorem Holds.find_none {wanted : α → Bool} (absent : ∀ n ∈ nodes, wanted (heap.info n) = false) :
    heap.find wanted start = some none := by
  obtain ⟨found, finds, right, -⟩ := holds.find cursor wanted
  rw [finds]
  cases found with
  | none => rfl
  | some other =>
    obtain ⟨member, good⟩ := right other rfl
    rw [absent other member] at good
    cases good

end

def unlink (heap : RingHeap ν α) (node : ν) : Option (RingHeap ν α × Option ν) :=
  (heap.links.remove node).map fun (links, before) => ({ heap with links := links }, before)

theorem Holds.unlink (holds : Holds heap nodes) {node : ν} (member : node ∈ nodes) :
    ∃ links before, heap.unlink node = some ({ heap with links := links }, before) ∧
      (∃ rest, rest.Perm (nodes.erase node) ∧ Holds { heap with links := links } rest) ∧
      Cursor (nodes.erase node) before ∧
      Frame heap { heap with links := links } nodes := by
  obtain ⟨front, back, rfl⟩ := List.append_of_mem member
  have turned : (front ++ node :: back).Perm (node :: (back ++ front)) := List.perm_append_comm
  have nodup := turned.nodup_iff.mp holds.nodup
  have ring : heap.links.Ring (node :: (back ++ front)) := RingLinks.ring_rotate.mp holds.ring
  obtain ⟨links, removed, left, next, prev⟩ := RingLinks.remove_ring ring nodup
  have erased : (back ++ front).Perm ((front ++ node :: back).erase node) := by
    have shorter := turned.erase node
    rw [List.erase_cons_head] at shorter
    exact shorter.symm
  refine ⟨links, (back ++ front).getLast?, ?_, ⟨back ++ front, erased, ?_, ?_, left⟩,
    (cursor_getLast? (back ++ front)).perm erased, ?_⟩
  · rw [RingHeap.unlink, removed]
    rfl
  · exact (List.nodup_cons.mp nodup).2
  · intro n inside
    exact holds.live n (List.mem_of_mem_erase (erased.mem_iff.mp inside))
  · exact
      ⟨fun n outside => next n fun inside => outside (turned.mem_iff.mpr inside),
        fun n outside => prev n fun inside => outside (turned.mem_iff.mpr inside),
        fun _ _ => rfl, fun _ _ => Iff.rfl⟩

/-! ## Allocation -/

def malloc (heap : RingHeap ν α) (node : ν) (value : α) : RingHeap ν α :=
  { heap with
    live := insert node heap.live
    info := Function.update heap.info node value }

/-- `none` for a node that is not allocated. -/
def free (heap : RingHeap ν α) (node : ν) : Option (RingHeap ν α) :=
  if node ∈ heap.live then
    some
      { heap with
        live := heap.live.erase node
        freed := heap.freed ++ [node] }
  else
    none

def store (heap : RingHeap ν α) (node : ν) (value : α) : RingHeap ν α :=
  { heap with info := Function.update heap.info node value }

theorem malloc_frame (node : ν) (value : α) : Frame heap (heap.malloc node value) [node] where
  next := fun _ _ => rfl
  prev := fun _ _ => rfl
  info := fun n outside => Function.update_of_ne (List.ne_of_not_mem_cons outside) _ _
  live := fun n outside => by
    show n ∈ insert node heap.live ↔ _
    rw [Finset.mem_insert]
    exact or_iff_right (List.ne_of_not_mem_cons outside)

theorem store_frame (node : ν) (value : α) : Frame heap (heap.store node value) [node] where
  next := fun _ _ => rfl
  prev := fun _ _ => rfl
  info := fun _ outside => Function.update_of_ne (List.ne_of_not_mem_cons outside) _ _
  live := fun _ _ => Iff.rfl

theorem free_live {node : ν} (live : node ∈ heap.live) :
    ∃ after, heap.free node = some after ∧
      after.freed = heap.freed ++ [node] ∧ after.live = heap.live.erase node ∧
      after.info = heap.info ∧ Frame heap after [node] := by
  refine ⟨_, if_pos live, rfl, rfl, rfl, fun _ _ => rfl, fun _ _ => rfl, fun _ _ => rfl, ?_⟩
  intro other outside
  show other ∈ heap.live.erase node ↔ _
  rw [Finset.mem_erase]
  exact and_iff_right (List.ne_of_not_mem_cons outside)

def link (heap : RingHeap ν α) (cur node : ν) : Option (RingHeap ν α) :=
  (heap.links.insert cur node).map fun links => { heap with links := links }

def close (heap : RingHeap ν α) (node : ν) : RingHeap ν α :=
  { heap with links := heap.links.close node }

section

variable (held : Held heap nodes)

include held

theorem Held.store (node : ν) (value : α) : Held (heap.store node value) nodes := by
  obtain ⟨ring, same, holds⟩ := held
  exact ⟨ring, same, holds.nodup, holds.live, holds.ring⟩

theorem Held.find_unique {start : Option ν} (cursor : Cursor nodes start) {wanted : α → Bool}
    {node : ν} (member : node ∈ nodes) (good : wanted (heap.info node) = true)
    (unique : ∀ n ∈ nodes, wanted (heap.info n) = true → n = node) :
    heap.find wanted start = some (some node) := by
  obtain ⟨ring, same, holds⟩ := held
  exact
    holds.find_unique (cursor.perm same.symm) (same.mem_iff.mpr member) good
      fun n inside => unique n (same.mem_iff.mp inside)

theorem Held.find_none {start : Option ν} (cursor : Cursor nodes start) {wanted : α → Bool}
    (absent : ∀ n ∈ nodes, wanted (heap.info n) = false) :
    heap.find wanted start = some none := by
  obtain ⟨ring, same, holds⟩ := held
  exact holds.find_none (cursor.perm same.symm) fun n inside => absent n (same.mem_iff.mp inside)

theorem Held.unlink {node : ν} (member : node ∈ nodes) :
    ∃ links before, heap.unlink node = some ({ heap with links := links }, before) ∧
      Held { heap with links := links } (nodes.erase node) ∧
      Cursor (nodes.erase node) before ∧
      Frame heap { heap with links := links } nodes := by
  obtain ⟨ring, same, holds⟩ := held
  obtain ⟨links, before, unlinks, ⟨rest, sameRest, left⟩, cursor, frame⟩ :=
    holds.unlink (same.mem_iff.mpr member)
  refine ⟨links, before, unlinks, ⟨rest, sameRest.trans (same.erase node), left⟩,
    cursor.perm (same.erase node), ?_⟩
  exact frame.mono fun n inside => same.mem_iff.mp inside

theorem Held.unlink_free {node : ν} (member : node ∈ nodes) :
    ∃ links before after, heap.unlink node = some ({ heap with links := links }, before) ∧
      RingHeap.free { heap with links := links } node = some after ∧
      Held after (nodes.erase node) ∧ Cursor (nodes.erase node) before ∧
      Frame heap after nodes ∧ after.info = heap.info ∧
      after.freed = heap.freed ++ [node] ∧
      after.live = heap.live.erase node := by
  obtain ⟨links, before, unlinks, rest, cursor, frame⟩ := held.unlink member
  obtain ⟨after, frees, freed, live, info, freeFrame⟩ :=
    @RingHeap.free_live _ _ { heap with links := links } _ node (held.live member)
  have apart : (nodes.erase node).Disjoint [node] :=
    List.disjoint_singleton.mpr held.nodup.not_mem_erase
  have alone : [node] ⊆ nodes := fun n here => by
    rw [List.mem_singleton.mp here]
    exact member
  exact
    ⟨links, before, after, unlinks, frees, rest.frame freeFrame apart, cursor,
      frame.trans (freeFrame.mono alone), info, freed, live⟩

theorem Held.link {cur node : ν} (member : cur ∈ nodes) (live : node ∈ heap.live)
    (absent : node ∉ nodes) :
    ∃ links, heap.link cur node = some { heap with links := links } ∧
      Held { heap with links := links } (nodes ++ [node]) ∧
      Frame heap { heap with links := links } (nodes ++ [node]) := by
  obtain ⟨ring, same, holds⟩ := held
  obtain ⟨front, back, rfl⟩ := List.append_of_mem (same.mem_iff.mpr member)
  have turned : (front ++ cur :: back).Perm (cur :: (back ++ front)) := List.perm_append_comm
  have members {n : ν} : n ∈ cur :: (back ++ front) ↔ n ∈ nodes := (turned.symm.trans same).mem_iff
  have ring : heap.links.Ring (cur :: (back ++ front)) := RingLinks.ring_rotate.mp holds.ring
  obtain ⟨links, inserted, longer, next, prev⟩ :=
    RingLinks.insert_ring ring (turned.nodup_iff.mp holds.nodup)
      fun inside => absent (members.mp inside)
  have more : (cur :: node :: (back ++ front)).Perm (nodes ++ [node]) := by
    have added := ((turned.symm.trans same).cons node).trans
      (List.perm_append_singleton node nodes).symm
    exact (List.Perm.swap node cur (back ++ front)).trans added
  have outside {n : ν} (other : n ∉ nodes ++ [node]) :
      n ∉ node :: cur :: (back ++ front) := by
    intro inside
    exact other (more.mem_iff.mp ((List.Perm.swap cur node _).mem_iff.mp inside))
  refine ⟨links, ?_, ⟨_, more, ?_, ?_, longer⟩, ?_⟩
  · rw [RingHeap.link, inserted]
    rfl
  · rw [more.nodup_iff, ← List.concat_eq_append, List.nodup_concat]
    exact ⟨absent, same.nodup_iff.mp holds.nodup⟩
  · intro n inside
    rcases List.mem_append.mp (more.mem_iff.mp inside) with before | here
    · exact holds.live n (same.mem_iff.mpr before)
    · rw [List.mem_singleton.mp here]
      exact live
  · exact
      ⟨fun n other => next n (outside other), fun n other => prev n (outside other),
        fun _ _ => rfl, fun _ _ => Iff.rfl⟩

end

theorem held_close {node : ν} (live : node ∈ heap.live) :
    Held (heap.close node) [node] ∧ Frame heap (heap.close node) [node] := by
  refine ⟨⟨[node], List.Perm.refl _, List.nodup_singleton node, ?_,
    RingLinks.close_ring⟩, ?_, ?_, fun _ _ => rfl, fun _ _ => Iff.rfl⟩
  · intro n member
    rw [List.mem_singleton.mp member]
    exact live
  · exact fun n other =>
      Function.update_of_ne (List.ne_of_not_mem_cons other) _ _
  · exact fun n other =>
      Function.update_of_ne (List.ne_of_not_mem_cons other) _ _

end RingHeap

end IteSdk.Lib
