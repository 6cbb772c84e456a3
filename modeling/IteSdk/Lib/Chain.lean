import Mathlib.Data.List.Nodup
import Mathlib.Logic.Equiv.Basic
import Mathlib.Logic.Function.Basic

/-!
# Chains of pointers

Nodes that are found one behind the other through one pointer each, as in a
singly linked list.  A chain leads from a pointer to a pointer; that of a whole
list leads to the null pointer.
-/

namespace IteSdk.Lib

universe u

variable {ν : Type u}

/-- From `start` the pointers lead through `nodes` to `stop`. -/
def Chain (next : ν → Option ν) : Option ν → List ν → Option ν → Prop
  | start, [], stop => start = stop
  | start, n :: rest, stop => start = some n ∧ Chain next (next n) rest stop

/-- A loop that goes on until what comes next is what it stops at; the null
pointer has nothing behind it. -/
def seek (next : ν → Option ν) (stops : Option ν → Bool) : Nat → ν → Option ν
  | 0, _ => none
  | fuel + 1, n =>
    if stops (next n) then some n
    else
      match next n with
      | none => none
      | some m => seek next stops fuel m

variable {next : ν → Option ν} {start stop : Option ν}

theorem nodup_append_singleton {front : List ν} {n : ν} :
    (front ++ [n]).Nodup ↔ front.Nodup ∧ n ∉ front := by
  rw [← List.concat_eq_append, List.nodup_concat, and_comm]

variable {front rest : List ν} {nodes : List ν}

theorem chain_append :
    Chain next start (front ++ rest) stop ↔
      ∃ middle, Chain next start front middle ∧ Chain next middle rest stop := by
  induction front generalizing start with
  | nil =>
    constructor
    · intro chain
      exact ⟨start, rfl, chain⟩
    · intro ⟨middle, same, chain⟩
      obtain rfl : start = middle := same
      exact chain
  | cons n front ih =>
    simp only [List.cons_append, Chain, ih, and_assoc, exists_and_left]

theorem chain_split {n : ν} :
    Chain next start (front ++ n :: rest) stop ↔
      Chain next start front (some n) ∧ Chain next (next n) rest stop := by
  rw [chain_append]
  constructor
  · intro ⟨middle, before, here, after⟩
    exact ⟨here ▸ before, after⟩
  · intro ⟨before, after⟩
    exact ⟨some n, before, rfl, after⟩

theorem Chain.congr {next' : ν → Option ν} (chain : Chain next start nodes stop)
    (same : ∀ n ∈ nodes, next' n = next n) :
    Chain next' start nodes stop := by
  induction nodes generalizing start with
  | nil =>
    exact chain
  | cons n rest ih =>
    obtain ⟨here, later⟩ := chain
    obtain ⟨sameHere, sameLater⟩ := List.forall_mem_cons.mp same
    exact ⟨here, ih (sameHere ▸ later) sameLater⟩

theorem Chain.unique {nodes others : List ν} (first : Chain next start nodes none)
    (second : Chain next start others none) : nodes = others := by
  induction nodes generalizing start others with
  | nil =>
    cases others with
    | nil => rfl
    | cons n rest => cases (first : start = none).symm.trans second.1
  | cons n rest ih =>
    obtain ⟨rfl, later⟩ := first
    cases others with
    | nil => cases (second : some n = none)
    | cons m others =>
      obtain ⟨same, secondLater⟩ := second
      obtain rfl := Option.some.inj same
      rw [ih later secondLater]

theorem Chain.nodup (chain : Chain next start nodes none) : nodes.Nodup := by
  induction nodes generalizing start with
  | nil =>
    exact List.nodup_nil
  | cons n rest ih =>
    obtain ⟨_, later⟩ := chain
    refine List.nodup_cons.mpr ⟨?_, ih later⟩
    intro again
    obtain ⟨front, behind, split_⟩ := List.append_of_mem again
    rw [split_] at later
    have cut := later.unique (chain_split.mp later).2
    have lengths := congrArg List.length cut
    rw [List.length_append, List.length_cons] at lengths
    omega

theorem Chain.redirect [DecidableEq ν] {front : List ν} {last : ν}
    (chain : Chain next start front (some last)) (absent : last ∉ front) (target : Option ν) :
    Chain (Function.update next last target) start (front ++ [last]) target := by
  refine chain_split.mpr ⟨?_, ?_⟩
  · apply chain.congr
    intro n member
    have other : n ≠ last := ne_of_mem_of_not_mem member absent
    exact Function.update_of_ne other target next
  · exact Function.update_self last target next

theorem Chain.update_of_notMem [DecidableEq ν] {n : ν}
    (chain : Chain next start nodes stop) (absent : n ∉ nodes) (target : Option ν) :
    Chain (Function.update next n target) start nodes stop := by
  apply chain.congr
  intro m member
  have other : m ≠ n := ne_of_mem_of_not_mem member absent
  exact Function.update_of_ne other target next

theorem Chain.map (chain : Chain next start nodes stop) (rename : Equiv.Perm ν) :
    Chain (fun n => (next (rename.symm n)).map rename) (start.map rename)
      (nodes.map rename) (stop.map rename) := by
  induction nodes generalizing start with
  | nil =>
    exact congrArg (Option.map rename) chain
  | cons n rest ih =>
    obtain ⟨rfl, later⟩ := chain
    refine ⟨rfl, ?_⟩
    simp only [Equiv.symm_apply_apply]
    exact ih later

theorem Chain.next_mem {n m : ν} (chain : Chain next start nodes none) (member : n ∈ nodes)
    (leads : next n = some m) : m ∈ nodes := by
  obtain ⟨front, rest, rfl⟩ := List.append_of_mem member
  have later := (chain_split.mp chain).2
  rw [leads] at later
  cases rest with
  | nil => cases later
  | cons other rest =>
    obtain rfl := Option.some.inj later.1
    simp

theorem Chain.start_mem {n : ν} (chain : Chain next start nodes none) (leads : start = some n) :
    n ∈ nodes := by
  cases nodes with
  | nil => cases leads.symm.trans (chain : start = none)
  | cons first rest =>
    obtain rfl := Option.some.inj (leads.symm.trans chain.1)
    exact List.mem_cons_self

theorem Chain.next_ne_start {n first : ν}
    (chain : Chain next (some first) nodes none) (member : n ∈ nodes) :
    next n ≠ some first := by
  intro back
  obtain ⟨front, rest, rfl⟩ := List.append_of_mem member
  have later := (chain_split.mp chain).2
  rw [back] at later
  have lengths := congrArg List.length (later.unique chain)
  rw [List.length_append, List.length_cons] at lengths
  omega

theorem Chain.next_injective {n k m : ν} (chain : Chain next start nodes none) (member : n ∈ nodes)
    (memberToo : k ∈ nodes) (leads : next n = some m)
    (leadsToo : next k = some m) : n = k := by
  induction nodes generalizing start with
  | nil =>
    cases member
  | cons first rest ih =>
    obtain ⟨_, later⟩ := chain
    rcases List.mem_cons.mp member with rfl | behind
    · rcases List.mem_cons.mp memberToo with rfl | behindToo
      · rfl
      · rw [leads] at later
        exact absurd leadsToo (later.next_ne_start behindToo)
    · rcases List.mem_cons.mp memberToo with rfl | behindToo
      · rw [leadsToo] at later
        exact absurd leads (later.next_ne_start behind)
      · exact ih later behind behindToo

theorem seek_chain {stops : Option ν → Bool} {front : List ν} {n last : ν}
    (chain : Chain next (some n) (front ++ [last]) stop)
    (passes : ∀ m ∈ (front ++ [last]).tail, stops (some m) = false)
    (found : stops stop = true) {fuel : Nat} (enough : front.length < fuel) :
    seek next stops fuel n = some last := by
  induction front generalizing n fuel with
  | nil =>
    obtain ⟨fuel, rfl⟩ : ∃ fewer, fuel = fewer + 1 :=
      ⟨fuel - 1, by rw [List.length_nil] at enough; omega⟩
    obtain ⟨same, leads⟩ := chain
    obtain rfl := Option.some.inj same
    have here : next n = stop := leads
    rw [seek, here, if_pos found]
  | cons first front ih =>
    obtain ⟨fuel, rfl⟩ : ∃ fewer, fuel = fewer + 1 :=
      ⟨fuel - 1, by rw [List.length_cons] at enough; omega⟩
    obtain ⟨same, later⟩ : some n = some first ∧
        Chain next (next first) (front ++ [last]) stop := chain
    obtain rfl := Option.some.inj same
    rw [List.cons_append, List.tail_cons] at passes
    obtain ⟨m, others, behind⟩ : ∃ m others, front ++ [last] = m :: others :=
      List.exists_cons_of_ne_nil (by simp)
    have leads : next n = some m := by
      rw [behind] at later
      exact later.1
    have goesOn : stops (some m) = false := passes m (by rw [behind]; exact List.mem_cons_self)
    rw [leads] at later
    rw [seek, leads, if_neg (by simp [goesOn])]
    apply ih later
    · intro other member
      exact passes other (List.mem_of_mem_tail member)
    · rw [List.length_cons] at enough
      omega

/-- In front of a node that is not the first there is one, and a loop that stops
at the node finds it. -/
theorem Chain.seek_before (stops : Option ν → Bool) {first node : ν}
    (chain : Chain next (some first) (front ++ node :: rest) stop)
    (notFirst : first ≠ node) (passes : ∀ m ∈ front, stops (some m) = false)
    (found : stops (some node) = true) {fuel : Nat} (enough : front.length ≤ fuel) :
    ∃ earlier last, front = earlier ++ [last] ∧
      Chain next (some first) earlier (some last) ∧ next last = some node ∧
      seek next stops fuel first = some last := by
  have before := (chain_split.mp chain).1
  rcases List.eq_nil_or_concat front with rfl | ⟨earlier, last, rfl⟩
  · exact absurd (Option.some.inj before) notFirst
  · rw [List.concat_eq_append] at before passes enough
    obtain ⟨toLast, leads⟩ := chain_split.mp before
    refine ⟨earlier, last, List.concat_eq_append, toLast, leads, ?_⟩
    apply seek_chain before _ found
    · rw [List.length_append, List.length_singleton] at enough
      exact enough
    · intro m member
      exact passes m (List.mem_of_mem_tail member)

theorem Chain.seek_node [DecidableEq ν] {first node : ν}
    (chain : Chain next (some first) (front ++ node :: rest) none)
    (notFirst : first ≠ node) {fuel : Nat} (enough : front.length ≤ fuel) :
    ∃ earlier last, front = earlier ++ [last] ∧
      Chain next (some first) earlier (some last) ∧ next last = some node ∧
      seek next (· = some node) fuel first = some last := by
  have disjoint := (List.nodup_append.mp chain.nodup).2.2
  apply chain.seek_before _ notFirst _ (by simp) enough
  intro m inside
  have notNode : m ≠ node := disjoint m inside node List.mem_cons_self
  simp [notNode]

end IteSdk.Lib
