import IteSdk.Itu.Action
import IteSdk.Itu.ActionKept

/-!
# The delay queue, event by event

What requests and visits do to the slots, under the condition that each request finds
its slot.
-/

namespace IteSdk.Itu

section

open Lib

variable {α : Type}

def DelayQueue.Pending (queue : DelayQueue α) (slot : Nat) (widget : α)
    (action : ActionRef α) : Prop :=
  0 < (queue slot).delay ∧ (queue slot).widget = widget ∧ (queue slot).action = action

/-- Where the action waits already, no slot in front of it is free; where it does not,
some slot is, and the delay is positive. -/
def DelayQueue.RequestFits (queue : DelayQueue α) (widget : α)
    (action : ActionRef α) (delay : Int) : Prop :=
  (∃ j < ituActionQueueSize, queue.Pending j widget action ∧ ∀ k < j, (queue k).delay ≠ 0) ∨
    (0 < delay ∧ (∀ j < ituActionQueueSize, ¬ queue.Pending j widget action) ∧
      ∃ k < ituActionQueueSize, (queue k).delay = 0)

def DelayQueue.EventFits (queue : DelayQueue α) : DelayEvent α → Prop
  | .request widget action delay => queue.RequestFits widget action delay
  | _ => True

structure DelayQueue.Sane (queue : DelayQueue α) : Prop where
  nonneg : ∀ j < ituActionQueueSize, 0 ≤ (queue j).delay
  single :
    ∀ i < ituActionQueueSize, ∀ j < ituActionQueueSize, ∀ widget action,
      queue.Pending i widget action → queue.Pending j widget action → i = j

def visits (slot : Nat) (log : List (DelayEvent α)) : Nat :=
  log.countP fun
    | .visit other _ => other = slot
    | _ => false

def ticks (log : List (DelayEvent α)) : Nat :=
  log.countP fun
    | .tick => true
    | _ => false

variable [DecidableEq α] {queue : DelayQueue α} {widget : α}
  {action : ActionRef α} {delay : Int} {slot j : Nat}

namespace DelayQueue

theorem slot_some (found : queue.slot widget action = some j) :
    j < ituActionQueueSize ∧
      ((queue j).delay = 0 ∨ (queue j).widget = widget ∧ (queue j).action = action) ∧
      ∀ k < j, (queue k).delay ≠ 0 ∧ ¬ ((queue k).widget = widget ∧ (queue k).action = action) := by
  rw [DelayQueue.slot, List.find?_range_eq_some] at found
  obtain ⟨here, inside, before⟩ := found
  refine ⟨List.mem_range.mp inside, ?_, fun k less => ?_⟩
  · simpa using here
  · have skipped := before k less
    grind

theorem slot_none (absent : queue.slot widget action = none) :
    ∀ j < ituActionQueueSize, (queue j).delay ≠ 0 ∧
      ¬ ((queue j).widget = widget ∧ (queue j).action = action) := by
  intro j inside
  rw [DelayQueue.slot, List.find?_eq_none] at absent
  simpa [not_and_or] using absent j (List.mem_range.mpr inside)

theorem request_fits (sane : queue.Sane) (fits : queue.RequestFits widget action delay) :
    (∃ j < ituActionQueueSize, queue.Pending j widget action ∧
      queue.request widget action delay = some queue) ∨
    ∃ j < ituActionQueueSize, (queue j).delay = 0 ∧ 0 < delay ∧
      (∀ i < ituActionQueueSize, ¬ queue.Pending i widget action) ∧
      queue.request widget action delay =
        some (Function.update queue j ⟨widget, action, delay⟩) := by
  rw [request]
  cases found : queue.slot widget action with
  | none =>
    have absent := slot_none found
    rcases fits with ⟨j, inside, waits, _⟩ | ⟨_, _, k, inside, free⟩
    · exact absurd waits.2 (absent j inside).2
    · exact absurd free (absent k inside).1
  | some j =>
    obtain ⟨inside, here, before⟩ := slot_some found
    dsimp only
    rcases fits with ⟨i, insideI, waits, busy⟩ | ⟨positive, waitsNot, _⟩
    · -- The search does not go beyond the slot of the action.
      have upTo : j ≤ i := by
        by_contra beyond
        exact (before i (Nat.lt_of_not_le beyond)).2 waits.2
      have found : (queue j).widget = widget ∧ (queue j).action = action := by
        rcases here with free | same
        · rcases Nat.lt_or_eq_of_le upTo with less | equal
          · exact absurd free (busy j less)
          · exact equal ▸ waits.2
        · exact same
      have positive : 0 < (queue j).delay := by
        rcases Nat.lt_or_eq_of_le upTo with less | equal
        · have nonneg := sane.nonneg j inside
          have busyHere := busy j less
          omega
        · exact equal ▸ waits.1
      rw [if_pos positive]
      exact Or.inl ⟨j, inside, ⟨positive, found⟩, rfl⟩
    · have free : (queue j).delay = 0 := by
        by_contra busy
        have nonneg := sane.nonneg j inside
        have waits : 0 < (queue j).delay := by omega
        exact waitsNot j inside ⟨waits, here.resolve_left busy⟩
      rw [if_neg (by omega)]
      exact Or.inr ⟨j, inside, free, positive, waitsNot, rfl⟩

/-! ## Events -/

def step (queue : DelayQueue α) : DelayEvent α → DelayQueue α
  | .request widget action delay =>
    (queue.request widget action delay).getD queue
  | .tick => queue
  | .visit slot _ => queue.visit slot

def after (queue : DelayQueue α) (log : List (DelayEvent α)) : DelayQueue α :=
  log.foldl step queue

theorem after_append (queue : DelayQueue α) (first second : List (DelayEvent α)) :
    queue.after (first ++ second) = (queue.after first).after second :=
  List.foldl_append

theorem after_singleton (queue : DelayQueue α) (event : DelayEvent α) :
    queue.after [event] = queue.step event :=
  rfl

def Fitting (queue : DelayQueue α) : List (DelayEvent α) → Prop
  | [] => True
  | event :: rest => queue.EventFits event ∧ (queue.step event).Fitting rest

instance : Decidable (queue.Pending slot widget action) := inferInstanceAs (Decidable (_ ∧ _ ∧ _))

instance : Decidable (queue.RequestFits widget action delay) :=
  inferInstanceAs (Decidable (_ ∨ _))

instance (event : DelayEvent α) : Decidable (queue.EventFits event) :=
  match event with
  | .request widget action delay =>
    inferInstanceAs (Decidable (queue.RequestFits widget action delay))
  | .tick => isTrue trivial
  | .visit _ _ => isTrue trivial

instance decidableFitting (queue : DelayQueue α) :
    (log : List (DelayEvent α)) → Decidable (queue.Fitting log)
  | [] => isTrue trivial
  | event :: rest =>
    have := decidableFitting (queue.step event) rest
    inferInstanceAs (Decidable (_ ∧ _))

variable {first second : List (DelayEvent α)}

theorem fitting_append :
    queue.Fitting (first ++ second) ↔ queue.Fitting first ∧ (queue.after first).Fitting second := by
  induction first generalizing queue with
  | nil =>
    exact (true_and _).symm.to_iff
  | cons event rest ih =>
    rw [List.cons_append, Fitting, Fitting, ih, and_assoc]
    rfl

def Truthful (queue : DelayQueue α) : List (DelayEvent α) → Prop
  | [] => True
  | event :: rest =>
    (∀ slot due, event = .visit slot due →
      due.map (fun entry => (entry.1, entry.2.1)) = queue.due slot) ∧
    (queue.step event).Truthful rest

theorem truthful_append :
    queue.Truthful (first ++ second) ↔
      queue.Truthful first ∧ (queue.after first).Truthful second := by
  induction first generalizing queue with
  | nil =>
    exact (true_and _).symm.to_iff
  | cons event rest ih =>
    rw [List.cons_append, Truthful, Truthful, ih, and_assoc]
    rfl

omit [DecidableEq α] in
theorem visit_of_ne (different : j ≠ slot) : queue.visit slot j = queue j := by
  rw [visit]
  split
  · rfl
  · exact Function.update_of_ne different _ _

omit [DecidableEq α] in
theorem visit_self (busy : 0 < (queue slot).delay) :
    queue.visit slot slot = { queue slot with delay := (queue slot).delay - 1 } := by
  rw [visit, if_neg (by omega), Function.update_self]

variable {event : DelayEvent α}

theorem step_busy (sane : queue.Sane) (busy : 0 < (queue j).delay) (fits : queue.EventFits event)
    (elsewhere : ∀ due, event ≠ .visit j due) :
    queue.step event j = queue j := by
  cases event with
  | request widget action delay =>
    rw [step]
    rcases request_fits sane fits with
      ⟨_, _, _, same⟩ | ⟨i, _, free, _, _, stored⟩
    · rw [same]
      rfl
    · rw [stored, Option.getD_some]
      apply Function.update_of_ne
      rintro rfl
      omega
  | tick => rfl
  | visit slot due =>
    apply visit_of_ne
    rintro rfl
    exact elsewhere due rfl

omit [DecidableEq α] in
theorem Sane.visit (sane : queue.Sane) (slot : Nat) : (queue.visit slot).Sane := by
  -- A visit changes nothing but a delay, and makes no slot busy.
  have same (j : Nat) (widget : α) (action : ActionRef α)
      (waits : (queue.visit slot).Pending j widget action) :
      queue.Pending j widget action := by
    rw [DelayQueue.visit] at waits
    split at waits
    · exact waits
    · by_cases here : j = slot
      · subst here
        rw [Pending, Function.update_self] at waits
        exact ⟨by omega, waits.2⟩
      · rw [Pending, Function.update_of_ne here] at waits
        exact waits
  refine ⟨fun j inside => ?_, fun i insideI j insideJ widget action => ?_⟩
  · have before := sane.nonneg j inside
    rw [DelayQueue.visit]
    split
    · exact before
    · by_cases here : j = slot
      · subst here
        rw [Function.update_self]
        dsimp only
        omega
      · rw [Function.update_of_ne here]
        exact before
  · intro waitsI waitsJ
    exact sane.single i insideI j insideJ widget action (same _ _ _ waitsI) (same _ _ _ waitsJ)

omit [DecidableEq α] in
theorem Sane.store (sane : queue.Sane) (positive : 0 < delay)
    (waitsNot : ∀ i < ituActionQueueSize, ¬ queue.Pending i widget action) :
    Sane (Function.update queue j ⟨widget, action, delay⟩) := by
  refine ⟨fun i inside => ?_, ?_⟩
  · by_cases here : i = j
    · rw [here, Function.update_self]
      exact Int.le_of_lt positive
    · rw [Function.update_of_ne here]
      exact sane.nonneg i inside
  · intro i insideI k insideK widget' action' waitsI waitsK
    by_cases hereI : i = j
    · by_cases hereK : k = j
      · rw [hereI, hereK]
      · rw [hereI, Pending, Function.update_self] at waitsI
        rw [Pending, Function.update_of_ne hereK, ← waitsI.2.1, ← waitsI.2.2] at waitsK
        exact absurd waitsK (waitsNot k insideK)
    · rw [Pending, Function.update_of_ne hereI] at waitsI
      by_cases hereK : k = j
      · rw [hereK, Pending, Function.update_self] at waitsK
        rw [← waitsK.2.1, ← waitsK.2.2] at waitsI
        exact absurd waitsI (waitsNot i insideI)
      · rw [Pending, Function.update_of_ne hereK] at waitsK
        exact sane.single i insideI k insideK widget' action' waitsI waitsK

theorem Sane.step (sane : queue.Sane) (fits : queue.EventFits event) : (queue.step event).Sane := by
  cases event with
  | request widget action delay =>
    rw [DelayQueue.step]
    rcases request_fits sane fits with
      ⟨_, _, _, same⟩ | ⟨j, _, _, positive, waitsNot, stored⟩
    · rw [same]
      exact sane
    · rw [stored]
      exact sane.store positive waitsNot
  | tick => exact sane
  | visit slot due => exact sane.visit slot

variable {log : List (DelayEvent α)}

theorem Sane.after (sane : queue.Sane) (fitting : queue.Fitting log) : (queue.after log).Sane := by
  induction log generalizing queue with
  | nil => exact sane
  | cons event rest ih =>
    exact ih (sane.step fitting.1) fitting.2

theorem after_waits (sane : queue.Sane) (fitting : queue.Fitting log)
    (here : queue j = ⟨widget, action, delay⟩) (early : (visits j log : Int) < delay) :
    queue.after log j = ⟨widget, action, delay - visits j log⟩ := by
  induction log generalizing queue delay with
  | nil =>
    rw [show queue.after [] = queue from rfl, here]
    simp [visits]
  | cons event rest ih =>
    have busy : 0 < (queue j).delay := by
      rw [here]
      dsimp only
      omega
    have saneNext := sane.step fitting.1
    by_cases visited : ∃ due, event = .visit j due
    · obtain ⟨due, rfl⟩ := visited
      have count : visits j (.visit j due :: rest) = visits j rest + 1 :=
        List.countP_cons_of_pos (decide_eq_true rfl)
      rw [count, Int.natCast_succ] at early
      have next : queue.step (.visit j due) j = ⟨widget, action, delay - 1⟩ := by
        rw [DelayQueue.step, visit_self busy, here]
      have later := ih saneNext fitting.2 next (by omega)
      rw [count, Int.natCast_succ]
      rw [show delay - ((visits j rest : Int) + 1) = delay - 1 - visits j rest by omega]
      exact later
    · have elsewhere (due) : event ≠ .visit j due := fun same => visited ⟨due, same⟩
      have count : visits j (event :: rest) = visits j rest := by
        apply List.countP_cons_of_neg
        cases event with
        | visit slot due =>
          intro same
          exact elsewhere due (by rw [of_decide_eq_true same])
        | request | tick => exact Bool.false_ne_true
      rw [count] at early ⊢
      apply ih saneNext fitting.2 _ early
      rw [step_busy sane busy fitting.1 elsewhere, here]

end DelayQueue

end

/-!
# Runs with the delay queue

Whatever is called, and however calls nest: an action that is accepted waits in its
slot, and is due once its slot was visited as often as its delay says.
-/

section

open Lib Lib.Checked

variable {α : Type} [DecidableEq α] {first : DelayQueue α}
  {env : ItuEnv α} {queues : ITUEvent → ItuProgram α Bool}

/-- The queue is what the events have made of it.  A tick that is under way has come
to some slots only. -/
structure Tracked (first : DelayQueue α) (offset : Nat → Int)
    (scene : ITUScene α) : Prop where
  queue : scene.delayQueue = first.after scene.delayLog
  truthful : first.Truthful scene.delayLog
  counts :
    ∀ j < ituActionQueueSize, (visits j scene.delayLog : Int) = ticks scene.delayLog + offset j

/-- The search runs out of the queue only where a request does not fit. -/
structure Stopped (first : DelayQueue α) (stop : ItuStop) (scene : ITUScene α) : Prop where
  truthful : first.Truthful scene.delayLog
  overrun : stop = .delayOverrun → ¬ first.Fitting scene.delayLog

theorem Tracked.stopped {offset : Nat → Int} {scene : ITUScene α}
    (tracked : Tracked first offset scene) {stop : ItuStop}
    (other : stop ≠ .delayOverrun) : Stopped first stop scene :=
  ⟨tracked.truthful, fun same => absurd same other⟩

theorem Tracked.event {offset next : Nat → Int} {scene after : ITUScene α}
    (tracked : Tracked first offset scene) {event : DelayEvent α}
    (log : after.delayLog = scene.delayLog ++ [event])
    (queue : after.delayQueue = scene.delayQueue.step event)
    (true_ : ∀ slot due, event = .visit slot due →
      due.map (fun entry => (entry.1, entry.2.1)) = scene.delayQueue.due slot)
    (counts : ∀ j < ituActionQueueSize,
      (visits j [event] : Int) + offset j = ticks [event] + next j) :
    Tracked first next after := by
  refine ⟨?_, ?_, fun j inside => ?_⟩
  · rw [queue, log, DelayQueue.after_append, ← tracked.queue]
    rfl
  · rw [log, DelayQueue.truthful_append, ← tracked.queue]
    exact ⟨tracked.truthful, true_, trivial⟩
  · have before := tracked.counts j inside
    have here := counts j inside
    rw [log, visits, ticks, List.countP_append, List.countP_append]
    rw [visits, ticks] at before here
    omega

theorem delayRequest_keeps (sane : first.Sane) (offset : Nat → Int)
    (widget : α) (action : ActionRef α) (delay : Int) :
    Keeps (Tracked first offset) (Stopped first) (delayRequest widget action delay) := by
  intro scene tracked
  apply Holds.bind_call
  apply Holds.bind_call
  dsimp only
  cases asked : scene.delayQueue.request widget action delay with
  | none =>
    apply Holds.throw
    refine ⟨?_, fun _ fitting => ?_⟩
    · rw [DelayQueue.truthful_append]
      exact ⟨tracked.truthful, by nofun, trivial⟩
    · rw [DelayQueue.fitting_append, ← tracked.queue] at fitting
      have saneHere := sane.after fitting.1
      rw [← tracked.queue] at saneHere
      have fits := fitting.2.1
      rcases DelayQueue.request_fits saneHere fits with
        ⟨_, _, _, same⟩ | ⟨_, _, _, _, _, stored⟩
      · rw [same] at asked
        cases asked
      · rw [stored] at asked
        cases asked
  | some queue =>
    apply Holds.call
    refine tracked.event rfl ?_ (by nofun) fun j _ => rfl
    rw [DelayQueue.step, asked]
    rfl

theorem Tracked.kept (sane : first.Sane) (offset : Nat → Int) :
    KeptByFlush (Tracked first offset) (Stopped first) where
  memory _ _ here := ⟨here.queue, here.truthful, here.counts⟩
  request := delayRequest_keeps sane offset
  append _ _ _ _ here := ⟨here.queue, here.truthful, here.counts⟩
  mark _ _ here := ⟨here.queue, here.truthful, here.counts⟩
  close _ here := ⟨here.queue, here.truthful, here.counts⟩
  overrun _ here := here.stopped (by decide)

def tickOffset (offset : Nat → Int) (i j : Nat) : Int := if j < i then offset j else offset j - 1

theorem delayVisit_tracked (offset : Nat → Int) (i : Nat) :
    Triple (Tracked first (tickOffset offset i)) (delayVisit i)
      (fun _ => Tracked first (tickOffset offset (i + 1))) (Stopped first) := by
  intro scene tracked
  apply Holds.bind_call
  apply Holds.bind_call
  obtain ⟨due, dueIs⟩ : ∃ due, due =
      (scene.delayQueue.due i).map fun entry =>
        (entry.1, entry.2, scene.memory.visible entry.1) := ⟨_, rfl⟩
  have next : Tracked first (tickOffset offset (i + 1))
      { scene with
        delayQueue := scene.delayQueue.visit i
        delayLog := scene.delayLog ++ [.visit i due] } := by
    refine tracked.event rfl rfl ?_ fun j _ => ?_
    · rintro slot due' visit
      cases visit
      rw [dueIs, Option.map_map]
      exact Option.map_id'
    · rw [tickOffset, tickOffset]
      by_cases here : i = j
      · subst here
        have visitsOne : visits i [DelayEvent.visit i due] = 1 := by simp [visits]
        have ticksNone : ticks [DelayEvent.visit i due] = 0 := by simp [ticks]
        rw [visitsOne, ticksNone, if_neg (Nat.lt_irrefl i), if_pos (Nat.lt_succ_self i)]
        omega
      · have visitsNone : visits j [DelayEvent.visit i due] = 0 := by simp [visits, here]
        have ticksNone : ticks [DelayEvent.visit i due] = 0 := by simp [ticks]
        rw [visitsNone, ticksNone]
        split
        · rw [if_pos (by omega)]
        · rw [if_neg (by omega)]
  dsimp only
  rw [← dueIs]
  split
  · exact Holds.pure next
  · exact Holds.pure next

section Nested

variable (sane : first.Sane)
  (nested : ∀ offset ev, Keeps (Tracked first offset) (Stopped first) (queues ev))
include sane nested

theorem execDelayFrom_tracked (offset : Nat → Int) {turns i : Nat}
    (all : i + turns = ituActionQueueSize) :
    Triple (Tracked first (tickOffset offset i))
      (execDelayFrom env queues turns i) (fun _ => Tracked first offset)
      (Stopped first) := by
  induction turns generalizing i with
  | zero =>
    apply Triple.pure
    intro scene tracked
    refine ⟨tracked.queue, tracked.truthful, fun j inside => ?_⟩
    rw [tracked.counts j inside, tickOffset, if_pos (by omega)]
  | succ turns ih =>
    refine Triple.bind (delayVisit_tracked offset i) fun due => ?_
    have kept := Tracked.kept sane (tickOffset offset (i + 1))
    exact (kept.executeDue (nested _) due).bind_unit (ih (by omega))

theorem ituExecDelayQueue_tracked (offset : Nat → Int) :
    Keeps (Tracked first offset) (Stopped first) (ituExecDelayQueue env queues) := by
  have begins : Triple (Tracked first offset)
      (modifyScene fun scene =>
        { scene with delayLog := scene.delayLog ++ [.tick] })
      (fun _ => Tracked first (tickOffset offset 0)) (Stopped first) := by
    apply Triple.call
    intro scene tracked
    refine tracked.event rfl rfl (by nofun) fun j _ => ?_
    have visitsNone : visits j [(.tick : DelayEvent α)] = 0 := by simp [visits]
    have ticksOne : ticks [(.tick : DelayEvent α)] = 1 := by simp [ticks]
    rw [tickOffset, if_neg (Nat.not_lt_zero j), visitsNone, ticksOne]
    omega
  exact begins.bind_unit (execDelayFrom_tracked sane nested offset rfl)

end Nested

theorem sceneQueues_tracked (sane : first.Sane) (fuel : Nat) (offset : Nat → Int) (ev : ITUEvent) :
    Keeps (Tracked first offset) (Stopped first) (sceneQueues env fuel ev) := by
  have counted : Keeps (Tracked first offset) (Stopped first)
      (modifyScene fun scene => { scene with updates := scene.updates + 1 }) :=
    Keeps.modify fun _ here => ⟨here.queue, here.truthful, here.counts⟩
  induction fuel generalizing offset ev with
  | zero =>
    refine Keeps.bind counted fun _ => Triple.throw fun _ here => ?_
    exact here.stopped (by decide)
  | succ fuel ih =>
    have nested (offset ev) := ih offset ev (Keeps.modify
      fun _ here => ⟨here.queue, here.truthful, here.counts⟩)
    have kept := Tracked.kept sane offset
    refine Keeps.bind counted fun _ => Keeps.bind (Keeps.ite ?_ Keeps.pure)
      fun _ => Keeps.bind (kept.ituFlushActionQueue (nested offset)) fun _ => Keeps.pure
    exact Keeps.bind (ituExecDelayQueue_tracked sane nested offset)
      fun _ => kept.perform (nested offset) _

/-- A request that got a slot: the entry waits there, and is due once. -/
structure Accepted (first : DelayQueue α) (before : List (DelayEvent α))
    (widget : α) (action : ActionRef α) (delay : Int)
    (rest : List (DelayEvent α)) (j : Nat) : Prop where
  free : (first.after before j).delay = 0
  others : ∀ i ≠ j, first.after (before ++ [.request widget action delay]) i = first.after before i
  waits :
    ∀ between later, rest = between ++ later → (visits j between : Int) < delay →
      first.after (before ++ .request widget action delay :: between) j =
        ⟨widget, action, delay - visits j between⟩
  early :
    ∀ between due later, rest = between ++ .visit j due :: later →
      (visits j between : Int) + 1 < delay → due = none
  comes :
    ∀ between due later, rest = between ++ .visit j due :: later →
      (visits j between : Int) + 1 = delay →
      (∃ visible, due = some (widget, action, visible)) ∧
        (first.after (before ++ .request widget action delay ::
          (between ++ [.visit j due])) j).delay = 0

/-- Every action that is accepted is due once, after its delay. -/
structure DelayOnce (first : DelayQueue α) (log : List (DelayEvent α)) :
    Prop where
  single : ∀ before rest, log = before ++ rest → (first.after before).Sane
  request :
    ∀ before widget action delay rest, log = before ++ .request widget action delay :: rest →
      (∃ j < ituActionQueueSize,
        (first.after before).Pending j widget action ∧
          first.after (before ++ [.request widget action delay]) = first.after before) ∨
        ∃ j < ituActionQueueSize,
          (∀ i < ituActionQueueSize, ¬ (first.after before).Pending i widget action) ∧
          Accepted first before widget action delay rest j

theorem accepted_of_free (sane : first.Sane)
    {before rest : List (DelayEvent α)} {widget : α} {action : ActionRef α} {delay : Int} {j : Nat}
    (fitting : first.Fitting (before ++ .request widget action delay :: rest))
    (truthful : first.Truthful (before ++ .request widget action delay :: rest))
    (free : (first.after before j).delay = 0)
    (stored :
      (first.after before).request widget action delay =
        some (Function.update (first.after before) j ⟨widget, action, delay⟩)) :
    Accepted first before widget action delay rest j := by
  have split (events : List (DelayEvent α)) :
      before ++ .request widget action delay :: events =
        (before ++ [.request widget action delay]) ++ events := by
    rw [List.append_assoc]
    rfl
  have next : first.after (before ++ [.request widget action delay]) =
      Function.update (first.after before) j ⟨widget, action, delay⟩ := by
    rw [DelayQueue.after_append, DelayQueue.after_singleton, DelayQueue.step,
      stored, Option.getD_some]
  rw [split, DelayQueue.fitting_append] at fitting
  rw [split, DelayQueue.truthful_append] at truthful
  have saneNext := sane.after fitting.1
  have here : first.after (before ++ [.request widget action delay]) j =
      ⟨widget, action, delay⟩ := by
    rw [next, Function.update_self]
  have waits (between later : List (DelayEvent α)) (is : rest = between ++ later)
      (soon : (visits j between : Int) < delay) :
      first.after (before ++ .request widget action delay :: between) j =
        ⟨widget, action, delay - visits j between⟩ := by
    rw [split, DelayQueue.after_append]
    have fittingBetween := fitting.2
    rw [is, DelayQueue.fitting_append] at fittingBetween
    exact DelayQueue.after_waits saneNext fittingBetween.1 here soon
  have due (between later : List (DelayEvent α))
      (visit : Option (α × ActionRef α × Bool)) (is : rest = between ++ .visit j visit :: later) :
      visit.map (fun entry => (entry.1, entry.2.1)) =
        (first.after (before ++ .request widget action delay :: between)).due j := by
    have truthfulRest := truthful.2
    rw [is, DelayQueue.truthful_append] at truthfulRest
    rw [split, DelayQueue.after_append]
    exact truthfulRest.2.1 j visit rfl
  refine ⟨free, fun i different => ?_, waits, ?_, ?_⟩
  · rw [next, Function.update_of_ne different]
  · intro between visit later is early
    have visited := due between later visit is
    rw [DelayQueue.due, waits between _ is (by omega), if_neg] at visited
    · exact Option.map_eq_none_iff.mp visited
    · dsimp only
      omega
  · intro between visit later is last
    have waiting := waits between _ is (by omega)
    have visited := due between later visit is
    rw [DelayQueue.due, waiting, if_pos] at visited
    · obtain ⟨⟨widget', action', visible⟩, visitIs, same⟩ := Option.map_eq_some_iff.mp visited
      cases same
      refine ⟨⟨visible, visitIs⟩, ?_⟩
      rw [← List.cons_append, ← List.append_assoc, DelayQueue.after_append,
        DelayQueue.after_singleton, DelayQueue.step, DelayQueue.visit_self]
      · rw [waiting]
        dsimp only
        omega
      · rw [waiting]
        dsimp only
        omega
    · dsimp only
      omega

theorem delayOnce (sane : first.Sane) {log : List (DelayEvent α)}
    (fitting : first.Fitting log) (truthful : first.Truthful log) :
    DelayOnce first log := by
  refine ⟨?_, ?_⟩
  · rintro before rest rfl
    exact sane.after (DelayQueue.fitting_append.mp fitting).1
  · rintro before widget action delay rest rfl
    obtain ⟨fittingBefore, fits, _⟩ := DelayQueue.fitting_append.mp fitting
    have saneBefore := sane.after fittingBefore
    rcases DelayQueue.request_fits saneBefore fits with
      ⟨j, inside, waits, same⟩ | ⟨j, inside, free, _, waitsNot, stored⟩
    · refine Or.inl ⟨j, inside, waits, ?_⟩
      rw [DelayQueue.after_append, DelayQueue.after_singleton, DelayQueue.step,
        same, Option.getD_some]
    · exact Or.inr ⟨j, inside, waitsNot, accepted_of_free sane fitting truthful free stored⟩

/-- The array `n` has one action, for the delay with number 0. -/
def delayedAction (ref : ActionRef Nat) : ITUAction Nat :=
  { action := if ref.2 = 0 then .show else .none
    ev := .delayed 0
    target := []
    param := []
    cachedTarget := none }

def quietScene (action : ActionRef Nat → ITUAction Nat) : ITUScene Nat :=
  { memory :=
      { action := action
        type := fun _ => .other
        dirty := fun _ => false
        visible := fun _ => true
        string := fun _ => []
        findFunction := fun _ => none
        findWidget := fun _ => none
        variableArray := fun _ => ⟨[], [], none⟩
        dragged := none }
    actionQueueLen := 0
    actionQueue := fun _ => ⟨0, (0, 0), 0⟩
    delayQueue := fun _ => ⟨0, (0, 0), 0⟩
    delayLog := []
    serials := fun _ => 0
    accepted := 0
    executed := []
    updates := 0 }

def quietEnv : ItuEnv Nat := fun _ _ => ([], false)

def runQuiet (calls : List (ItuCall Nat)) : Except ItuStop Unit × ITUScene Nat :=
  (runCalls (sceneQueues quietEnv 1) calls).outcome (quietScene delayedAction)

def stopOf : Except ItuStop Unit → Option ItuStop
  | .ok _ => none
  | .error stop => some stop

def twoDelayed : List (ItuCall Nat) :=
  [.execActions 0 1 (.delayed 0) 1, .execActions 0 2 (.delayed 0) 2, .sceneQueues .timer]

theorem ok_of_stopOf {ran : Except ItuStop Unit × ITUScene Nat}
    (goes : stopOf ran.1 = none) : ran = (.ok (), ran.2) := by
  obtain ⟨result, after⟩ := ran
  cases result with
  | ok value => rfl
  | error stop => cases goes

end

end IteSdk.Itu
