import IteSdk.Itu.ActionKept
import IteSdk.Itu.DelayQueue
import Mathlib.Data.List.Nodup

/-!
# Flushing the action queue

A flush that is not entered again while it runs comes to its end and executes each
action once.
-/

namespace IteSdk.Itu

open Lib Lib.Checked

variable {α : Type} [DecidableEq α] {env : ItuEnv α}
  {queues : ITUEvent → ItuProgram α Bool} {entered i : Nat}

/-- What is queued from some index on is numbered, and has not been executed. -/
structure Queued (i : Nat) (scene : ITUScene α) : Prop where
  bounded : scene.actionQueueLen ≤ ituActionQueueSize
  older : ∀ j < scene.actionQueueLen, scene.serials j < scene.accepted
  done : ∀ n ∈ scene.executed, n < scene.accepted
  once : scene.executed.Nodup
  distinct :
    ∀ j < scene.actionQueueLen, ∀ k < scene.actionQueueLen, i ≤ j → i ≤ k →
      scene.serials j = scene.serials k → j = k
  waiting : ∀ j < scene.actionQueueLen, i ≤ j → scene.serials j ∉ scene.executed

/-- A flush that has come to an index, unless the queues were entered again. -/
structure Flushing (entered i : Nat) (scene : ITUScene α) : Prop where
  begun : entered ≤ scene.updates
  queued : scene.updates = entered → Queued i scene

structure FlushingAt (entered i : Nat) (scene : ITUScene α) : Prop
    extends Flushing entered i scene where
  inside : scene.updates = entered → i < scene.actionQueueLen

structure FlushStopped (entered : Nat) (stop : ItuStop) (scene : ITUScene α) : Prop where
  begun : entered ≤ scene.updates
  once : scene.updates = entered → stop = .delayOverrun ∧ scene.executed.Nodup

variable {scene : ITUScene α}

omit [DecidableEq α] in
theorem Queued.next (queued : Queued i scene) : Queued (i + 1) scene where
  bounded := queued.bounded
  older := queued.older
  done := queued.done
  once := queued.once
  distinct j insideJ k insideK reachedJ reachedK :=
    queued.distinct j insideJ k insideK (by omega) (by omega)
  waiting j inside reached := queued.waiting j inside (by omega)

omit [DecidableEq α] in
theorem Queued.append (queued : Queued i scene)
    (room : scene.actionQueueLen < ituActionQueueSize) (widget : α)
    (action : ActionRef α) : Queued i (scene.append widget action) := by
  -- The new action has a number that no other has.
  have last : (scene.append widget action).serials scene.actionQueueLen = scene.accepted :=
    Function.update_self _ _ _
  have before (j : Nat) (inside : j < scene.actionQueueLen) :
      (scene.append widget action).serials j = scene.serials j :=
    Function.update_of_ne (Nat.ne_of_lt inside) _ _
  have split (j : Nat) (inside : j < scene.actionQueueLen + 1) :
      j < scene.actionQueueLen ∨ j = scene.actionQueueLen := by
    omega
  refine ⟨room, fun j inside => ?_, fun n member => ?_, queued.once, ?_, ?_⟩
  · rcases split j inside with here | rfl
    · rw [before j here]
      exact Nat.lt_succ_of_lt (queued.older j here)
    · rw [last]
      exact Nat.lt_succ_self _
  · exact Nat.lt_succ_of_lt (queued.done n member)
  · intro j insideJ k insideK reachedJ reachedK same
    rcases split j insideJ with hereJ | rfl <;>
      rcases split k insideK with hereK | rfl
    · rw [before j hereJ, before k hereK] at same
      exact queued.distinct j hereJ k hereK reachedJ reachedK same
    · rw [before j hereJ, last] at same
      exact absurd same (Nat.ne_of_lt (queued.older j hereJ))
    · rw [before k hereK, last] at same
      exact absurd same.symm (Nat.ne_of_lt (queued.older k hereK))
    · rfl
  · intro j inside reached member
    rcases split j inside with here | rfl
    · rw [before j here] at member
      exact queued.waiting j here reached member
    · rw [last] at member
      exact absurd (queued.done _ member) (Nat.lt_irrefl _)

omit [DecidableEq α] in
theorem Queued.mark (queued : Queued i scene) (inside : i < scene.actionQueueLen) :
    Queued (i + 1) { scene with executed := scene.executed ++ [scene.serials i] } := by
  refine ⟨queued.bounded, queued.older, fun n member => ?_, ?_,
    queued.next.distinct, fun j insideJ reached member => ?_⟩
  · rcases List.mem_append.mp member with before | here
    · exact queued.done n before
    · rw [List.mem_singleton.mp here]
      exact queued.older i inside
  · rw [← List.concat_eq_append, List.nodup_concat]
    exact ⟨queued.waiting i inside (Nat.le_refl i), queued.once⟩
  · rcases List.mem_append.mp member with before | here
    · exact queued.waiting j insideJ (by omega) before
    · have same := queued.distinct j insideJ i inside (by omega)
        (Nat.le_refl i) (List.mem_singleton.mp here)
      omega

theorem updates_kept (entered : Nat) :
    KeptByFlush (α := α) (fun scene => entered < scene.updates)
      (fun _ scene => entered < scene.updates) where
  memory _ _ here := here
  request := Keeps.delayRequest (fun _ _ _ here => here) fun _ here => here
  append _ _ _ _ here := here
  mark _ _ here := here
  close _ here := here
  overrun _ here := here

theorem ituExecDelayQueue_updates
    (nested : ∀ ev, Keeps (fun scene => entered < scene.updates)
      (fun _ scene => entered < scene.updates) (queues ev)) :
    Keeps (fun scene => entered < scene.updates) (fun _ scene => entered < scene.updates)
      (ituExecDelayQueue env queues) := by
  have visits (i : Nat) : Keeps (fun scene : ITUScene α => entered < scene.updates)
      (fun _ scene => entered < scene.updates) (delayVisit i) := by
    refine Keeps.bind Keeps.getScene fun due => ?_
    refine Keeps.bind (Keeps.modify fun _ here => here) fun _ => ?_
    split
    · exact Keeps.pure
    · exact Keeps.pure
  have loop (turns i : Nat) : Keeps (fun scene => entered < scene.updates)
      (fun _ scene => entered < scene.updates)
      (execDelayFrom env queues turns i) := by
    induction turns generalizing i with
    | zero =>
      exact Keeps.pure
    | succ turns ih =>
      refine Keeps.bind (visits i) fun due => ?_
      exact Keeps.bind ((updates_kept entered).executeDue nested due) fun _ => ih _
  exact Keeps.bind (Keeps.modify fun _ here => here) fun _ => loop _ _

theorem sceneQueues_enters (fuel : Nat) (ev : ITUEvent) :
    Triple (fun scene => entered ≤ scene.updates) (sceneQueues env fuel ev)
      (fun _ scene => entered < scene.updates)
      (fun _ scene => entered < scene.updates) := by
  have enters : Triple (fun scene : ITUScene α => entered ≤ scene.updates)
      (modifyScene fun scene => { scene with updates := scene.updates + 1 })
      (fun _ scene => entered < scene.updates)
      (fun _ scene => entered < scene.updates) :=
    Triple.call fun _ here => Nat.lt_succ_of_le here
  induction fuel generalizing entered ev with
  | zero =>
    exact enters.bind_unit (Triple.throw fun _ here => here)
  | succ fuel ih =>
    have nested (ev : ITUEvent) :
        Keeps (fun scene => entered < scene.updates) (fun _ scene => entered < scene.updates)
          (sceneQueues env fuel ev) := by
      have entersDeeper :
          Triple (fun scene : ITUScene α => entered + 1 ≤ scene.updates)
          (modifyScene fun scene =>
            { scene with updates := scene.updates + 1 })
          (fun _ scene => entered + 1 < scene.updates)
          (fun _ scene => entered + 1 < scene.updates) :=
        Triple.call fun _ here => Nat.lt_succ_of_le here
      have deeper := ih ev entersDeeper
      intro scene here
      apply (deeper scene here).imp
      · exact fun _ after here => Nat.lt_of_succ_lt here
      · exact fun _ after here => Nat.lt_of_succ_lt here
    have kept := updates_kept (α := α) entered
    refine enters.bind_unit (Keeps.bind (Keeps.ite ?_ Keeps.pure) fun _ =>
      Keeps.bind (kept.ituFlushActionQueue nested) fun _ => Keeps.pure)
    exact Keeps.bind (ituExecDelayQueue_updates nested) fun _ => kept.perform nested _

omit [DecidableEq α] in
theorem Flushing.stopped (flushing : Flushing entered i scene) :
    FlushStopped entered .delayOverrun scene :=
  ⟨flushing.begun, fun alone => ⟨rfl, (flushing.queued alone).once⟩⟩

theorem Flushing.kept (entered i : Nat) :
    Kept (α := α) (Flushing entered i) (FlushStopped entered) where
  memory _ _ here :=
    ⟨here.begun, fun alone =>
      let queued := here.queued alone
      ⟨queued.bounded, queued.older, queued.done, queued.once, queued.distinct, queued.waiting⟩⟩
  request := Keeps.delayRequest
    (fun _ _ _ here => ⟨here.begun, fun alone =>
      let queued := here.queued alone
      ⟨queued.bounded, queued.older, queued.done, queued.once, queued.distinct, queued.waiting⟩⟩)
    fun _ here => here.stopped
  append _ widget action room here :=
    ⟨here.begun, fun alone => (here.queued alone).append room widget action⟩

theorem FlushingAt.kept (entered i : Nat) :
    Kept (α := α) (FlushingAt entered i) (FlushStopped entered) where
  memory change scene here :=
    ⟨(Flushing.kept entered i).memory change scene here.toFlushing, here.inside⟩
  request := Keeps.delayRequest
    (fun _ _ _ here => ⟨⟨here.begun, fun alone =>
      let queued := here.queued alone
      ⟨queued.bounded, queued.older, queued.done, queued.once,
        queued.distinct, queued.waiting⟩⟩, here.inside⟩)
    fun _ here => here.stopped
  append scene widget action room here :=
    ⟨(Flushing.kept entered i).append scene widget action room here.toFlushing,
      fun alone => Nat.lt_succ_of_lt (here.inside alone)⟩

theorem sceneQueues_flushing (entered i fuel : Nat) (ev : ITUEvent) :
    Keeps (Flushing entered i) (FlushStopped entered) (sceneQueues env fuel ev) := by
  intro scene flushing
  apply (sceneQueues_enters fuel ev scene flushing.begun).imp
  · intro _ after more
    exact ⟨Nat.le_of_lt more, fun alone => absurd alone (Nat.ne_of_gt more)⟩
  · intro _ after more
    exact ⟨Nat.le_of_lt more, fun alone => absurd alone (Nat.ne_of_gt more)⟩

omit [DecidableEq α] in
theorem markExecuted_flushing (entered i : Nat) :
    Triple (FlushingAt (α := α) entered i) (markExecuted i)
      (fun _ => Flushing entered (i + 1)) (FlushStopped entered) :=
  Triple.call fun _ here => ⟨here.begun, fun alone => (here.queued alone).mark (here.inside alone)⟩

section Turn

variable (nested : ∀ i ev, Keeps (Flushing entered i) (FlushStopped entered) (queues ev))
include nested

theorem flushOne_flushing (i : Nat) (skipWidget : Option α) :
    Triple (FlushingAt entered i) (flushOne env queues i skipWidget)
      (fun _ => Flushing entered (i + 1)) (FlushStopped entered) := by
  have before := FlushingAt.kept (α := α) entered i
  have behind := Flushing.kept (α := α) entered (i + 1)
  have marks := markExecuted_flushing (α := α) entered i
  have inside := nested (i + 1)
  have skips {value : Option α × Bool} :
      Triple (FlushingAt entered i) (pure value : ItuProgram α _)
        (fun _ => Flushing entered (i + 1)) (FlushStopped entered) :=
    Triple.pure fun _ here => ⟨here.begun, fun alone => (here.queued alone).next⟩
  refine Triple.bind Keeps.getScene fun exec => ?_
  refine Triple.bind Keeps.getScene fun action => ?_
  refine Triple.ite (fun _ => ?_) fun _ => ?_
  · refine marks.bind_unit ?_
    exact Keeps.bind (behind.sceneUpdate inside _ _) fun _ => Keeps.pure
  split
  · refine Triple.bind (before.cachedOr _ _ _) fun func => ?_
    cases func with
    | none => exact skips
    | some func =>
      exact marks.bind_unit (behind.flushFunction inside _ _ _ _ _ _)
  · refine Triple.bind (before.cachedOr _ _ _) fun target => ?_
    cases target with
    | none => exact skips
    | some target =>
      refine marks.bind_unit ?_
      exact Keeps.bind (behind.modifyMemory _) fun _ => Keeps.pure
  · refine Triple.bind (before.actionTarget _ _) fun target => ?_
    cases target with
    | none => exact skips
    | some target =>
      refine Triple.bind (Keeps.actionParam _) fun _ => ?_
      refine marks.bind_unit ?_
      exact Keeps.bind (behind.perform inside _) fun _ => Keeps.pure

theorem flushFrom_flushing {turns i : Nat} {skipWidget : Option α}
    {result : Bool} (all : i + turns = ituActionQueueSize) :
    Triple (Flushing entered i) (flushFrom env queues turns i skipWidget result)
      (fun _ scene => scene.updates = entered → scene.executed.Nodup ∧ scene.actionQueueLen = 0)
      (FlushStopped entered) := by
  have reads (i : Nat) :
      Triple (Flushing entered i) (getScene (α := α) fun scene => scene.actionQueueLen)
        (fun len scene => Flushing entered i scene ∧ len = scene.actionQueueLen)
        (FlushStopped entered) :=
    Triple.call fun _ here => ⟨here, rfl⟩
  have ends (i len : Nat) (result : Bool) :
      Triple (fun scene => Flushing entered i scene ∧ len = scene.actionQueueLen)
        (endFlush (α := α) result)
        (fun _ scene => scene.updates = entered → scene.executed.Nodup ∧ scene.actionQueueLen = 0)
        (FlushStopped entered) := by
    intro scene here
    exact Holds.bind_call (Holds.pure fun alone => ⟨(here.1.queued alone).once, rfl⟩)
  induction turns generalizing i skipWidget result with
  | zero =>
    refine (reads i).bind fun len => Triple.ite (fun more => ?_) fun _ => ends i len result
    refine Triple.throw fun scene here => ⟨here.1.begun, fun alone => ?_⟩
    have bounded := (here.1.queued alone).bounded
    rw [← here.2] at bounded
    omega
  | succ turns ih =>
    refine (reads i).bind fun len => Triple.ite (fun more => ?_) fun _ => ends i len result
    have starts {scene : ITUScene α}
        (here : Flushing entered i scene ∧ len = scene.actionQueueLen) :
        FlushingAt entered i scene :=
      ⟨here.1, fun _ => here.2 ▸ more⟩
    have asks : Triple (fun scene => Flushing entered i scene ∧ len = scene.actionQueueLen)
        (queuedWidget (α := α) i) (fun _ => FlushingAt entered i)
        (FlushStopped entered) :=
      Triple.call fun _ here => starts here
    refine asks.bind fun widget => Triple.ite (fun _ => ?_) fun _ => ?_
    · have rest := @ih (i + 1) skipWidget result (by omega)
      exact rest.pre_imp fun scene here => ⟨here.begun, fun alone => (here.queued alone).next⟩
    · exact (flushOne_flushing nested i skipWidget).bind fun turn =>
        ih (by omega)

theorem ituFlushActionQueue_flushing :
    Triple (Flushing entered 0) (ituFlushActionQueue env queues)
      (fun _ scene => scene.updates = entered → scene.executed.Nodup ∧ scene.actionQueueLen = 0)
      (FlushStopped entered) :=
  flushFrom_flushing nested (Nat.zero_add _)

end Turn

theorem ituFlushActionQueue_once (env : ItuEnv α) (fuel : Nat)
    {scene after : ITUScene α} {result : Except ItuStop Bool} (queued : Queued 0 scene)
    (ran : (ituFlushActionQueue env (sceneQueues env fuel)).outcome scene = (result, after))
    (alone : after.updates = scene.updates) :
    after.executed.Nodup ∧
      ((∃ value, result = .ok value) ∧ after.actionQueueLen = 0 ∨
        result = .error .delayOverrun) := by
  have nested (i : Nat) (ev : ITUEvent) :
      Keeps (Flushing scene.updates i) (FlushStopped scene.updates) (sceneQueues env fuel ev) :=
    sceneQueues_flushing scene.updates i fuel ev
  have flushing : Triple (Flushing scene.updates 0)
      (ituFlushActionQueue env (sceneQueues env fuel))
      (fun _ after => after.updates = scene.updates →
        after.executed.Nodup ∧ after.actionQueueLen = 0)
      (FlushStopped scene.updates) :=
    ituFlushActionQueue_flushing nested
  have flushes := flushing scene ⟨Nat.le_refl _, fun _ => queued⟩
  cases result with
  | ok value =>
    obtain ⟨once, empty⟩ := flushes.ok ran alone
    exact ⟨once, Or.inl ⟨⟨value, rfl⟩, empty⟩⟩
  | error stop =>
    obtain ⟨rfl, once⟩ := (flushes.error ran).once alone
    exact ⟨once, Or.inr rfl⟩

/-! ## A queue with one action -/

def singleAction (action : ITUActionType) (_ : ActionRef Nat) : ITUAction Nat :=
  { action := action, ev := .press, target := [], param := []
    cachedTarget := some 7 }

def singleQueued (action : ITUActionType) : ITUScene Nat :=
  { quietScene (singleAction action) with actionQueueLen := 1, accepted := 1 }

theorem singleQueued_queued (action : ITUActionType) : Queued 0 (singleQueued action) where
  bounded := Nat.le_of_ble_eq_true rfl
  older j _ := Nat.one_pos
  done := by nofun
  once := List.nodup_nil
  distinct j insideJ k insideK _ _ _ :=
    (Nat.lt_one_iff.mp insideJ).trans (Nat.lt_one_iff.mp insideK).symm
  waiting j _ _ := List.not_mem_nil

/-- An action function that updates the scene when it is first called. -/
def updatingEnv : ItuEnv Nat
  | scene, .function _ _ _ =>
    (if scene.updates = 0 then [.sceneQueues .layout] else [], true)
  | _, _ => ([], false)

def runFlush (env : ItuEnv Nat) (fuel : Nat) (action : ITUActionType) :
    Except ItuStop Bool × ITUScene Nat :=
  (ituFlushActionQueue env (sceneQueues env fuel)).outcome (singleQueued action)

theorem ituFlushActionQueue_once_show :
    (runFlush quietEnv 1 .show).2.executed.Nodup ∧
      ((∃ value, (runFlush quietEnv 1 .show).1 = .ok value) ∧
          (runFlush quietEnv 1 .show).2.actionQueueLen = 0 ∨
        (runFlush quietEnv 1 .show).1 = .error .delayOverrun) :=
  @ituFlushActionQueue_once Nat _ quietEnv 1 (singleQueued .show) _ _
    (singleQueued_queued .show) rfl (by decide +kernel)

/-- A change of the language that waits, at the front of the queue. -/
structure LanguageQueued (scene : ITUScene Nat) : Prop where
  len : scene.actionQueueLen = 1
  action : scene.memory.action = singleAction .language
  dragged : scene.memory.dragged = none

variable {scene : ITUScene Nat}

variable {queues : ITUEvent → ItuProgram Nat Bool}

theorem perform_quiet {task : ItuTask Nat} :
    Returns (perform quietEnv queues task) scene false scene :=
  rfl

def Endless {β : Type} (program : ItuProgram Nat β) (scene : ITUScene Nat) : Prop :=
  Holds program scene (fun _ _ => False) (fun stop _ => stop = .fuel)

theorem Endless.bind {β γ : Type} {program : ItuProgram Nat β} {next : β → ItuProgram Nat γ}
    (endless : Endless program scene) : Endless (program >>= next) scene :=
  Holds.bind endless fun _ _ impossible => False.elim impossible

theorem ituFlushActionQueue_language (language : LanguageQueued scene)
    (deeper : ∀ {scene}, LanguageQueued scene → Endless (queues .language) scene) :
    Endless (ituFlushActionQueue quietEnv queues) scene := by
  have turn : Endless (flushOne quietEnv queues 0 none) scene := by
    refine Holds.bind_call (Holds.bind_call ?_)
    dsimp only
    rw [language.action, if_pos ⟨rfl, rfl⟩]
    refine Holds.bind_call (Endless.bind (Holds.bind_call ?_))
    dsimp only
    rw [if_neg (by nofun)]
    refine perform_quiet.bind_holds (Endless.bind ?_)
    rw [if_neg (by decide)]
    exact deeper ⟨language.len, language.action, language.dragged⟩
  refine Holds.bind_call ?_
  dsimp only
  rw [language.len, if_pos Nat.one_pos]
  refine Holds.bind_call ?_
  rw [if_neg (by nofun)]
  exact Endless.bind turn

theorem sceneQueues_language (fuel : Nat) (language : LanguageQueued scene) :
    Endless (sceneQueues quietEnv fuel .language) scene := by
  induction fuel generalizing scene with
  | zero =>
    exact Holds.bind_call (Holds.throw rfl)
  | succ fuel ih =>
    refine Holds.bind_call ?_
    rw [if_neg (by decide)]
    refine Returns.pure.bind_holds (Endless.bind ?_)
    exact ituFlushActionQueue_language ⟨language.len, language.action, language.dragged⟩ ih

/-- A change of the language is executed again and again, and an action function that
updates the scene is called twice. -/
theorem ituFlushActionQueue_again :
    (∀ fuel, ∃ after, runFlush quietEnv fuel .language = (.error .fuel, after)) ∧
    ¬ (runFlush updatingEnv 1 .function).2.executed.Nodup := by
  refine ⟨fun fuel => ?_, by decide +kernel⟩
  have stops := ituFlushActionQueue_language
    (⟨rfl, rfl, rfl⟩ : LanguageQueued (singleQueued .language))
    (sceneQueues_language fuel)
  cases ran : runFlush quietEnv fuel .language with
  | mk result after =>
    cases result with
    | ok value => exact (stops.ok ran).elim
    | error stop =>
      rw [stops.error ran]
      exact ⟨after, rfl⟩

end IteSdk.Itu
