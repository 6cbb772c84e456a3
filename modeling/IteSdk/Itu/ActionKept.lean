import IteSdk.Itu.Action

/-!
# Invariants of a scene

A property that the changes of a scene keep is kept by whatever widgets and actions
do, and by the two queues.
-/

namespace IteSdk.Itu

open Lib Lib.Checked

variable {α β : Type}
  {holds : ITUScene α → Prop} {stop : ItuStop → ITUScene α → Prop}

def Keeps (holds : ITUScene α → Prop) (stop : ItuStop → ITUScene α → Prop)
    (program : ItuProgram α β) : Prop :=
  Triple holds program (fun _ => holds) stop

namespace Keeps

theorem pure {value : β} : Keeps holds stop (Pure.pure value) := Triple.pure fun _ here => here

theorem getScene {function : ITUScene α → β} : Keeps holds stop (getScene function) :=
  Triple.call fun _ here => here

theorem modify {change : ITUScene α → ITUScene α}
    (kept : ∀ scene, holds scene → holds (change scene)) :
    Keeps holds stop (modifyScene change) :=
  Triple.call kept

theorem bind {γ : Type} {program : ItuProgram α β}
    {next : β → ItuProgram α γ} (first : Keeps holds stop program)
    (second : ∀ value, Keeps holds stop (next value)) :
    Keeps holds stop (program >>= next) :=
  Triple.bind first second

theorem provided {condition : Prop} [Decidable condition]
    {program : ItuProgram α Unit} (kept : Keeps holds stop program) :
    Keeps holds stop (Checked.provided condition program) :=
  Triple.provided (fun _ => kept) fun _ _ here => here

theorem ite {condition : Prop} [Decidable condition]
    {left right : ItuProgram α β} (yes : Keeps holds stop left) (no : Keeps holds stop right) :
    Keeps holds stop (if condition then left else right) :=
  Triple.ite (fun _ => yes) fun _ => no

end Keeps

variable [DecidableEq α]

/-- A property that code outside cannot end by what it changes itself. -/
structure Kept (holds : ITUScene α → Prop) (stop : ItuStop → ITUScene α → Prop) : Prop where
  memory :
    ∀ (change : ITUMemory α → ITUMemory α) (scene : ITUScene α), holds scene →
      holds { scene with memory := change scene.memory }
  request : ∀ widget action delay, Keeps holds stop (delayRequest widget action delay)
  append :
    ∀ scene widget action, scene.actionQueueLen < ituActionQueueSize →
      holds scene → holds (scene.append widget action)

theorem Keeps.delayRequest
    (other : ∀ (scene : ITUScene α) (log : List (DelayEvent α))
      (queue : DelayQueue α), holds scene →
      holds { scene with delayLog := log, delayQueue := queue })
    (overrun : ∀ scene, holds scene → stop .delayOverrun scene) (widget : α)
    (action : ActionRef α) (delay : Int) :
    Keeps holds stop (delayRequest widget action delay) := by
  refine Keeps.bind (Keeps.modify fun scene here => other scene _ _ here) ?_
  refine fun _ => Keeps.bind Keeps.getScene fun found => ?_
  cases found with
  | none => exact Triple.throw overrun
  | some queue => exact Keeps.modify fun scene here => other scene _ queue here

section Outside

variable (kept : Kept holds stop)
include kept

theorem Kept.modifyMemory (change : ITUMemory α → ITUMemory α) :
    Keeps holds stop (modifyMemory change) :=
  Keeps.modify (kept.memory change)

theorem Kept.queueAction (widget : α) (action : ActionRef α) (ev : ITUEvent) :
    Keeps holds stop (queueAction widget action ev) := by
  have reads :
      Triple holds (getScene (α := α) fun scene => scene.actionQueueLen)
        (fun len scene => holds scene ∧ len = scene.actionQueueLen) stop :=
    Triple.call fun _ here => ⟨here, rfl⟩
  refine reads.bind fun len => ?_
  refine Triple.ite (fun room => ?_) fun _ => Triple.pure fun _ here => here.1
  have asks :
      Triple (fun scene => holds scene ∧ len = scene.actionQueueLen)
        (getScene fun scene => scene.isQueued widget action)
        (fun _ scene => holds scene ∧ len = scene.actionQueueLen) stop :=
    Triple.call fun _ here => here
  refine asks.bind fun queued => ?_
  refine Triple.ite (fun _ => Triple.pure fun _ here => here.1) fun _ => ?_
  have appends :
      Triple (fun scene => holds scene ∧ len = scene.actionQueueLen)
        (modifyScene fun scene => scene.append widget action)
        (fun _ => holds) stop :=
    Triple.call fun scene here => kept.append scene widget action (here.2 ▸ room) here.1
  refine appends.bind_unit ?_
  exact Keeps.ite (Keeps.bind (kept.modifyMemory _) fun _ => Keeps.pure) Keeps.pure

theorem Kept.execAction (widget : α) (action : ActionRef α) (ev : ITUEvent)
    (arg : Int) : Keeps holds stop (execAction widget action ev arg) := by
  refine Keeps.bind Keeps.getScene fun it => ?_
  refine Keeps.ite Keeps.pure (Keeps.ite Keeps.pure ?_)
  split
  · exact Keeps.bind (kept.request _ _ _) fun _ => Keeps.pure
  · exact Keeps.bind (kept.request _ _ _) fun _ => Keeps.pure
  · refine Keeps.bind Keeps.getScene fun param => ?_
    exact Keeps.bind (kept.modifyMemory _) fun _ => kept.queueAction _ _ _

theorem Kept.execActionsFrom (widget actions : α) (ev : ITUEvent) (arg : Int)
    (count i : Nat) (result : Bool) :
    Keeps holds stop (execActionsFrom widget actions ev arg count i result) := by
  induction count generalizing i result with
  | zero =>
    exact Keeps.pure
  | succ count ih =>
    refine Keeps.bind (kept.execAction _ _ _ _) fun turn => ?_
    cases turn with
    | none => exact Keeps.pure
    | some queued => exact ih _ _

theorem Kept.ituExecActions (widget actions : α) (ev : ITUEvent) (arg : Int) :
    Keeps holds stop (ituExecActions widget actions ev arg) :=
  kept.execActionsFrom _ _ _ _ _ _ _

theorem Kept.cachedOr (find : ITUMemory α → CString → Option α)
    (ref : ActionRef α) (action : ITUAction α) :
    Keeps holds stop (cachedOr find ref action) := by
  unfold IteSdk.Itu.cachedOr
  split
  · exact Keeps.pure
  · refine Keeps.bind Keeps.getScene fun found => ?_
    cases found with
    | none => exact Keeps.pure
    | some target =>
      exact Keeps.bind (kept.modifyMemory _) fun _ => Keeps.pure

theorem Kept.variableTarget (index : Int) : Keeps holds stop (variableTarget (α := α) index) := by
  refine Keeps.bind Keeps.getScene fun var => ?_
  split
  · exact Keeps.pure
  · refine Keeps.ite Keeps.pure (Keeps.bind Keeps.getScene fun found => ?_)
    cases found with
    | none => exact Keeps.pure
    | some target =>
      exact Keeps.bind (kept.modifyMemory _) fun _ => Keeps.pure

theorem Kept.actionTarget (ref : ActionRef α) (action : ITUAction α) :
    Keeps holds stop (actionTarget ref action) :=
  Keeps.ite (kept.variableTarget _) (Keeps.ite Keeps.pure (kept.cachedOr _ _ _))

omit [DecidableEq α] kept in
theorem Keeps.actionParam (action : ITUAction α) : Keeps holds stop (actionParam action) :=
  Keeps.ite Keeps.getScene Keeps.pure

variable {env : ItuEnv α} {queues : ITUEvent → ItuProgram α Bool}
  (nested : ∀ ev, Keeps holds stop (queues ev))
include nested

theorem Kept.runCalls (calls : List (ItuCall α)) : Keeps holds stop (runCalls queues calls) := by
  induction calls with
  | nil =>
    exact Keeps.pure
  | cons call rest ih =>
    refine Keeps.bind ?_ fun _ => ih
    cases call with
    | memory change =>
      exact kept.modifyMemory change
    | execActions widget actions ev arg =>
      exact Keeps.bind (kept.ituExecActions _ _ _ _) fun _ => Keeps.pure
    | sceneQueues ev =>
      exact Keeps.provided (Keeps.bind (nested ev) fun _ => Keeps.pure)

theorem Kept.perform (task : ItuTask α) : Keeps holds stop (perform env queues task) := by
  refine Keeps.bind Keeps.getScene fun answer => ?_
  exact Keeps.bind (kept.runCalls nested _) fun _ => Keeps.pure

theorem Kept.sceneUpdate (ev : ITUEvent) (arg : Int) :
    Keeps holds stop (sceneUpdate env queues ev arg) := by
  refine Keeps.bind Keeps.getScene fun dragged => ?_
  refine Keeps.ite Keeps.pure (Keeps.bind (kept.perform nested _) fun _ => ?_)
  refine Keeps.bind (Keeps.ite Keeps.pure (nested ev)) fun _ => ?_
  exact Keeps.bind (Keeps.provided (kept.modifyMemory _)) fun _ => Keeps.pure

theorem Kept.executeDelayed (widget : α) (ref : ActionRef α) :
    Keeps holds stop (executeDelayed env queues widget ref) := by
  refine Keeps.bind Keeps.getScene fun action => ?_
  refine Keeps.ite ?_ (Keeps.ite ?_ ?_)
  · exact Keeps.bind (kept.sceneUpdate nested _ _) fun _ => Keeps.pure
  · refine Keeps.bind (kept.cachedOr _ _ _) fun func => ?_
    cases func with
    | none => exact Keeps.pure
    | some func => exact Keeps.bind (kept.perform nested _) fun _ => Keeps.pure
  · refine Keeps.bind (kept.actionTarget _ _) fun target => ?_
    cases target with
    | none => exact Keeps.pure
    | some target =>
      refine Keeps.bind (Keeps.actionParam _) fun _ => ?_
      exact Keeps.bind (kept.perform nested _) fun _ => Keeps.pure

theorem Kept.executeDue (due : Option (α × ActionRef α)) :
    Keeps holds stop (executeDue env queues due) := by
  cases due with
  | none => exact Keeps.pure
  | some entry => exact kept.executeDelayed nested entry.1 entry.2

theorem Kept.flushFunction (i : Nat) (ref : ActionRef α)
    (action : ITUAction α) (func widget : α) (skipWidget : Option α) :
    Keeps holds stop (flushFunction env queues i ref action func widget skipWidget) := by
  refine Keeps.bind (kept.perform nested _) fun ret => ?_
  refine Keeps.bind Keeps.getScene fun again => ?_
  refine Keeps.bind Keeps.getScene fun ev => ?_
  refine Keeps.bind (Keeps.provided ?_) fun _ => ?_
  · exact Keeps.bind (kept.perform nested _) fun _ => Keeps.pure
  refine Keeps.bind Keeps.getScene fun evNow => ?_
  refine Keeps.bind (Keeps.provided ?_) fun _ => Keeps.ite Keeps.pure Keeps.pure
  refine Keeps.bind Keeps.getScene fun widgetNow => ?_
  exact Keeps.bind (kept.perform nested _) fun _ => Keeps.pure

end Outside

/-- A property that does not depend on which actions are in the queue. -/
structure KeptByFlush (holds : ITUScene α → Prop)
    (stop : ItuStop → ITUScene α → Prop) : Prop extends Kept holds stop where
  mark :
    ∀ scene i, holds scene → holds { scene with executed := scene.executed ++ [scene.serials i] }
  close : ∀ scene, holds scene → holds { scene with actionQueueLen := 0 }
  overrun : ∀ scene, holds scene → stop .actionOverrun scene

section Flush

variable (kept : KeptByFlush holds stop) {env : ItuEnv α}
  {queues : ITUEvent → ItuProgram α Bool}
  (nested : ∀ ev, Keeps holds stop (queues ev))
include kept nested

theorem KeptByFlush.flushOne (i : Nat) (skipWidget : Option α) :
    Keeps holds stop (flushOne env queues i skipWidget) := by
  have marks : Keeps holds stop (markExecuted (α := α) i) :=
    Keeps.modify fun scene here => kept.mark scene i here
  refine Keeps.bind Keeps.getScene fun exec => ?_
  refine Keeps.bind Keeps.getScene fun action => ?_
  refine Keeps.ite ?_ ?_
  · refine Keeps.bind marks fun _ => ?_
    exact Keeps.bind (kept.sceneUpdate nested _ _) fun _ => Keeps.pure
  split
  · refine Keeps.bind (kept.cachedOr _ _ _) fun func => ?_
    cases func with
    | none => exact Keeps.pure
    | some func =>
      exact Keeps.bind marks fun _ => kept.flushFunction nested _ _ _ _ _ _
  · refine Keeps.bind (kept.cachedOr _ _ _) fun target => ?_
    cases target with
    | none => exact Keeps.pure
    | some target =>
      refine Keeps.bind marks fun _ => ?_
      exact Keeps.bind (kept.modifyMemory _) fun _ => Keeps.pure
  · refine Keeps.bind (kept.actionTarget _ _) fun target => ?_
    cases target with
    | none => exact Keeps.pure
    | some target =>
      refine Keeps.bind (Keeps.actionParam _) fun _ => ?_
      refine Keeps.bind marks fun _ => ?_
      exact Keeps.bind (kept.perform nested _) fun _ => Keeps.pure

theorem KeptByFlush.flushFrom (turns i : Nat) (skipWidget : Option α) (result : Bool) :
    Keeps holds stop (flushFrom env queues turns i skipWidget result) := by
  have ends (result : Bool) : Keeps holds stop (endFlush (α := α) result) :=
    Keeps.bind (Keeps.modify kept.close) fun _ => Keeps.pure
  induction turns generalizing i skipWidget result with
  | zero =>
    refine Keeps.bind Keeps.getScene fun len => ?_
    exact Keeps.ite (Triple.throw kept.overrun) (ends result)
  | succ turns ih =>
    refine Keeps.bind Keeps.getScene fun len => Keeps.ite ?_ (ends result)
    refine Keeps.bind Keeps.getScene fun widget => ?_
    refine Keeps.ite (ih _ _ _) ?_
    exact Keeps.bind (kept.flushOne nested _ _) fun _ => ih _ _ _

theorem KeptByFlush.ituFlushActionQueue : Keeps holds stop (ituFlushActionQueue env queues) :=
  kept.flushFrom nested _ _ _ _

end Flush

end IteSdk.Itu
