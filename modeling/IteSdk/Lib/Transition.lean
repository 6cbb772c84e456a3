import Mathlib.Data.List.Basic
import Mathlib.Logic.Basic

/-!
# Finite runs of labelled transition systems

A system is given by its step relation.  `Run` is the reflexive-transitive
closure that remembers the events, extended at its end, so that an induction on
a run meets the last step together with the state before it.
-/

namespace IteSdk.Lib

universe u v

variable {σ : Type u} {ε : Type v}

/-- `Run step start events finish`: the events lead from `start` to `finish`. -/
inductive Run (step : σ → ε → σ → Prop) : σ → List ε → σ → Prop
  | refl (state : σ) : Run step state [] state
  | tail {start before after : σ} {events : List ε} {event : ε} :
      Run step start events before →
      step before event after →
      Run step start (events ++ [event]) after

/-- The steps of `step` that are also allowed by `allowed` in the state they
start from. -/
def Guarded (allowed : σ → ε → Prop) (step : σ → ε → σ → Prop) : σ → ε → σ → Prop :=
  fun before event after => allowed before event ∧ step before event after

def Graph (next : σ → ε → σ) : σ → ε → σ → Prop :=
  fun before event after => after = next before event

/-- The graph of a partial transition function: where it is `none` the event
cannot happen. -/
def Enabled (next : σ → ε → Option σ) : σ → ε → σ → Prop :=
  fun before event after => next before event = some after

/-- Every event is allowed in the state that the events before it lead to. -/
def AllowedAlong (allowed : σ → ε → Prop) (next : σ → ε → σ) : σ → List ε → Prop
  | _, [] => True
  | state, event :: rest =>
    allowed state event ∧ AllowedAlong allowed next (next state event) rest

instance AllowedAlong.decidable
    (allowed : σ → ε → Prop) [∀ state event, Decidable (allowed state event)] (next : σ → ε → σ) :
    ∀ (state : σ) (events : List ε), Decidable (AllowedAlong allowed next state events)
  | _, [] => inferInstanceAs (Decidable True)
  | state, event :: rest =>
    have := AllowedAlong.decidable allowed next (next state event) rest
    inferInstanceAs (Decidable (allowed state event ∧ _))

variable {allowed : σ → ε → Prop} {next : σ → ε → σ}

theorem AllowedAlong.of_append {start : σ} {done rest : List ε}
    (along : AllowedAlong allowed next start (done ++ rest)) :
    AllowedAlong allowed next start done ∧
      AllowedAlong allowed next (done.foldl next start) rest := by
  induction done generalizing start with
  | nil => exact ⟨trivial, along⟩
  | cons event done ih =>
    obtain ⟨before, after⟩ := ih along.2
    exact ⟨⟨along.1, before⟩, after⟩

/-- When the condition on a step is exactly what keeps the state after it safe,
the runs whose steps all meet it are those that only pass through safe states. -/
theorem AllowedAlong.iff_safe {inv safe : σ → Prop}
    (kept :
      ∀ state event, inv state → allowed state event →
        inv (next state event) ∧ safe (next state event))
    (needed : ∀ state event, inv state → safe (next state event) → allowed state event) {start : σ}
    (initial : inv start) (initialSafe : safe start) (events : List ε) :
    AllowedAlong allowed next start events ↔
      ∀ done rest, events = done ++ rest → safe (done.foldl next start) := by
  induction events generalizing start with
  | nil =>
    refine ⟨fun _ done rest split => ?_, fun _ => trivial⟩
    obtain ⟨rfl, rfl⟩ := List.append_eq_nil_iff.mp split.symm
    exact initialSafe
  | cons event events ih =>
    constructor
    · rintro ⟨first, later⟩ done rest split
      obtain ⟨nextInv, nextSafe⟩ := kept start event initial first
      cases done with
      | nil => exact initialSafe
      | cons head tail =>
        obtain ⟨rfl, tailSplit⟩ := List.cons_eq_cons.mp split
        exact (ih nextInv nextSafe).mp later tail rest tailSplit
    · intro allSafe
      have first : allowed start event := needed start event initial (allSafe [event] events rfl)
      obtain ⟨nextInv, nextSafe⟩ := kept start event initial first
      refine ⟨first, (ih nextInv nextSafe).mpr ?_⟩
      intro done rest split
      exact allSafe (event :: done) rest (by rw [split, List.cons_append])

namespace Run

variable {step : σ → ε → σ → Prop}

variable {events : List ε} {start finish : σ} {next : σ → ε → Option σ}

theorem invariant {inv : σ → Prop} (initial : inv start)
    (preserved : ∀ before event after, inv before → step before event after → inv after)
    (run : Run step start events finish) :
    inv finish := by
  induction run with
  | refl => exact initial
  | tail _ last ih =>
    exact preserved _ _ _ ih last

theorem mono {weaker : σ → ε → σ → Prop}
    (implied : ∀ before event after, step before event after → weaker before event after)
    (run : Run step start events finish) :
    Run weaker start events finish := by
  induction run with
  | refl => exact Run.refl _
  | tail _ last ih =>
    exact Run.tail ih (implied _ _ _ last)

theorem single {before after : σ} {event : ε} (one : step before event after) :
    Run step before [event] after := by
  simpa using Run.tail (Run.refl before) one

theorem append {start middle finish : σ} {first second : List ε}
    (left : Run step start first middle) (right : Run step middle second finish) :
    Run step start (first ++ second) finish := by
  induction right with
  | refl => simpa using left
  | tail _ last ih =>
    rw [← List.append_assoc]
    exact Run.tail ih last

theorem graph_foldl (next : σ → ε → σ) (start : σ) (events : List ε) :
    Run (Graph next) start events (events.foldl next start) := by
  induction events generalizing start with
  | nil => exact Run.refl start
  | cons event rest ih =>
    exact (single (rfl : Graph next start event _)).append (ih (next start event))

variable {allowed : σ → ε → Prop} {start : σ}

theorem guarded_foldl {next : σ → ε → σ} (all : AllowedAlong allowed next start events) :
    Run (Guarded allowed (Graph next)) start events (events.foldl next start) := by
  induction events generalizing start with
  | nil => exact Run.refl start
  | cons event rest ih =>
    have first : Guarded allowed (Graph next) start event (next start event) := ⟨all.1, rfl⟩
    exact (single first).append (ih all.2)

theorem enabled_foldlM (folded : events.foldlM next start = some finish) :
    Run (Enabled next) start events finish := by
  induction events generalizing start with
  | nil =>
    obtain rfl : start = finish := by simpa using folded
    exact Run.refl start
  | cons event rest ih =>
    obtain ⟨middle, first, later⟩ :
        ∃ middle, next start event = some middle ∧ rest.foldlM next middle = some finish := by
      simpa [Option.bind_eq_some_iff] using folded
    exact (single (first : Enabled next start event middle)).append (ih later)

theorem exists_foldlM (holds : σ → Prop) [DecidablePred holds]
    (computed : (events.foldlM next start).any (fun state => decide (holds state)) = true) :
    ∃ finish, events.foldlM next start = some finish ∧ holds finish := by
  obtain ⟨finish, folded, decided⟩ := (Option.any_eq_true _ _).mp computed
  exact ⟨finish, folded, of_decide_eq_true decided⟩

/-- A partial transition function that never fails where the invariant holds
runs through. -/
theorem foldlM_invariant {inv : σ → Prop}
    (goes : ∀ before event, inv before → ∃ after, next before event = some after ∧ inv after)
    (initial : inv start) (events : List ε) :
    ∃ finish, events.foldlM next start = some finish ∧ inv finish := by
  induction events generalizing start with
  | nil => exact ⟨start, rfl, initial⟩
  | cons event rest ih =>
    obtain ⟨middle, first, kept⟩ := goes start event initial
    obtain ⟨finish, later, holds⟩ := ih kept
    refine ⟨finish, ?_, holds⟩
    rw [List.foldlM_cons, first]
    exact later

theorem guarded_foldlM [∀ state event, Decidable (allowed state event)]
    (folded :
      events.foldlM
          (fun state event => if allowed state event then next state event else none)
          start =
        some finish) :
    Run (Guarded allowed (Enabled next)) start events finish := by
  refine (enabled_foldlM folded).mono ?_
  intro before event after step
  simp only [Enabled, Option.ite_none_right_eq_some] at step
  exact step

end Run

end IteSdk.Lib
