import Mathlib.Logic.Relation

/-!
# Programs that stop early

A program that changes a state and may stop early with a result of its own, as
C code does that leaves a function with `goto end`.  `Holds` is the
postcondition of one run: what is true when the program goes through, and what
is true when it stops.
-/

namespace IteSdk.Lib

variable {σ ε α β : Type}

abbrev Checked (σ ε : Type) : Type → Type := ExceptT ε (StateM σ)

namespace Checked

/-- One run: the value or the stop, and the state it ends in. -/
def outcome (program : Checked σ ε α) (state : σ) : Except ε α × σ := (program.run.run state).run

def require (condition : Prop) [Decidable condition] (stop : ε) : Checked σ ε Unit :=
  if condition then pure () else throw stop

def provided (condition : Prop) [Decidable condition]
    (program : Checked σ ε Unit) : Checked σ ε Unit :=
  if condition then program else pure ()

def call (function : σ → α × σ) : Checked σ ε α :=
  fun state => ((.ok (function state).1 : Except ε α), (function state).2)

def Holds (program : Checked σ ε α) (state : σ)
    (post : α → σ → Prop) (stop : ε → σ → Prop) : Prop :=
  match program.outcome state with
  | (.ok value, after) => post value after
  | (.error error, after) => stop error after

section Outcome

variable {program : Checked σ ε α} {next : α → Checked σ ε β} {state : σ}

theorem outcome_call (function : σ → α × σ) (state : σ) :
    outcome (call function : Checked σ ε α) state =
      (.ok (function state).1, (function state).2) := rfl

theorem outcome_bind :
    outcome (program >>= next) state = match outcome program state with
      | (.ok value, after) => outcome (next value) after
      | (.error error, after) => (.error error, after) := by
  show (match program state with
    | (a, s) => (ExceptT.bindCont next a).run s) = _
  cases ran : program state with
  | mk result after =>
    have same : outcome program state = (result, after) := ran
    rw [same]
    cases result with
    | ok value | error error => rfl

end Outcome

namespace Holds

variable {program : Checked σ ε α} {next : α → Checked σ ε β} {state : σ}
  {post : α → σ → Prop} {stop : ε → σ → Prop}

theorem ok (holds : Holds program state post stop) {value : α} {after : σ}
    (ran : outcome program state = (.ok value, after)) : post value after := by
  rw [Holds, ran] at holds
  exact holds

theorem error (holds : Holds program state post stop) {error : ε} {after : σ}
    (ran : outcome program state = (.error error, after)) :
    stop error after := by
  rw [Holds, ran] at holds
  exact holds

theorem pure {value : α} (holds : post value state) :
    Holds (Pure.pure value : Checked σ ε α) state post stop := holds

theorem throw {error : ε} (holds : stop error state) :
    Holds (MonadExcept.throw error : Checked σ ε α) state post stop := holds

theorem call {function : σ → α × σ} (holds : post (function state).1 (function state).2) :
    Holds (Checked.call function : Checked σ ε α) state post stop := holds

theorem bind {post' : β → σ → Prop} {middle : α → σ → Prop}
    (first : Holds program state middle stop)
    (second : ∀ value after, middle value after → Holds (next value) after post' stop) :
    Holds (program >>= next) state post' stop := by
  unfold Holds at first ⊢
  rw [outcome_bind]
  cases ran : outcome program state with
  | mk result after =>
    rw [ran] at first
    cases result with
    | ok value => exact second value after first
    | error error => exact first

theorem bind_call {function : σ → α × σ} {post' : β → σ → Prop}
    (rest : Holds (next (function state).1) (function state).2 post' stop) :
    Holds (Checked.call function >>= next) state post' stop := by
  rw [Holds, outcome_bind]
  exact rest

theorem imp {post' : α → σ → Prop} {stop' : ε → σ → Prop} (holds : Holds program state post stop)
    (ok : ∀ value after, post value after → post' value after)
    (error : ∀ error after, stop error after → stop' error after) :
    Holds program state post' stop' := by
  unfold Holds at holds ⊢
  split at holds
  · exact ok _ _ holds
  · exact error _ _ holds

end Holds

def Returns (program : Checked σ ε α) (state : σ) (value : α) (after : σ) : Prop :=
  outcome program state = (.ok value, after)

namespace Returns

variable {program : Checked σ ε α} {next : α → Checked σ ε β}
  {state middle after : σ} {value : α} {result : β}

theorem pure : Returns (Pure.pure value : Checked σ ε α) state value state := rfl

theorem call {function : σ → α × σ} :
    Returns (Checked.call function : Checked σ ε α) state (function state).1 (function state).2 :=
  rfl

theorem bind (first : Returns program state value middle)
    (second : Returns (next value) middle result after) :
    Returns (program >>= next) state result after := by
  rw [Returns, outcome_bind, first]
  exact second

theorem require {condition : Prop} [Decidable condition] {error : ε}
    {next : Unit → Checked σ ε β} (met : condition) (rest : Returns (next ()) state result after) :
    Returns (Checked.require condition error >>= next) state result after := by
  rw [Checked.require, if_pos met]
  exact pure.bind rest

theorem provided {condition : Prop} [Decidable condition]
    {program : Checked σ ε Unit} {next : Unit → Checked σ ε β}
    (met : condition) (first : Returns program state () middle)
    (rest : Returns (next ()) middle result after) :
    Returns (Checked.provided condition program >>= next) state result after := by
  rw [Checked.provided, if_pos met]
  exact first.bind rest

theorem provided_not {condition : Prop} [Decidable condition]
    {program : Checked σ ε Unit} {next : Unit → Checked σ ε β}
    (unmet : ¬ condition) (rest : Returns (next ()) state result after) :
    Returns (Checked.provided condition program >>= next) state result after := by
  rw [Checked.provided, if_neg unmet]
  exact pure.bind rest

theorem bind_holds {post : β → σ → Prop} {stop : ε → σ → Prop}
    (first : Returns program state value middle) (rest : Holds (next value) middle post stop) :
    Holds (program >>= next) state post stop := by
  rw [Holds, outcome_bind, first]
  exact rest

end Returns

def Triple (pre : σ → Prop) (program : Checked σ ε α)
    (post : α → σ → Prop) (stop : ε → σ → Prop) : Prop :=
  ∀ state, pre state → Holds program state post stop

namespace Triple

variable {program : Checked σ ε α} {next : α → Checked σ ε β}
  {pre : σ → Prop} {post : α → σ → Prop} {post' : β → σ → Prop}
  {stop : ε → σ → Prop}

theorem pure {value : α} (holds : ∀ state, pre state → post value state) :
    Triple pre (Pure.pure value : Checked σ ε α) post stop :=
  holds

theorem throw {error : ε} (holds : ∀ state, pre state → stop error state) :
    Triple pre (MonadExcept.throw error : Checked σ ε α) post stop :=
  holds

theorem call {function : σ → α × σ}
    (holds : ∀ state, pre state → post (function state).1 (function state).2) :
    Triple pre (Checked.call function : Checked σ ε α) post stop :=
  holds

theorem bind {middle : α → σ → Prop} (first : Triple pre program middle stop)
    (second : ∀ value, Triple (middle value) (next value) post' stop) :
    Triple pre (program >>= next) post' stop :=
  fun state holds => (first state holds).bind fun value after => second value after

theorem bind_unit {program : Checked σ ε Unit} {next : Unit → Checked σ ε β}
    {middle : σ → Prop} (first : Triple pre program (fun _ => middle) stop)
    (second : Triple middle (next ()) post' stop) :
    Triple pre (program >>= next) post' stop :=
  first.bind fun _ => second

section

variable {condition : Prop} [Decidable condition] {error : ε}
  (unmet : ¬ condition → ∀ state, pre state → stop error state)

include unmet

theorem require {next : Unit → Checked σ ε β} (met : condition → Triple pre (next ()) post' stop) :
    Triple pre (Checked.require condition error >>= next) post' stop := by
  unfold Checked.require
  split
  · exact bind_unit (pure fun _ holds => holds) (met ‹_›)
  · exact bind (throw (unmet ‹_›)) fun _ _ impossible => False.elim impossible

theorem require_last {post : Unit → σ → Prop}
    (met : condition → ∀ state, pre state → post () state) :
    Triple pre (Checked.require condition error) post stop := by
  unfold Checked.require
  split
  · exact pure (met ‹_›)
  · exact throw (unmet ‹_›)

end

theorem ite {condition : Prop} [Decidable condition] {left right : Checked σ ε α}
    (yes : condition → Triple pre left post stop) (no : ¬ condition → Triple pre right post stop) :
    Triple pre (if condition then left else right) post stop := by
  split
  · exact yes ‹_›
  · exact no ‹_›

theorem provided {condition : Prop} [Decidable condition]
    {program : Checked σ ε Unit} {post : Unit → σ → Prop}
    (yes : condition → Triple pre program post stop)
    (no : ¬ condition → ∀ state, pre state → post () state) :
    Triple pre (Checked.provided condition program) post stop :=
  ite yes fun unmet => pure (no unmet)

theorem pre_imp {stronger : σ → Prop} (triple : Triple pre program post stop)
    (before : ∀ state, stronger state → pre state) :
    Triple stronger program post stop :=
  fun state holds => triple state (before state holds)

theorem post_imp {weaker : α → σ → Prop} (triple : Triple pre program post stop)
    (ok : ∀ value after, post value after → weaker value after) :
    Triple pre program weaker stop :=
  fun state holds => (triple state holds).imp ok fun _ _ holds => holds

theorem stop_imp {weaker : ε → σ → Prop} (triple : Triple pre program post stop)
    (error : ∀ error after, stop error after → weaker error after) :
    Triple pre program post weaker :=
  fun state holds => (triple state holds).imp (fun _ _ holds => holds) error

end Triple

section Loop

variable {step : Checked σ ε Bool} {bound : ε} {state : σ}

/-- Repeat a step until it returns `false`; `bound` is the stop of a loop that
takes more turns than it was given. -/
def repeatWhile (step : Checked σ ε Bool) (bound : ε) : Nat → Checked σ ε Unit
  | 0 => throw bound
  | fuel + 1 => do
      let again ← step
      if again = true then repeatWhile step bound fuel else pure ()

def Next (step : Checked σ ε Bool) (state after : σ) : Prop :=
  outcome step state = (.ok true, after)

def lastTurn : Except ε Bool × σ → Except ε Unit × σ
  | (.ok _, after) => (.ok (), after)
  | (.error error, after) => (.error error, after)

theorem next_rightUnique : Relator.RightUnique (Next step) := by
  intro state first second toFirst toSecond
  exact congrArg Prod.snd (Eq.trans toFirst.symm toSecond)

theorem repeatWhile_outcome (measure : σ → Nat) (bound : ε)
    (down : ∀ before after, Next step before after → measure after < measure before)
    {fuel : Nat} (enough : measure state < fuel) :
    ∃ last, Relation.ReflTransGen (Next step) state last ∧
      (∀ after, ¬ Next step last after) ∧
        outcome (repeatWhile step bound fuel) state = lastTurn (outcome step last) := by
  induction fuel generalizing state with
  | zero => omega
  | succ fuel ih =>
    by_cases goes : ∃ after, Next step state after
    · obtain ⟨after, goes⟩ := goes
      have less : measure after < fuel :=
        Nat.lt_of_lt_of_le (down state after goes) (Nat.le_of_lt_succ enough)
      obtain ⟨last, reached, ends, same⟩ := ih less
      refine ⟨last, .head goes reached, ends, ?_⟩
      rw [repeatWhile, outcome_bind, goes]
      exact same
    · refine ⟨state, .refl, fun after next => goes ⟨after, next⟩, ?_⟩
      rw [repeatWhile, outcome_bind]
      cases ran : outcome step state with
      | mk result after =>
        cases result with
        | error error => rfl
        | ok again =>
          cases again with
          | false => rfl
          | true => exact absurd ⟨after, ran⟩ goes

theorem last_unique {first second : σ} (toFirst : Relation.ReflTransGen (Next step) state first)
    (toSecond : Relation.ReflTransGen (Next step) state second)
    (firstEnds : ∀ after, ¬ Next step first after)
    (secondEnds : ∀ after, ¬ Next step second after) : first = second := by
  have stuck {last other : σ} (ends : ∀ after, ¬ Next step last after)
      (path : Relation.ReflTransGen (Next step) last other) : last = other := by
    rcases path.cases_head with same | ⟨after, next, -⟩
    · exact same
    · exact absurd next (ends after)
  rcases Relation.ReflTransGen.total_of_right_unique next_rightUnique
      toFirst toSecond with path | path
  · exact stuck firstEnds path
  · exact (stuck secondEnds path).symm

end Loop

end Checked

end IteSdk.Lib
