import Mathlib.Data.List.Basic

/-!
# Reading a list from its front

A reader takes a value from the front of its input and leaves the rest, or stops.
`Reads` says that a reader takes exactly one piece of input, whatever follows it.
-/

namespace IteSdk.Lib

universe u

variable {σ ε α β : Type u}

abbrev ListReader (σ ε : Type u) := StateT (List σ) (Except ε)

/-- Takes `count` symbols. -/
def symbols (stop : ε) (count : Nat) : ListReader σ ε (List σ) := fun input =>
  if count ≤ input.length then .ok (input.take count, input.drop count) else .error stop

/-- Takes `count` values one after the other. -/
def many (reader : ListReader σ ε α) : Nat → ListReader σ ε (List α)
  | 0 => pure []
  | count + 1 => reader >>= fun a => many reader count >>= fun rest => pure (a :: rest)

def Reads (reader : ListReader σ ε α) (input : List σ) (a : α) : Prop :=
  ∀ rest, reader.run (input ++ rest) = .ok (a, rest)

section Runs

variable {reader : ListReader σ ε α} {next : α → ListReader σ ε β} {input left : List σ}
  {b : β}

theorem run_bind_eq_ok_iff :
    (reader >>= next).run input = .ok (b, left) ↔
      ∃ a between, reader.run input = .ok (a, between) ∧ (next a).run between = .ok (b, left) := by
  rw [StateT.run_bind]
  cases reader.run input with
  | error stop =>
    constructor
    · intro run
      cases run
    · intro ⟨a, between, run, later⟩
      cases run
  | ok result =>
    constructor
    · intro run
      exact ⟨result.1, result.2, rfl, run⟩
    · intro ⟨a, between, same, run⟩
      cases same
      exact run

theorem run_pure_eq_ok_iff {a b : α} :
    (pure a : ListReader σ ε α).run input = .ok (b, left) ↔ a = b ∧ input = left := by
  constructor
  · intro run
    cases run
    exact ⟨rfl, rfl⟩
  · intro ⟨value, rest⟩
    rw [value, rest]
    rfl

theorem symbols_eq_ok_iff {stop : ε} {count : Nat} {taken : List σ} :
    (symbols stop count).run input = .ok (taken, left) ↔
      input = taken ++ left ∧ taken.length = count := by
  constructor
  · intro run
    change (if count ≤ input.length then _ else _) = _ at run
    split at run
    · next inside =>
      cases run
      exact ⟨(List.take_append_drop count input).symm, List.length_take_of_le inside⟩
    · cases run
  · rintro ⟨rfl, rfl⟩
    change (if _ then _ else _) = _
    rw [if_pos (by rw [List.length_append]; exact Nat.le_add_right _ _), List.take_left,
      List.drop_left]

theorem many_cons_head {count : Nat} {a : α} {others : List α}
    (run : (many reader (count + 1)).run input = .ok (a :: others, left)) :
    ∃ between, reader.run input = .ok (a, between) := by
  obtain ⟨head, between, first, later⟩ := run_bind_eq_ok_iff.mp run
  obtain ⟨rest, afterRest, -, last⟩ := run_bind_eq_ok_iff.mp later
  obtain ⟨same, -⟩ := run_pure_eq_ok_iff.mp last
  rw [← (List.cons.inj same).1]
  exact ⟨between, first⟩

end Runs

namespace Reads

variable {reader : ListReader σ ε α} {next : α → ListReader σ ε β}
  {first second : List σ}
  {a : α} {b : β}

theorem pure_value (a : α) : Reads (pure a : ListReader σ ε α) [] a := fun _ => rfl

theorem bind (reads : Reads reader first a) (later : Reads (next a) second b) :
    Reads (reader >>= next) (first ++ second) b := by
  intro rest
  rw [List.append_assoc, run_bind_eq_ok_iff]
  exact ⟨a, second ++ rest, reads _, later rest⟩

theorem map (reads : Reads reader first a) (f : α → β) :
    Reads (reader >>= fun a => pure (f a)) first (f a) := by
  have both : Reads (reader >>= fun a => pure (f a)) (first ++ []) (f a) :=
    reads.bind (pure_value (f a))
  rwa [List.append_nil] at both

theorem symbols (stop : ε) (input : List σ) {count : Nat} (length : input.length = count) :
    Reads (Lib.symbols stop count) input input := fun _ =>
  symbols_eq_ok_iff.mpr ⟨rfl, length⟩

theorem many {bytes : α → List σ} {items : List α}
    (each : ∀ item ∈ items, Reads reader (bytes item) item) :
    Reads (Lib.many reader items.length) (items.flatMap bytes) items := by
  induction items with
  | nil => exact pure_value []
  | cons item items ih =>
    obtain ⟨here, later⟩ := List.forall_mem_cons.mp each
    exact here.bind ((ih later).map fun rest => item :: rest)

theorem run_bind_iff (reads : Reads reader first a) {rest left : List σ} :
    (reader >>= next).run (first ++ rest) = .ok (b, left) ↔ (next a).run rest = .ok (b, left) := by
  rw [run_bind_eq_ok_iff]
  constructor
  · intro ⟨other, between, run, later⟩
    cases (reads rest).symm.trans run
    exact later
  · intro later
    exact ⟨a, rest, reads rest, later⟩

theorem many_succ_iff (reads : Reads reader first a) {count : Nat} {item : α}
    {items : List α} {rest left : List σ} :
    (Lib.many reader (count + 1)).run (first ++ rest) = .ok (item :: items, left) ↔
      a = item ∧ (Lib.many reader count).run rest = .ok (items, left) := by
  rw [Lib.many, reads.run_bind_iff, run_bind_eq_ok_iff]
  constructor
  · intro ⟨others, between, run, last⟩
    obtain ⟨same, left⟩ := run_pure_eq_ok_iff.mp last
    obtain ⟨head, rest⟩ := List.cons.inj same
    rw [head, ← rest, ← left]
    exact ⟨rfl, run⟩
  · intro ⟨same, run⟩
    rw [same]
    exact ⟨items, left, run, rfl⟩

end Reads

end IteSdk.Lib
