import Mathlib.Data.List.Basic

/-!
# Transducers

A transducer reads one symbol at a time and emits some output with each.  A
component that is handed its input in pieces but simulates a transducer symbol
by symbol cannot depend on where the pieces were cut.
-/

namespace IteSdk.Lib

section

universe u v w x y

variable {σ : Type u} {ι : Type v} {ο : Type w}

def transduce (step : σ → ι → List ο × σ) : σ → List ι → List ο × σ
  | state, [] => ([], state)
  | state, symbol :: rest =>
    let first := step state symbol
    let later := transduce step first.2 rest
    (first.1 ++ later.1, later.2)

section

variable (step : σ → ι → List ο × σ) (state : σ)

include step state

@[simp] theorem transduce_nil : transduce step state [] = ([], state) :=
  rfl

theorem transduce_cons (symbol : ι) (rest : List ι) :
    transduce step state (symbol :: rest) =
      ((step state symbol).1 ++ (transduce step (step state symbol).2 rest).1,
        (transduce step (step state symbol).2 rest).2) :=
  rfl

theorem transduce_append (first second : List ι) :
    transduce step state (first ++ second) =
      ((transduce step state first).1 ++ (transduce step (transduce step state first).2 second).1,
        (transduce step (transduce step state first).2 second).2) := by
  induction first generalizing state with
  | nil => simp
  | cons symbol rest ih =>
    simp only [List.cons_append, transduce_cons, ih, List.append_assoc]

end

/-- A machine that takes whole pieces and simulates, on each piece, a transducer
through `view`, simulates it on every sequence of pieces. -/
theorem transduce_pieces
    {μ : Type x} {β : Type y} {piece : μ → β → List ο × μ} {step : σ → ι → List ο × σ}
    (content : β → List ι) (view : μ → σ) (inv : μ → Prop)
    (simulates :
      ∀ machine input, inv machine →
        inv (piece machine input).2 ∧
          (piece machine input).1 = (transduce step (view machine) (content input)).1 ∧
            view (piece machine input).2 = (transduce step (view machine) (content input)).2)
    {machine : μ} (ready : inv machine) (pieces : List β) :
    inv (transduce piece machine pieces).2 ∧
      (transduce piece machine pieces).1 =
          (transduce step (view machine) (pieces.flatMap content)).1 ∧
        view (transduce piece machine pieces).2 =
          (transduce step (view machine) (pieces.flatMap content)).2 := by
  induction pieces generalizing machine with
  | nil => exact ⟨ready, rfl, rfl⟩
  | cons input rest ih =>
    obtain ⟨kept, output, after⟩ := simulates machine input ready
    obtain ⟨laterInv, laterOutput, laterView⟩ := ih kept
    rw [List.flatMap_cons, transduce_append, transduce_cons]
    exact ⟨laterInv, by rw [output, laterOutput, after],
      by rw [laterView, after]⟩

/-- Two transducers whose states stay related and whose outputs agree on every
allowed symbol agree on every input of allowed symbols. -/
theorem transduce_related {τ : Type x} {left : σ → ι → List ο × σ} {right : τ → ι → List ο × τ}
    (related : σ → τ → Prop) (allowed : ι → Prop)
    (kept :
      ∀ state other symbol, related state other → allowed symbol →
        (left state symbol).1 = (right other symbol).1 ∧
          related (left state symbol).2 (right other symbol).2)
    {state : σ} {other : τ} (initial : related state other)
    {input : List ι} (all : ∀ symbol ∈ input, allowed symbol) :
    (transduce left state input).1 = (transduce right other input).1 ∧
      related (transduce left state input).2 (transduce right other input).2 := by
  induction input generalizing state other with
  | nil => exact ⟨rfl, initial⟩
  | cons symbol rest ih =>
    obtain ⟨first, others⟩ := List.forall_mem_cons.mp all
    obtain ⟨output, after⟩ := kept state other symbol initial first
    obtain ⟨later, finish⟩ := ih after others
    exact ⟨by rw [transduce_cons, transduce_cons, output, later], finish⟩

end

/-!
# Packets in a stream

A packetiser waits for a sync symbol and then takes a fixed number of symbols, the
sync symbol among them.  It looks at one symbol at a time, so it has no notion of
how the stream is cut.
-/

section

universe u

variable {β : Type u} [DecidableEq β] {size : Nat} {sync : β}

def packetise (size : Nat) (sync : β) : List β → β → List (List β) × List β
  | [], symbol => if symbol = sync then ([], [symbol]) else ([], [])
  | first :: rest, symbol =>
    if rest.length + 2 = size then
      ([first :: rest ++ [symbol]], [])
    else
      ([], first :: rest ++ [symbol])

theorem packetise_appends {collected : List β} (symbols : List β) (started : collected ≠ [])
    (short : collected.length + symbols.length < size) :
    transduce (packetise size sync) collected symbols = ([], collected ++ symbols) := by
  induction symbols generalizing collected with
  | nil => simp
  | cons symbol rest ih =>
    cases collected with
    | nil => exact absurd rfl started
    | cons first tail =>
      simp only [List.length_cons] at short
      have continues :
          packetise size sync (first :: tail) symbol = ([], first :: tail ++ [symbol]) := by
        rw [packetise, if_neg (by omega)]
      have later :=
        ih (by simp : first :: tail ++ [symbol] ≠ [])
          (by simp only [List.length_append, List.length_cons, List.length_nil]; omega)
      rw [transduce_cons, continues, later]
      simp

theorem packetise_complete {collected symbols : List β}
    (started : collected ≠ []) (notComplete : collected.length < size)
    (complete : collected.length + symbols.length = size) :
    transduce (packetise size sync) collected symbols = ([collected ++ symbols], []) := by
  obtain ⟨front, last, rfl⟩ :
      ∃ front last, symbols = front ++ [last] := by
    rcases List.eq_nil_or_concat symbols with empty | ⟨front, last, split⟩
    · subst empty
      simp at complete
      omega
    · exact ⟨front, last, by simpa using split⟩
  simp only [List.length_append, List.length_cons, List.length_nil] at complete
  rw [transduce_append, packetise_appends front started (by omega)]
  cases collected with
  | nil => exact absurd rfl started
  | cons first tail =>
    have emits :
        packetise size sync (first :: tail ++ front) last =
          ([first :: tail ++ front ++ [last]], []) := by
      simp only [List.length_cons] at complete
      rw [List.cons_append, packetise, if_pos]
      simp only [List.length_append]
      omega
    rw [transduce_cons, emits]
    simp

theorem packetise_sync (rest : List β) :
    transduce (packetise size sync) [] (sync :: rest) =
      transduce (packetise size sync) [sync] rest := by
  simp [transduce_cons, packetise]

theorem packetise_noSync {symbol : β} (other : symbol ≠ sync) (rest : List β) :
    transduce (packetise size sync) [] (symbol :: rest) =
      transduce (packetise size sync) [] rest := by
  simp [transduce_cons, packetise, other]

theorem packetise_packet {packet : List β} (starts : packet.head? = some sync)
    (whole : packet.length = size) (more : 1 < size) :
    transduce (packetise size sync) [] packet = ([packet], []) := by
  cases packet with
  | nil => simp at starts
  | cons symbol rest =>
    obtain rfl : symbol = sync := by simpa using starts
    have complete : [symbol].length + rest.length = size := by
      simp only [List.length_cons, List.length_nil] at whole ⊢
      omega
    rw [packetise_sync, packetise_complete (by simp) (by simpa using more) complete]
    rfl

theorem packetise_flatten {packets : List (List β)} (more : 1 < size)
    (all : ∀ packet ∈ packets, packet.head? = some sync ∧ packet.length = size) :
    transduce (packetise size sync) [] packets.flatten = (packets, []) := by
  induction packets with
  | nil => rfl
  | cons packet rest ih =>
    obtain ⟨⟨starts, whole⟩, others⟩ := List.forall_mem_cons.mp all
    rw [List.flatten_cons, transduce_append, packetise_packet starts whole more, ih others]
    rfl

theorem packetise_length (collected symbols : List β) :
    ∀ packet ∈ (transduce (packetise size sync) collected symbols).1, packet.length = size := by
  induction symbols generalizing collected with
  | nil => simp
  | cons symbol rest ih =>
    intro packet emitted
    rw [transduce_cons, List.mem_append] at emitted
    rcases emitted with here | later
    · cases collected with
      | nil =>
        rw [packetise] at here
        split at here <;> simp at here
      | cons first tail =>
        rw [packetise] at here
        split at here
        · obtain rfl := List.mem_singleton.mp here
          simp only [List.length_append, List.length_cons, List.length_nil]
          omega
        · simp at here
    · exact ih _ packet later

end

end IteSdk.Lib
