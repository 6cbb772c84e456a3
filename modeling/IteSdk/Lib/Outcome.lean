
/-!
# What a run ends with

A run that has a value or an error: a condition on the errors and one on the values,
with the rules that carry both through a program.
-/

namespace IteSdk.Lib

variable {ε α β : Type} {stop : ε → Prop} {post : α → Prop}

def Ends (stop : ε → Prop) (post : α → Prop) (run : Except ε α) : Prop :=
  match run with
  | .ok value => post value
  | .error error => stop error

namespace Ends

variable {run : Except ε α}

theorem ok {value : α} (ends : Ends stop post run) (runs : run = .ok value) : post value := by
  rw [runs] at ends
  exact ends

theorem error {error : ε} (ends : Ends stop post run) (runs : run = .error error) : stop error := by
  rw [runs] at ends
  exact ends

theorem of_ok {value : α} (runs : run = .ok value) (holds : post value) : Ends stop post run := by
  rw [runs]
  exact holds

theorem bind {later : β → Prop} {next : α → Except ε β} (ends : Ends stop post run)
    (goes : ∀ value, post value → Ends stop later (next value)) :
    Ends stop later (run >>= next) := by
  cases run with
  | ok value => exact goes value ends
  | error error => exact ends

theorem imp {less : ε → Prop} {weaker : α → Prop}
    (ends : Ends stop post run) (errors : ∀ error, stop error → less error)
    (values : ∀ value, post value → weaker value) : Ends less weaker run := by
  cases run with
  | ok value => exact values value ends
  | error error => exact errors error ends

theorem mono {weaker : α → Prop} (ends : Ends stop post run)
    (values : ∀ value, post value → weaker value) : Ends stop weaker run :=
  ends.imp (fun _ stops => stops) values

theorem foldlM {step : α → β → Except ε α} {items : List β} {start : α}
    (turn : ∀ state, post state → ∀ item ∈ items, Ends stop post (step state item))
    (begins : post start) : Ends stop post (items.foldlM step start) := by
  induction items generalizing start with
  | nil =>
    exact begins
  | cons item rest ih =>
    rw [List.foldlM_cons]
    exact (turn start begins item List.mem_cons_self).bind fun state holds =>
      ih
        (fun state holds item present => turn state holds item (List.mem_cons_of_mem _ present))
        holds

theorem value (ends : Ends (fun _ => False) post run) : ∃ value, run = .ok value ∧ post value := by
  cases run with
  | ok value => exact ⟨value, rfl, ends⟩
  | error error => exact False.elim ends

end Ends

section MeetsAlong

variable {meets : α → β → Prop} {step : α → β → Except ε α}

/-- Every item meets the condition where the items before it lead to. -/
def MeetsAlong (meets : α → β → Prop) (step : α → β → Except ε α) : α → List β → Prop
  | _, [] => True
  | state, item :: rest =>
    meets state item ∧ ∀ after, step state item = .ok after → MeetsAlong meets step after rest

/-- Where the condition says which steps have a value, it says which runs have
one. -/
theorem foldlM_ok_iff (inv : α → Prop) {items : List β} {start : α}
    (exact_ : ∀ state, inv state → ∀ item ∈ items,
      ((∃ after, step state item = .ok after) ↔ meets state item))
    (kept : ∀ state, inv state → ∀ item ∈ items, ∀ after, step state item = .ok after → inv after)
    (begins : inv start) :
    (∃ finish, items.foldlM step start = .ok finish) ↔ MeetsAlong meets step start items := by
  induction items generalizing start with
  | nil => exact ⟨fun _ => trivial, fun _ => ⟨start, rfl⟩⟩
  | cons item rest ih =>
    have here := exact_ start begins item List.mem_cons_self
    have keptHere := kept start begins item List.mem_cons_self
    have later (after : α) (holds : inv after) :=
      @ih after
        (fun state holds item present => exact_ state holds item (List.mem_cons_of_mem _ present))
        (fun state holds item present => kept state holds item (List.mem_cons_of_mem _ present))
        holds
    rw [List.foldlM_cons, MeetsAlong]
    cases went : step start item with
    | error stop =>
      rw [went] at here
      constructor
      · rintro ⟨finish, never⟩
        cases never
      · rintro ⟨met, -⟩
        obtain ⟨after, never⟩ := here.mpr met
        cases never
    | ok after =>
      have met := here.mp ⟨after, went⟩
      refine (later after (keptHere after went)).trans ⟨fun along => ?_, ?_⟩
      · refine ⟨met, fun other same => ?_⟩
        cases same
        exact along
      · exact fun both => both.2 after rfl

end MeetsAlong

end IteSdk.Lib
