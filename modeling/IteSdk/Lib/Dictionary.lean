import Mathlib.Data.List.Basic

/-!
# Dictionaries with insertion order

A list of pairs; the value of a key that is there already is replaced in its
place, and a new key comes last.  `List.lookup` finds the value of a key.
-/

namespace IteSdk.Lib

universe u v

variable {κ : Type u} {ν : Type v}

section Definitions

variable [DecidableEq κ]

@[grind =]
def put (key : κ) (value : ν) : List (κ × ν) → List (κ × ν)
  | [] => [(key, value)]
  | (other, old) :: rest =>
    if other = key then
      (other, value) :: rest
    else
      (other, old) :: put key value rest

def dropKey (key : κ) (entries : List (κ × ν)) : List (κ × ν) :=
  entries.filter fun entry => entry.1 ≠ key

end Definitions

variable {key other : κ} {value : ν} {entries : List (κ × ν)}

theorem mem_keys_put [DecidableEq κ] (member : other ∈ entries.map Prod.fst) :
    other ∈ (put key value entries).map Prod.fst := by
  induction entries with
  | nil => cases member
  | cons first rest ih =>
    obtain ⟨current, old⟩ := first
    rw [put]
    rw [List.map_cons, List.mem_cons] at member
    split
    · rw [List.map_cons, List.mem_cons]
      exact member
    · rw [List.map_cons, List.mem_cons]
      exact member.imp_right ih

section Lookup

variable [BEq κ] [LawfulBEq κ]

theorem lookup_cons_ne (different : other ≠ key) {rest : List (κ × ν)} :
    ((key, value) :: rest).lookup other = rest.lookup other := by
  rw [List.lookup_cons, beq_eq_false_iff_ne.mpr different]

variable [DecidableEq κ]

theorem lookup_put_self : (put key value entries).lookup key = some value := by
  induction entries with
  | nil =>
    exact List.lookup_cons_self
  | cons first rest ih =>
    obtain ⟨current, old⟩ := first
    rw [put]
    split
    · next same =>
        rw [same]
        exact List.lookup_cons_self
    · next different =>
        rw [lookup_cons_ne (Ne.symm different)]
        exact ih

theorem lookup_put_ne (different : other ≠ key) :
    (put key value entries).lookup other = entries.lookup other := by
  induction entries with
  | nil =>
    exact lookup_cons_ne different
  | cons first rest ih =>
    obtain ⟨current, old⟩ := first
    rw [put]
    split
    · next same =>
        rw [same, lookup_cons_ne different, lookup_cons_ne different]
    · rw [List.lookup_cons, List.lookup_cons, ih]

theorem put_of_lookup (there : entries.lookup key = some value) :
    put key value entries = entries := by
  induction entries with
  | nil => cases there
  | cons first rest ih =>
    obtain ⟨current, old⟩ := first
    rw [put]
    split
    · rename_i same
      rw [same, List.lookup_cons_self, Option.some_inj] at there
      rw [there]
    · rename_i different
      rw [lookup_cons_ne (Ne.symm different)] at there
      rw [ih there]

theorem lookup_dropKey_self : (dropKey key entries).lookup key = none := by
  rw [List.lookup_eq_none_iff]
  intro entry member
  have kept := (List.mem_filter.mp member).2
  simp only [ne_eq, decide_not, Bool.not_eq_true', decide_eq_false_iff_not]
    at kept
  simpa using Ne.symm kept

theorem lookup_dropKey_ne (different : other ≠ key) :
    (dropKey key entries).lookup other = entries.lookup other := by
  induction entries with
  | nil => rfl
  | cons first rest ih =>
    obtain ⟨current, old⟩ := first
    rw [dropKey] at ih ⊢
    by_cases dropped : current = key
    · rw [List.filter_cons_of_neg (by simpa using dropped), ih,
        lookup_cons_ne (dropped ▸ different)]
    · rw [List.filter_cons_of_pos (by simpa using dropped), List.lookup_cons, List.lookup_cons, ih]

end Lookup

end IteSdk.Lib
