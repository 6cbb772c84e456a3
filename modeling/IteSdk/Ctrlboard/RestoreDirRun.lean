import IteSdk.Ctrlboard.RestoreDir

/-!
# Restoring a directory twice

A run that returns success has restored and removed what it was asked to if the
source is unambiguous and nothing resisted removal; it can be repeated only if the
source has no directory.
-/

namespace IteSdk.Ctrlboard

open Lib Upgrade

variable {env : RestoreEnv} {destLength srcLength : Nat}
  {entries inside rest : DirEntries} {name other : FileName}
  {content : List UInt8}

/-! ## Single entries -/

theorem copyLoop_whole (content : List UInt8) :
    copyLoop (min cfgUgBufSize content.length) (content.length + 1) content [] = some content := by
  apply copyLoop_eq _ (Nat.lt_succ_self _)
  intro some_
  exact Nat.lt_min.mpr ⟨by decide, List.length_pos_iff.mpr some_⟩

variable {there : Option DestEntry}

theorem ugCopyFileOver_ok {space : Option Nat} {content : List UInt8} {entry : DestEntry}
    (copied : ugCopyFileOver space content there = .ok entry) :
    entry = .file content false := by
  unfold ugCopyFileOver at copied
  rw [copyLoop_whole] at copied
  split at copied
  · cases copied
  · split at copied
    · cases copied
    · cases copied
    · cases copied
      rfl

theorem ugCopyFileOver_error {space : Option Nat} {error : Int}
    (failed : ugCopyFileOver space content there = .error error) :
    error ≠ 0 := by
  unfold ugCopyFileOver at failed
  rw [copyLoop_whole] at failed
  split at failed
  · cases failed
    decide
  · split at failed
    · cases failed
      decide
    · cases failed
      decide
    · cases failed

theorem ugCopyFileOver_again (space : Option Nat) (content : List UInt8) :
    ugCopyFileOver space content (some (.file content false)) = .ok (.file content false) := by
  have room :
      outOfSpace space content.length (some (.file content false)) = false := by
    cases space with
    | none => rfl
    | some free => simp [outOfSpace, DestEntry.size]
  unfold ugCopyFileOver
  rw [copyLoop_whole, room]
  rfl

variable {dest : DestDir}

theorem removeFile_ne (different : other ≠ name) :
    (removeFile name dest).lookup other = dest.lookup other := by
  unfold removeFile
  split
  · exact lookup_dropKey_ne different
  · rfl

theorem removeFile_self :
    (removeFile name dest).lookup name = none ↔ RemovableFile (dest.lookup name) := by
  unfold removeFile
  cases there : dest.lookup name with
  | none => simp [RemovableFile, there]
  | some entry =>
    cases entry with
    | file content readOnly =>
      cases readOnly with
      | false => simp [RemovableFile, lookup_dropKey_self]
      | true => simp [RemovableFile, there]
    | dir inside => simp [RemovableFile, there]

mutual

theorem DestEntry.deleted_eq_none (entry : DestEntry) :
    entry.deleted = none ↔ entry.hasReadOnly = false := by
  cases entry with
  | file content readOnly =>
    cases readOnly with
    | false | true => simp [DestEntry.deleted, DestEntry.hasReadOnly]
  | dir inside =>
    rw [DestEntry.deleted, DestEntry.hasReadOnly, ← deletedEntries_eq_nil inside]
    cases deletedEntries inside with
    | nil | cons first rest => simp

theorem deletedEntries_eq_nil (inside : List (FileName × DestEntry)) :
    deletedEntries inside = [] ↔ anyReadOnly inside = false := by
  cases inside with
  | nil => simp [deletedEntries, anyReadOnly]
  | cons first rest =>
    obtain ⟨name, entry⟩ := first
    rw [deletedEntries, anyReadOnly, Bool.or_eq_false_iff,
      ← DestEntry.deleted_eq_none entry, ← deletedEntries_eq_nil rest]
    cases entry.deleted with
    | none | some left => simp

end

theorem ugDeleteDirectoryAt_ne (different : other ≠ name) :
    (ugDeleteDirectoryAt name dest).lookup other = dest.lookup other := by
  unfold ugDeleteDirectoryAt
  split
  · split
    · exact lookup_dropKey_ne different
    · exact lookup_put_ne different
  · rfl

theorem ugDeleteDirectoryAt_self :
    (ugDeleteDirectoryAt name dest).lookup name = none ↔ RemovableDir (dest.lookup name) := by
  unfold ugDeleteDirectoryAt
  cases there : dest.lookup name with
  | none => simp [RemovableDir, there]
  | some entry =>
    cases entry with
    | file content readOnly => simp [RemovableDir, there]
    | dir inside =>
      have nothingLeft := DestEntry.deleted_eq_none (.dir inside)
      rw [DestEntry.hasReadOnly] at nothingLeft
      dsimp only
      rw [RemovableDir, ← nothingLeft]
      cases DestEntry.deleted (.dir inside) with
      | none => simp [lookup_dropKey_self]
      | some left => simp [lookup_put_self]

def targetName (name : FileName) : FileName := if isRemoval name then name.tail else name

theorem tail_injective (first : isRemoval name = true)
    (second : isRemoval other = true) (same : name.tail = other.tail) :
    name = other := by
  cases name with
  | nil => simp [isRemoval] at first
  | cons head tail =>
    cases other with
    | nil => simp [isRemoval] at second
    | cons otherHead otherTail =>
      simp only [isRemoval, List.head?_cons, Option.some_inj, decide_eq_true_eq] at first second
      rw [first, second, show tail = otherTail from same]

namespace DirEntries

theorem kept_subset (member : name ∈ entries.kept) : name ∈ entries.names := by
  induction entries with
  | done => cases member
  | file first content rest ih | dir first inside rest _ ih =>
    rw [names, List.mem_cons]
    rw [kept] at member
    split at member
    · exact Or.inr (ih member)
    · exact (List.mem_cons.mp member).imp_right ih

theorem removals_names (member : name ∈ entries.removals) :
    ∃ marked ∈ entries.names, isRemoval marked = true ∧ marked.tail = name := by
  induction entries with
  | done => cases member
  | file first content rest ih | dir first below rest _ ih =>
    rw [names]
    rw [removals] at member
    split at member
    · rename_i marked
      rcases List.mem_cons.mp member with rfl | later
      · exact ⟨first, List.mem_cons_self, marked, rfl⟩
      · obtain ⟨found, inside, facts⟩ := ih later
        exact ⟨found, List.mem_cons_of_mem _ inside, facts⟩
    · obtain ⟨found, inside, facts⟩ := ih member
      exact ⟨found, List.mem_cons_of_mem _ inside, facts⟩

end DirEntries

/-- An entry and the entries behind it in a directory without ambiguity. -/
structure Apart (name : FileName) (rest : DirEntries) : Prop where
  kept : ∀ other ∈ rest.kept, other ≠ targetName name
  removals : ∀ other ∈ rest.removals, other ≠ targetName name

theorem apart_of_clear (fresh : name ∉ rest.names)
    (keptClear : isRemoval name = false → name ∉ rest.removals)
    (removalClear : isRemoval name = true → name.tail ∉ rest.kept) :
    Apart name rest := by
  cases marked : isRemoval name with
  | false =>
    have target : targetName name = name := by
      rw [targetName, marked]
      rfl
    refine ⟨?_, ?_⟩
    · rintro other member rfl
      rw [target] at member
      exact fresh (DirEntries.kept_subset member)
    · rintro other member rfl
      rw [target] at member
      exact keptClear marked member
  | true =>
    have target : targetName name = name.tail := by
      rw [targetName, marked]
      rfl
    refine ⟨?_, ?_⟩
    · rintro other member rfl
      rw [target] at member
      exact removalClear marked member
    · rintro other member rfl
      rw [target] at member
      obtain ⟨found, inside, foundMarked, same⟩ := DirEntries.removals_names member
      rw [tail_injective foundMarked marked same] at inside
      exact fresh inside

namespace DirEntries

theorem Clear.file (clear : (DirEntries.file name content rest).Clear)
    (fresh : name ∉ rest.names) : Apart name rest ∧ rest.Clear := by
  rw [Clear, removals, kept] at clear
  cases marked : isRemoval name with
  | false =>
    simp only [marked, Bool.false_eq_true, if_false] at clear
    refine ⟨apart_of_clear fresh ?_ ?_, ?_⟩
    · intro _ member
      exact clear name member List.mem_cons_self
    · intro other
      rw [marked] at other
      cases other
    · intro other member inside
      exact clear other member (List.mem_cons_of_mem name inside)
  | true =>
    simp only [marked, if_true] at clear
    refine ⟨apart_of_clear fresh ?_ ?_, ?_⟩
    · intro other
      rw [marked] at other
      cases other
    · intro _
      exact clear name.tail List.mem_cons_self
    · intro other member
      exact clear other (List.mem_cons_of_mem _ member)

theorem Clear.dir (clear : (DirEntries.dir name inside rest).Clear)
    (fresh : name ∉ rest.names) : Apart name rest ∧ rest.Clear := by
  have asFile : (DirEntries.file name [] rest).Clear := clear
  exact asFile.file fresh

end DirEntries

variable {state after : RestoreState}

theorem ugRestoreLoop_error {ret result : Int} (failed : ret ≠ 0)
    (returned : ugRestoreLoop env destLength srcLength entries ret state = some (result, after)) :
    result = ret := by
  induction entries generalizing ret state with
  | done =>
    cases returned
    rfl
  | file name content rest ih =>
    rw [ugRestoreLoop] at returned
    split at returned
    · split at returned
      · exact ih failed returned
      · cases returned
    · split at returned
      · split at returned
        · rw [firstError, if_neg failed] at returned
          exact ih failed returned
        · exact ih failed returned
      · cases returned
  | dir name inside rest _ ih =>
    rw [ugRestoreLoop] at returned
    split at returned
    · split at returned
      · exact ih failed returned
      · cases returned
    · split at returned
      · split at returned
        · rw [firstError, if_neg failed] at returned
          exact ih failed returned
        · split at returned
          · split at returned
            · cases returned
            · rw [firstError, if_neg failed] at returned
              exact ih failed returned
          · cases returned
      · cases returned

def EntryFits (env : RestoreEnv) (destLength srcLength : Nat) (name : FileName) : Prop :=
  if isRemoval name then
    name.tail ≠ [] ∧ destLength + 1 + name.tail.length < env.pathMax
  else
    destLength + 1 + name.length < env.pathMax ∧ srcLength + 1 + name.length < env.pathMax

/-- What the loop has done to the directory behind an entry that succeeded. -/
structure EntryDone (env : RestoreEnv) (destLength srcLength : Nat)
    (name : FileName) (before next : RestoreState) : Prop where
  fits : EntryFits env destLength srcLength name
  frame : ∀ other, other ≠ targetName name → next.dir.lookup other = before.dir.lookup other

theorem ugRestoreLoop_file
    (returned :
      ugRestoreLoop env destLength srcLength (.file name content rest) 0 state = some (0, after)) :
    ∃ next,
      ugRestoreLoop env destLength srcLength rest 0 next = some (0, after) ∧
        EntryDone env destLength srcLength name state next ∧
        (isRemoval name = true → next.dir = removeFile name.tail state.dir) ∧
        (isRemoval name = false → next.dir.lookup name = some (.file content false)) := by
  rw [ugRestoreLoop] at returned
  cases marked : isRemoval name with
  | true =>
    have target : targetName name = name.tail := by
      rw [targetName, marked]
      rfl
    simp only [marked, if_true] at returned
    split at returned
    · rename_i fits
      refine ⟨_, returned, ⟨?_, ?_⟩, fun _ => rfl, nofun⟩
      · rw [EntryFits, marked]
        exact fits
      · intro other different
        rw [target] at different
        exact removeFile_ne different
    · cases returned
  | false =>
    have target : targetName name = name := by
      rw [targetName, marked]
      rfl
    simp only [marked, Bool.false_eq_true, if_false] at returned
    split at returned
    · rename_i fits
      split at returned
      · rename_i ret1 failed
        have nonzero : firstError 0 ret1 ≠ 0 := ugCopyFileOver_error failed
        exact absurd (ugRestoreLoop_error nonzero returned).symm nonzero
      · rename_i entry copied
        obtain rfl := ugCopyFileOver_ok copied
        refine ⟨_, returned, ⟨?_, ?_⟩, nofun, fun _ => lookup_put_self⟩
        · rw [EntryFits, marked]
          exact fits
        · intro other different
          rw [target] at different
          exact lookup_put_ne different
    · cases returned

theorem ugRestoreLoop_dir
    (returned :
      ugRestoreLoop env destLength srcLength (.dir name inside rest) 0 state = some (0, after)) :
    ∃ next,
      ugRestoreLoop env destLength srcLength rest 0 next = some (0, after) ∧
        EntryDone env destLength srcLength name state next ∧
        (isRemoval name = true → next.dir = ugDeleteDirectoryAt name.tail state.dir) ∧
        (isRemoval name = false →
          state.dir.lookup name = none ∧
            ∃ made,
              ugRestoreLoop env (destLength + 1 + name.length)
                  (srcLength + 1 + name.length) inside 0 ⟨[], state.calls⟩ =
                some (0, made) ∧
              next.dir.lookup name = some (.dir made.dir)) := by
  rw [ugRestoreLoop] at returned
  cases marked : isRemoval name with
  | true =>
    have target : targetName name = name.tail := by
      rw [targetName, marked]
      rfl
    simp only [marked, if_true] at returned
    split at returned
    · rename_i fits
      refine ⟨_, returned, ⟨?_, ?_⟩, fun _ => rfl, nofun⟩
      · rw [EntryFits, marked]
        exact fits
      · intro other different
        rw [target] at different
        exact ugDeleteDirectoryAt_ne different
    · cases returned
  | false =>
    have target : targetName name = name := by
      rw [targetName, marked]
      rfl
    simp only [marked, Bool.false_eq_true, if_false] at returned
    split at returned
    · rename_i destFits
      split at returned
      · have failed : firstError 0 (-1) ≠ 0 := by decide
        exact absurd (ugRestoreLoop_error failed returned).symm failed
      · rename_i fresh
        split at returned
        · rename_i srcFits
          split at returned
          · cases returned
          · rename_i ret1 made below
            by_cases failed : ret1 = 0
            · subst failed
              refine ⟨_, returned, ⟨?_, ?_⟩, nofun,
                fun _ => ⟨fresh, made, below, lookup_put_self⟩⟩
              · rw [EntryFits, marked]
                exact ⟨destFits, srcFits⟩
              · intro other different
                rw [target] at different
                exact lookup_put_ne different
            · have kept : firstError 0 ret1 ≠ 0 := failed
              exact absurd (ugRestoreLoop_error kept returned).symm kept
        · cases returned
    · cases returned

theorem DirEntries.untouched (notKept : other ∉ (DirEntries.file name content rest).kept)
    (notRemoved : other ∉ (DirEntries.file name content rest).removals) :
    other ≠ targetName name ∧ other ∉ rest.kept ∧ other ∉ rest.removals := by
  rw [kept] at notKept
  rw [removals] at notRemoved
  rw [targetName]
  cases marked : isRemoval name with
  | true =>
    simp only [marked, if_true, List.mem_cons, not_or] at notKept notRemoved ⊢
    exact ⟨notRemoved.1, notKept, notRemoved.2⟩
  | false =>
    simp only [marked, Bool.false_eq_true, if_false, List.mem_cons, not_or]
      at notKept notRemoved ⊢
    exact ⟨notKept.1, notKept.2, notRemoved⟩

theorem ugRestoreLoop_frame
    (returned : ugRestoreLoop env destLength srcLength entries 0 state = some (0, after))
    (notKept : other ∉ entries.kept) (notRemoved : other ∉ entries.removals) :
    after.dir.lookup other = state.dir.lookup other := by
  induction entries generalizing state with
  | done =>
    cases returned
    rfl
  | file name content rest ih =>
    obtain ⟨next, later, done, -⟩ := ugRestoreLoop_file returned
    obtain ⟨different, restKept, restRemoved⟩ := DirEntries.untouched notKept notRemoved
    rw [← done.frame other different]
    exact ih later restKept restRemoved
  | dir name inside rest _ ih =>
    obtain ⟨next, later, done, -⟩ := ugRestoreLoop_dir returned
    have asFile : other ∉ (DirEntries.file name [] rest).kept := notKept
    obtain ⟨different, restKept, restRemoved⟩ := DirEntries.untouched asFile notRemoved
    rw [← done.frame other different]
    exact ih later restKept restRemoved

theorem ugRestoreLoop_target {next after : RestoreState}
    (later : ugRestoreLoop env destLength srcLength rest 0 next = some (0, after))
    (apart : Apart name rest) :
    after.dir.lookup (targetName name) = next.dir.lookup (targetName name) := by
  apply ugRestoreLoop_frame later
  · intro member
    exact apart.kept _ member rfl
  · intro member
    exact apart.removals _ member rfl

theorem DirEntries.removableFrom_congr {dest before : DestDir}
    (same : ∀ name ∈ entries.removals, dest.lookup name = before.lookup name) :
    entries.RemovableFrom dest ↔ entries.RemovableFrom before := by
  induction entries with
  | done => exact Iff.rfl
  | file name content rest ih | dir name inside rest _ ih =>
    rw [removals] at same
    rw [RemovableFrom, RemovableFrom]
    cases marked : isRemoval name with
    | true =>
      simp only [marked, if_true, List.forall_mem_cons] at same
      rw [same.1, ih same.2]
    | false =>
      simp only [marked, Bool.false_eq_true, if_false] at same
      rw [ih same]
      simp

theorem DirEntries.removableFrom_nil : entries.RemovableFrom [] := by
  induction entries with
  | done => trivial
  | file name content rest ih | dir name inside rest _ ih =>
    exact ⟨fun _ => trivial, ih⟩

/-- The files of a directory are there and can be written to. -/
def DirEntries.Stored : DirEntries → DestDir → Prop
  | .done, _ => True
  | .file name content rest, dest =>
    (isRemoval name = false → dest.lookup name = some (.file content false)) ∧ rest.Stored dest
  | .dir _ _ rest, dest => rest.Stored dest

structure RestoredTo (entries : DirEntries) (before after : DestDir) :
    Prop where
  contained : entries.Contained after
  stored : entries.Stored after
  removed : entries.Removed after ↔ entries.RemovableFrom before

theorem ugRestoreLoop_restored
    (distinct : entries.Distinct) (clear : entries.Clear) (clearBelow : entries.ClearBelow)
    (returned : ugRestoreLoop env destLength srcLength entries 0 state = some (0, after)) :
    RestoredTo entries state.dir after.dir := by
  induction entries generalizing destLength srcLength state after with
  | done => exact ⟨trivial, trivial, Iff.rfl⟩
  | file name content rest ih =>
    obtain ⟨fresh, restDistinct⟩ := distinct
    obtain ⟨apart, restClear⟩ := clear.file fresh
    obtain ⟨next, later, done, removes, stores⟩ := ugRestoreLoop_file returned
    have target := ugRestoreLoop_target later apart
    have restored := ih restDistinct restClear clearBelow later
    have restRemovable :
        rest.RemovableFrom next.dir ↔ rest.RemovableFrom state.dir :=
      DirEntries.removableFrom_congr fun other member =>
        done.frame other (apart.removals other member)
    unfold targetName at target
    refine ⟨⟨?_, restored.contained⟩, ⟨?_, restored.stored⟩, ?_⟩
    · intro marked
      rw [marked] at target
      exact ⟨false, target.trans (stores marked)⟩
    · intro marked
      rw [marked] at target
      exact target.trans (stores marked)
    · rw [DirEntries.Removed, DirEntries.RemovableFrom, restored.removed, restRemovable]
      apply and_congr_left'
      apply imp_congr_right
      intro marked
      rw [marked, if_pos rfl] at target
      rw [target, removes marked]
      exact removeFile_self
  | dir name inside rest insideHypothesis ih =>
    obtain ⟨fresh, insideDistinct, restDistinct⟩ := distinct
    obtain ⟨apart, restClear⟩ := clear.dir fresh
    obtain ⟨insideClear, restClearBelow⟩ := clearBelow
    obtain ⟨next, later, done, removes, makes⟩ := ugRestoreLoop_dir returned
    have target := ugRestoreLoop_target later apart
    have restored := ih restDistinct restClear restClearBelow later
    have restRemovable :
        rest.RemovableFrom next.dir ↔ rest.RemovableFrom state.dir :=
      DirEntries.removableFrom_congr fun other member =>
        done.frame other (apart.removals other member)
    unfold targetName at target
    refine ⟨⟨?_, restored.contained⟩, restored.stored, ?_⟩
    · intro marked
      obtain ⟨-, made, below, there⟩ := makes marked
      obtain ⟨clearHere, clearThere⟩ := insideClear marked
      rw [marked] at target
      exact ⟨made.dir, target.trans there,
        (insideHypothesis insideDistinct clearHere clearThere below).contained⟩
    · rw [DirEntries.Removed, DirEntries.RemovableFrom, restored.removed, restRemovable]
      cases marked : isRemoval name with
      | true =>
        rw [marked, if_pos rfl] at target
        rw [target, removes marked, ugDeleteDirectoryAt_self]
        simp
      | false =>
        rw [marked] at target
        obtain ⟨-, made, below, there⟩ := makes marked
        obtain ⟨clearHere, clearThere⟩ := insideClear marked
        have insideRemoved :=
          (insideHypothesis insideDistinct clearHere clearThere
            below).removed.mpr DirEntries.removableFrom_nil
        have found : after.dir.lookup name = some (.dir made.dir) := target.trans there
        simp only [Bool.false_eq_true, false_imp_iff, true_and,
          forall_const, found, Option.some_inj, DestEntry.dir.injEq]
        refine and_iff_right ?_
        rintro dest rfl
        exact insideRemoved

namespace DirEntries

variable {dest : DestDir}

theorem Contained.lookup (contained : entries.Contained dest)
    (member : name ∈ entries.kept) : dest.lookup name ≠ none := by
  induction entries with
  | done => cases member
  | file first content rest ih =>
    rw [kept] at member
    split at member
    · exact ih contained.2 member
    · rename_i notMarked
      rcases List.mem_cons.mp member with rfl | later
      · obtain ⟨readOnly, there⟩ := contained.1 (by simpa using notMarked)
        rw [there]
        exact nofun
      · exact ih contained.2 later
  | dir first inside rest _ ih =>
    rw [kept] at member
    split at member
    · exact ih contained.2 member
    · rename_i notMarked
      rcases List.mem_cons.mp member with rfl | later
      · obtain ⟨below, there, -⟩ := contained.1 (by simpa using notMarked)
        rw [there]
        exact nofun
      · exact ih contained.2 later

theorem Removed.lookup (removed : entries.Removed dest)
    (member : name ∈ entries.removals) : dest.lookup name = none := by
  induction entries with
  | done => cases member
  | file first content rest ih =>
    rw [removals] at member
    split at member
    · rename_i marked
      rcases List.mem_cons.mp member with rfl | later
      · exact removed.1 marked
      · exact ih removed.2 later
    · exact ih removed.2 member
  | dir first inside rest _ ih =>
    rw [removals] at member
    split at member
    · rename_i marked
      rcases List.mem_cons.mp member with rfl | later
      · exact removed.1 marked
      · exact ih removed.2.2 later
    · exact ih removed.2.2 member

theorem clear_of_restored (contained : entries.Contained dest)
    (removed : entries.Removed dest) : entries.Clear :=
  fun _ removal there => contained.lookup there (removed.lookup removal)

theorem clearBelow_of_restored
    (contained : entries.Contained dest) (removed : entries.Removed dest) :
    entries.ClearBelow := by
  induction entries generalizing dest with
  | done => trivial
  | file name content rest ih =>
    exact ih contained.2 removed.2
  | dir name inside rest insideHypothesis ih =>
    refine ⟨?_, ih contained.2 removed.2.2⟩
    intro marked
    obtain ⟨below, there, insideContained⟩ := contained.1 marked
    have insideRemoved := removed.2.1 marked below there
    exact ⟨clear_of_restored insideContained insideRemoved,
      insideHypothesis insideContained insideRemoved⟩

end DirEntries

variable {dest : DestDir}

theorem removeFile_absent (absent : dest.lookup name = none) : removeFile name dest = dest := by
  rw [removeFile, absent]

theorem ugDeleteDirectoryAt_absent (absent : dest.lookup name = none) :
    ugDeleteDirectoryAt name dest = dest := by
  rw [ugDeleteDirectoryAt, absent]

variable {state after : RestoreState}

theorem ugRestoreLoop_again
    (returned : ugRestoreLoop env destLength srcLength entries 0 state = some (0, after))
    (flat : entries.hasDirectory = false) (stored : entries.Stored dest)
    (removed : entries.Removed dest) (calls : Nat) :
    ∃ last,
      ugRestoreLoop env destLength srcLength entries 0 ⟨dest, calls⟩ = some (0, ⟨dest, last⟩) := by
  induction entries generalizing state calls with
  | done => exact ⟨calls, rfl⟩
  | file name content rest ih =>
    obtain ⟨next, later, done, -⟩ := ugRestoreLoop_file returned
    have fits := done.fits
    rw [EntryFits] at fits
    rw [ugRestoreLoop]
    cases marked : isRemoval name with
    | true =>
      rw [marked, if_pos rfl] at fits
      rw [if_pos rfl, if_pos fits, removeFile_absent (removed.1 marked)]
      exact ih later flat stored.2 removed.2 calls
    | false =>
      rw [marked, if_neg nofun] at fits
      rw [if_neg nofun, if_pos fits, stored.1 marked, ugCopyFileOver_again]
      dsimp only
      rw [put_of_lookup (stored.1 marked)]
      exact ih later flat stored.2 removed.2 (calls + 1)
  | dir name inside rest _ ih =>
    obtain ⟨next, later, done, -⟩ := ugRestoreLoop_dir returned
    rw [DirEntries.hasDirectory, Bool.or_eq_false_iff, Bool.not_eq_false'] at flat
    have fits := done.fits
    rw [EntryFits, flat.1, if_pos rfl] at fits
    rw [ugRestoreLoop, flat.1, if_pos rfl, if_pos fits,
      ugDeleteDirectoryAt_absent (removed.1 flat.1)]
    exact ih later flat.2 stored removed.2.2 calls

theorem ugRestoreLoop_blocked (distinct : entries.Distinct) (clear : entries.Clear)
    (there : ∀ name ∈ entries.kept, state.dir.lookup name ≠ none)
    (returned : ugRestoreLoop env destLength srcLength entries 0 state = some (0, after)) :
    entries.hasDirectory = false := by
  induction entries generalizing state with
  | done => rfl
  | file name content rest ih =>
    obtain ⟨fresh, restDistinct⟩ := distinct
    obtain ⟨apart, restClear⟩ := clear.file fresh
    obtain ⟨next, later, done, -⟩ := ugRestoreLoop_file returned
    apply ih restDistinct restClear _ later
    intro other member
    rw [done.frame other (apart.kept other member)]
    apply there
    rw [DirEntries.kept]
    split
    · exact member
    · exact List.mem_cons_of_mem name member
  | dir name inside rest _ ih =>
    obtain ⟨fresh, -, restDistinct⟩ := distinct
    obtain ⟨apart, restClear⟩ := clear.dir fresh
    obtain ⟨next, later, done, -, makes⟩ := ugRestoreLoop_dir returned
    rw [DirEntries.kept] at there
    rw [DirEntries.hasDirectory, Bool.or_eq_false_iff, Bool.not_eq_false']
    cases marked : isRemoval name with
    | true =>
      rw [marked, if_pos rfl] at there
      refine ⟨rfl, ih restDistinct restClear ?_ later⟩
      intro other member
      rw [done.frame other (apart.kept other member)]
      exact there other member
    | false =>
      rw [marked, if_neg nofun] at there
      exact absurd (makes marked).1 (there name List.mem_cons_self)

/-- A run that returned success has restored every file and removed what it was
asked to exactly if no name is both restored and removed and nothing resisted
removal; a second run then succeeds and changes nothing exactly if the source has
no directory to restore. -/
theorem ugRestoreDir_iff {before after : RestoreState} (distinct : entries.Distinct)
    (returned : ugRestoreDirOver env destLength srcLength entries before = some (0, after)) :
    ((entries.Contained after.dir ∧ entries.Removed after.dir) ↔
        entries.Clear ∧ entries.ClearBelow ∧ entries.RemovableFrom before.dir) ∧
      ((entries.Contained after.dir ∧ entries.Removed after.dir ∧
          ∃ calls,
            ugRestoreDirOver env destLength srcLength entries after =
              some (0, ⟨after.dir, calls⟩)) ↔
        entries.Clear ∧ entries.ClearBelow ∧
          entries.RemovableFrom before.dir ∧ entries.hasDirectory = false) := by
  have first :
      (entries.Contained after.dir ∧ entries.Removed after.dir) ↔
        entries.Clear ∧ entries.ClearBelow ∧ entries.RemovableFrom before.dir := by
    constructor
    · rintro ⟨contained, removed⟩
      have clear := DirEntries.clear_of_restored contained removed
      have clearBelow := DirEntries.clearBelow_of_restored contained removed
      have restored := ugRestoreLoop_restored distinct clear clearBelow returned
      exact ⟨clear, clearBelow, restored.removed.mp removed⟩
    · rintro ⟨clear, clearBelow, removable⟩
      have restored := ugRestoreLoop_restored distinct clear clearBelow returned
      exact ⟨restored.contained, restored.removed.mpr removable⟩
  refine ⟨first, ?_, ?_⟩
  · rintro ⟨contained, removed, calls, again⟩
    obtain ⟨clear, clearBelow, removable⟩ := first.mp ⟨contained, removed⟩
    exact ⟨clear, clearBelow, removable,
      ugRestoreLoop_blocked distinct clear (fun name member => contained.lookup member) again⟩
  · rintro ⟨clear, clearBelow, removable, flat⟩
    obtain ⟨contained, removed⟩ := first.mpr ⟨clear, clearBelow, removable⟩
    have restored := ugRestoreLoop_restored distinct clear clearBelow returned
    exact ⟨contained, removed,
      ugRestoreLoop_again returned flat restored.stored removed after.calls⟩

def roomyEnv : RestoreEnv where
  pathMax := 1024
  space := fun _ => some 1000

/-- A file `a` and the mark `~b`. -/
def flatSource : DirEntries := .file [97] [1, 2, 3] (.file [126, 98] [] .done)

/-- An older file `a` and a file `b`. -/
def olderDest : RestoreState := ⟨[([97], .file [9] false), ([98], .file [7] false)], 0⟩

theorem ugRestoreDir_iff_flat :
    flatSource.Contained [([97], .file [1, 2, 3] false)] ∧
      flatSource.Removed [([97], .file [1, 2, 3] false)] ∧
        ∃ calls,
          ugRestoreDirOver roomyEnv 2 12 flatSource ⟨[([97], .file [1, 2, 3] false)], 1⟩ =
            some (0, ⟨[([97], .file [1, 2, 3] false)], calls⟩) := by
  have returned :
      ugRestoreDirOver roomyEnv 2 12 flatSource olderDest =
        some (0, ⟨[([97], .file [1, 2, 3] false)], 1⟩) := rfl
  have distinct : flatSource.Distinct := by simp [flatSource, DirEntries.Distinct, DirEntries.names]
  apply (ugRestoreDir_iff distinct returned).2.mpr
  have clear : flatSource.Clear := by
    rw [DirEntries.Clear]
    decide
  exact ⟨clear, trivial, ⟨nofun, fun _ => rfl, trivial⟩, rfl⟩

/-- A directory `d` with a file in it, and the mark `~e` of a file. -/
def deepSource : DirEntries := .dir [100] (.file [97] [1] .done) (.file [126, 101] [] .done)

/-- There is a directory `e`. -/
def dirDest : RestoreState := ⟨[([101], .dir [])], 0⟩

/-- The first run returns success and has not removed `e`; the second fails. -/
theorem ugRestoreDir_wrong :
    ∃ after,
      ugRestoreDirOver roomyEnv 2 12 deepSource dirDest = some (0, after) ∧
        ¬deepSource.Removed after.dir ∧
        ugRestoreDirOver roomyEnv 2 12 deepSource after = some (-1, after) := by
  refine ⟨_, rfl, ?_, rfl⟩
  intro removed
  have gone := removed.2.2.1 rfl
  cases gone

end IteSdk.Ctrlboard
