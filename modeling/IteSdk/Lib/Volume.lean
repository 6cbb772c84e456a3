import Mathlib.Data.List.Basic
import Mathlib.Logic.Function.Basic

/-!
# Volumes

The tree of files and directories of one volume, as a function of paths.  A path
is the list of its names from the root on; the root itself is always a directory.
A file that cannot be opened any more is damaged.
-/

namespace IteSdk.Lib

abbrev FileName := List UInt8

abbrev FilePath := List FileName

inductive VolumeEntry
  | file (content : List UInt8)
  | damaged
  | directory
  deriving DecidableEq

abbrev Volume := FilePath → Option VolumeEntry

namespace Volume

def empty : Volume := fun _ => none

def IsDirectory (volume : Volume) (path : FilePath) : Prop :=
  path = [] ∨ volume path = some .directory
deriving Decidable

def read (volume : Volume) (path : FilePath) : Option (List UInt8) :=
  match volume path with
  | some (.file content) => some content
  | _ => none

/-- A file can be opened for writing where there is a directory for it, and neither
another directory nor a damaged file in its place. -/
def Creatable (volume : Volume) (path : FilePath) : Prop :=
  path ≠ [] ∧ volume.IsDirectory path.dropLast ∧
    volume path ≠ some .directory ∧ volume path ≠ some .damaged
deriving Decidable

def store (volume : Volume) (path : FilePath) (content : List UInt8) : Volume :=
  Function.update volume path (some (.file content))

def mkdir (volume : Volume) (path : FilePath) : Option Volume :=
  if path ≠ [] ∧ volume.IsDirectory path.dropLast ∧ volume path = none then
    some (Function.update volume path (some .directory))
  else
    none

/-- A file is removed; where there is none, nothing happens. -/
def remove (volume : Volume) (path : FilePath) : Volume :=
  if (volume.read path).isSome then
    Function.update volume path none
  else
    volume

def removeDirectory (volume : Volume) (path : FilePath) : Volume :=
  if volume path = some .directory then
    fun other => if path.isPrefixOf other then none else volume other
  else
    volume

def Clean (volume : Volume) : Prop := ∀ path, volume path ≠ some .damaged

variable {volume : Volume} {path other : FilePath} {content : List UInt8}

@[simp] theorem read_store_self : (volume.store path content).read path = some content := by
  rw [read, store, Function.update_self]

theorem read_store_of_ne (different : other ≠ path) :
    (volume.store path content).read other = volume.read other := by
  rw [read, store, Function.update_of_ne different]
  rfl

theorem isDirectory_update {entry : Option VolumeEntry}
    (before : ¬ volume.IsDirectory path) (after : entry ≠ some .directory) :
    IsDirectory (Function.update volume path entry) other ↔ volume.IsDirectory other := by
  by_cases same : other = path
  · subst same
    refine iff_of_false ?_ before
    rintro (root | here)
    · exact before (Or.inl root)
    · rw [Function.update_self] at here
      exact after here
  · rw [IsDirectory, IsDirectory, Function.update_of_ne same]

theorem Creatable.not_directory (creatable : volume.Creatable path) :
    ¬ volume.IsDirectory path := by
  rintro (root | here)
  · exact creatable.1 root
  · exact creatable.2.2.1 here

theorem Creatable.isDirectory_store (creatable : volume.Creatable path) :
    (volume.store path content).IsDirectory other ↔ volume.IsDirectory other :=
  isDirectory_update creatable.not_directory (by nofun)

theorem isDirectory_remove : (volume.remove path).IsDirectory other ↔ volume.IsDirectory other := by
  rw [remove]
  split
  · rename_i found
    by_cases root : path = []
    · subst root
      by_cases same : other = []
      · exact iff_of_true (Or.inl same) (Or.inl same)
      · rw [IsDirectory, IsDirectory, Function.update_of_ne same]
    · apply isDirectory_update _ (by nofun)
      rintro (isRoot | here)
      · exact root isRoot
      · rw [read, here] at found
        cases found
  · rfl

theorem Clean.update {entry : Option VolumeEntry} (clean : volume.Clean)
    (undamaged : entry ≠ some .damaged) :
    Clean (Function.update volume path entry) := by
  intro other
  by_cases same : other = path
  · rw [same, Function.update_self]
    exact undamaged
  · rw [Function.update_of_ne same]
    exact clean other

theorem Clean.remove (clean : volume.Clean) : (volume.remove path).Clean := by
  rw [Volume.remove]
  split
  · exact clean.update (by nofun)
  · exact clean

end Volume

end IteSdk.Lib
