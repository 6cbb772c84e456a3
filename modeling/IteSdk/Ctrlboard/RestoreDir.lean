import IteSdk.Lib.Dictionary
import IteSdk.Ctrlboard.Backup

/-!
# Restoring a directory

`ugRestoreDir` of `ug_reset.c` with its result, over any content of the
destination, with `ugCopyFile` and `ugDeleteDirectory`.  The file system does what
it is asked for, except that it keeps read-only files as they are.
-/

namespace IteSdk.Ctrlboard

open Lib Upgrade

inductive DestEntry
  | file (content : List UInt8) (readOnly : Bool)
  | dir (inside : List (FileName × DestEntry))

abbrev DestDir := List (FileName × DestEntry)

/-- `PATH_MAX`, and what `statvfs` says to be free when it is called for the
`n`-th time; `none` where it fails. -/
structure RestoreEnv where
  pathMax : Nat
  space : Nat → Option Nat

/-- The directory that is restored to, and the calls of `statvfs` so far. -/
structure RestoreState where
  dir : DestDir
  calls : Nat

/-- `st_size`. -/
def DestEntry.size : DestEntry → Nat
  | .file content _ => content.length
  | .dir _ => 0

/-- The check of the capacity, which is left out where `statvfs` fails. -/
def outOfSpace (space : Option Nat) (filesize : Nat) (there : Option DestEntry) : Bool :=
  match space with
  | none => false
  | some free =>
    decide (free + (there.map DestEntry.size).getD 0 < filesize)

/-- `ugCopyFile`: the error, or the file afterwards. -/
def ugCopyFileOver (space : Option Nat) (content : List UInt8)
    (there : Option DestEntry) : Except Int DestEntry :=
  if outOfSpace space content.length there then
    .error 46
  else
    match there with
    | some (.dir _) => .error 70
    | some (.file _ true) => .error 70
    | _ =>
      match copyLoop (min cfgUgBufSize content.length) (content.length + 1) content []
      with
      | some written => .ok (.file written false)
      | none => .error 90

mutual

/-- `ugDeleteDirectory`: what is left of an entry. -/
def DestEntry.deleted : DestEntry → Option DestEntry
  | .file content readOnly =>
    if readOnly then some (.file content readOnly) else none
  | .dir inside =>
    match deletedEntries inside with
    | [] => none
    | left => some (.dir left)

def deletedEntries : List (FileName × DestEntry) → List (FileName × DestEntry)
  | [] => []
  | (name, entry) :: rest =>
    match entry.deleted with
    | none => deletedEntries rest
    | some left => (name, left) :: deletedEntries rest

end

/-- `remove`, which fails on a directory. -/
def removeFile (name : FileName) (dir : DestDir) : DestDir :=
  match dir.lookup name with
  | some (.file _ false) => dropKey name dir
  | _ => dir

/-- `ugDeleteDirectory` on a name, which may not be there. -/
def ugDeleteDirectoryAt (name : FileName) (dir : DestDir) : DestDir :=
  match dir.lookup name with
  | some (.dir inside) =>
    match DestEntry.deleted (.dir inside) with
    | none => dropKey name dir
    | some left => put name left dir
  | _ => dir

/-- `if (ret == 0) ret = ret1`. -/
def firstError (ret ret1 : Int) : Int := if ret = 0 then ret1 else ret

/-- The loop of `ugRestoreDir`, with the lengths of its two paths.  `none` where a
path does not fit into its buffer, and where it ends in a slash since nothing
follows the tilde. -/
def ugRestoreLoop (env : RestoreEnv) (destLength srcLength : Nat) :
    DirEntries → Int → RestoreState → Option (Int × RestoreState)
  | .done, ret, state => some (ret, state)
  | .file name content rest, ret, state =>
    if isRemoval name then
      if name.tail ≠ [] ∧ destLength + 1 + name.tail.length < env.pathMax then
        ugRestoreLoop env destLength srcLength rest ret
          { state with dir := removeFile name.tail state.dir }
      else
        none
    else if destLength + 1 + name.length < env.pathMax ∧
        srcLength + 1 + name.length < env.pathMax then
      match ugCopyFileOver (env.space state.calls) content (state.dir.lookup name)
      with
      | .error ret1 =>
        ugRestoreLoop env destLength srcLength rest (firstError ret ret1)
          { state with calls := state.calls + 1 }
      | .ok entry =>
        ugRestoreLoop env destLength srcLength rest ret ⟨put name entry state.dir, state.calls + 1⟩
    else
      none
  | .dir name inside rest, ret, state =>
    if isRemoval name then
      if name.tail ≠ [] ∧ destLength + 1 + name.tail.length < env.pathMax then
        ugRestoreLoop env destLength srcLength rest ret
          { state with dir := ugDeleteDirectoryAt name.tail state.dir }
      else
        none
    else if destLength + 1 + name.length < env.pathMax then
      match state.dir.lookup name with
      -- `mkdir` fails.
      | some _ =>
        ugRestoreLoop env destLength srcLength rest (firstError ret (-1)) state
      | none =>
        if srcLength + 1 + name.length < env.pathMax then
          match
            ugRestoreLoop env (destLength + 1 + name.length)
              (srcLength + 1 + name.length) inside 0 ⟨[], state.calls⟩
          with
          | none => none
          | some (ret1, made) =>
            ugRestoreLoop env destLength srcLength rest (firstError ret ret1)
              ⟨put name (.dir made.dir) state.dir, made.calls⟩
        else
          none
    else
      none

/-- `ugRestoreDir`. -/
def ugRestoreDirOver (env : RestoreEnv) (destLength srcLength : Nat)
    (entries : DirEntries) (state : RestoreState) :
    Option (Int × RestoreState) :=
  ugRestoreLoop env destLength srcLength entries 0 state

namespace DirEntries

def kept : DirEntries → List FileName
  | .done => []
  | .file name _ rest => if isRemoval name then rest.kept else name :: rest.kept
  | .dir name _ rest => if isRemoval name then rest.kept else name :: rest.kept

def removals : DirEntries → List FileName
  | .done => []
  | .file name _ rest =>
    if isRemoval name then name.tail :: rest.removals else rest.removals
  | .dir name _ rest =>
    if isRemoval name then name.tail :: rest.removals else rest.removals

def hasDirectory : DirEntries → Bool
  | .done => false
  | .file _ _ rest => rest.hasDirectory
  | .dir name _ rest => !isRemoval name || rest.hasDirectory

def Distinct : DirEntries → Prop
  | .done => True
  | .file name _ rest => name ∉ rest.names ∧ rest.Distinct
  | .dir name inside rest => name ∉ rest.names ∧ inside.Distinct ∧ rest.Distinct

/-- The destination has every file with its content, in every directory. -/
def Contained : DirEntries → DestDir → Prop
  | .done, _ => True
  | .file name content rest, dest =>
    (isRemoval name = false → ∃ readOnly, dest.lookup name = some (.file content readOnly)) ∧
      rest.Contained dest
  | .dir name inside rest, dest =>
    (isRemoval name = false →
      ∃ below, dest.lookup name = some (.dir below) ∧ inside.Contained below) ∧
      rest.Contained dest

/-- What is marked with a tilde is not there, in every directory. -/
def Removed : DirEntries → DestDir → Prop
  | .done, _ => True
  | .file name _ rest, dest =>
    (isRemoval name = true → dest.lookup name.tail = none) ∧ rest.Removed dest
  | .dir name inside rest, dest =>
    (isRemoval name = true → dest.lookup name.tail = none) ∧
      (isRemoval name = false →
        ∀ below, dest.lookup name = some (.dir below) → inside.Removed below) ∧
      rest.Removed dest

def Clear (entries : DirEntries) : Prop := ∀ name ∈ entries.removals, name ∉ entries.kept

def ClearBelow : DirEntries → Prop
  | .done => True
  | .file _ _ rest => rest.ClearBelow
  | .dir name inside rest =>
    (isRemoval name = false → inside.Clear ∧ inside.ClearBelow) ∧ rest.ClearBelow

end DirEntries

mutual

def DestEntry.hasReadOnly : DestEntry → Bool
  | .file _ readOnly => readOnly
  | .dir inside => anyReadOnly inside

def anyReadOnly : List (FileName × DestEntry) → Bool
  | [] => false
  | (_, entry) :: rest => entry.hasReadOnly || anyReadOnly rest

end

/-- `remove` leaves nothing: there is no directory and no read-only file. -/
def RemovableFile : Option DestEntry → Prop
  | none => True
  | some (.file _ readOnly) => readOnly = false
  | some (.dir _) => False

/-- `ugDeleteDirectory` leaves nothing: there is no file, nor a read-only one in
the directory. -/
def RemovableDir : Option DestEntry → Prop
  | none => True
  | some (.file _ _) => False
  | some (.dir inside) => anyReadOnly inside = false

/-- What is marked with a tilde can be removed the way its entry says. -/
def DirEntries.RemovableFrom : DirEntries → DestDir → Prop
  | .done, _ => True
  | .file name _ rest, dest =>
    (isRemoval name = true → RemovableFile (dest.lookup name.tail)) ∧ rest.RemovableFrom dest
  | .dir name _ rest, dest =>
    (isRemoval name = true → RemovableDir (dest.lookup name.tail)) ∧ rest.RemovableFrom dest

end IteSdk.Ctrlboard
