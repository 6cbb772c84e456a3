import IteSdk.Upgrade.RawData

/-!
# Upgrade packages

`ug_package.c`: a header and then one tag after the other.
-/

namespace IteSdk.Upgrade

section

open Lib Itc

variable {ω : Type}

inductive TagType
  | tagEnd
  | tagDevice
  | tagUnformatted
  | tagRawData
  | tagPartition
  | tagDirectory
  | tagFile
  deriving DecidableEq

def tagType : Nat → Option TagType
  | 0 => some .tagEnd
  | 1 => some .tagDevice
  | 2 => some .tagUnformatted
  | 3 => some .tagRawData
  | 4 => some .tagPartition
  | 5 => some .tagDirectory
  | 6 => some .tagFile
  | _ => none

/-- A bit of `pkg.flags`. -/
def packageFlag (flags bit : Nat) : Bool := flags.testBit bit

def flagPartition : Nat := 1

def flagNoPartition : Nat := 2

def flagFormatPartition : Nat := 3

/-- The `switch` over the tags; `false` where the package has ended. -/
def ugPackageBlock (config : UgConfig) (env : UgEnv ω) (flags : Nat) : Option TagType → Ug ω Bool
  | some .tagEnd => do
      ugUpgradeEnd
      let ret ← ugCallMark env ugUpgradeFinish
      ugRequire (ret = 0) ret
      Checked.call fun state => ((), { state with finished := true })
      pure false
  | some .tagDevice => do
      ugUpgradeDevice config
      Checked.call fun state =>
        ((),
          { state with
            device :=
              { state.device with
                partition := packageFlag flags flagPartition
                nopartition := packageFlag flags flagNoPartition }
            partition := 0 })
      pure true
  | some .tagUnformatted => do
      ugUpgradeUnformatted
      pure true
  | some .tagRawData => do
      ugUpgradeRawData config env
      pure true
  | some .tagPartition => do
      let partition ← ugGet fun state => state.partition
      Checked.provided (partition = 0) (ugUpgradeDoPartition env)
      ugUpgradePartition env (packageFlag flags flagFormatPartition)
      Checked.call fun state => ((), { state with partition := state.partition + 1 })
      pure true
  | some .tagDirectory => do
      ugUpgradeDirectory config env
      pure true
  | some .tagFile => do
      ugUpgradeFile config env
      pure true
  | none => throw (.returned 161)

/-- One turn of the loop.  A tag that cannot be read ends the function while
`ret` is still zero. -/
def ugPackageStep (config : UgConfig) (env : UgEnv ω) (flags : Nat) : Ug ω Bool := do
  let tag ← ugReadExactly 4 0
  ugPackageBlock config env flags (tagType (field 0 4 tag))

def ugPackageLoop (config : UgConfig) (env : UgEnv ω) (flags : Nat) : Nat → Ug ω Unit :=
  Checked.repeatWhile (ugPackageStep config env flags) .outOfFuel

/-- `ugUpgradeStart` and the header, whose flags are returned.  A header that
cannot be read ends the function while `ret` is still zero. -/
def ugPackageHeader (env : UgEnv ω) : Ug ω Nat := do
  let ret ← ugCallMark env ugUpgradeStart
  ugRequire (ret = 0) ret
  let pkg ← ugReadExactly 24 0
  pure (field 20 4 pkg)

def ugUpgradePackage (config : UgConfig) (env : UgEnv ω) : Ug ω Unit := do
  let flags ← ugPackageHeader env
  let size ← ugGet fun state => state.file.size
  ugPackageLoop config env flags (size + 1)

/-- What the function returns; nothing where it does not come to its end. -/
def ugReturned : Except UgStop Unit → Option Int
  | .ok () => some 0
  | .error (.returned ret) => some ret
  | .error (.fault _) => none
  | .error .outOfFuel => none

end

/-!
# What the blocks of a package do to the stream

Every function of an upgrade that goes through has read exactly the bytes of its
block; every one that stops returns something other than zero, and only a block
that is out of bounds makes it leave an object.
-/

section

open Lib Lib.Checked Itc Ith

variable {ω α β : Type}

/-- The position of the stream and whether the upgrade has finished. -/
def At (file : ITCStream) (finished : Bool) (state : UgState ω) : Prop :=
  state.file = file ∧ state.finished = finished

structure Fails (inBounds : Prop) (finished : Bool) (stop : UgStop)
    (state : UgState ω) : Prop where
  notZero : stop ≠ .returned 0
  notFuel : stop ≠ .outOfFuel
  bounds : inBounds → stop ≠ .fault .bounds
  finished : state.finished = finished

variable {file : ITCStream} {finished : Bool} {inBounds : Prop}
  {next : α → Ug ω β} {post : β → UgState ω → Prop}

variable {state : UgState ω}

theorem Fails.returned {ret : Int} (nonzero : ret ≠ 0) (same : state.finished = finished) :
    Fails inBounds finished (.returned ret) state where
  notZero := by
    intro zero
    cases zero
    exact nonzero rfl
  notFuel := nofun
  bounds := fun _ => nofun
  finished := same

theorem Fails.rawData (same : state.finished = finished) :
    Fails inBounds finished (.fault .rawData) state :=
  ⟨nofun, nofun, fun _ => nofun, same⟩

/-! ## The calls -/

variable {stop : UgStop → UgState ω → Prop}

theorem stay_at {value : α} :
    Triple (At file finished) (pure value : Ug ω α) (fun _ => At file finished) stop :=
  Triple.pure fun _ here => here

theorem ask_at (function : ω → α × ω) :
    Triple (At file finished) (ugAsk function) (fun _ => At file finished) stop :=
  Triple.call fun _ here => here

theorem ask_bind {function : ω → α × ω}
    (rest : ∀ value, Triple (At file finished) (next value) post stop) :
    Triple (At file finished) (ugAsk function >>= next) post stop :=
  (ask_at function).bind rest

theorem get_bind {function : UgState ω → α}
    (rest :
      ∀ state, At file finished state →
        Triple (At file finished) (next (function state)) post stop) :
    Triple (At file finished) (ugGet function >>= next) post stop := by
  intro state here
  apply Holds.bind (Holds.call ⟨rfl, here⟩ : Holds (ugGet function) state
    (fun value after => value = function state ∧ At file finished after) stop)
  rintro value after ⟨rfl, there⟩
  exact rest state here after there

variable {next : Unit → Ug ω β}

theorem set_bind {function : UgState ω → UgState ω}
    (keeps :
      ∀ state, (function state).file = state.file ∧ (function state).finished = state.finished)
    (rest : Triple (At file finished) (next ()) post stop) :
    Triple (At file finished)
      (Checked.call (fun state => ((), function state)) >>= next) post stop := by
  apply Triple.bind_unit _ rest
  apply Triple.call
  rintro state ⟨rfl, rfl⟩
  exact keeps state

theorem stays_bind {program : Ug ω Unit}
    (stays : Triple (At file finished) program (fun _ => At file finished) stop)
    (rest : Triple (At file finished) (next ()) post stop) :
    Triple (At file finished) (program >>= next) post stop :=
  stays.bind_unit rest

theorem callMark_bind {env : UgEnv ω} {function : MarkIo → UgMark → Nat × UgMark}
    {next : Nat → Ug ω β} (rest : ∀ value, Triple (At file finished) (next value) post stop) :
    Triple (At file finished) (ugCallMark env function >>= next) post stop := by
  apply Triple.bind _ rest
  exact Triple.call fun _ here => here

section Require

variable {condition : Prop} [Decidable condition] {ret : Int}

variable {next : Unit → Ug ω β}

theorem require_bind (nonzero : ¬ condition → ret ≠ 0)
    (met : condition → Triple (At file finished) (next ()) post (Fails inBounds finished)) :
    Triple (At file finished) (ugRequire condition ret >>= next) post (Fails inBounds finished) :=
  Triple.require (fun unmet _ here => Fails.returned (nonzero unmet) here.2) met

theorem require_at (nonzero : ¬ condition → ret ≠ 0) :
    Triple (At file finished) (ugRequire condition ret)
      (fun _ state => condition ∧ At file finished state)
      (Fails (ω := ω) inBounds finished) :=
  Triple.require_last (fun unmet _ here => Fails.returned (nonzero unmet) here.2)
    (fun met _ here => ⟨met, here⟩)

theorem rawData_bind
    (met : condition → Triple (At file finished) (next ()) post (Fails inBounds finished)) :
    Triple (At file finished) (Checked.require condition (UgStop.fault .rawData) >>= next) post
      (Fails inBounds finished) :=
  Triple.require (fun _ _ here => Fails.rawData here.2) met

theorem bounds_bind (kept : inBounds → condition)
    (met : condition → Triple (At file finished) (next ()) post (Fails inBounds finished)) :
    Triple (At file finished) (Checked.require condition (UgStop.fault .bounds) >>= next) post
      (Fails inBounds finished) :=
  Triple.require
    (fun unmet _ here => ⟨nofun, nofun, fun holds => absurd (kept holds) unmet, here.2⟩)
    met

end Require

/-! ## Reading -/

/-- The stream is `count` bytes further on, and they were there. -/
def Done (file : ITCStream) (count : Nat) (finished : Bool) (state : UgState ω) : Prop :=
  file.pos + count ≤ file.size ∧ At (file.advance count) finished state

theorem Done.zero (inside : file.pos ≤ file.size) (here : At file finished state) :
    Done file 0 finished state :=
  ⟨inside, here⟩

theorem Done.advance {first second : Nat} (done : Done (file.advance first) second finished state) :
    Done file (first + second) finished state := by
  obtain ⟨within, here⟩ := done
  rw [ITCStream.advance_advance] at here
  rw [ITCStream.advance_pos, ITCStream.advance_size, Nat.add_assoc] at within
  exact ⟨within, here⟩

section Read

variable {size : Nat} {ret : Int}

variable {stop : UgStop → UgState ω → Prop}

theorem read_at (sensible : 0 < size ∨ file.pos ≤ file.size) :
    Triple (At file finished) (ugRead size)
      (fun bytes state =>
        state.finished = finished ∧
          (bytes.length = size →
            bytes = slice file.pos size file.data ∧ Done file size finished state))
      stop := by
  apply Triple.call
  rintro state ⟨rfl, rfl⟩
  refine ⟨rfl, fun full => ?_⟩
  obtain ⟨within, read⟩ := itcStreamRead_full sensible full
  exact ⟨congrArg Prod.fst read, within, congrArg Prod.snd read, rfl⟩

theorem length_bind {next : Unit → Ug ω β} {bytes : List UInt8}
    {moved : UgState ω → Prop} (nonzero : ret ≠ 0)
    (rest : Triple moved (next ()) post (Fails inBounds finished)) :
    Triple
      (fun state => state.finished = finished ∧ (bytes.length = size → moved state))
      (ugRequire (bytes.length = size) ret >>= next) post
      (Fails inBounds finished) :=
  Triple.require (fun _ _ here => Fails.returned nonzero here.1)
    fun full => rest.pre_imp fun _ here => here.2 full

theorem readExactly_at (nonzero : ret ≠ 0) (sensible : 0 < size ∨ file.pos ≤ file.size) :
    Triple (At file finished) (ugReadExactly size ret)
      (fun bytes state => bytes = slice file.pos size file.data ∧ Done file size finished state)
      (Fails (ω := ω) inBounds finished) :=
  (read_at sensible).bind fun _ => length_bind nonzero (Triple.pure fun _ here => here)

variable {next : List UInt8 → Ug ω β}

theorem readFrom_bind {read : Ug ω (List UInt8)}
    (reads :
      Triple (At file finished) read
        (fun bytes state => bytes = slice file.pos size file.data ∧ Done file size finished state)
        (Fails inBounds finished))
    (rest :
      file.pos + size ≤ file.size →
        Triple (At (file.advance size) finished) (next (slice file.pos size file.data)) post
          (Fails inBounds finished)) :
    Triple (At file finished) (read >>= next) post (Fails inBounds finished) := by
  apply reads.bind
  rintro bytes state ⟨rfl, within, here⟩
  exact rest within state here

theorem readExactly_bind (nonzero : ret ≠ 0) (sensible : 0 < size ∨ file.pos ≤ file.size)
    (rest :
      file.pos + size ≤ file.size →
        Triple (At (file.advance size) finished) (next (slice file.pos size file.data)) post
          (Fails inBounds finished)) :
    Triple (At file finished) (ugReadExactly size ret >>= next) post (Fails inBounds finished) :=
  readFrom_bind (readExactly_at nonzero sensible) rest

variable {room : Nat}

theorem readInto_bind {fault : UgFault} (nonzero : ret ≠ 0) (inside : file.pos ≤ file.size)
    (kept : fault = .bounds → inBounds → itcStreamCopied file size ≤ room)
    (rest :
      file.pos + size ≤ file.size →
        Triple (At (file.advance size) finished) (next (slice file.pos size file.data)) post
          (Fails inBounds finished)) :
    Triple (At file finished) (ugReadInto size room fault ret >>= next) post
      (Fails inBounds finished) := by
  refine readFrom_bind ?_ rest
  apply get_bind
  rintro state ⟨rfl, rfl⟩
  cases fault with
  | bounds =>
    exact bounds_bind (kept rfl) fun _ => readExactly_at nonzero (Or.inr inside)
  | rawData =>
    exact rawData_bind fun _ => readExactly_at nonzero (Or.inr inside)

theorem readExactly_there (within : file.pos + size ≤ file.size) :
    Triple (At file finished) (ugReadExactly size ret)
      (fun bytes state =>
        bytes = slice file.pos size file.data ∧ At (file.advance size) finished state) stop := by
  have read :
      Triple (At file finished) (ugRead size)
        (fun bytes state =>
          bytes = slice file.pos size file.data ∧ At (file.advance size) finished state) stop := by
    apply Triple.call
    rintro state ⟨rfl, rfl⟩
    rw [itcStreamRead_within within]
    exact ⟨rfl, rfl, rfl⟩
  apply read.bind
  intro bytes
  refine Triple.require ?_ fun _ => Triple.pure fun _ here => here
  rintro short state ⟨rfl, -⟩
  exact absurd (length_slice within) short

theorem readExactly_within (within : file.pos + size ≤ file.size)
    (rest :
      Triple (At (file.advance size) finished) (next (slice file.pos size file.data)) post stop) :
    Triple (At file finished) (ugReadExactly size ret >>= next) post stop := by
  apply (readExactly_there within).bind
  rintro bytes state ⟨rfl, here⟩
  exact rest state here

theorem readInto_within {fault : UgFault} (fits : itcStreamCopied file size ≤ room)
    (within : file.pos + size ≤ file.size)
    (rest :
      Triple (At (file.advance size) finished) (next (slice file.pos size file.data)) post stop) :
    Triple (At file finished) (ugReadInto size room fault ret >>= next) post stop := by
  have reads :
      Triple (At file finished) (ugReadInto size room fault ret)
        (fun bytes state =>
          bytes = slice file.pos size file.data ∧ At (file.advance size) finished state) stop := by
    apply get_bind
    rintro state ⟨rfl, rfl⟩
    exact Triple.require (fun unmet => absurd fits unmet) fun _ => readExactly_there within
  apply reads.bind
  rintro bytes state ⟨rfl, here⟩
  exact rest state here

theorem readExactly_short (positive : 0 < size) (short : file.size < file.pos + size) :
    Triple (At file finished) (ugReadExactly size ret >>= next) (fun _ _ => False)
      (fun stop state => stop = .returned ret ∧ state.finished = finished) := by
  have exactly :
      Triple (At file finished) (ugReadExactly size ret : Ug ω (List UInt8)) (fun _ _ => False)
        (fun stop state => stop = .returned ret ∧ state.finished = finished) := by
    apply (read_at (Or.inl positive)).bind
    intro bytes
    apply Triple.require
    · rintro - state ⟨same, -⟩
      exact ⟨rfl, same⟩
    · intro full
      apply Triple.pure
      rintro state ⟨-, moved⟩
      exact absurd (moved full).2.1 (Nat.not_le.mpr short)
  exact exactly.bind fun _ _ impossible => impossible.elim

theorem readInto_overflow (overflow : room < itcStreamCopied file size) :
    Triple (At file finished) (ugReadInto size room .bounds ret >>= next)
      (fun _ _ => False) (fun stop _ => stop = .fault .bounds) := by
  have reads :
      Triple (At file finished) (ugReadInto size room .bounds ret : Ug ω (List UInt8))
        (fun _ _ => False) (fun stop _ => stop = .fault .bounds) := by
    apply get_bind
    rintro state ⟨rfl, rfl⟩
    apply Triple.require (fun _ _ _ => rfl)
    intro fits
    exact absurd fits (Nat.not_le.mpr overflow)
  exact reads.bind fun _ _ impossible => impossible.elim

end Read

end

end IteSdk.Upgrade
