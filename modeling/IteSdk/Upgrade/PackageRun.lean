import IteSdk.Upgrade.RawDataSpec

/-!
# One turn of the package loop

Where the next tag stands, which blocks keep to the objects of their handlers,
and what a turn of the loop does with each.
-/

namespace IteSdk.Upgrade

section

open Lib Lib.Checked Itc Ith

variable {ω β : Type}
  {file : ITCStream} {finished : Bool} {inBounds : Prop}
  {config : UgConfig} {env : UgEnv ω} {flags : Nat}

def blockLength (data : List UInt8) (pos : Nat) : TagType → Nat
  | .tagEnd => 4
  | .tagDevice => 12 + partitionTableSize (field (pos + 8) 4 data)
  | .tagUnformatted => 4
  | .tagRawData => 8 + field (pos + 4) 4 data
  | .tagPartition => 8
  | .tagDirectory => 4 + field pos 4 data
  | .tagFile => fileLength data pos

/-- The block behind a tag keeps to the objects of its handler. -/
def InBounds (config : UgConfig) (file : ITCStream) : TagType → Prop
  | .tagDevice => file.pos + 12 ≤ file.size → DeviceInBounds config file
  | .tagDirectory => file.pos + 4 ≤ file.size → NameInBounds config file
  | .tagFile => file.pos + 4 ≤ file.size → NameInBounds config file
  | .tagEnd => True
  | .tagUnformatted => True
  | .tagRawData => True
  | .tagPartition => True

/-- The state behind a block; only the end tag ends the loop. -/
def Stepped (file : ITCStream) (count : Nat) (finished : Bool)
    (tag : TagType) (again : Bool) (state : UgState ω) : Prop :=
  again = decide (tag ≠ .tagEnd) ∧ Done file count (finished || !again) state

variable {tag : TagType}

theorem goesOn {count : Nat} {handler : Ug ω Unit} {before : UgState ω → Prop}
    (goes : tag ≠ .tagEnd)
    (handled :
      Triple before handler (fun _ => Done file count finished) (Fails inBounds finished)) :
    Triple before (handler >>= fun _ => pure true)
      (Stepped file count finished tag) (Fails inBounds finished) := by
  apply handled.bind_unit
  apply Triple.pure
  intro state done
  rw [Stepped, Bool.not_true, Bool.or_false]
  exact ⟨(decide_eq_true goes).symm, done⟩

theorem done_call {count : Nat} {function : UgState ω → UgState ω}
    {stop : UgStop → UgState ω → Prop}
    (keeps :
      ∀ state, (function state).file = state.file ∧ (function state).finished = state.finished) :
    Triple (Done file count finished) (Checked.call fun state => ((), function state))
      (fun _ => Done file count finished) stop := by
  apply Triple.call
  rintro state ⟨within, here, same⟩
  exact ⟨within, (keeps state).1.trans here, (keeps state).2.trans same⟩

theorem ugPackageBlock_spec (kept : inBounds → InBounds config file tag) :
    Triple (At file finished) (ugPackageBlock config env flags (some tag))
      (Stepped file (blockLength file.data file.pos tag) finished tag)
      (Fails inBounds finished) := by
  cases tag with
  | tagEnd =>
    apply ugUpgradeEnd_spec.bind_unit
    rintro state ⟨within, here⟩
    revert here state
    apply callMark_bind
    intro ret
    apply require_bind Int.natCast_ne_zero.mpr
    rintro - state ⟨here, -⟩
    refine ⟨rfl, within, here, ?_⟩
    rw [Bool.not_false, Bool.or_true]
  | tagDevice =>
    apply (ugUpgradeDevice_spec kept).bind_unit
    exact goesOn (by decide) (done_call fun _ => ⟨rfl, rfl⟩)
  | tagUnformatted => exact goesOn (by decide) ugUpgradeUnformatted_spec
  | tagRawData => exact goesOn (by decide) ugUpgradeRawData_spec
  | tagPartition =>
    apply get_bind
    intro before _
    apply stays_bind (Triple.provided (fun _ => ugUpgradeDoPartition_spec env) fun _ _ here => here)
    apply (ugUpgradePartition_spec env _).bind_unit
    exact goesOn (by decide) (done_call fun _ => ⟨rfl, rfl⟩)
  | tagDirectory => exact goesOn (by decide) (ugUpgradeDirectory_spec env kept)
  | tagFile => exact goesOn (by decide) (ugUpgradeFile_spec env kept)

def Overflows (file : ITCStream) (finished : Bool) (program : Ug ω β) : Prop :=
  Triple (At file finished) program (fun _ _ => False) fun stop _ => stop = .fault .bounds

theorem Overflows.bind {α : Type} {program : Ug ω α} {next : α → Ug ω β}
    (overflows : Overflows file finished program) :
    Overflows file finished (program >>= next) :=
  Triple.bind overflows fun _ _ impossible => impossible.elim

theorem overflows_require {condition : Prop} [Decidable condition]
    {next : Unit → Ug ω β} (unmet : ¬ condition) :
    Overflows file finished (Checked.require condition (UgStop.fault .bounds) >>= next) :=
  Triple.require (fun _ _ _ => rfl) fun met => absurd met unmet

theorem ugUpgradeDevice_overflows (header : file.pos + 12 ≤ file.size)
    (out : ¬ DeviceInBounds config file) :
    Overflows file finished (ugUpgradeDevice config : Ug ω Unit) := by
  apply readExactly_within header
  rw [field_slice _ (by decide), field_slice _ (by decide), field_slice _ (by decide)]
  apply setDevice_bind
  by_cases known : config.ugInfo = true → field (file.pos + 0) 4 file.data < deviceCount
  case neg => exact overflows_require known
  apply Triple.require (fun unmet => absurd known unmet)
  intro _
  by_cases tableFits :
      itcStreamCopied (file.advance 12) (partitionTableSize (field (file.pos + 8) 4 file.data)) ≤
        8 * itpMaxPartition
  case neg => exact readInto_overflow (Nat.not_le.mp tableFits)
  have counted :
      ¬ (file.pos + 12 + partitionTableSize (field (file.pos + 8) 4 file.data) ≤ file.size →
          intBound (field (file.pos + 8) 4 file.data) ≤ itpMaxPartition) :=
    fun countFits => out ⟨known, tableFits, countFits⟩
  obtain ⟨table, tooMany⟩ := Classical.not_imp.mp counted
  apply readInto_within tableFits table
  exact overflows_require tooMany

theorem ugPackageBlock_overflows (out : ¬ InBounds config file tag) :
    Overflows file finished (ugPackageBlock config env flags (some tag)) := by
  cases tag with
  | tagDevice =>
    obtain ⟨header, outside⟩ := Classical.not_imp.mp out
    exact (ugUpgradeDevice_overflows header outside).bind
  | tagDirectory | tagFile =>
    obtain ⟨header, outside⟩ := Classical.not_imp.mp out
    apply Overflows.bind
    apply readExactly_within header
    rw [field_slice _ (by decide)]
    exact readInto_overflow (Nat.not_le.mp outside)
  | tagEnd | tagUnformatted | tagRawData | tagPartition => exact absurd trivial out

/-! ## Turns of the loop -/

theorem ugPackageStep_spec (within : file.pos + 4 ≤ file.size)
    (kept :
      inBounds →
        ∀ tag, tagType (field file.pos 4 file.data) = some tag →
          InBounds config (file.advance 4) tag) :
    Triple (At file finished) (ugPackageStep config env flags)
      (fun again state =>
        ∃ tag, tagType (field file.pos 4 file.data) = some tag ∧
          Stepped (file.advance 4)
            (blockLength file.data (file.pos + 4) tag) finished tag again state)
      (Fails inBounds finished) := by
  apply readExactly_within within
  rw [field_slice _ (by decide), Nat.add_zero]
  cases known : tagType (field file.pos 4 file.data) with
  | none => exact Triple.throw fun _ here => Fails.returned (by decide) here.2
  | some tag =>
    exact (ugPackageBlock_spec fun holds => kept holds tag known).post_imp
      fun _ _ stepped => ⟨tag, rfl, stepped⟩

theorem ugPackageStep_short (short : file.size < file.pos + 4) :
    Triple (At file finished) (ugPackageStep config env flags) (fun _ _ => False)
      (fun stop state => stop = .returned 0 ∧ state.finished = finished) :=
  readExactly_short (by decide) short

theorem ugPackageStep_overflows (within : file.pos + 4 ≤ file.size)
    (known : tagType (field file.pos 4 file.data) = some tag)
    (out : ¬ InBounds config (file.advance 4) tag) :
    Overflows file finished (ugPackageStep config env flags) := by
  apply readExactly_within within
  rw [field_slice _ (by decide), Nat.add_zero, known]
  exact ugPackageBlock_overflows out

end

/-!
# Packages and where they are cut off

A package is a header, blocks and an end block with nothing behind it.  The
blocks of a package that was cut off are blocks of the package.
-/

section

open Lib Relation

structure BlockAt (data : List UInt8) (tag : TagType) (start stop : Nat) :
    Prop where
  known : tagType (field start 4 data) = some tag
  length : stop = start + 4 + blockLength data (start + 4) tag
  within : stop ≤ data.length

def NextBlock (data : List UInt8) (start stop : Nat) : Prop :=
  ∃ tag, tag ≠ .tagEnd ∧ BlockAt data tag start stop

def IsPackage (data : List UInt8) : Prop :=
  ∃ start, ReflTransGen (NextBlock data) 24 start ∧ BlockAt data .tagEnd start data.length

def IsTruncated (data : List UInt8) : Prop :=
  ∃ package, IsPackage package ∧ data <+: package ∧ data.length < package.length

variable {data package : List UInt8} {start stop : Nat}

theorem field_of_cut {offset count : Nat}
    (cut : data <+: package) (within : offset + count ≤ data.length) :
    field offset count data = field offset count package := by
  obtain ⟨rest, rfl⟩ := cut
  rw [field, field, slice, slice, List.drop_append_of_le_length (by omega),
    List.take_append_of_le_length (by rw [List.length_drop]; omega)]

theorem blockLength_of_cut {pos : Nat} {tag : TagType} (cut : data <+: package)
    (within : pos + blockLength data pos tag ≤ data.length) :
    blockLength data pos tag = blockLength package pos tag := by
  cases tag with
  | tagEnd | tagUnformatted | tagPartition => rfl
  | tagDevice | tagRawData | tagDirectory =>
    rw [blockLength] at within ⊢
    rw [field_of_cut cut (by omega), blockLength]
  | tagFile =>
    rw [blockLength, fileLength] at within ⊢
    have name : field pos 4 data = field pos 4 package := field_of_cut cut (by omega)
    have size :
        field (pos + 4 + field pos 4 data) 4 data = field (pos + 4 + field pos 4 data) 4 package :=
      field_of_cut cut (by omega)
    rw [size, name, blockLength, fileLength]

theorem BlockAt.of_cut {tag : TagType} (cut : data <+: package)
    (block : BlockAt data tag start stop) : BlockAt package tag start stop where
  known := by
    have within := block.within
    have length := block.length
    rw [← field_of_cut cut (by omega)]
    exact block.known
  length := by
    have within := block.within
    have length := block.length
    rw [← blockLength_of_cut cut (by omega)]
    exact length
  within := block.within.trans cut.length_le

theorem NextBlock.of_cut (cut : data <+: package) (next : NextBlock data start stop) :
    NextBlock package start stop := by
  obtain ⟨tag, goes, block⟩ := next
  exact ⟨tag, goes, block.of_cut cut⟩

variable {data : List UInt8}

theorem BlockAt.unique {first second : TagType} {start firstStop secondStop : Nat}
    (one : BlockAt data first start firstStop) (other : BlockAt data second start secondStop) :
    first = second ∧ firstStop = secondStop := by
  have same : first = second := Option.some.inj (one.known.symm.trans other.known)
  subst same
  exact ⟨rfl, one.length.trans other.length.symm⟩

theorem nextBlock_rightUnique (data : List UInt8) : Relator.RightUnique (NextBlock data) := by
  rintro start first second ⟨_, _, one⟩ ⟨_, _, other⟩
  exact (one.unique other).2

theorem BlockAt.last {start stop other : Nat} (block : BlockAt data .tagEnd start stop)
    (path : ReflTransGen (NextBlock data) start other) : start = other := by
  rcases path.cases_head with same | ⟨_, ⟨_, goes, next⟩, -⟩
  · exact same
  · exact absurd (block.unique next).1.symm goes

theorem IsPackage.end_unique (package : IsPackage data)
    (path : ReflTransGen (NextBlock data) 24 start) (block : BlockAt data .tagEnd start stop) :
    stop = data.length := by
  obtain ⟨last, lastPath, lastBlock⟩ := package
  have same : start = last := by
    rcases ReflTransGen.total_of_right_unique (nextBlock_rightUnique data)
        path lastPath with more | more
    · exact block.last more
    · exact (lastBlock.last more).symm
  subst same
  exact (block.unique lastBlock).2

theorem IsTruncated.no_end (truncated : IsTruncated data)
    (path : ReflTransGen (NextBlock data) 24 start) :
    ¬ BlockAt data .tagEnd start stop := by
  intro block
  obtain ⟨package, whole, cut, shorter⟩ := truncated
  have wholePath : ReflTransGen (NextBlock package) 24 start :=
    ReflTransGen.mono (fun _ _ next => NextBlock.of_cut cut next) _ _ path
  have ends := whole.end_unique wholePath (block.of_cut cut)
  have within := block.within
  omega

end

/-!
# Upgrades from the first byte to the last

What `ugUpgradePackage` returns and whether it leaves an object, in terms of the
blocks that its loop comes to.
-/

section

open Lib Lib.Checked Itc Relation

variable {ω : Type}
  {config : UgConfig} {env : UgEnv ω} {flags : Nat}

abbrev UgNext (config : UgConfig) (env : UgEnv ω) (flags : Nat) : UgState ω → UgState ω → Prop :=
  Checked.Next (ugPackageStep config env flags)

def AtTag (config : UgConfig) (env : UgEnv ω) (state : UgState ω)
    (flags : Nat) (reached : UgState ω) : Prop :=
  ∃ first, (ugPackageHeader env).outcome state = (.ok flags, first) ∧
    ReflTransGen (UgNext config env flags) first reached

section Turn

variable {state after : UgState ω}

theorem at_self (state : UgState ω) : At state.file state.finished state := ⟨rfl, rfl⟩

theorem ugPackageStep_ok {again : Bool}
    (ran : (ugPackageStep config env flags).outcome state = (.ok again, after)) :
    ∃ tag, again = decide (tag ≠ .tagEnd) ∧
      BlockAt state.file.data tag state.file.pos after.file.pos ∧
        after.file.data = state.file.data ∧ after.finished = (state.finished || !again) := by
  by_cases within : state.file.pos + 4 ≤ state.file.size
  case neg =>
    exact ((ugPackageStep_short (Nat.not_le.mp within) state (at_self state)).ok ran).elim
  obtain ⟨tag, known, goes, inside, here, same⟩ :=
    (ugPackageStep_spec within (fun none : False => none.elim) state (at_self state)).ok ran
  refine ⟨tag, goes, ⟨known, ?_, ?_⟩, ?_, same⟩
  · rw [here]
    rfl
  · rw [here]
    exact inside
  · rw [here]
    rfl

theorem UgNext.block (next : UgNext config env flags state after) :
    NextBlock state.file.data state.file.pos after.file.pos ∧
      after.file.data = state.file.data ∧ after.finished = state.finished := by
  obtain ⟨tag, goes, block, same, finished⟩ := ugPackageStep_ok next
  refine ⟨⟨tag, of_decide_eq_true goes.symm, block⟩, same, ?_⟩
  rw [finished, Bool.not_true, Bool.or_false]

def UgState.bytesLeft (state : UgState ω) : Nat := state.file.size - state.file.pos

theorem UgNext.down (next : UgNext config env flags state after) :
    after.bytesLeft < state.bytesLeft := by
  obtain ⟨⟨tag, -, block⟩, same, -⟩ := next.block
  have within := block.within
  have length := block.length
  unfold UgState.bytesLeft ITCStream.size
  rw [same]
  omega

end Turn

/-! ## Whole runs -/

section Run

variable {state reached : UgState ω}

theorem path_blocks {first : UgState ω}
    (path : ReflTransGen (UgNext config env flags) first reached) :
    ReflTransGen (NextBlock first.file.data) first.file.pos reached.file.pos ∧
      reached.file.data = first.file.data ∧ reached.finished = first.finished := by
  induction path with
  | refl => exact ⟨.refl, rfl, rfl⟩
  | tail _ next ih =>
    obtain ⟨blocks, same, finished⟩ := ih
    obtain ⟨block, sameNext, finishedNext⟩ := next.block
    rw [same] at block sameNext
    exact ⟨blocks.tail block, sameNext, finishedNext.trans finished⟩

/-- What `ugUpgradeStart` returns. -/
def startReturn (env : UgEnv ω) (state : UgState ω) : Nat :=
  (ugUpgradeStart (env.markIo state.world).1 state.mark).1

/-- The header is there unless `ugUpgradeStart` fails. -/
def HeaderComplete (env : UgEnv ω) (state : UgState ω) : Prop :=
  startReturn env state = 0 → state.file.pos + 24 ≤ state.file.size

theorem ugPackageHeader_started (started : startReturn env state = 0) :
    ∃ after : UgState ω, At state.file state.finished after ∧
      (ugPackageHeader env).outcome state =
        (do
          let pkg ← ugReadExactly 24 0
          pure (field 20 4 pkg) : Ug ω Nat).outcome after := by
  refine ⟨((ugCallMark env ugUpgradeStart).outcome state).2, ⟨rfl, rfl⟩, ?_⟩
  rw [ugPackageHeader, outcome_bind, ugCallMark, outcome_call]
  unfold startReturn at started
  dsimp only
  rw [started]
  rfl

theorem ugPackageHeader_failed (failed : startReturn env state ≠ 0) :
    Holds (ugPackageHeader env) state (fun _ _ => False) (Fails True state.finished) := by
  apply Holds.bind (Holds.call ⟨rfl, at_self state⟩ :
    Holds (ugCallMark env ugUpgradeStart) state
      (fun ret after => ret = startReturn env state ∧ At state.file state.finished after) _)
  rintro ret after ⟨rfl, here⟩
  exact Triple.require
    (fun unmet _ there => Fails.returned (Int.natCast_ne_zero.mpr unmet) there.2)
    (fun met => absurd met failed) after here

theorem ugPackageHeader_spec :
    Holds (ugPackageHeader env) state
      (fun _ after => HeaderComplete env state ∧ Done state.file 24 state.finished after)
      (fun stop after =>
        after.finished = state.finished ∧ stop ≠ .outOfFuel ∧
          stop ≠ .fault .bounds ∧ (stop = .returned 0 ↔ ¬ HeaderComplete env state)) := by
  by_cases started : startReturn env state = 0
  case neg =>
    apply (ugPackageHeader_failed started).imp
    · intro _ _ impossible
      exact impossible.elim
    · intro stop after fails
      refine ⟨fails.finished, fails.notFuel, fails.bounds trivial, ?_⟩
      exact ⟨fun zero => absurd zero fails.notZero,
        fun short => absurd (fun begun => absurd begun started) short⟩
  obtain ⟨after, here, same⟩ := ugPackageHeader_started started
  rw [Holds, same]
  by_cases within : state.file.pos + 24 ≤ state.file.size
  · refine readExactly_within within ?_ after here
    exact Triple.pure fun _ there => ⟨fun _ => within, within, there⟩
  · refine (readExactly_short (by decide) (Nat.not_le.mp within)
      after here).imp (fun _ _ impossible => impossible.elim) ?_
    rintro _ _ ⟨rfl, unfinished⟩
    exact ⟨unfinished, by decide, by decide,
      ⟨fun _ complete => within (complete started), fun _ => rfl⟩⟩

theorem ugUpgradePackage_outcome (config : UgConfig) (env : UgEnv ω) (state : UgState ω) :
    (∃ stop after,
        (ugPackageHeader env).outcome state = (.error stop, after) ∧
          (ugUpgradePackage config env).outcome state = (.error stop, after)) ∨
      ∃ flags last, AtTag config env state flags last ∧
        (∀ after, ¬ UgNext config env flags last after) ∧
          (ugUpgradePackage config env).outcome state =
            lastTurn ((ugPackageStep config env flags).outcome last) := by
  rw [ugUpgradePackage, outcome_bind]
  cases ran : (ugPackageHeader env).outcome state with
  | mk result first =>
    cases result with
    | error stop => exact Or.inl ⟨stop, first, rfl, rfl⟩
    | ok flags =>
      obtain ⟨last, path, ends, same⟩ :=
        repeatWhile_outcome UgState.bytesLeft UgStop.outOfFuel (fun _ _ => UgNext.down)
          (Nat.lt_succ_of_le (Nat.sub_le first.file.size first.file.pos))
      exact Or.inr ⟨flags, last, ⟨first, ran, path⟩, ends, same⟩

variable {flags : Nat}

theorem AtTag.header (reaches : AtTag config env state flags reached) :
    HeaderComplete env state := by
  obtain ⟨first, ran, -⟩ := reaches
  exact (ugPackageHeader_spec.ok ran).1

theorem AtTag.blocks (reaches : AtTag config env state flags reached) :
    ReflTransGen (NextBlock state.file.data) (state.file.pos + 24) reached.file.pos ∧
      reached.file.data = state.file.data ∧ reached.finished = state.finished := by
  obtain ⟨first, ran, path⟩ := reaches
  obtain ⟨-, -, here, same⟩ := ugPackageHeader_spec.ok ran
  obtain ⟨blocks, data, finished⟩ := path_blocks path
  rw [here] at blocks data
  rw [same] at finished
  exact ⟨blocks, data, finished⟩

theorem AtTag.last_unique {flags otherFlags : Nat} {other : UgState ω}
    (reaches : AtTag config env state flags reached)
    (reachesOther : AtTag config env state otherFlags other)
    (ends : ∀ after, ¬ UgNext config env flags reached after)
    (otherEnds : ∀ after, ¬ UgNext config env otherFlags other after) :
    flags = otherFlags ∧ reached = other := by
  obtain ⟨first, ran, path⟩ := reaches
  obtain ⟨start, ranOther, pathOther⟩ := reachesOther
  have same := ran.symm.trans ranOther
  simp only [Prod.mk.injEq, Except.ok.injEq] at same
  obtain ⟨rfl, rfl⟩ := same
  exact ⟨rfl, Checked.last_unique path pathOther ends otherEnds⟩

/-- How the last turn ends the function.  It ends it well only behind an end
block. -/
theorem lastTurn_cases {last : UgState ω} (ends : ∀ after, ¬ UgNext config env flags last after) :
    (∃ after,
        (ugPackageStep config env flags).outcome last = (.ok false, after) ∧
          after.finished = true ∧ BlockAt last.file.data .tagEnd last.file.pos after.file.pos) ∨
      ∃ stop after,
        (ugPackageStep config env flags).outcome last = (.error stop, after) ∧
          after.finished = last.finished ∧ stop ≠ .outOfFuel ∧
            (stop = .returned 0 ↔ last.file.size < last.file.pos + 4) := by
  cases ran : (ugPackageStep config env flags).outcome last with
  | mk result after =>
    cases result with
    | ok again =>
      cases again with
      | true => exact absurd ran (ends after)
      | false =>
        obtain ⟨tag, ended, block, -, finished⟩ := ugPackageStep_ok ran
        have isEnd : tag = .tagEnd := not_not.mp (of_decide_eq_false ended.symm)
        subst isEnd
        rw [Bool.not_false, Bool.or_true] at finished
        exact Or.inl ⟨after, rfl, finished, block⟩
    | error stop =>
      refine Or.inr ⟨stop, after, rfl, ?_⟩
      by_cases within : last.file.pos + 4 ≤ last.file.size
      · have fails :=
          (ugPackageStep_spec within (fun none : False => none.elim) last (at_self last)).error ran
        exact ⟨fails.finished, fails.notFuel,
          fun zero => absurd zero fails.notZero, fun short => by omega⟩
      · obtain ⟨rfl, same⟩ :=
          (ugPackageStep_short (Nat.not_le.mp within) last (at_self last)).error ran
        exact ⟨same, by decide, fun _ => Nat.not_le.mp within, fun _ => rfl⟩

theorem ends_of_short (short : reached.file.size < reached.file.pos + 4) (after : UgState ω) :
    ¬ UgNext config env flags reached after :=
  fun next => (ugPackageStep_short short reached (at_self reached)).ok next

end Run

/-! ## Success -/

def UgState.fresh (state : UgState ω) : UgState ω := { state with finished := false }

/-- The header and every tag that the loop comes to are there. -/
structure TagsComplete (config : UgConfig) (env : UgEnv ω) (state : UgState ω) : Prop where
  header : HeaderComplete env state
  tags :
    ∀ flags reached, AtTag config env state flags reached → reached.file.pos + 4 ≤ reached.file.size

/-- The upgrade is reported as a success only behind an end block. -/
def SuccessMeansFinished (run : Except UgStop Unit × UgState ω) : Prop :=
  ugReturned run.1 = some 0 → run.2.finished = true

theorem successMeansFinished_of_stop {stop : UgStop} {after : UgState ω}
    (unfinished : after.finished = false) :
    SuccessMeansFinished (.error stop, after) ↔ stop ≠ .returned 0 := by
  cases stop with
  | returned ret => simp [SuccessMeansFinished, ugReturned, unfinished]
  | fault _ | outOfFuel => simp [SuccessMeansFinished, ugReturned]

theorem success_iff (config : UgConfig) (env : UgEnv ω) {state : UgState ω}
    (fresh : state.finished = false) :
    SuccessMeansFinished ((ugUpgradePackage config env).outcome state) ↔
      TagsComplete config env state := by
  rcases ugUpgradePackage_outcome config env state with
    ⟨stop, after, header, same⟩ | ⟨flags, last, reaches, ends, same⟩
  · obtain ⟨unfinished, -, -, zero⟩ := ugPackageHeader_spec.error header
    rw [same, successMeansFinished_of_stop (unfinished.trans fresh), Ne, zero, not_not]
    refine ⟨fun complete => ⟨complete, ?_⟩, fun complete => complete.header⟩
    rintro flags reached ⟨first, ran, -⟩
    rw [header] at ran
    cases ran
  · have atEnd (flags' : Nat) (reached : UgState ω)
        (reaches' : AtTag config env state flags' reached)
        (short : reached.file.size < reached.file.pos + 4) :
        last.file.size < last.file.pos + 4 := by
      obtain ⟨-, rfl⟩ := reaches.last_unique reaches' ends (ends_of_short short)
      exact short
    rw [same]
    rcases lastTurn_cases ends with
      ⟨after, ran, finished, -⟩ | ⟨stop, after, ran, kept, -, zero⟩
    · rw [ran]
      refine ⟨fun _ => ⟨reaches.header, ?_⟩, fun _ _ => finished⟩
      intro flags' reached reaches'
      by_contra short
      have atLast := atEnd flags' reached reaches' (Nat.not_le.mp short)
      exact (ugPackageStep_short atLast last (at_self last)).ok ran
    · have unfinished : after.finished = false := kept.trans (reaches.blocks.2.2.trans fresh)
      rw [ran, lastTurn, successMeansFinished_of_stop unfinished, Ne, zero, Nat.not_lt]
      refine ⟨fun complete => ⟨reaches.header, ?_⟩,
        fun complete => complete.tags flags last reaches⟩
      intro flags' reached reaches'
      by_contra short
      have := atEnd flags' reached reaches' (Nat.not_le.mp short)
      omega

theorem ugUpgradePackage_ends (config : UgConfig) (env : UgEnv ω) (state : UgState ω) :
    ((ugUpgradePackage config env).outcome state).1 ≠ .error .outOfFuel := by
  rcases ugUpgradePackage_outcome config env state with
    ⟨stop, after, header, same⟩ | ⟨flags, last, -, ends, same⟩
  · rw [same]
    intro spent
    exact (ugPackageHeader_spec.error header).2.1 (Except.error.inj spent)
  · rw [same]
    rcases lastTurn_cases ends with
      ⟨after, ran, -⟩ | ⟨stop, after, ran, -, fuel, -⟩
    · rw [ran]
      nofun
    · rw [ran]
      intro spent
      exact fuel (Except.error.inj spent)

theorem truncated_unfinished {state : UgState ω} (fresh : state.finished = false)
    (start : state.file.pos = 0) (truncated : IsTruncated state.file.data) :
    ((ugUpgradePackage config env).outcome state).2.finished = false := by
  rcases ugUpgradePackage_outcome config env state with
    ⟨stop, after, header, same⟩ | ⟨flags, last, reaches, ends, same⟩
  · rw [same]
    exact (ugPackageHeader_spec.error header).1.trans fresh
  · rw [same]
    obtain ⟨blocks, data, unfinished⟩ := reaches.blocks
    rw [start, Nat.zero_add] at blocks
    rcases lastTurn_cases ends with
      ⟨after, -, -, block⟩ | ⟨stop, after, ran, kept, -⟩
    · rw [data] at block
      exact absurd block (truncated.no_end blocks)
    · rw [ran]
      exact kept.trans (unfinished.trans fresh)

/-- The function always comes to its end.  It reports success without having
finished exactly if the header or a tag is cut off; for a package that was cut
off, exactly then does it not return an error. -/
theorem ugUpgradePackage_success_iff (config : UgConfig) (env : UgEnv ω)
    (state : UgState ω) :
    ((ugUpgradePackage config env).outcome state.fresh).1 ≠ .error .outOfFuel ∧
      (SuccessMeansFinished ((ugUpgradePackage config env).outcome state.fresh) ↔
        TagsComplete config env state.fresh) ∧
      (state.file.pos = 0 → IsTruncated state.file.data →
        (ugReturned ((ugUpgradePackage config env).outcome state.fresh).1 ≠ some 0 ↔
          TagsComplete config env state.fresh)) := by
  refine ⟨ugUpgradePackage_ends config env state.fresh,
    success_iff config env rfl, fun start truncated => ?_⟩
  have unfinished :
      ((ugUpgradePackage config env).outcome state.fresh).2.finished = false :=
    truncated_unfinished rfl start truncated
  rw [← success_iff config env rfl, SuccessMeansFinished, unfinished]
  simp only [Bool.false_eq_true, imp_false, Ne]

/-- A system on which everything succeeds and no drive is known. -/
def quietEnv : UgEnv Unit where
  markIo := fun world => (⟨true, true, true, true, true, true, .stored⟩, world)
  getTable := fun world => ([], world)
  format := fun _ world => (0, world)
  getPartition := fun _ world => ((0, 0, []), world)
  unmount := fun _ world => (0, world)
  createPartition := fun _ _ _ world => (0, world)
  forceMount := fun _ world => (0, world)
  saveFatExbr := fun world => ((), world)
  openDisk := fun _ _ world => (true, world)
  getBlockSize := fun world => (some 512, world)
  getGapSize := fun world => (some 0, world)
  lseek := fun pos world => (pos, world)
  read := fun count world => ((count, []), world)
  write := fun _ count world => (count, world)
  malloc := fun _ world => (some [], world)
  statvfs := fun _ world => (none, world)
  stat := fun _ world => (none, world)
  fopen := fun _ _ world => (true, world)
  fwrite := fun bytes world => (bytes.length, world)
  fread := fun count world => ((count, []), world)
  chdir := fun _ world => (0, world)
  mkdir := fun _ world => (0, world)

def quietConfig : UgConfig := ⟨256, true, 0, 0⟩

def quietState (data : List UInt8) (fits : data.length < 2 ^ 31) : UgState Unit where
  file := ⟨.array, data, 0, fits⟩
  world := ()
  mark := ⟨List.replicate 16 0, false, by decide⟩
  device := ⟨0, 0, 0, .nor, [], false, false, false⟩
  partition := 0
  drive := []
  finished := false

/-- A package of a header and an end block, without its last six bytes. -/
def cutState : UgState Unit := quietState (List.replicate 26 0) (by decide)

theorem cutState_truncated : IsTruncated cutState.file.data := by
  refine ⟨List.replicate 32 0, ⟨24, .refl, ?_, ?_, ?_⟩, ?_, ?_⟩
  all_goals decide

theorem ugUpgradePackage_success_iff_cut :
    ugReturned ((ugUpgradePackage quietConfig quietEnv).outcome cutState.fresh).1 ≠ some 0 ↔
      TagsComplete quietConfig quietEnv cutState.fresh :=
  (ugUpgradePackage_success_iff quietConfig quietEnv cutState).2.2 rfl cutState_truncated

/-- The cut package is upgraded with success. -/
theorem ugUpgradePackage_success_cut :
    IsTruncated cutState.file.data ∧
      ugReturned ((ugUpgradePackage quietConfig quietEnv).outcome cutState.fresh).1 = some 0 ∧
        ¬ SuccessMeansFinished ((ugUpgradePackage quietConfig quietEnv).outcome cutState.fresh) :=
  ⟨cutState_truncated, rfl, fun means => Bool.false_ne_true (means rfl)⟩

/-- Every block that the loop comes to keeps to the objects of its handler. -/
def BlocksInBounds (config : UgConfig) (env : UgEnv ω) (state : UgState ω) : Prop :=
  ∀ flags reached tag, AtTag config env state flags reached →
    reached.file.pos + 4 ≤ reached.file.size →
      tagType (field reached.file.pos 4 reached.file.data) = some tag →
        InBounds config (reached.file.advance 4) tag

/-- A run leaves an object exactly if it comes to a block that does. -/
theorem ugUpgradePackage_inBounds_iff (config : UgConfig) (env : UgEnv ω)
    (state : UgState ω) :
    ((ugUpgradePackage config env).outcome state).1 ≠ .error (.fault .bounds) ↔
      BlocksInBounds config env state := by
  rcases ugUpgradePackage_outcome config env state with
    ⟨stop, after, header, same⟩ | ⟨flags, last, reaches, ends, same⟩
  · rw [same]
    constructor
    · rintro - flags reached tag ⟨first, ran, -⟩
      rw [header] at ran
      cases ran
    · intro _ fault
      exact (ugPackageHeader_spec.error header).2.2.1 (Except.error.inj fault)
  · rw [same]
    constructor
    · intro safe flags' reached tag reaches' within known
      by_contra out
      have overflows (flags : Nat) :
          Holds (ugPackageStep config env flags) reached (fun _ _ => False)
            fun stop _ => stop = .fault .bounds :=
        ugPackageStep_overflows within known out reached (at_self reached)
      obtain ⟨rfl, rfl⟩ := reaches.last_unique reaches' ends
        fun after next => (overflows flags').ok next
      cases ran : (ugPackageStep config env flags).outcome last with
      | mk result after =>
        rw [ran] at safe
        cases result with
        | ok again => exact (overflows flags).ok ran
        | error stop =>
          exact safe (congrArg Except.error ((overflows flags).error ran))
    · intro inBounds fault
      cases ran : (ugPackageStep config env flags).outcome last with
      | mk result after =>
        rw [ran] at fault
        cases result with
        | ok again => exact nomatch fault
        | error stop =>
          have stopped : stop = .fault .bounds := Except.error.inj fault
          subst stopped
          by_cases within : last.file.pos + 4 ≤ last.file.size
          · have fails :=
              (ugPackageStep_spec within
                (fun kept : BlocksInBounds config env state =>
                  fun tag => kept flags last tag reaches within) last
                (at_self last)).error ran
            exact fails.bounds inBounds rfl
          · have short := (ugPackageStep_short (Nat.not_le.mp within) last (at_self last)).error ran
            exact nomatch short.1

def strangeDevice : UgState Unit :=
  quietState (List.replicate 24 0 ++ [1, 0, 0, 0, 7, 0, 0, 0] ++ List.replicate 8 0) (by decide)

theorem ugUpgradePackage_strangeDevice :
    ¬ ((ugUpgradePackage quietConfig quietEnv).outcome strangeDevice).1 ≠
      .error (.fault .bounds) :=
  fun safe => safe rfl

end

end IteSdk.Upgrade
