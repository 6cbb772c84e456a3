import IteSdk.TsDemuxer.PsiTables

/-!
# What the table decoders read

Every decoder ends.  A PMT decoder stays inside a section exactly where the
descriptors that the lengths announce are there; an EIT decoder where no event begins
less than eight bytes in front of the end of the payload; a NIT decoder where the
first two bytes of the payload are there.
-/

namespace IteSdk.TsDemuxer

variable {α ι : Type} {data : List UInt8} {full : Prop}

/-! ## Runs that read stored bytes -/

/-- A run has a result where something holds of the data; where it does not, and there
is memory, a byte outside is read; it ends in any case. -/
structure Settles (full inside : Prop) (run : Except TableStop α) : Prop where
  ok : inside → ∃ result, run = .ok result
  outside : full → ¬inside → run = .error .outside
  ends : run ≠ .error .fuel

/-- The same for a run that says whether the next section is decoded. -/
structure SettlesOn (full : Prop) (inside : Bool → Prop)
    (run : Except TableStop (α × Bool)) : Prop where
  ok :
    ∀ goOn, inside goOn → ∃ result, run = .ok result ∧
      (result.2 = true → goOn = true) ∧ (full → result.2 = goOn)
  outside : full → (∀ goOn, ¬inside goOn) → run = .error .outside
  ends : run ≠ .error .fuel

theorem Settles.pure (full : Prop) (result : α) : Settles full True (.ok result) :=
  ⟨fun _ => ⟨result, rfl⟩, fun _ never => absurd trivial never, by nofun⟩

theorem Settles.all_iff {inside : Prop} (info : ι)
    {run : (Nat → TableMemory) → ι → Except TableStop α}
    (settles : ∀ memory info, Settles (∀ k place, memory k place = true) inside (run memory info)) :
    (∀ memory info, ∃ result, run memory info = .ok result) ↔ inside := by
  refine ⟨fun all => ?_, fun here memory info => (settles memory info).ok here⟩
  by_contra never
  obtain ⟨result, ok⟩ := all (fun _ _ => true) info
  rw [(settles _ info).outside (fun _ _ => rfl) never] at ok
  cases ok

variable {run : Except TableStop α}

theorem Settles.congr {inside other : Prop}
    (settles : Settles full inside run) (same : other ↔ inside) :
    Settles full other run where
  ok := fun here => settles.ok (same.mp here)
  outside := fun memory never => settles.outside memory fun here => never (same.mpr here)
  ends := settles.ends

theorem SettlesOn.congr {inside other : Bool → Prop}
    {run : Except TableStop (α × Bool)} (settles : SettlesOn full inside run)
    (same : ∀ goOn, other goOn ↔ inside goOn) : SettlesOn full other run where
  ok := fun goOn here => settles.ok goOn ((same goOn).mp here)
  outside := fun memory never =>
    settles.outside memory fun goOn here => never goOn ((same goOn).mpr here)
  ends := settles.ends

def bytesAt (data : List UInt8) (i count : Nat) : List UInt8 := (data.drop i).take count

theorem storedBytes_settles (full : Prop) (data : List UInt8) (i count : Nat) :
    Settles full (i + count ≤ data.length) (storedBytes data i count) := by
  rw [storedBytes]
  by_cases inside : i + count ≤ data.length
  · rw [if_pos inside]
    exact ⟨fun _ => ⟨_, rfl⟩, fun _ never => absurd inside never, by nofun⟩
  · rw [if_neg inside]
    exact ⟨fun here => absurd here inside, fun _ _ => rfl, by nofun⟩

theorem Settles.bind {β : Type} {first second : Prop} {next : α → Except TableStop β}
    (settles : Settles full first run)
    (later : ∀ result, run = .ok result → Settles full second (next result)) :
    Settles full (first ∧ second) (run >>= next) := by
  cases runs : run with
  | error stop =>
    refine ⟨fun here => ?_, fun memory never => ?_, fun fuel => ?_⟩
    · obtain ⟨result, ok⟩ := settles.ok here.1
      rw [runs] at ok
      cases ok
    · have outside : ¬first := fun here => by
        obtain ⟨result, ok⟩ := settles.ok here
        rw [runs] at ok
        cases ok
      rw [← runs, settles.outside memory outside]
      rfl
    · have same : stop = .fuel := Except.error.inj fuel
      exact settles.ends (runs.trans (congrArg Except.error same))
  | ok result =>
    have after := later result runs
    refine ⟨fun here => after.ok here.2, fun memory never => ?_, after.ends⟩
    by_cases here : first
    · exact after.outside memory fun there => never ⟨here, there⟩
    · rw [runs] at settles
      cases settles.outside memory here

theorem SettlesOn.bind {first : Prop} {second : Bool → Prop}
    {next : α → Except TableStop (ι × Bool)} (settles : Settles full first run)
    (later : ∀ result, run = .ok result → SettlesOn full second (next result)) :
    SettlesOn full (fun goOn => first ∧ second goOn) (run >>= next) := by
  cases runs : run with
  | error stop =>
    refine ⟨fun goOn here => ?_, fun memory never => ?_, fun fuel => ?_⟩
    · obtain ⟨result, ok⟩ := settles.ok here.1
      rw [runs] at ok
      cases ok
    · have outside : ¬first := fun here => by
        obtain ⟨result, ok⟩ := settles.ok here
        rw [runs] at ok
        cases ok
      rw [← runs, settles.outside memory outside]
      rfl
    · have same : stop = .fuel := Except.error.inj fuel
      exact settles.ends (runs.trans (congrArg Except.error same))
  | ok result =>
    have after := later result runs
    refine ⟨fun goOn here => after.ok goOn here.2, fun memory never => ?_, after.ends⟩
    by_cases here : first
    · exact after.outside memory fun goOn there => never goOn ⟨here, there⟩
    · rw [runs] at settles
      cases settles.outside memory here

theorem storedBytes_eq {i count : Nat} {bytes : List UInt8}
    (read : storedBytes data i count = .ok bytes) : bytes = bytesAt data i count := by
  rw [storedBytes] at read
  split at read
  · exact (Except.ok.inj read).symm
  · cases read

/-- The descriptors of a loop of a PMT section: each of them has its header in the
section, and its content where that is taken. -/
inductive DescriptorsInside (data : List UInt8) : Int → Nat → Prop
  | ended {loopLength : Int} {i : Nat} : loopLength ≤ 0 → DescriptorsInside data loopLength i
  | beyond {loopLength : Int} {i : Nat} :
      i + 2 ≤ data.length →
      loopLength < 2 + headerLength (bytesAt data i 2) →
      DescriptorsInside data loopLength i
  | taken {loopLength : Int} {i : Nat} :
      i + 2 ≤ data.length →
      (headerTag (bytesAt data i 2) < invalidDescriptor →
        headerLength (bytesAt data i 2) < invalidDescriptor →
        i + 2 + headerLength (bytesAt data i 2) ≤ data.length) →
      DescriptorsInside data (loopLength - (2 + headerLength (bytesAt data i 2)))
        (i + 2 + headerLength (bytesAt data i 2)) →
      DescriptorsInside data loopLength i

theorem pmtAddDescriptor_settles (memory : Bool) (data : List UInt8) (tag length i : Nat) :
    Settles (memory = true)
      (tag < invalidDescriptor → length < invalidDescriptor → i + length ≤ data.length)
      (pmtAddDescriptor memory data tag length i) := by
  rw [pmtAddDescriptor, createDescriptor]
  split
  · rename_i invalid
    refine (Settles.pure _ _).congr (iff_true_intro fun validTag validLength => ?_)
    omega
  · rename_i valid
    have taken : (tag < invalidDescriptor → length < invalidDescriptor →
        i + length ≤ data.length) ↔ i + length ≤ data.length ∧ True := by
      rw [and_true]
      exact ⟨fun here => here (by omega) (by omega), fun here _ _ => here⟩
    split
    · rename_i present
      refine Settles.congr ?_ taken
      exact (storedBytes_settles _ data i length).bind fun _ _ => .pure _ _
    · rename_i absent
      exact ⟨fun _ => ⟨[], rfl⟩, fun present => absurd present absent, by nofun⟩

variable {memory : TableMemory}

theorem pmtDescriptors_settles {fuel i : Nat} {loopLength : Int} {descriptors : List PsiDescriptor}
    (enough : loopLength.toNat < fuel) :
    Settles (∀ place, memory place = true) (DescriptorsInside data loopLength i)
      (pmtDescriptors memory data fuel loopLength i descriptors) := by
  induction fuel generalizing loopLength i descriptors with
  | zero =>
    exact absurd enough (Nat.not_lt_zero _)
  | succ fuel ih =>
    rw [pmtDescriptors]
    split
    · rename_i more
      by_cases beyond : loopLength < 2 + headerLength (bytesAt data i 2)
      · have same : DescriptorsInside data loopLength i ↔ i + 2 ≤ data.length ∧ True := by
          rw [and_true]
          refine ⟨fun here => ?_, fun here => .beyond here beyond⟩
          cases here with
          | ended none_ => omega
          | beyond header _ | taken header _ _ => exact header
        refine Settles.congr ?_ same
        refine (storedBytes_settles _ data i 2).bind fun header read => ?_
        rw [storedBytes_eq read, if_neg (by omega)]
        have ended : DescriptorsInside data
            (loopLength - (2 + headerLength (bytesAt data i 2))) i :=
          .ended (by omega)
        have rest : Settles (∀ place, memory place = true)
            (DescriptorsInside data (loopLength - (2 + headerLength (bytesAt data i 2))) i)
            (pmtDescriptors memory data fuel
              (loopLength - (2 + headerLength (bytesAt data i 2))) i
              descriptors) :=
          ih (by omega)
        exact rest.congr (iff_of_true trivial ended)
      · have same : DescriptorsInside data loopLength i ↔
            i + 2 ≤ data.length ∧
              ((headerTag (bytesAt data i 2) < invalidDescriptor →
                headerLength (bytesAt data i 2) < invalidDescriptor →
                i + 2 + headerLength (bytesAt data i 2) ≤ data.length) ∧
              DescriptorsInside data (loopLength - (2 + headerLength (bytesAt data i 2)))
                (i + 2 + headerLength (bytesAt data i 2))) := by
          refine ⟨fun here => ?_, fun here => .taken here.1 here.2.1 here.2.2⟩
          cases here with
          | ended none_ | beyond _ short => omega
          | taken header content later => exact ⟨header, content, later⟩
        refine Settles.congr ?_ same
        refine (storedBytes_settles _ data i 2).bind fun header read => ?_
        rw [storedBytes_eq read, if_pos (by omega)]
        have adds := pmtAddDescriptor_settles (memory i) data
          (headerTag (bytesAt data i 2)) (headerLength (bytesAt data i 2))
          (i + 2)
        have addsHere : Settles (∀ place, memory place = true) _ _ :=
          ⟨adds.ok, fun present => adds.outside (present i), adds.ends⟩
        exact addsHere.bind fun added _ => ih (by omega)
    · rename_i none_
      exact (Settles.pure _ _).congr (iff_of_true (.ended (by omega)) trivial)

/-- The entries of a PMT section, up to its end or to one with an invalid PID; the
second is where the decoder goes on with the next section. -/
inductive EsInside (data : List UInt8) : Int → Nat → Bool → Prop
  | ended {restSectionSize : Int} {i : Nat} :
      restSectionSize ≤ 0 → EsInside data restSectionSize i true
  | invalid {restSectionSize : Int} {i : Nat} :
      0 < restSectionSize →
      i + 5 ≤ data.length →
      invalidElementaryPid ≤ pid13 (bytesAt data i 5) 1 →
      EsInside data restSectionSize i false
  | entry {restSectionSize : Int} {i : Nat} {goOn : Bool} :
      0 < restSectionSize →
      i + 5 ≤ data.length →
      pid13 (bytesAt data i 5) 1 < invalidElementaryPid →
      DescriptorsInside data (length12 (bytesAt data i 5) 3) (i + 5) →
      EsInside data (restSectionSize - (5 + length12 (bytesAt data i 5) 3))
        (i + 5 + length12 (bytesAt data i 5) 3) goOn →
      EsInside data restSectionSize i goOn

theorem SettlesOn.stopped (full : Prop) (result : ι) :
    SettlesOn full (fun goOn => goOn = false) (.ok (result, false)) :=
  ⟨fun _ here => ⟨_, rfl, by nofun, fun _ => here.symm⟩,
    fun _ never => absurd rfl (never false), by nofun⟩

theorem SettlesOn.ended (full : Prop) (result : ι) :
    SettlesOn full (fun goOn => goOn = true) (.ok (result, true)) :=
  ⟨fun _ here => ⟨_, rfl, fun _ => here, fun _ => here.symm⟩,
    fun _ never => absurd rfl (never true), by nofun⟩

theorem SettlesOn.early {inside : Bool → Prop} {result : ι}
    (absent : ¬full) : SettlesOn full inside (.ok (result, false)) :=
  ⟨fun _ _ => ⟨_, rfl, by nofun, fun present => absurd present absent⟩,
    fun present => absurd present absent, by nofun⟩

theorem pmtEsLoop_settles {fuel i : Nat} {restSectionSize : Int} {info : PmtInfo}
    (enough : restSectionSize.toNat < fuel) :
    SettlesOn (∀ place, memory place = true) (EsInside data restSectionSize i)
      (pmtEsLoop memory data fuel restSectionSize i info) := by
  induction fuel generalizing restSectionSize i info with
  | zero =>
    exact absurd enough (Nat.not_lt_zero _)
  | succ fuel ih =>
    rw [pmtEsLoop]
    split
    · rename_i more
      by_cases invalid : invalidElementaryPid ≤ pid13 (bytesAt data i 5) 1
      · have same (goOn : Bool) : EsInside data restSectionSize i goOn ↔
            i + 5 ≤ data.length ∧ goOn = false := by
          refine ⟨fun here => ?_, ?_⟩
          · cases here with
            | ended none_ | entry _ _ valid _ _ => omega
            | invalid _ header _ => exact ⟨header, rfl⟩
          · rintro ⟨header, rfl⟩
            exact .invalid more header invalid
        refine SettlesOn.congr ?_ same
        refine SettlesOn.bind (storedBytes_settles _ data i 5) fun header read => ?_
        rw [storedBytes_eq read, if_pos (Or.inl invalid)]
        exact .stopped _ info
      · have valid := Nat.lt_of_not_le invalid
        have same (goOn : Bool) : EsInside data restSectionSize i goOn ↔
            i + 5 ≤ data.length ∧
              (DescriptorsInside data (length12 (bytesAt data i 5) 3) (i + 5) ∧
              EsInside data (restSectionSize - (5 + length12 (bytesAt data i 5) 3))
                (i + 5 + length12 (bytesAt data i 5) 3) goOn) := by
          refine ⟨fun here => ?_, fun here =>
            .entry more here.1 valid here.2.1 here.2.2⟩
          cases here with
          | ended none_ | invalid _ _ large => omega
          | entry _ header _ descriptors later =>
            exact ⟨header, descriptors, later⟩
        refine SettlesOn.congr ?_ same
        refine SettlesOn.bind (storedBytes_settles _ data i 5) fun header read => ?_
        rw [storedBytes_eq read]
        by_cases present : memory i = true
        · have goes : ¬(invalidElementaryPid ≤ pid13 (bytesAt data i 5) 1 ∨
              memory i = false) := by
            rw [present]
            exact fun stops => stops.elim invalid Bool.noConfusion
          rw [if_neg goes]
          exact SettlesOn.bind (pmtDescriptors_settles (by omega))
            fun descriptors _ => ih (by omega)
        · rw [if_pos (Or.inr (Bool.not_eq_true _ ▸ present))]
          exact .early fun memory_ => present (memory_ i)
    · rename_i none_
      refine SettlesOn.congr (.ended _ info) fun goOn => ⟨fun here => ?_, ?_⟩
      · cases here with
        | ended _ => rfl
        | invalid more _ _ | entry more _ _ _ _ => exact absurd more none_
      · rintro rfl
        exact .ended (by omega)

def descriptorsEnd (data : List UInt8) (pEnd i : Nat) : Nat :=
  if i + 2 ≤ pEnd then
    descriptorsEnd data pEnd (i + 2 + headerLength (bytesAt data i 2))
  else
    i
termination_by pEnd - i

theorem le_descriptorsEnd (data : List UInt8) (pEnd i : Nat) : i ≤ descriptorsEnd data pEnd i := by
  fun_induction descriptorsEnd data pEnd i with
  | case1 i more ih => omega
  | case2 i none_ => exact Nat.le_refl i

theorem entryDescriptors_ok {pEnd fuel i : Nat}
    {descriptors : List PsiDescriptor} (inside : pEnd ≤ data.length) (enough : pEnd - i < fuel) :
    ∃ entry, entryDescriptors memory data pEnd fuel i descriptors =
      .ok (entry, descriptorsEnd data pEnd i) := by
  induction fuel generalizing i descriptors with
  | zero =>
    exact absurd enough (Nat.not_lt_zero _)
  | succ fuel ih =>
    rw [entryDescriptors, descriptorsEnd]
    split
    · rename_i more
      have reads : storedBytes data i 2 = .ok (bytesAt data i 2) := if_pos (by omega)
      rw [reads]
      change ∃ entry, (if i + 2 + headerLength (bytesAt data i 2) ≤ pEnd then _
        else _) = _
      split
      · rename_i fits
        obtain ⟨added, adds⟩ : ∃ added, createDescriptor (memory i) data
            (headerTag (bytesAt data i 2)) (headerLength (bytesAt data i 2))
            (i + 2) = .ok added := by
          rw [createDescriptor]
          split
          · rw [storedBytes, if_pos (by omega)]
            exact ⟨_, rfl⟩
          · exact ⟨[], rfl⟩
        rw [adds]
        exact ih (by omega)
      · exact ih (by omega)
    · exact ⟨descriptors, rfl⟩

/-- The entries of an EIT or NIT section: each one that begins has its header in the
section. -/
inductive EntriesInside (size : Nat) (data : List UInt8) (payloadEnd : Int) :
    Nat → Prop
  | ended {i : Nat} : payloadEnd < i + 4 → EntriesInside size data payloadEnd i
  | cut {i : Nat} :
      i + size ≤ data.length →
      payloadEnd < entryEnd size i (bytesAt data i size) →
      EntriesInside size data payloadEnd i
  | entry {i : Nat} :
      i + size ≤ data.length →
      EntriesInside size data payloadEnd
        (descriptorsEnd data (entryEnd size i (bytesAt data i size)) (i + size)) →
      EntriesInside size data payloadEnd i

theorem entryLoop_settles {size : Nat} {addEntry : ι → List UInt8 → List PsiDescriptor → ι}
    {memory : TableMemory} {payloadEnd : Int} {fuel i : Nat} {info : ι}
    (positive : 0 < size) (stored : payloadEnd ≤ data.length)
    (enough : (payloadEnd - i).toNat < fuel) :
    SettlesOn (∀ place, memory place = true)
      (fun goOn => goOn = true ∧ EntriesInside size data payloadEnd i)
      (entryLoop size addEntry memory data payloadEnd fuel i info) := by
  induction fuel generalizing i info with
  | zero =>
    exact absurd enough (Nat.not_lt_zero _)
  | succ fuel ih =>
    rw [entryLoop]
    split
    · rename_i more
      by_cases cut : payloadEnd < entryEnd size i (bytesAt data i size)
      · have same (goOn : Bool) :
            goOn = true ∧ EntriesInside size data payloadEnd i ↔
              i + size ≤ data.length ∧ goOn = true := by
          refine ⟨fun here => ⟨?_, here.1⟩, fun here => ⟨here.2, .cut here.1 cut⟩⟩
          cases here.2 with
          | ended none_ => omega
          | cut header _ | entry header _ => exact header
        refine SettlesOn.congr ?_ same
        refine SettlesOn.bind (storedBytes_settles _ data i size) fun header read => ?_
        rw [storedBytes_eq read]
        by_cases present : memory i = true
        · rw [if_neg (ne_false_of_eq_true present), if_pos cut]
          exact .ended _ _
        · rw [if_pos (Bool.not_eq_true _ ▸ present)]
          exact .early fun memory_ => present (memory_ i)
      · have same (goOn : Bool) :
            goOn = true ∧ EntriesInside size data payloadEnd i ↔
              i + size ≤ data.length ∧ (goOn = true ∧
                EntriesInside size data payloadEnd
                  (descriptorsEnd data (entryEnd size i (bytesAt data i size)) (i + size))) := by
          refine ⟨fun here => ?_, fun here => ⟨here.2.1, .entry here.1 here.2.2⟩⟩
          cases here.2 with
          | ended none_ => omega
          | cut _ short => exact absurd short cut
          | entry header later => exact ⟨header, here.1, later⟩
        refine SettlesOn.congr ?_ same
        refine SettlesOn.bind (storedBytes_settles _ data i size) fun header read => ?_
        rw [storedBytes_eq read]
        by_cases present : memory i = true
        · rw [if_neg (ne_false_of_eq_true present), if_neg cut]
          obtain ⟨descriptors, decodes⟩ :
              ∃ descriptors, entryDescriptors memory data (entryEnd size i (bytesAt data i size))
                (entryEnd size i (bytesAt data i size) + 1) (i + size) [] =
                  .ok (descriptors, descriptorsEnd data
                    (entryEnd size i (bytesAt data i size)) (i + size)) :=
            entryDescriptors_ok (by omega) (by omega)
          have further := le_descriptorsEnd data (entryEnd size i (bytesAt data i size)) (i + size)
          rw [decodes]
          exact ih (by omega)
        · rw [if_pos (Bool.not_eq_true _ ▸ present)]
          exact .early fun memory_ => present (memory_ i)
    · rename_i none_
      refine SettlesOn.congr (.ended _ info) fun goOn => ⟨fun here => here.1, ?_⟩
      exact fun here => ⟨here, .ended (by omega)⟩

/-- The sections that are decoded: all up to one behind which the decoder stops. -/
inductive AllInside (inside : PsiSection → Bool → Prop) : List PsiSection → Prop
  | nil : AllInside inside []
  | stops {section_ : PsiSection} {rest : List PsiSection} :
      inside section_ false → AllInside inside (section_ :: rest)
  | next {section_ : PsiSection} {rest : List PsiSection} :
      inside section_ true → AllInside inside rest →
      AllInside inside (section_ :: rest)

theorem SettlesOn.weaken {less : Prop} {inside : Bool → Prop}
    {run : Except TableStop (α × Bool)} (settles : SettlesOn less inside run)
    (memory : full → less) : SettlesOn full inside run where
  ok := fun goOn here => by
    obtain ⟨result, ok, stops, goes⟩ := settles.ok goOn here
    exact ⟨result, ok, stops, fun present => goes (memory present)⟩
  outside := fun present never => settles.outside (memory present) never
  ends := settles.ends

theorem decodeSections_settles {inside : PsiSection → Bool → Prop}
    {decode : Nat → PsiSection → ι → Except TableStop (ι × Bool)}
    {sections : List PsiSection} {k : Nat} {info : ι}
    (each : ∀ k, ∀ section_ ∈ sections, ∀ info,
      SettlesOn full (inside section_) (decode k section_ info)) :
    Settles full (AllInside inside sections) (decodeSections decode k sections info) := by
  induction sections generalizing k info with
  | nil =>
    exact (Settles.pure _ info).congr (iff_of_true .nil trivial)
  | cons section_ rest ih =>
    have here := each k section_ List.mem_cons_self info
    have later (k : Nat) (info : ι) :
        Settles full (AllInside inside rest) (decodeSections decode k rest info) :=
      ih fun k other present => each k other (List.mem_cons_of_mem _ present)
    rw [decodeSections]
    cases runs : decode k section_ info with
    | error stop =>
      rw [runs] at here
      have never (goOn : Bool) : ¬inside section_ goOn := fun inside_ => by
        obtain ⟨result, ok, _⟩ := here.ok goOn inside_
        cases ok
      refine ⟨fun all => ?_, fun memory _ => ?_, fun fuel => ?_⟩
      · cases all with
        | stops inside_ => exact absurd inside_ (never false)
        | next inside_ _ => exact absurd inside_ (never true)
      · rw [Except.error.inj (here.outside memory never)]
        rfl
      · have same : stop = .fuel := Except.error.inj fuel
        exact here.ends (congrArg Except.error same)
    | ok result =>
      rw [runs] at here
      change Settles full _ (if result.2 = true then _ else _)
      by_cases goesOn : result.2 = true
      · rw [if_pos goesOn]
        refine ⟨fun all => ?_, fun memory never => ?_, (later _ _).ends⟩
        · cases all with
          | stops inside_ =>
            obtain ⟨_, ok, stops, _⟩ := here.ok false inside_
            obtain rfl := Except.ok.inj ok
            exact absurd (stops goesOn) Bool.false_ne_true
          | next _ all => exact (later _ _).ok all
        · by_cases inside_ : inside section_ true
          · exact (later _ _).outside memory fun all =>
              never (.next inside_ all)
          · have nowhere (goOn : Bool) : ¬inside section_ goOn := by
              cases goOn with
              | false => exact fun stops => never (.stops stops)
              | true => exact inside_
            cases here.outside memory nowhere
      · rw [if_neg goesOn]
        refine ⟨fun _ => ⟨_, rfl⟩, fun memory never => ?_, by nofun⟩
        by_cases inside_ : inside section_ true
        · obtain ⟨_, ok, _, goes⟩ := here.ok true inside_
          obtain rfl := Except.ok.inj ok
          exact absurd (goes memory) goesOn
        · have nowhere (goOn : Bool) : ¬inside section_ goOn := by
            cases goOn with
            | false => exact fun stops => never (.stops stops)
            | true => exact inside_
          cases here.outside memory nowhere

theorem allInside_iff {P : PsiSection → Prop} {sections : List PsiSection} :
    AllInside (fun section_ goOn => goOn = true ∧ P section_) sections ↔
      ∀ section_ ∈ sections, P section_ := by
  induction sections with
  | nil =>
    exact iff_of_true .nil (by nofun)
  | cons section_ rest ih =>
    rw [List.forall_mem_cons, ← ih]
    constructor
    · intro all
      cases all with
      | stops here => exact absurd here.1 Bool.false_ne_true
      | next here later => exact ⟨here.2, later⟩
    · exact fun both => .next ⟨rfl, both.1⟩ both.2

/-! ## What has passed the checksum -/

/-- A section with a checksum that `_PSI_DecodeSection` has made of all the bytes that
were gathered. -/
def Checked (section_ : PsiSection) : Prop :=
  ∃ gathered : PsiSection,
    gathered.payloadEnd = gathered.data.length ∧
      gathered.decode = some section_ ∧ section_.sectionSyntaxIndicator = 1

theorem Checked.addresses {section_ : PsiSection} (checked : Checked section_) :
    section_.payloadStart = 8 ∧ section_.payloadEnd + 4 = section_.data.length := by
  obtain ⟨gathered, whole, decodes, generic⟩ := checked
  rw [PsiSection.decode] at decodes
  split at decodes
  · split at decodes
    · obtain rfl := Option.some.inj decodes
      refine ⟨rfl, ?_⟩
      change gathered.payloadEnd - 4 + 4 = (gathered.data.length : Int)
      omega
    · cases decodes
  · rename_i private_
    obtain rfl := Option.some.inj decodes
    exact absurd (generic.trans_ne Nat.one_ne_zero) private_

/-- A PMT section with its loops in the stored bytes; the second is whether the next
section is decoded. -/
def PmtInside (section_ : PsiSection) (goOn : Bool) : Prop :=
  12 ≤ section_.data.length ∧
    (DescriptorsInside section_.data (length12 (bytesAt section_.data 10 2) 0) 12 ∧
    EsInside section_.data (section_.payloadEnd - (12 + length12 (bytesAt section_.data 10 2) 0))
      (12 + length12 (bytesAt section_.data 10 2) 0) goOn)

theorem pmtSection_settles (memory : Nat → TableMemory) (k : Nat)
    (section_ : PsiSection) (info : PmtInfo) :
    SettlesOn (∀ place, memory k place = true) (PmtInside section_)
      (pmtSection memory k section_ info) := by
  rw [pmtSection]
  refine SettlesOn.bind (storedBytes_settles _ section_.data 10 2) fun lengths read => ?_
  rw [storedBytes_eq read]
  exact SettlesOn.bind (pmtDescriptors_settles (by omega))
    fun descriptors _ => pmtEsLoop_settles (by omega)

variable {section_ : PsiSection}

theorem eitSection_settles (memory : Nat → TableMemory) (k : Nat)
    (checked : Checked section_) (info : EitInfo) :
    SettlesOn (∀ place, memory k place = true)
      (fun goOn => goOn = true ∧ EntriesInside 12 section_.data section_.payloadEnd 14)
      (eitSection memory k section_ info) := by
  obtain ⟨start, stored⟩ := checked.addresses
  rw [eitSection, start]
  exact entryLoop_settles (by decide) (by omega) (by omega)

theorem entriesInside_six {payloadEnd : Int} {i : Nat}
    (stored : payloadEnd + 4 = data.length) : EntriesInside 6 data payloadEnd i := by
  by_cases more : (i : Int) + 4 ≤ payloadEnd
  · have header : i + 6 ≤ data.length := by omega
    have further := le_descriptorsEnd data (entryEnd 6 i (bytesAt data i 6)) (i + 6)
    exact .entry header (entriesInside_six stored)
  · exact .ended (by omega)
termination_by (payloadEnd - i).toNat
decreasing_by omega

theorem nitSection_settles (memory : Nat → TableMemory) (k : Nat)
    (checked : Checked section_) (info : NitInfo) :
    SettlesOn (∀ place, memory k place = true)
      (fun goOn => goOn = true ∧ 10 ≤ section_.data.length)
      (nitSection memory k section_ info) := by
  obtain ⟨start, stored⟩ := checked.addresses
  have same (goOn : Bool) : goOn = true ∧ 10 ≤ section_.data.length ↔
      8 + 2 ≤ section_.data.length ∧ (goOn = true ∧
        EntriesInside 6 section_.data section_.payloadEnd
          (8 + (4 + length12 (bytesAt section_.data 8 2) 0))) :=
    ⟨fun here => ⟨here.2, here.1, entriesInside_six stored⟩, fun here => ⟨here.2.1, here.1⟩⟩
  refine SettlesOn.congr ?_ same
  rw [nitSection, start]
  refine SettlesOn.bind (storedBytes_settles _ section_.data 8 2) fun lengths read => ?_
  rw [storedBytes_eq read]
  exact entryLoop_settles (by decide) (by omega) (by omega)

/-- Every decoder ends.  It reads nothing outside the sections, whatever memory there
is, exactly where they are as described. -/
theorem tables_inside {sections : List PsiSection}
    (checked : ∀ section_ ∈ sections, Checked section_) :
    ((∀ memory info, pmtDecodeSection memory sections info ≠ .error .fuel) ∧
      ((∀ memory info, ∃ result, pmtDecodeSection memory sections info = .ok result) ↔
        AllInside PmtInside sections)) ∧
    ((∀ memory info, eitDecodeSection memory sections info ≠ .error .fuel) ∧
      ((∀ memory info, ∃ result, eitDecodeSection memory sections info = .ok result) ↔
        ∀ section_ ∈ sections, EntriesInside 12 section_.data section_.payloadEnd 14)) ∧
    ((∀ memory info, nitDecodeSection memory sections info ≠ .error .fuel) ∧
      ((∀ memory info, ∃ result, nitDecodeSection memory sections info = .ok result) ↔
        ∀ section_ ∈ sections, 10 ≤ section_.data.length)) := by
  have pmt (memory : Nat → TableMemory) (info : PmtInfo) :
      Settles (∀ k place, memory k place = true) (AllInside PmtInside sections)
        (pmtDecodeSection memory sections info) :=
    decodeSections_settles fun k section_ _ info =>
      (pmtSection_settles memory k section_ info).weaken fun present => present k
  have eit (memory : Nat → TableMemory) (info : EitInfo) :
      Settles (∀ k place, memory k place = true) _ (eitDecodeSection memory sections info) :=
    (decodeSections_settles fun k section_ present info =>
      (eitSection_settles memory k (checked section_ present) info).weaken
        fun present => present k).congr allInside_iff.symm
  have nit (memory : Nat → TableMemory) (info : NitInfo) :
      Settles (∀ k place, memory k place = true) _ (nitDecodeSection memory sections info) :=
    (decodeSections_settles fun k section_ present info =>
      (nitSection_settles memory k (checked section_ present) info).weaken
        fun present => present k).congr allInside_iff.symm
  exact
    ⟨⟨fun memory info => (pmt memory info).ends, Settles.all_iff ⟨[], 0, []⟩ pmt⟩,
      ⟨fun memory info => (eit memory info).ends, Settles.all_iff ⟨0, []⟩ eit⟩,
      ⟨fun memory info => (nit memory info).ends, Settles.all_iff ⟨[]⟩ nit⟩⟩

/-- A PMT section with a program and an elementary stream that has a descriptor. -/
def wholePmtBytes : List UInt8 :=
  [0x02, 0xB0, 0x15, 0x00, 0x01, 0xC1, 0x00, 0x00, 0xE1, 0x00, 0xF0, 0x00, 0x02,
    0xE1, 0x00, 0xF0, 0x03, 0x52, 0x01, 0x05, 0x83, 0x4A, 0xFD, 0x0F]

theorem sectionOf_checked {bytes : List UInt8} (decodes : sectionOf bytes = some section_)
    (generic : section_.sectionSyntaxIndicator = 1) : Checked section_ :=
  ⟨_, Int.zero_add _, decodes, generic⟩

theorem sectionOf_get {P : PsiSection → Bool} {bytes : List UInt8}
    (holds : (sectionOf bytes).any P = true) :
    ∃ section_, sectionOf bytes = some section_ ∧ P section_ = true := by
  cases decodes : sectionOf bytes with
  | none =>
    rw [decodes] at holds
    cases holds
  | some section_ =>
    rw [decodes] at holds
    exact ⟨section_, rfl, holds⟩

theorem tables_inside_whole :
    ∃ section_, sectionOf wholePmtBytes = some section_ ∧
      ∀ memory info, ∃ result, pmtDecodeSection memory [section_] info = .ok result := by
  have holds : (sectionOf wholePmtBytes).any (fun section_ =>
      section_.sectionSyntaxIndicator = 1 ∧ section_.data = wholePmtBytes ∧
        section_.payloadEnd = 20) = true := by
    decide +kernel
  obtain ⟨section_, decodes, fields⟩ := sectionOf_get holds
  obtain ⟨generic, stored, payloadEnd⟩ := of_decide_eq_true fields
  have checked : ∀ other ∈ [section_], Checked other := by
    intro other present
    rw [List.mem_singleton.mp present]
    exact sectionOf_checked decodes generic
  have descriptor : DescriptorsInside wholePmtBytes 3 17 :=
    .taken (by decide) (by decide) (.ended (by decide))
  have inside : PmtInside section_ true := by
    rw [PmtInside, stored, payloadEnd]
    exact ⟨by decide, .ended (by decide),
      .entry (by decide) (by decide) (by decide) descriptor (.ended (by decide))⟩
  exact ⟨section_, decodes, (tables_inside checked).1.2.mpr (.next inside .nil)⟩

/-- `program_info_length` is 0xFFF in a section of 16 bytes. -/
def longPmtBytes : List UInt8 :=
  [0x02, 0xB0, 0x0D, 0x00, 0x01, 0xC1, 0x00, 0x00, 0xE1, 0x00, 0xFF, 0xFF, 0x69, 0x85, 0x62, 0xAB]

def shortEitBytes : List UInt8 :=
  [0x4E, 0xB0, 0x13, 0x00, 0x01, 0xC1, 0x00, 0x00, 0x00, 0x01, 0x00, 0x01, 0x00,
    0x4E, 0x00, 0x00, 0x00, 0x00, 0xC0, 0xE8, 0x2F, 0x2D]

/-- The section ends behind the first byte of `network_descriptors_length`. -/
def shortNitBytes : List UInt8 := [0x40, 0xB0, 0x06, 0x00, 0x01, 0xFA, 0xD3, 0x18, 0x28]

/-- Three sections with a checksum, each of them read outside its bytes. -/
theorem tables_outside :
    (∃ section_, sectionOf longPmtBytes = some section_ ∧ Checked section_ ∧
      pmtDecodeSection (fun _ _ => true) [section_] ⟨[], 0, []⟩ = .error .outside) ∧
    (∃ section_, sectionOf shortEitBytes = some section_ ∧ Checked section_ ∧
      eitDecodeSection (fun _ _ => true) [section_] ⟨0, []⟩ = .error .outside) ∧
    (∃ section_, sectionOf shortNitBytes = some section_ ∧ Checked section_ ∧
      nitDecodeSection (fun _ _ => true) [section_] ⟨[]⟩ = .error .outside) := by
  have pmt : (sectionOf longPmtBytes).any (fun section_ =>
      section_.sectionSyntaxIndicator = 1 ∧
        pmtDecodeSection (fun _ _ => true) [section_] ⟨[], 0, []⟩ = .error .outside) = true := by
    decide +kernel
  have eit : (sectionOf shortEitBytes).any (fun section_ =>
      section_.sectionSyntaxIndicator = 1 ∧
        eitDecodeSection (fun _ _ => true) [section_] ⟨0, []⟩ = .error .outside) = true := by
    decide +kernel
  have nit : (sectionOf shortNitBytes).any (fun section_ =>
      section_.sectionSyntaxIndicator = 1 ∧
        nitDecodeSection (fun _ _ => true) [section_] ⟨[]⟩ = .error .outside) = true := by
    decide +kernel
  refine ⟨?_, ?_, ?_⟩
  · obtain ⟨section_, decodes, fields⟩ := sectionOf_get pmt
    obtain ⟨generic, stops⟩ := of_decide_eq_true fields
    exact ⟨section_, decodes, sectionOf_checked decodes generic, stops⟩
  · obtain ⟨section_, decodes, fields⟩ := sectionOf_get eit
    obtain ⟨generic, stops⟩ := of_decide_eq_true fields
    exact ⟨section_, decodes, sectionOf_checked decodes generic, stops⟩
  · obtain ⟨section_, decodes, fields⟩ := sectionOf_get nit
    obtain ⟨generic, stops⟩ := of_decide_eq_true fields
    exact ⟨section_, decodes, sectionOf_checked decodes generic, stops⟩

end IteSdk.TsDemuxer
