import IteSdk.Lib.Dictionary
import IteSdk.Lib.Threads
import IteSdk.Lib.Transition
import Mathlib.Data.List.Nodup

/-!
# The configuration and its ini file

What `ConfigSavePublic` puts into the dictionary of the ini file, and what the
dictionary writes to the file: the keys of each section behind its header, so
that a key whose section has no entry of its own is left out.
-/

namespace IteSdk.Ctrlboard

section

open Lib

/-- A key of a dictionary: `secname` or `secname:key`. -/
inductive IniName
  | header (secname : String)
  | entry (secname key : String)
  deriving DecidableEq

abbrev IniDictionary := List (IniName × Option String)

def iniparserSet (ini : IniDictionary) (name : IniName) (val : Option String) : IniDictionary :=
  put name val ini

def iniparserHeaders (ini : IniDictionary) : List String :=
  ini.filterMap fun pair =>
    match pair.1 with
    | .header secname => some secname
    | .entry _ _ => none

def iniparserKeys (ini : IniDictionary) (secname : String) : List (String × String) :=
  ini.filterMap fun pair =>
    match pair.1 with
    | .header _ => none
    | .entry other key =>
      if other = secname then some (key, pair.2.getD "") else none

/-- The keys that stand before every header, and the sections. -/
structure IniFile where
  plain : IniDictionary
  sections : List (String × List (String × String))
  deriving DecidableEq

def IniFile.empty : IniFile := ⟨[], []⟩

def iniparserDumpIni (ini : IniDictionary) : IniFile :=
  if iniparserHeaders ini = [] then
    ⟨ini, []⟩
  else
    ⟨[], (iniparserHeaders ini).map fun secname => (secname, iniparserKeys ini secname)⟩

def IniFile.value (file : IniFile) (secname key : String) : Option String :=
  (file.sections.lookup secname).bind fun keys => keys.lookup key

/-! ## The configuration -/

structure Config where
  dhcp : Int
  ipaddr : String
  netmask : String
  gw : String
  dns : String
  lang : Int
  brightness : Int
  screensaverTime : Int
  screensaverType : Int
  mainmenuType : Int
  keysound : String
  keylevel : Int
  audiolevel : Int
  userId : String
  userPassword : String
  ssid : String
  password : String
  secumode : String
  wifiMode : Int
  wifiOnOff : Int
  photoInterval : Int
  touchCalibration : Int
  deriving DecidableEq

structure ConfigEntry where
  secname : String
  key : String
  val : String
  deriving DecidableEq

def ConfigEntry.name (entry : ConfigEntry) : IniName := .entry entry.secname entry.key

/-- The calls of `iniparser_set` in `ConfigSavePublic`, in order; each reads one
field.  Numbers are printed with `%d`. -/
def Config.entries (config : Config) : List ConfigEntry :=
  [ ⟨"tcpip", "dhcp", if config.dhcp ≠ 0 then "y" else "n"⟩,
    ⟨"tcpip", "ipaddr", config.ipaddr⟩,
    ⟨"tcpip", "netmask", config.netmask⟩,
    ⟨"tcpip", "gw", config.gw⟩,
    ⟨"tcpip", "dns", config.dns⟩,
    ⟨"ctrlboard", "lang", toString config.lang⟩,
    ⟨"ctrlboard", "brightness", toString config.brightness⟩,
    ⟨"ctrlboard", "screensaver_time", toString config.screensaverTime⟩,
    ⟨"ctrlboard", "screensaver_type", toString config.screensaverType⟩,
    ⟨"ctrlboard", "mainmenu_type", toString config.mainmenuType⟩,
    ⟨"ctrlboard", "keysound", config.keysound⟩,
    ⟨"ctrlboard", "keylevel", toString config.keylevel⟩,
    ⟨"ctrlboard", "audiolevel", toString config.audiolevel⟩,
    ⟨"ctrlboard", "user_id", config.userId⟩,
    ⟨"ctrlboard", "user_password", config.userPassword⟩,
    ⟨"wifi", "ssid", config.ssid⟩,
    ⟨"wifi", "password", config.password⟩,
    ⟨"wifi", "secumode", config.secumode⟩,
    ⟨"wifi", "wifi_mode", toString config.wifiMode⟩,
    ⟨"wifi", "wifi_on_off", toString config.wifiOnOff⟩,
    ⟨"ctrlboard", "photo_interval", toString config.photoInterval⟩,
    ⟨"ctrlboard", "touch_calibration", toString config.touchCalibration⟩ ]

def configSections : List String := ["tcpip", "ctrlboard", "wifi"]

/-- The dictionary that `ConfigInit` makes when there is no ini file. -/
def configInitIni : IniDictionary :=
  [(.header "tcpip", none), (.header "ctrlboard", none)]

def HasSections (ini : IniDictionary) : Prop :=
  ∀ secname ∈ configSections, IniName.header secname ∈ ini.map Prod.fst

instance (ini : IniDictionary) : Decidable (HasSections ini) :=
  inferInstanceAs (Decidable (∀ _ ∈ _, _))

def CollectsAll (ini : IniDictionary) (entries : List ConfigEntry) : Prop :=
  ∀ entry ∈ entries, ini.lookup entry.name = some (some entry.val)

instance (ini : IniDictionary) (entries : List ConfigEntry) : Decidable (CollectsAll ini entries) :=
  inferInstanceAs (Decidable (∀ _ ∈ _, _))

/-- The file is what `ConfigSavePublic` should store for this configuration. -/
def IniFile.Stores (file : IniFile) (config : Config) : Prop :=
  ∀ entry ∈ config.entries, file.value entry.secname entry.key = some entry.val

instance (file : IniFile) (config : Config) : Decidable (file.Stores config) :=
  inferInstanceAs (Decidable (∀ _ ∈ _, _))

theorem Config.entries_nodup (config : Config) : (config.entries.map ConfigEntry.name).Nodup := by
  have names :
      config.entries.map ConfigEntry.name =
        (⟨0, "", "", "", "", 0, 0, 0, 0, 0, "", 0, 0, "", "", "", "", "", 0, 0,
          0, 0⟩ : Config).entries.map ConfigEntry.name := rfl
  rw [names]
  decide +kernel

variable {config : Config} {ini : IniDictionary}

theorem Config.secname_mem {entry : ConfigEntry} (member : entry ∈ config.entries) :
    entry.secname ∈ configSections := by
  have names :
      config.entries.map ConfigEntry.secname =
        (⟨0, "", "", "", "", 0, 0, 0, 0, 0, "", 0, 0, "", "", "", "", "", 0, 0,
          0, 0⟩ : Config).entries.map ConfigEntry.secname := rfl
  have all : ∀ secname ∈ config.entries.map ConfigEntry.secname, secname ∈ configSections := by
    rw [names]
    decide
  exact all _ (List.mem_map_of_mem member)

theorem CollectsAll.set {done : Nat} {entry : ConfigEntry}
    (collected : CollectsAll ini (config.entries.take done))
    (next : config.entries[done]? = some entry) :
    CollectsAll (iniparserSet ini entry.name (some entry.val))
      (config.entries.take (done + 1)) := by
  intro other member
  rw [List.take_add_one, next, Option.toList_some, List.mem_append, List.mem_singleton] at member
  rw [iniparserSet]
  by_cases same : other.name = entry.name
  · have nodup := config.entries_nodup
    have equal : other = entry := by
      rcases member with before | here
      · exact List.inj_on_of_nodup_map nodup (List.mem_of_mem_take before)
          (List.mem_of_getElem? next) same
      · exact here
    rw [equal]
    exact lookup_put_self
  · rw [lookup_put_ne same]
    rcases member with before | here
    · exact collected other before
    · exact absurd (congrArg ConfigEntry.name here) same

theorem HasSections.set (has : HasSections ini) (name : IniName) (val : Option String) :
    HasSections (iniparserSet ini name val) := by
  intro secname member
  exact mem_keys_put (has secname member)

theorem mem_iniparserHeaders {secname : String}
    (member : IniName.header secname ∈ ini.map Prod.fst) :
    secname ∈ iniparserHeaders ini := by
  obtain ⟨pair, inside, name⟩ := List.mem_map.mp member
  exact List.mem_filterMap.mpr ⟨pair, inside, by rw [name]⟩

theorem lookup_iniparserKeys {secname key val : String}
    (found : ini.lookup (.entry secname key) = some (some val)) :
    (iniparserKeys ini secname).lookup key = some val := by
  induction ini with
  | nil => cases found
  | cons first rest ih =>
    obtain ⟨name, value⟩ := first
    by_cases same : name = .entry secname key
    · subst same
      rw [List.lookup_cons_self] at found
      rw [iniparserKeys, List.filterMap_cons]
      dsimp only
      rw [if_pos rfl, Option.some.inj found]
      exact List.lookup_cons_self
    · rw [lookup_cons_ne (Ne.symm same)] at found
      have later := ih found
      rw [iniparserKeys, List.filterMap_cons]
      cases name with
      | header other => exact later
      | entry other otherKey =>
        dsimp only
        split
        · exact later
        · next kept shown =>
            split at shown
            · next sameSection =>
                subst sameSection
                cases shown
                have different : key ≠ otherKey := fun sameKey => same (by rw [sameKey])
                rw [lookup_cons_ne different]
                exact later
            · cases shown

theorem lookup_map_self {β : Type} {names : List String} {name : String}
    (f : String → β) (member : name ∈ names) :
    (names.map fun other => (other, f other)).lookup name = some (f name) := by
  induction names with
  | nil => cases member
  | cons first rest ih =>
    rw [List.map_cons]
    by_cases same : name = first
    · rw [same]
      exact List.lookup_cons_self
    · rw [lookup_cons_ne same]
      exact ih ((List.mem_cons.mp member).resolve_left same)

theorem CollectsAll.stores (has : HasSections ini) (collected : CollectsAll ini config.entries) :
    (iniparserDumpIni ini).Stores config := by
  intro entry member
  have header := mem_iniparserHeaders (has entry.secname (Config.secname_mem member))
  rw [iniparserDumpIni, if_neg (List.ne_nil_of_mem header), IniFile.value, lookup_map_self _ header]
  exact lookup_iniparserKeys (collected entry member)

end

/-!
# Runs of the configuration save

The callers of `ConfigSave` and the tasks that it starts, one step for each read
or write of `cfgSavingCount`, `cfgIsSaving`, a field of `theConfig` or the file.
What a task does between the file and the test of its loop (checksum, flush,
backup) touches none of them.
-/

section

open Lib

/-- Where a caller is: it has changed `theConfig`, has read `cfgSavingCount` to
increment it, is about to test `cfgIsSaving`, or to create a task. -/
inductive ConfigSavePc
  | idle
  | changed
  | counted (count : Bool)
  | testing
  | creating
  deriving DecidableEq

/-- Where a task is.  In `ConfigSavePublic` it has put `done` entries into the
dictionary, or has opened the file. -/
inductive ConfigSaveTaskPc
  | start
  | readCount
  | collect (savingCount : Bool) (done : Nat)
  | dump (savingCount : Bool)
  | test (savingCount : Bool)
  | clear
  | ended
  deriving DecidableEq

/-- `lastSave` is `theConfig` as of the last `ConfigSave`. -/
structure ConfigState where
  theConfig : Config
  cfgIni : IniDictionary
  cfgIsSaving : Bool
  cfgSavingCount : Bool
  file : IniFile
  callers : List ConfigSavePc
  tasks : List ConfigSaveTaskPc
  lastSave : Option Config
  deriving DecidableEq

/-- After `ConfigInit`. -/
def ConfigState.init (theConfig : Config) (cfgIni : IniDictionary)
    (file : IniFile) (callers : Nat) : ConfigState :=
  { theConfig := theConfig
    cfgIni := cfgIni
    cfgIsSaving := false
    cfgSavingCount := false
    file := file
    callers := List.replicate callers .idle
    tasks := []
    lastSave := none }

/-- `count + 1` in a `bool`. -/
def incrementBool (_count : Bool) : Bool := true

/-- One step of `ConfigSave`. -/
def configSave (state : ConfigState) : ConfigSavePc → ConfigState × ConfigSavePc
  | .idle => (state, .idle)
  | .changed =>
    ({ state with lastSave := some state.theConfig }, .counted state.cfgSavingCount)
  | .counted count =>
    ({ state with cfgSavingCount := incrementBool count }, .testing)
  | .testing => (state, if state.cfgIsSaving then .idle else .creating)
  | .creating => ({ state with tasks := state.tasks ++ [.start] }, .idle)

/-- One step of `ConfigSaveTask`; `opened` says whether `fopen` succeeds. -/
def configSaveTask (state : ConfigState) (opened : Bool) :
    ConfigSaveTaskPc → ConfigState × ConfigSaveTaskPc
  | .start => ({ state with cfgIsSaving := true }, .readCount)
  | .readCount => (state, .collect state.cfgSavingCount 0)
  | .collect savingCount done =>
    match state.theConfig.entries[done]? with
    | some entry =>
      ({ state with
          cfgIni := iniparserSet state.cfgIni entry.name (some entry.val) },
        .collect savingCount (done + 1))
    | none =>
      if opened then
        ({ state with file := .empty }, .dump savingCount)
      else
        (state, .test savingCount)
  | .dump savingCount =>
    ({ state with file := iniparserDumpIni state.cfgIni }, .test savingCount)
  | .test savingCount =>
    (state, if savingCount ≠ state.cfgSavingCount then .readCount else .clear)
  | .clear => ({ state with cfgIsSaving := false }, .ended)
  | .ended => (state, .ended)

/-- A caller changes `theConfig`, before it calls `ConfigSave`. -/
inductive ConfigEvent
  | change (caller : Nat) (config : Config)
  | save (caller : Nat)
  | task (task : Nat) (opened : Bool)
  deriving DecidableEq

def configChange (state : ConfigState) (caller : Nat) (config : Config) : ConfigState :=
  match state.callers[caller]? with
  | some .idle | some .changed =>
    { state with
      theConfig := config
      callers := state.callers.set caller .changed }
  | _ => state

def configStep (state : ConfigState) : ConfigEvent → ConfigState
  | .change caller config => configChange state caller config
  | .save caller =>
    match state.callers[caller]? with
    | none => state
    | some pc =>
      { (configSave state pc).1 with
        callers := state.callers.set caller (configSave state pc).2 }
  | .task task opened =>
    match state.tasks[task]? with
    | none => state
    | some pc =>
      { (configSaveTask state opened pc).1 with
        tasks := state.tasks.set task (configSaveTask state opened pc).2 }

/-! ## The property and the condition -/

def ConfigSaveTaskPc.InSavePublic : ConfigSaveTaskPc → Prop
  | .collect _ _ | .dump _ => True
  | _ => False

/-- All tasks have ended, and no `ConfigSave` is under way. -/
structure ConfigState.Quiet (state : ConfigState) : Prop where
  callers : ∀ pc ∈ state.callers, pc = .idle
  tasks : ∀ pc ∈ state.tasks, pc = .ended

/-- At most one task is in `ConfigSavePublic`, and in the end the file has what
the last `ConfigSave` was to save. -/
structure ConfigSafe (state : ConfigState) : Prop where
  exclusive : AtMostOne ConfigSaveTaskPc.InSavePublic state.tasks
  stored : state.Quiet → ∀ config, state.lastSave = some config → state.file.Stores config

/-- What a task has read of `theConfig`, and what it has written, is still
so. -/
def ConfigSaveTaskPc.UpToDate (state : ConfigState) : ConfigSaveTaskPc → Prop
  | .start | .readCount => True
  | .collect _ done =>
    CollectsAll state.cfgIni (state.theConfig.entries.take done)
  | .dump _ => CollectsAll state.cfgIni state.theConfig.entries
  | .test _ | .clear => state.file.Stores state.theConfig
  | .ended => False

instance ConfigSaveTaskPc.decidableUpToDate (state : ConfigState) :
    ∀ pc : ConfigSaveTaskPc, Decidable (pc.UpToDate state)
  | .start | .readCount => inferInstanceAs (Decidable True)
  | .collect _ _ => inferInstanceAs (Decidable (CollectsAll _ _))
  | .dump _ => inferInstanceAs (Decidable (CollectsAll _ _))
  | .test _ | .clear => inferInstanceAs (Decidable (IniFile.Stores _ _))
  | .ended => inferInstanceAs (Decidable False)

/-- A `ConfigSave` that finds `cfgIsSaving` set can leave the change to another
`ConfigSave` that is under way, or to a task that has not read what changed. -/
def ConfigState.TakesOver (state : ConfigState) (caller : Nat) : Prop :=
  (∃ other < state.callers.length, other ≠ caller ∧ state.callers[other]? ≠ some .idle) ∨
    ∃ pc ∈ state.tasks, pc.UpToDate state

instance (state : ConfigState) (caller : Nat) : Decidable (state.TakesOver caller) :=
  inferInstanceAs (Decidable (_ ∨ _))

def ConfigState.NoTask (state : ConfigState) : Prop :=
  (∀ pc ∈ state.tasks, pc = .ended) ∧ ∀ pc ∈ state.callers, pc ≠ .creating

instance (state : ConfigState) : Decidable state.NoTask := inferInstanceAs (Decidable (_ ∧ _))

def ConfigAllowed (state : ConfigState) : ConfigEvent → Prop
  | .change _ _ => True
  | .save caller =>
    state.callers[caller]? = some .testing →
      (state.cfgIsSaving = true → state.TakesOver caller) ∧
        (state.cfgIsSaving = false → state.NoTask)
  | .task _ opened => opened = true

instance ConfigAllowed.decidable (state : ConfigState) :
    ∀ event : ConfigEvent, Decidable (ConfigAllowed state event)
  | .change _ _ => inferInstanceAs (Decidable True)
  | .save _ => inferInstanceAs (Decidable (_ → _))
  | .task _ opened => inferInstanceAs (Decidable (opened = true))

/-- Every change is still owed by a caller, will be read by a task, or has been
stored. -/
structure ConfigInv (state : ConfigState) : Prop where
  sections : HasSections state.cfgIni
  oneTask : AtMostOne (· ≠ .ended) state.tasks
  oneCreator : AtMostOne (· = .creating) state.callers
  noCreator : ∀ pc ∈ state.tasks, ∀ caller ∈ state.callers, caller = .creating → pc = .ended
  owed :
    (∃ caller ∈ state.callers, caller ≠ .idle) ∨
      (∃ pc ∈ state.tasks, pc.UpToDate state) ∨
        (∀ pc ∈ state.tasks, pc = .ended) ∧
          (state.lastSave = none ∨ state.file.Stores state.theConfig)
  last : state.lastSave = none ∨ state.lastSave = some state.theConfig ∨ .changed ∈ state.callers

theorem ConfigInv.safe {state : ConfigState} (inv : ConfigInv state) : ConfigSafe state where
  exclusive := by
    refine inv.oneTask.mono fun pc inside ended => ?_
    rw [ended] at inside
    exact inside
  stored := by
    intro quiet config saved
    have current : state.theConfig = config := by
      rcases inv.last with none_ | some_ | changed
      · rw [none_] at saved
        cases saved
      · exact Option.some.inj (some_.symm.trans saved)
      · cases quiet.callers _ changed
    rcases inv.owed with ⟨caller, member, busy⟩ | ⟨pc, member, fresh⟩ | ⟨-, done⟩
    · exact absurd (quiet.callers caller member) busy
    · rw [quiet.tasks pc member] at fresh
      exact fresh.elim
    · rcases done with none_ | stores
      · rw [none_] at saved
        cases saved
      · exact current ▸ stores

theorem ConfigInv.init (theConfig : Config) {cfgIni : IniDictionary}
    (sections : HasSections cfgIni) (file : IniFile) (callers : Nat) :
    ConfigInv (.init theConfig cfgIni file callers) where
  sections := sections
  oneTask := .nil
  oneCreator := by
    refine AtMostOne.of_none fun pc member creating => ?_
    rw [List.eq_of_mem_replicate member] at creating
    cases creating
  noCreator := by
    intro pc never
    cases never
  owed := .inr (.inr ⟨fun pc never => (List.not_mem_nil never).elim, .inl rfl⟩)
  last := .inl rfl

theorem ConfigSaveTaskPc.UpToDate.congr {before after : ConfigState}
    {pc : ConfigSaveTaskPc} (fresh : pc.UpToDate before)
    (theConfig : after.theConfig = before.theConfig)
    (cfgIni : after.cfgIni = before.cfgIni) (file : after.file = before.file) :
    pc.UpToDate after := by
  cases before
  cases after
  dsimp only at theConfig cfgIni file
  subst theConfig cfgIni file
  cases pc <;> exact fresh

theorem ConfigSaveTaskPc.UpToDate.ne_ended {state : ConfigState}
    {pc : ConfigSaveTaskPc} (fresh : pc.UpToDate state) : pc ≠ .ended := by
  intro ended
  rw [ended] at fresh
  exact fresh

namespace ConfigInv

variable {state : ConfigState} {caller : Nat} {pc next : ConfigSavePc}

theorem oneCreator_set (inv : ConfigInv state)
    (here : state.callers[caller]? = some pc) (elsewhere : next ≠ .creating) :
    AtMostOne (· = .creating) (state.callers.set caller next) :=
  inv.oneCreator.set here fun creating => absurd creating elsewhere

theorem noCreator_set (inv : ConfigInv state) (elsewhere : next ≠ .creating) :
    ∀ task ∈ state.tasks, ∀ other ∈ state.callers.set caller next,
      other = .creating → task = .ended := by
  intro task member other moved creating
  rcases mem_set moved with new | ⟨index, -, old⟩
  · exact absurd (new.symm.trans creating) elsewhere
  · exact inv.noCreator task member other (List.mem_of_getElem? old) creating

theorem busy (here : state.callers[caller]? = some pc) (working : next ≠ .idle) :
    ∃ other ∈ state.callers.set caller next, other ≠ .idle :=
  ⟨next, mem_set_self next here, working⟩

theorem change (inv : ConfigInv state) (caller : Nat) (config : Config) :
    ConfigInv (configChange state caller config) := by
  have moves :
      ∀ pc, state.callers[caller]? = some pc →
        ConfigInv
          { state with
            theConfig := config
            callers := state.callers.set caller .changed } := by
    intro pc here
    exact
      { sections := inv.sections
        oneTask := inv.oneTask
        oneCreator := inv.oneCreator_set here (by simp)
        noCreator := inv.noCreator_set (by simp)
        owed := .inl (busy here (by simp))
        last := .inr (.inr (mem_set_self .changed here)) }
  unfold configChange
  split
  · next here => exact moves _ here
  · next here => exact moves _ here
  · exact inv

theorem save (inv : ConfigInv state) (allowed : ConfigAllowed state (.save caller)) :
    ConfigInv (configStep state (.save caller)) := by
  rw [configStep]
  cases here : state.callers[caller]? with
  | none => exact inv
  | some pc =>
    have lastKept :
        ∀ next, pc ≠ .changed →
          (state.lastSave = none ∨
            state.lastSave = some state.theConfig ∨
              .changed ∈ state.callers.set caller next) := by
      intro next different
      refine inv.last.imp_right fun later => later.imp_right fun changed => ?_
      exact mem_set_of_ne here changed (Ne.symm different)
    cases pc with
    | idle =>
      dsimp only [configSave]
      rw [set_eq_self here]
      exact inv
    | changed =>
      exact
        { sections := inv.sections
          oneTask := inv.oneTask
          oneCreator := inv.oneCreator_set here (by simp [configSave])
          noCreator := inv.noCreator_set (by simp [configSave])
          owed := .inl (busy here (by simp [configSave]))
          last := .inr (.inl rfl) }
    | counted count =>
      exact
        { sections := inv.sections
          oneTask := inv.oneTask
          oneCreator := inv.oneCreator_set here (by simp [configSave])
          noCreator := inv.noCreator_set (by simp [configSave])
          owed := .inl (busy here (by simp [configSave]))
          last := lastKept _ (by simp) }
    | testing =>
      obtain ⟨takesOver, noTask⟩ := allowed here
      cases saving : state.cfgIsSaving with
      | true =>
        have next : (configSave state .testing).2 = .idle := by
          rw [configSave, saving]
          rfl
        dsimp only
        rw [next]
        exact
          { sections := inv.sections
            oneTask := inv.oneTask
            oneCreator := inv.oneCreator_set here (by simp)
            noCreator := inv.noCreator_set (by simp)
            owed := by
              refine (takesOver saving).imp ?_ fun ⟨task, member, fresh⟩ =>
                .inl ⟨task, member, fresh.congr rfl rfl rfl⟩
              intro ⟨other, bound, apart, busy⟩
              refine ⟨state.callers[other], ?_, ?_⟩
              · refine List.mem_of_getElem? (i := other) ?_
                rw [List.getElem?_set_ne (Ne.symm apart)]
                exact List.getElem?_eq_getElem bound
              · rw [List.getElem?_eq_getElem bound] at busy
                exact fun idle => busy (congrArg some idle)
            last := lastKept _ (by simp) }
      | false =>
        obtain ⟨ended, noCreator⟩ := noTask saving
        have next : (configSave state .testing).2 = .creating := by
          rw [configSave, saving]
          rfl
        dsimp only
        rw [next]
        exact
          { sections := inv.sections
            oneTask := inv.oneTask
            oneCreator := .set_of_none noCreator caller _
            noCreator := fun task member _ _ _ => ended task member
            owed := .inl (busy here (by simp))
            last := lastKept _ (by simp) }
    | creating =>
      have none_ : ∀ task ∈ state.tasks, ¬ task ≠ .ended := by
        intro task member live
        exact live (inv.noCreator task member .creating (List.mem_of_getElem? here) rfl)
      have start :
          ConfigSaveTaskPc.start ∈ state.tasks ++ [.start] :=
        List.mem_append_right _ (List.mem_singleton_self _)
      exact
        { sections := inv.sections
          oneTask := AtMostOne.append_of_none none_ _
          oneCreator := inv.oneCreator_set here (by simp [configSave])
          noCreator := by
            intro task member other moved creating
            rcases mem_set moved with new | ⟨index, apart, old⟩
            · cases new.symm.trans creating
            · subst creating
              exact absurd (inv.oneCreator _ _ _ _ old here rfl rfl) apart
          owed := .inr (.inl ⟨.start, start, trivial⟩)
          last := lastKept _ (by simp) }

theorem configSaveTask_upToDate (sections : HasSections state.cfgIni)
    {task : ConfigSaveTaskPc} (fresh : task.UpToDate state) :
    let after := configSaveTask state true task
    after.2.UpToDate after.1 ∨ after.2 = .ended ∧ after.1.file.Stores after.1.theConfig := by
  cases task with
  | start => exact .inl trivial
  | readCount =>
    refine .inl ?_
    intro entry never
    cases never
  | collect savingCount done =>
    rw [configSaveTask]
    cases next : state.theConfig.entries[done]? with
    | some entry => exact .inl (fresh.set next)
    | none =>
      have all : state.theConfig.entries.take done = state.theConfig.entries :=
        List.take_of_length_le (List.getElem?_eq_none_iff.mp next)
      refine .inl ?_
      change CollectsAll state.cfgIni state.theConfig.entries
      rw [← all]
      exact fresh
  | dump savingCount => exact .inl (CollectsAll.stores sections fresh)
  | test savingCount =>
    rw [configSaveTask]
    dsimp only
    split
    · exact .inl trivial
    · exact .inl fresh
  | clear => exact .inr ⟨rfl, fresh⟩
  | ended => exact fresh.elim

theorem configSaveTask_kept (state : ConfigState) (opened : Bool) (task : ConfigSaveTaskPc) :
    (configSaveTask state opened task).1.theConfig = state.theConfig ∧
      (configSaveTask state opened task).1.callers = state.callers ∧
        (configSaveTask state opened task).1.lastSave = state.lastSave := by
  unfold configSaveTask
  split
  case h_3 => split <;> [exact ⟨rfl, rfl, rfl⟩; split <;> exact ⟨rfl, rfl, rfl⟩]
  all_goals exact ⟨rfl, rfl, rfl⟩

theorem configSaveTask_sections (sections : HasSections state.cfgIni)
    (opened : Bool) (task : ConfigSaveTaskPc) :
    HasSections (configSaveTask state opened task).1.cfgIni := by
  unfold configSaveTask
  split
  case h_3 =>
    split
    · exact sections.set _ _
    · split <;> exact sections
  all_goals exact sections

theorem task (inv : ConfigInv state) (task : Nat) :
    ConfigInv (configStep state (.task task true)) := by
  rw [configStep]
  cases here : state.tasks[task]? with
  | none => exact inv
  | some pc =>
    obtain ⟨theConfig, callers, lastSave⟩ := configSaveTask_kept state true pc
    by_cases ended : pc = .ended
    · subst ended
      dsimp only [configSaveTask]
      rw [set_eq_self here]
      exact inv
    · have alone :
          ∀ other ∈ state.tasks, other ≠ .ended → other = pc := by
        intro other member live
        obtain ⟨index, found⟩ := List.getElem?_of_mem member
        have same := inv.oneTask _ _ _ _ found here live ended
        subst same
        exact Option.some.inj (found.symm.trans here)
      have member := List.mem_of_getElem? here
      exact
        { sections := configSaveTask_sections inv.sections true pc
          oneTask := inv.oneTask.set here fun _ => ended
          oneCreator := by
            dsimp only
            rw [callers]
            exact inv.oneCreator
          noCreator := by
            intro other _ caller inside creating
            dsimp only at inside
            rw [callers] at inside
            exact absurd (inv.noCreator pc member caller inside creating) ended
          owed := by
            rcases inv.owed with busy | ⟨other, inside, fresh⟩ | ⟨all, -⟩
            · left
              dsimp only
              rw [callers]
              exact busy
            · right
              rw [alone other inside fresh.ne_ended] at fresh
              rcases configSaveTask_upToDate inv.sections fresh with
                later | ⟨now, stores⟩
              · left
                exact ⟨_, mem_set_self _ here, later.congr rfl rfl rfl⟩
              · right
                refine ⟨fun new moved => ?_, .inr stores⟩
                rcases mem_set moved with this_ | ⟨index, apart, old⟩
                · exact this_.trans now
                · by_contra live
                  exact apart (inv.oneTask _ _ _ _ old here live ended)
            · exact absurd (all pc member) ended
          last := by
            dsimp only
            rw [theConfig, callers, lastSave]
            exact inv.last }

theorem step (inv : ConfigInv state) {event : ConfigEvent} (allowed : ConfigAllowed state event) :
    ConfigInv (configStep state event) := by
  cases event with
  | change caller config => exact inv.change caller config
  | save caller => exact inv.save allowed
  | task thread opened =>
    rw [show opened = true from allowed]
    exact inv.task thread

end ConfigInv

/-- Where every `ConfigSave` finds the task of another one only in time, and
finds none that it does not see, the saves exclude each other and no change is
lost. -/
theorem configSave_safe (theConfig : Config) {cfgIni : IniDictionary}
    (sections : HasSections cfgIni) (file : IniFile) (callers : Nat)
    (events : List ConfigEvent)
    (allowed : AllowedAlong ConfigAllowed configStep (.init theConfig cfgIni file callers) events) :
    ConfigSafe (events.foldl configStep (.init theConfig cfgIni file callers)) := by
  have initial := ConfigInv.init theConfig sections file callers
  refine (Run.invariant initial ?_ (Run.guarded_foldl allowed)).safe
  intro before event after inv step
  rw [step.2]
  exact inv.step step.1

def configWithAddress (ipaddr : String) : Config where
  dhcp := 0
  ipaddr := ipaddr
  netmask := "255.255.255.0"
  gw := "192.168.1.254"
  dns := "192.168.1.254"
  lang := 2
  brightness := 8
  screensaverTime := 30
  screensaverType := 1
  mainmenuType := 0
  keysound := "key1.wav"
  keylevel := 80
  audiolevel := 80
  userId := "admin"
  userPassword := "admin"
  ssid := "ite"
  password := ""
  secumode := "NA"
  wifiMode := 0
  wifiOnOff := 1
  photoInterval := 10
  touchCalibration := 0

def allSectionsIni : IniDictionary :=
  [(.header "tcpip", none), (.header "ctrlboard", none), (.header "wifi", none)]

def configRun (cfgIni : IniDictionary) (events : List ConfigEvent) : ConfigState :=
  events.foldl configStep (.init (configWithAddress "192.168.1.1") cfgIni .empty 1)

/-- A change and the steps of `ConfigSave`. -/
def saveEvents (ipaddr : String) (steps : Nat) : List ConfigEvent :=
  .change 0 (configWithAddress ipaddr) :: List.replicate steps (.save 0)

def taskEvents (task steps : Nat) : List ConfigEvent := List.replicate steps (.task task true)

theorem configSave_safe_once :
    ConfigSafe (configRun allSectionsIni (saveEvents "10.0.0.2" 4 ++ taskEvents 0 28)) :=
  configSave_safe _ (by decide) _ 1 (saveEvents "10.0.0.2" 4 ++ taskEvents 0 28) (by decide)

/-- A change while the task collects, two calls before the first task runs, and
a dictionary without `[wifi]`. -/
theorem configSave_unsafe :
    ¬ ConfigSafe
        (configRun allSectionsIni
          (saveEvents "10.0.0.2" 4 ++ taskEvents 0 24 ++
            saveEvents "10.0.0.3" 3 ++ taskEvents 0 4)) ∧
      ¬ ConfigSafe
        (configRun allSectionsIni
          (saveEvents "10.0.0.2" 4 ++ saveEvents "10.0.0.3" 4 ++
            taskEvents 0 2 ++ taskEvents 1 2)) ∧
      ¬ ConfigSafe (configRun configInitIni (saveEvents "10.0.0.2" 4 ++ taskEvents 0 28)) := by
  refine ⟨fun safe => ?_, fun safe => ?_, fun safe => ?_⟩
  · have stores := safe.stored ⟨by decide, by decide⟩ _ rfl
    revert stores
    decide +kernel
  · have same := safe.exclusive 0 1 _ _ rfl rfl trivial trivial
    cases same
  · have stores := safe.stored ⟨by decide, by decide⟩ _ rfl
    revert stores
    decide +kernel

end

end IteSdk.Ctrlboard
