import IteSdk.Ctrlboard.Config
import IteSdk.Lib.Decimal
import Mathlib.Algebra.Order.Ring.Int

/-!
# The configuration is read back

`ConfigSavePublic` puts the fields of `theConfig` into the dictionary of the ini file,
and `ConfigInit` reads them with other functions: numbers go through a buffer of eight
bytes and through `strtol`, and three of the strings are taken for the format of a
`snprintf`.
-/

namespace IteSdk.Ctrlboard

open Lib

abbrev CString := List UInt8

def cstring (text : String) : CString := text.toList.map fun c => UInt8.ofNat c.toNat

/-- The `Config` of `ctrlboard.h`; a string is what stands before its terminating
zero. -/
structure ConfigFields where
  dhcp : Int
  ipaddr : CString
  netmask : CString
  gw : CString
  dns : CString
  brightness : Int
  screensaver_time : Int
  screensaver_type : Int
  lang : Int
  mainmenu_type : Int
  keysound : CString
  keylevel : Int
  audiolevel : Int
  photo_interval : Int
  touch_calibration : Int
  ssid : CString
  password : CString
  secumode : CString
  wifi_mode : Int
  wifi_on_off : Int
  user_id : CString
  user_password : CString
  deriving DecidableEq

/-- What `sprintf` makes of a number with `"%d"`. -/
def formatInt (value : Int) : CString :=
  if value < 0 then 45 :: decimal value.natAbs else decimal value.natAbs

/-- `sprintf(buf, "%d", value)`, as long as the text and its zero fit into the 8 bytes
of `buf`. -/
def sprintfBuf (value : Int) : Option CString :=
  if (formatInt value).length + 1 ≤ 8 then some (formatInt value) else none

def isSpace (c : UInt8) : Bool := c = 32 || (9 ≤ c.toNat && c.toNat ≤ 13)

/-- The base that `strtol` chooses itself, and where the digits begin. -/
def strtolBase (str : CString) : Nat × CString :=
  if str.head? = some 48 then
    if (str[1]? = some 120 ∨ str[1]? = some 88) ∧
        (str.drop 2).head?.any (fun c => digitValue c < 16) then
      (16, str.drop 2)
    else (8, str)
  else (10, str)

/-- `strtol(str, NULL, 0)`, with a `long` of 32 bits. -/
def strtol (str : CString) : Int :=
  let trimmed := str.dropWhile isSpace
  let unsigned :=
    if trimmed.head? = some 45 ∨ trimmed.head? = some 43 then trimmed.tail else trimmed
  let value : Int := readDigits (strtolBase unsigned).1 0 (strtolBase unsigned).2
  if trimmed.head? = some 45 then max (-2 ^ 31) (-value) else min (2 ^ 31 - 1) value

/-- What `snprintf` makes of a format without arguments; other directives than `%%` read
arguments that are not there. -/
def formatPlain : CString → Option CString
  | [] => some []
  | [c] => if c = 37 then none else some [c]
  | c :: next :: rest =>
    if c = 37 then
      if next = 37 then (formatPlain rest).map (37 :: ·) else none
    else (formatPlain (next :: rest)).map (c :: ·)

def snprintf (size : Nat) (format : CString) : Option CString :=
  (formatPlain format).map (List.take (size - 1))

/-- `strncpy` into a field that is zero before, but for its last byte. -/
def strncpyField (size : Nat) (str : CString) : CString := str.take (size - 1)

abbrev IniStore := List (IniName × CString)

namespace IniStore

def getString (ini : IniStore) (name : IniName) (notfound : String) : CString :=
  (ini.lookup name).getD (cstring notfound)

def getInt (ini : IniStore) (name : IniName) (notfound : Int) : Int :=
  match ini.lookup name with
  | none => notfound
  | some str => strtol str

def getBoolean (ini : IniStore) (name : IniName) (notfound : Int) : Int :=
  match ini.lookup name with
  | none => notfound
  | some str =>
    match str.head? with
    | none => notfound
    | some c =>
      if c ∈ cstring "yY1tT" then 1 else if c ∈ cstring "nN0fF" then 0 else notfound

end IniStore

/-- The calls of `iniparser_set`, in order; a number comes out of `buf`. -/
def ConfigFields.values (theConfig : ConfigFields) : List (IniName × Option CString) :=
  [(.entry "tcpip" "dhcp", some (cstring (if theConfig.dhcp ≠ 0 then "y" else "n"))),
    (.entry "tcpip" "ipaddr", some theConfig.ipaddr),
    (.entry "tcpip" "netmask", some theConfig.netmask),
    (.entry "tcpip" "gw", some theConfig.gw),
    (.entry "tcpip" "dns", some theConfig.dns),
    (.entry "ctrlboard" "lang", sprintfBuf theConfig.lang),
    (.entry "ctrlboard" "brightness", sprintfBuf theConfig.brightness),
    (.entry "ctrlboard" "screensaver_time", sprintfBuf theConfig.screensaver_time),
    (.entry "ctrlboard" "screensaver_type", sprintfBuf theConfig.screensaver_type),
    (.entry "ctrlboard" "mainmenu_type", sprintfBuf theConfig.mainmenu_type),
    (.entry "ctrlboard" "keysound", some theConfig.keysound),
    (.entry "ctrlboard" "keylevel", sprintfBuf theConfig.keylevel),
    (.entry "ctrlboard" "audiolevel", sprintfBuf theConfig.audiolevel),
    (.entry "ctrlboard" "user_id", some theConfig.user_id),
    (.entry "ctrlboard" "user_password", some theConfig.user_password),
    (.entry "wifi" "ssid", some theConfig.ssid),
    (.entry "wifi" "password", some theConfig.password),
    (.entry "wifi" "secumode", some theConfig.secumode),
    (.entry "wifi" "wifi_mode", sprintfBuf theConfig.wifi_mode),
    (.entry "wifi" "wifi_on_off", sprintfBuf theConfig.wifi_on_off),
    (.entry "ctrlboard" "photo_interval", sprintfBuf theConfig.photo_interval),
    (.entry "ctrlboard" "touch_calibration", sprintfBuf theConfig.touch_calibration)]

def setAll (entries : List (IniName × Option CString)) (cfgIni : IniStore) : Option IniStore :=
  entries.foldlM (fun ini entry => entry.2.map fun val => put entry.1 val ini) cfgIni

/-- `ConfigSavePublic`; it has no value where a number leaves `buf`. -/
def configSavePublic (cfgIni : IniStore) (theConfig : ConfigFields) : Option IniStore :=
  setAll theConfig.values cfgIni

/-- `ConfigInit` with the dictionary of the file; it has no value where a `snprintf`
reads arguments that are not there. -/
def configInit (cfgIni : IniStore) : Option ConfigFields := do
  let ssid ← snprintf 64 (cfgIni.getString (.entry "wifi" "ssid") "")
  let password ← snprintf 256 (cfgIni.getString (.entry "wifi" "password") "")
  let secumode ← snprintf 3 (cfgIni.getString (.entry "wifi" "secumode") "NA")
  some
    { dhcp := cfgIni.getBoolean (.entry "tcpip" "dhcp") 1
      ipaddr := strncpyField 16 (cfgIni.getString (.entry "tcpip" "ipaddr") "192.168.1.1")
      netmask := strncpyField 16 (cfgIni.getString (.entry "tcpip" "netmask") "255.255.255.0")
      gw := strncpyField 16 (cfgIni.getString (.entry "tcpip" "gw") "192.168.1.254")
      dns := strncpyField 16 (cfgIni.getString (.entry "tcpip" "dns") "192.168.1.254")
      lang := cfgIni.getInt (.entry "ctrlboard" "lang") 0
      brightness := cfgIni.getInt (.entry "ctrlboard" "brightness") 8
      screensaver_time := cfgIni.getInt (.entry "ctrlboard" "screensaver_time") 30
      screensaver_type := cfgIni.getInt (.entry "ctrlboard" "screensaver_type") 2
      mainmenu_type := cfgIni.getInt (.entry "ctrlboard" "mainmenu_type") 0
      keysound := cfgIni.getString (.entry "ctrlboard" "keysound") "key1.wav"
      keylevel := cfgIni.getInt (.entry "ctrlboard" "keylevel") 80
      audiolevel := cfgIni.getInt (.entry "ctrlboard" "audiolevel") 80
      photo_interval := cfgIni.getInt (.entry "ctrlboard" "photo_interval") 10
      user_id := strncpyField 64 (cfgIni.getString (.entry "ctrlboard" "user_id") "admin")
      user_password :=
        strncpyField 64 (cfgIni.getString (.entry "ctrlboard" "user_password") "admin")
      ssid
      password
      secumode
      wifi_mode := cfgIni.getInt (.entry "wifi" "wifi_mode") 0
      wifi_on_off := cfgIni.getInt (.entry "wifi" "wifi_on_off") 0
      touch_calibration := cfgIni.getInt (.entry "ctrlboard" "touch_calibration") 1 }

/-- Every string ends inside its field; `keysound` has room for a path. -/
structure ConfigFields.Terminated (pathMax : Nat)
  (theConfig : ConfigFields) : Prop where
  ipaddr : theConfig.ipaddr.length < 16
  netmask : theConfig.netmask.length < 16
  gw : theConfig.gw.length < 16
  dns : theConfig.dns.length < 16
  keysound : theConfig.keysound.length < pathMax
  ssid : theConfig.ssid.length < 64
  password : theConfig.password.length < 256
  secumode : theConfig.secumode.length < 3
  user_id : theConfig.user_id.length < 64
  user_password : theConfig.user_password.length < 64

/-! ## Numbers -/

theorem digitByte_plain {digit : Nat} (small : digit < 10) :
    isSpace (digitByte digit) = false ∧ digitByte digit ≠ 45 ∧ digitByte digit ≠ 43 ∧
      digitByte digit ≠ 120 ∧ digitByte digit ≠ 88 := by
  decide +revert

theorem digitByte_zero {digit : Nat} (small : digit < 10) (zero : digitByte digit = 48) :
    digit = 0 := by
  decide +revert

theorem readDigits_strtolBase (n : Nat) :
    readDigits (strtolBase (decimal n)).1 0 (strtolBase (decimal n)).2 = n := by
  obtain ⟨digit, rest, head, small, zero⟩ := decimal_head n
  by_cases leading : digit = 0
  · obtain ⟨nothing, alone⟩ := zero leading
    have single : decimal 0 = [48] := by
      rw [decimal, if_pos (by decide)]
      rfl
    rw [nothing, single]
    rfl
  · have decimalBase : strtolBase (decimal n) = (10, decimal n) := by
      rw [strtolBase, if_neg]
      intro octal
      rw [head, List.head?_cons, Option.some_inj] at octal
      exact leading (digitByte_zero small octal)
    rw [decimalBase]
    exact readDigits_decimal n

theorem strtol_unsigned (n : Nat) (bounded : n < 2 ^ 31) : strtol (decimal n) = n := by
  obtain ⟨digit, rest, head, small, -⟩ := decimal_head n
  obtain ⟨visible, notMinus, notPlus, -⟩ := digitByte_plain small
  have trimmed : (decimal n).dropWhile isSpace = decimal n := by
    rw [head, List.dropWhile_cons_of_neg (Bool.eq_false_iff.mp visible)]
  have minus : ¬ (decimal n).head? = some 45 := by
    rw [head, List.head?_cons, Option.some_inj]
    exact notMinus
  have plus : ¬ (decimal n).head? = some 43 := by
    rw [head, List.head?_cons, Option.some_inj]
    exact notPlus
  rw [strtol, trimmed, if_neg (not_or.mpr ⟨minus, plus⟩), if_neg minus, readDigits_strtolBase]
  omega

theorem strtol_signed (n : Nat) (bounded : n ≤ 2 ^ 31) : strtol (45 :: decimal n) = -n := by
  have trimmed : (45 :: decimal n).dropWhile isSpace = 45 :: decimal n :=
    List.dropWhile_cons_of_neg (by decide)
  rw [strtol, trimmed, List.head?_cons, if_pos (Or.inl rfl), if_pos rfl, List.tail_cons,
    readDigits_strtolBase]
  omega

theorem strtol_formatInt {value : Int} (low : -2 ^ 31 ≤ value) (high : value < 2 ^ 31) :
    strtol (formatInt value) = value := by
  rw [formatInt]
  split
  · rw [strtol_signed _ (by omega)]
    omega
  · rw [strtol_unsigned _ (by omega)]
    omega

/-- The numbers whose text fits into `buf`. -/
def FitsBuf (value : Int) : Prop := -999999 ≤ value ∧ value ≤ 9999999

theorem formatInt_fits (value : Int) : (formatInt value).length + 1 ≤ 8 ↔ FitsBuf value := by
  rw [formatInt, FitsBuf]
  split
  · have digits := length_decimal_le_iff value.natAbs 5
    rw [List.length_cons]
    omega
  · have digits := length_decimal_le_iff value.natAbs 6
    omega

theorem sprintfBuf_isSome (value : Int) : (sprintfBuf value).isSome ↔ FitsBuf value := by
  rw [← formatInt_fits, sprintfBuf]
  split
  · next fits => exact iff_of_true rfl fits
  · next tooLong => exact iff_of_false Bool.false_ne_true tooLong

theorem strtol_sprintfBuf {value : Int} {text : CString} (printed : sprintfBuf value = some text) :
    strtol text = value := by
  have fits : FitsBuf value := by
    rw [← sprintfBuf_isSome, printed]
    rfl
  rw [sprintfBuf, if_pos ((formatInt_fits value).mpr fits), Option.some_inj] at printed
  rw [← printed]
  obtain ⟨low, high⟩ := fits
  exact strtol_formatInt (by omega) (by omega)

variable {str : CString}

theorem formatPlain_of_not_mem (plain : 37 ∉ str) : formatPlain str = some str := by
  induction str with
  | nil => rfl
  | cons c rest ih =>
    obtain ⟨here, later⟩ := not_or.mp (fun either => plain (List.mem_cons.mpr either))
    cases rest with
    | nil => rw [formatPlain, if_neg (Ne.symm here)]
    | cons next rest =>
      rw [formatPlain, if_neg (Ne.symm here), ih later, Option.map_some]

theorem formatPlain_length {str result : CString} (formatted : formatPlain str = some result) :
    result.length ≤ str.length ∧ (37 ∈ str → result.length < str.length) := by
  fun_induction formatPlain str generalizing result with
  | case1 =>
    cases formatted
    exact ⟨Nat.le_refl _, fun listed => absurd listed List.not_mem_nil⟩
  | case2 | case5 => cases formatted
  | case3 c other =>
    cases formatted
    exact ⟨Nat.le_refl _, fun listed => absurd (List.mem_singleton.mp listed).symm other⟩
  | case4 rest ih =>
    obtain ⟨tail, parsed, rfl⟩ := Option.map_eq_some_iff.mp formatted
    have shorter := (ih parsed).1
    rw [List.length_cons, List.length_cons, List.length_cons]
    omega
  | case6 c next rest other ih =>
    obtain ⟨tail, parsed, rfl⟩ := Option.map_eq_some_iff.mp formatted
    obtain ⟨bounded, shorter⟩ := ih parsed
    rw [List.length_cons, List.length_cons, Nat.add_le_add_iff_right, Nat.add_lt_add_iff_right]
    refine ⟨bounded, fun listed => shorter ?_⟩
    exact (List.mem_cons.mp listed).resolve_left (Ne.symm other)

theorem snprintf_eq_self_iff {size : Nat} (terminated : str.length < size) :
    snprintf size str = some str ↔ 37 ∉ str := by
  constructor
  · intro kept percent
    obtain ⟨result, formatted, cut⟩ := Option.map_eq_some_iff.mp kept
    have shorter := (formatPlain_length formatted).2 percent
    have lengths := congrArg List.length cut
    rw [List.length_take] at lengths
    omega
  · intro plain
    rw [snprintf, formatPlain_of_not_mem plain, Option.map_some, List.take_of_length_le (by omega)]

theorem strncpyField_eq_self {size : Nat} (terminated : str.length < size) :
    strncpyField size str = str :=
  List.take_of_length_le (by omega)

/-! ## Saved fields -/

section SetAll

variable {entries : List (IniName × Option CString)} {before ini after : IniStore}

theorem setAll_cons (entry : IniName × Option CString) :
    setAll (entry :: entries) before =
      (entry.2.map fun val => put entry.1 val before) >>= setAll entries :=
  List.foldlM_cons

theorem setAll_other (set : setAll entries before = some after) {name : IniName}
    (other : name ∉ entries.map Prod.fst) : after.lookup name = before.lookup name := by
  induction entries generalizing before with
  | nil =>
    cases set
    rfl
  | cons entry entries ih =>
    rw [List.map_cons, List.mem_cons, not_or] at other
    rw [setAll_cons] at set
    obtain ⟨between, entryPut, rest⟩ := Option.bind_eq_some_iff.mp set
    obtain ⟨val, -, rfl⟩ := Option.map_eq_some_iff.mp entryPut
    rw [ih rest other.2, lookup_put_ne other.1]

theorem setAll_lookup (set : setAll entries before = some after)
    (nodup : (entries.map Prod.fst).Nodup) :
    ∀ entry ∈ entries, entry.2.isSome ∧ after.lookup entry.1 = entry.2 := by
  induction entries generalizing before with
  | nil => exact fun _ listed => absurd listed List.not_mem_nil
  | cons entry entries ih =>
    obtain ⟨fresh, others⟩ := List.nodup_cons.mp nodup
    rw [setAll_cons] at set
    obtain ⟨between, entryPut, rest⟩ := Option.bind_eq_some_iff.mp set
    obtain ⟨val, printed, rfl⟩ := Option.map_eq_some_iff.mp entryPut
    intro asked listed
    rcases List.mem_cons.mp listed with rfl | later
    · rw [setAll_other rest fresh, lookup_put_self, printed]
      exact ⟨rfl, rfl⟩
    · exact ih rest others asked later

theorem setAll_total (printed : ∀ entry ∈ entries, entry.2.isSome) (before : IniStore) :
    ∃ after, setAll entries before = some after := by
  induction entries generalizing before with
  | nil => exact ⟨before, rfl⟩
  | cons entry entries ih =>
    obtain ⟨here, later⟩ := List.forall_mem_cons.mp printed
    obtain ⟨val, textGiven⟩ := Option.isSome_iff_exists.mp here
    rw [setAll_cons, textGiven]
    exact ih later (put entry.1 val before)

end SetAll

theorem ConfigFields.values_nodup (theConfig : ConfigFields) :
    (theConfig.values.map Prod.fst).Nodup := by
  have names :
      theConfig.values.map Prod.fst =
        (⟨0, [], [], [], [], 0, 0, 0, 0, 0, [], 0, 0, 0, 0, [], [], [], 0, 0, [],
          []⟩ : ConfigFields).values.map Prod.fst := rfl
  rw [names]
  decide

/-- The fields that `ConfigSavePublic` prints. -/
def ConfigFields.printed (theConfig : ConfigFields) : List Int :=
  [theConfig.lang, theConfig.brightness, theConfig.screensaver_time,
    theConfig.screensaver_type, theConfig.mainmenu_type, theConfig.keylevel,
    theConfig.audiolevel, theConfig.wifi_mode, theConfig.wifi_on_off,
    theConfig.photo_interval, theConfig.touch_calibration]

theorem configSavePublic_total {theConfig : ConfigFields}
    (fits : ∀ value ∈ theConfig.printed, FitsBuf value) (cfgIni : IniStore) :
    ∃ ini, configSavePublic cfgIni theConfig = some ini := by
  refine setAll_total ?_ cfgIni
  simp only [ConfigFields.printed, List.forall_mem_cons, ← sprintfBuf_isSome] at fits
  simp only [ConfigFields.values, List.forall_mem_cons, fits, Option.isSome_some, true_and]
  exact fun _ listed => absurd listed List.not_mem_nil

def IniStore.Holds (ini : IniStore) (theConfig : ConfigFields) : Prop :=
  ∀ entry ∈ theConfig.values, entry.2.isSome ∧ ini.lookup entry.1 = entry.2

theorem configSavePublic_holds {theConfig : ConfigFields} {cfgIni ini : IniStore}
    (saved : configSavePublic cfgIni theConfig = some ini) : ini.Holds theConfig :=
  setAll_lookup saved theConfig.values_nodup

namespace IniStore.Holds

variable {theConfig : ConfigFields} {ini : IniStore} {name : IniName}

section

variable (holds : ini.Holds theConfig)

include holds

theorem getString {str : CString} (listed : (name, some str) ∈ theConfig.values)
    (notfound : String) :
    ini.getString name notfound = str := by
  rw [IniStore.getString, (holds _ listed).2, Option.getD_some]

theorem getInt {value : Int} (listed : (name, sprintfBuf value) ∈ theConfig.values)
    (notfound : Int) :
    ini.getInt name notfound = value ∧ FitsBuf value := by
  obtain ⟨printed, found⟩ := holds _ listed
  obtain ⟨text, textGiven⟩ := Option.isSome_iff_exists.mp printed
  have stored : ini.lookup name = some text := found.trans textGiven
  refine ⟨?_, (sprintfBuf_isSome value).mp printed⟩
  rw [IniStore.getInt, stored]
  exact strtol_sprintfBuf textGiven

theorem getBoolean (notfound : Int) :
    ini.getBoolean (.entry "tcpip" "dhcp") notfound = if theConfig.dhcp ≠ 0 then 1 else 0 := by
  have stored := (holds _ (List.mem_of_getElem? (i := 0) rfl)).2
  dsimp only at stored
  rw [IniStore.getBoolean, stored]
  by_cases set : theConfig.dhcp ≠ 0
  · rw [if_pos set, if_pos set]
    rfl
  · rw [if_neg set, if_neg set]
    rfl

theorem fits : ∀ value ∈ theConfig.printed, FitsBuf value := by
  have printed : ∀ entry ∈ theConfig.values, entry.2.isSome := fun entry listed =>
    (holds entry listed).1
  simp only [ConfigFields.values, List.forall_mem_cons, sprintfBuf_isSome] at printed
  simp only [ConfigFields.printed, List.forall_mem_cons, printed, true_and]
  exact fun _ listed => absurd listed List.not_mem_nil

theorem configInit_eq {pathMax : Nat} (terminated : theConfig.Terminated pathMax) :
    configInit ini =
      (snprintf 64 theConfig.ssid).bind fun ssid =>
        (snprintf 256 theConfig.password).bind fun password =>
          (snprintf 3 theConfig.secumode).bind fun secumode =>
            some
              { theConfig with
                dhcp := if theConfig.dhcp ≠ 0 then 1 else 0
                ssid
                password
                secumode } := by
  rw [configInit, holds.getBoolean, holds.getString (List.mem_of_getElem? (i := 1) rfl),
    holds.getString (List.mem_of_getElem? (i := 2) rfl),
    holds.getString (List.mem_of_getElem? (i := 3) rfl),
    holds.getString (List.mem_of_getElem? (i := 4) rfl),
    (holds.getInt (List.mem_of_getElem? (i := 5) rfl) _).1,
    (holds.getInt (List.mem_of_getElem? (i := 6) rfl) _).1,
    (holds.getInt (List.mem_of_getElem? (i := 7) rfl) _).1,
    (holds.getInt (List.mem_of_getElem? (i := 8) rfl) _).1,
    (holds.getInt (List.mem_of_getElem? (i := 9) rfl) _).1,
    holds.getString (List.mem_of_getElem? (i := 10) rfl),
    (holds.getInt (List.mem_of_getElem? (i := 11) rfl) _).1,
    (holds.getInt (List.mem_of_getElem? (i := 12) rfl) _).1,
    holds.getString (List.mem_of_getElem? (i := 13) rfl),
    holds.getString (List.mem_of_getElem? (i := 14) rfl),
    holds.getString (List.mem_of_getElem? (i := 15) rfl),
    holds.getString (List.mem_of_getElem? (i := 16) rfl),
    holds.getString (List.mem_of_getElem? (i := 17) rfl),
    (holds.getInt (List.mem_of_getElem? (i := 18) rfl) _).1,
    (holds.getInt (List.mem_of_getElem? (i := 19) rfl) _).1,
    (holds.getInt (List.mem_of_getElem? (i := 20) rfl) _).1,
    (holds.getInt (List.mem_of_getElem? (i := 21) rfl) _).1,
    strncpyField_eq_self terminated.ipaddr, strncpyField_eq_self terminated.netmask,
    strncpyField_eq_self terminated.gw, strncpyField_eq_self terminated.dns,
    strncpyField_eq_self terminated.user_id, strncpyField_eq_self terminated.user_password]
  rfl

theorem restores_iff {pathMax : Nat} (terminated : theConfig.Terminated pathMax) :
    configInit ini = some theConfig ↔
      (theConfig.dhcp = 0 ∨ theConfig.dhcp = 1) ∧
        37 ∉ theConfig.ssid ∧ 37 ∉ theConfig.password ∧ 37 ∉ theConfig.secumode := by
  rw [holds.configInit_eq terminated, ← snprintf_eq_self_iff terminated.ssid,
    ← snprintf_eq_self_iff terminated.password, ← snprintf_eq_self_iff terminated.secumode]
  constructor
  · intro restored
    obtain ⟨ssid, ssidRead, restored⟩ := Option.bind_eq_some_iff.mp restored
    obtain ⟨password, passwordRead, restored⟩ := Option.bind_eq_some_iff.mp restored
    obtain ⟨secumode, secumodeRead, restored⟩ := Option.bind_eq_some_iff.mp restored
    have same := Option.some_inj.mp restored
    have dhcp := congrArg ConfigFields.dhcp same
    refine ⟨?_, ?_, ?_, ?_⟩
    · dsimp only at dhcp
      split at dhcp
      · exact Or.inr dhcp.symm
      · exact Or.inl dhcp.symm
    · exact ssidRead.trans (congrArg some (congrArg ConfigFields.ssid same))
    · exact passwordRead.trans (congrArg some (congrArg ConfigFields.password same))
    · exact secumodeRead.trans (congrArg some (congrArg ConfigFields.secumode same))
  · intro ⟨dhcp, ssid, password, secumode⟩
    have flag : (if theConfig.dhcp ≠ 0 then (1 : Int) else 0) = theConfig.dhcp := by
      rcases dhcp with zero | one
      · rw [zero]
        rfl
      · rw [one]
        rfl
    rw [ssid, password, secumode, flag]
    rfl

end

end IniStore.Holds

/-- A saved configuration is restored, with every number inside `buf`, exactly when
`dhcp` is 0 or 1, no string that is read as a format holds a percent sign, and every
printed number has at most seven characters. -/
theorem configSavePublic_restores_iff {pathMax : Nat} (theConfig : ConfigFields)
    (terminated : theConfig.Terminated pathMax) (cfgIni : IniStore) :
    (∃ ini, configSavePublic cfgIni theConfig = some ini ∧ configInit ini = some theConfig) ↔
      (theConfig.dhcp = 0 ∨ theConfig.dhcp = 1) ∧
        (37 ∉ theConfig.ssid ∧ 37 ∉ theConfig.password ∧ 37 ∉ theConfig.secumode) ∧
          ∀ value ∈ theConfig.printed, -999999 ≤ value ∧ value ≤ 9999999 := by
  constructor
  · intro ⟨ini, saved, restored⟩
    have holds := configSavePublic_holds saved
    obtain ⟨dhcp, strings⟩ := (holds.restores_iff terminated).mp restored
    exact ⟨dhcp, strings, holds.fits⟩
  · intro ⟨dhcp, strings, fits⟩
    obtain ⟨ini, saved⟩ := configSavePublic_total fits cfgIni
    have holds := configSavePublic_holds saved
    exact ⟨ini, saved, (holds.restores_iff terminated).mpr ⟨dhcp, strings⟩⟩

/-- What `ConfigInit` reads from an empty dictionary. -/
def defaultFields : ConfigFields where
  dhcp := 1
  ipaddr := cstring "192.168.1.1"
  netmask := cstring "255.255.255.0"
  gw := cstring "192.168.1.254"
  dns := cstring "192.168.1.254"
  brightness := 8
  screensaver_time := 30
  screensaver_type := 2
  lang := 0
  mainmenu_type := 0
  keysound := cstring "key1.wav"
  keylevel := 80
  audiolevel := 80
  photo_interval := 10
  touch_calibration := 1
  ssid := []
  password := []
  secumode := cstring "NA"
  wifi_mode := 0
  wifi_on_off := 0
  user_id := cstring "admin"
  user_password := cstring "admin"

theorem defaultFields_terminated : defaultFields.Terminated 260 := by
  constructor <;> decide

theorem configSavePublic_restores_default :
    ∃ ini, configSavePublic [] defaultFields = some ini ∧ configInit ini = some defaultFields :=
  (configSavePublic_restores_iff defaultFields defaultFields_terminated []).mpr
    ⟨Or.inr rfl, by decide, by decide⟩

/-- An access point whose name ends in a percent sign loses it. -/
def percentFields : ConfigFields :=
  { defaultFields with ssid := cstring "50%%" }


/-- The strings end inside their fields and every number fits, and one percent sign of
the name is gone. -/
theorem configSavePublic_percent_lost :
    percentFields.Terminated 260 ∧
      (∀ value ∈ percentFields.printed, -999999 ≤ value ∧ value ≤ 9999999) ∧
        ∃ ini, configSavePublic [] percentFields = some ini ∧
          configInit ini = some { percentFields with ssid := cstring "50%" } ∧
            configInit ini ≠ some percentFields := by
  have fits : ∀ value ∈ percentFields.printed, -999999 ≤ value ∧ value ≤ 9999999 := by decide
  have terminated : percentFields.Terminated 260 := by constructor <;> decide
  obtain ⟨ini, saved⟩ := configSavePublic_total fits []
  refine ⟨terminated, fits, ini, saved, ?_⟩
  rw [(configSavePublic_holds saved).configInit_eq terminated]
  decide

end IteSdk.Ctrlboard
