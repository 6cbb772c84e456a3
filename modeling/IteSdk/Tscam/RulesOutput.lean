import IteSdk.Lib.ListReader
import IteSdk.Tscam.CmdPkt

/-!
# The rules of the video analytics

`GetRulesOutput_Cmd_Ctxt_New` writes the context of the command in two passes, one
that adds up the length and one that writes, and `_GetRulesOutput_dec` reads it.
`malloc` is taken to succeed, but `tscm_malloc` gives nothing for a size of zero.
-/

namespace IteSdk.Tscam

open Lib

def cmdGetRulesOutput : Nat := 0x8601

/-- The bytes of a `CMD_STRING_T`; its `length` is 32 bits wide. -/
abbrev CmdString := List UInt8

structure PolygonPoint where
  point_x : UInt16
  point_y : UInt16

structure CellMotionDetector where
  min_count : UInt16
  alarm_on_delay : UInt32
  alarm_off_delay : UInt32
  active_cells_size : UInt16
  active_cells : CmdString
  sensitivity : UInt8
  layout_bounds_x : UInt16
  layout_bounds_y : UInt16
  layout_bounds_width : UInt16
  layout_bounds_height : UInt16
  layout_columns : UInt8
  layout_rows : UInt8
  metadata_stream : UInt8

/-- `rule_type` with the structure behind `pRule_engine_items`; there is none for other
types. -/
inductive RuleEngineItems
  | lineDetector (direction : UInt16) (polyline : List PolygonPoint) (metadata_stream : UInt8)
  | fieldDetector (polyline : List PolygonPoint) (metadata_stream : UInt8)
  | declarativeMotionDetector (motion_expression : UInt16)
      (polyline : List PolygonPoint) (metadata_stream : UInt8)
  | countingRule (report_time_interval reset_time_interval : UInt32)
    (direction : UInt16) (polyline : List PolygonPoint) (metadata_stream : UInt8)
  | cellMotionDetector (detector : CellMotionDetector)
  | other (rule_type : Nat)

def RuleEngineItems.ruleType : RuleEngineItems → Nat
  | lineDetector .. => 0x10
  | fieldDetector .. => 0x11
  | declarativeMotionDetector .. => 0x12
  | countingRule .. => 0x13
  | cellMotionDetector _ => 0x14
  | other rule_type => rule_type

structure RuleEnginePara where
  name : CmdString
  rule_token : CmdString
  items : RuleEngineItems

structure GetRulesOutputInfo where
  cmd_code : UInt16
  return_code : UInt8
  user_name : CmdString
  password : CmdString
  rules : List RuleEnginePara

/-! ## The encoder -/

def setDword (value : Nat) : List UInt8 := setWord (value / 65536) ++ setWord value

def setCmdString (str : CmdString) : List UInt8 := setDword str.length ++ str

/-- A point as it lies in memory, low bytes first; `memcpy` takes it over. -/
def PolygonPoint.bytes (point : PolygonPoint) : List UInt8 :=
  [UInt8.ofNat point.point_x.toNat, UInt8.ofNat (point.point_x.toNat / 256),
    UInt8.ofNat point.point_y.toNat, UInt8.ofNat (point.point_y.toNat / 256)]

def setPolyline (polyline : List PolygonPoint) (metadata_stream : UInt8) : List UInt8 :=
  [UInt8.ofNat polyline.length] ++ (polyline.flatMap PolygonPoint.bytes ++ [metadata_stream])

def CellMotionDetector.bytes (detector : CellMotionDetector) : List UInt8 :=
  setWord detector.min_count.toNat ++ (setDword detector.alarm_on_delay.toNat ++
    (setDword detector.alarm_off_delay.toNat ++
    (setWord detector.active_cells_size.toNat ++
    (setCmdString detector.active_cells ++
    ([detector.sensitivity] ++
    (setWord detector.layout_bounds_x.toNat ++
    (setWord detector.layout_bounds_y.toNat ++
    (setWord detector.layout_bounds_width.toNat ++
    (setWord detector.layout_bounds_height.toNat ++
    ([detector.layout_columns] ++
    ([detector.layout_rows] ++ [detector.metadata_stream])))))))))))

def RuleEngineItems.bytes : RuleEngineItems → List UInt8
  | lineDetector direction polyline metadata_stream =>
    setWord direction.toNat ++ setPolyline polyline metadata_stream
  | fieldDetector polyline metadata_stream => setPolyline polyline metadata_stream
  | declarativeMotionDetector motion_expression polyline metadata_stream =>
    setWord motion_expression.toNat ++ setPolyline polyline metadata_stream
  | countingRule report_time_interval reset_time_interval direction polyline metadata_stream =>
      setDword report_time_interval.toNat ++ (setDword reset_time_interval.toNat ++
        (setWord direction.toNat ++ setPolyline polyline metadata_stream))
  | cellMotionDetector detector => detector.bytes
  | other _ => []

def RuleEnginePara.bytes (rule : RuleEnginePara) : List UInt8 :=
  setCmdString rule.name ++ (setCmdString rule.rule_token ++
    ([UInt8.ofNat rule.items.ruleType] ++ rule.items.bytes))

def RuleEngineItems.size : RuleEngineItems → Nat
  | lineDetector _ polyline _ => 4 + 4 * polyline.length
  | fieldDetector polyline _ => 2 + 4 * polyline.length
  | declarativeMotionDetector _ polyline _ => 4 + 4 * polyline.length
  | countingRule _ _ _ polyline _ => 12 + 4 * polyline.length
  | cellMotionDetector detector => 24 + (4 + detector.active_cells.length)
  | other _ => 0

def RuleEnginePara.size (rule : RuleEnginePara) : Nat :=
  1 + (4 + rule.name.length) + (4 + rule.rule_token.length) + rule.items.size

/-- The length of the context with its check sum, before it is cut to 32 bits. -/
def GetRulesOutputInfo.size (info : GetRulesOutputInfo) : Nat :=
  9 + (4 + info.user_name.length) + (4 + info.password.length) +
    (info.rules.map RuleEnginePara.size).sum

def GetRulesOutputInfo.cmdLength (info : GetRulesOutputInfo) : Nat := info.size % 2 ^ 32

/-- What `_GetRulesOutput_dec` gets to read. -/
def GetRulesOutputInfo.data (info : GetRulesOutputInfo) : List UInt8 :=
  setWord cmdGetRulesOutput ++ ([info.return_code] ++ (setCmdString info.user_name ++
    (setCmdString info.password ++
    ([UInt8.ofNat info.rules.length] ++ info.rules.flatMap RuleEnginePara.bytes))))

def GetRulesOutputInfo.written (info : GetRulesOutputInfo) : List UInt8 :=
  setDword (info.cmdLength - 1) ++ info.data

/-- `tscm_malloc` gives a buffer. -/
def tscmMalloc (size : Nat) : Bool := size ≠ 0

/-- `GetRulesOutput_Cmd_Ctxt_New`; nothing is returned where no buffer was given. -/
def getRulesOutputCmdCtxtNew (info : GetRulesOutputInfo) : Except TscmStop (Option (List UInt8)) :=
  if tscmMalloc info.cmdLength then
    if info.written.length ≤ info.cmdLength then
      let ctxt := overwrite 0 info.written (List.replicate info.cmdLength 0)
      let checkSum := tscmGenCheckSum (ctxt.take (info.cmdLength - 1))
      .ok (some (overwrite (info.cmdLength - 1) [checkSum] ctxt))
    else .error .buffer
  else .ok none

/-! ## The decoder -/

abbrev CtxtReader := ListReader UInt8 TscmStop

def readByte : CtxtReader UInt8 := symbols .buffer 1 >>= fun bytes => pure (bytes.getD 0 0)

def readWord : CtxtReader UInt16 :=
  symbols .buffer 2 >>= fun bytes => pure (UInt16.ofNat (getWord bytes 0))

def readDword : CtxtReader UInt32 :=
  symbols .buffer 4 >>= fun bytes => pure (UInt32.ofNat (getDword bytes 0))

/-- A string that does not end inside the context leads to an access behind it. -/
def readCmdString : CtxtReader CmdString :=
  readDword >>= fun length => symbols .buffer length.toNat

def readPoint : CtxtReader PolygonPoint :=
  symbols .buffer 4 >>= fun bytes =>
    pure
      { point_x := UInt16.ofNat ((bytes.getD 0 0).toNat + (bytes.getD 1 0).toNat * 256)
        point_y := UInt16.ofNat ((bytes.getD 2 0).toNat + (bytes.getD 3 0).toNat * 256) }

/-- Without a buffer for the points the `break` leaves the cursor before the byte of the
metadata stream. -/
def readPolyline : CtxtReader (List PolygonPoint × UInt8) :=
  readByte >>= fun size =>
    if tscmMalloc (4 * size.toNat) then
      many readPoint size.toNat >>= fun polyline =>
        readByte >>= fun metadata_stream => pure (polyline, metadata_stream)
    else pure ([], 0)

def readCellMotionDetector : CtxtReader CellMotionDetector := do
  let min_count ← readWord
  let alarm_on_delay ← readDword
  let alarm_off_delay ← readDword
  let active_cells_size ← readWord
  let active_cells ← readCmdString
  let sensitivity ← readByte
  let layout_bounds_x ← readWord
  let layout_bounds_y ← readWord
  let layout_bounds_width ← readWord
  let layout_bounds_height ← readWord
  let layout_columns ← readByte
  let layout_rows ← readByte
  let metadata_stream ← readByte
  pure
    { min_count, alarm_on_delay, alarm_off_delay, active_cells_size, active_cells,
      sensitivity,
      layout_bounds_x, layout_bounds_y, layout_bounds_width, layout_bounds_height,
      layout_columns, layout_rows, metadata_stream }

/-- The `switch` over the type. -/
def readItems (rule_type : Nat) : CtxtReader RuleEngineItems :=
  if rule_type = 0x10 then
    readWord >>= fun direction =>
      readPolyline >>= fun tail => pure (.lineDetector direction tail.1 tail.2)
  else if rule_type = 0x11 then
    readPolyline >>= fun tail => pure (.fieldDetector tail.1 tail.2)
  else if rule_type = 0x12 then
    readWord >>= fun motion_expression =>
      readPolyline >>= fun tail => pure (.declarativeMotionDetector motion_expression tail.1 tail.2)
  else if rule_type = 0x13 then
    readDword >>= fun report_time_interval =>
      readDword >>= fun reset_time_interval =>
        readWord >>= fun direction =>
          readPolyline >>= fun tail =>
            pure (.countingRule report_time_interval reset_time_interval direction tail.1 tail.2)
  else if rule_type = 0x14 then
    readCellMotionDetector >>= fun detector => pure (.cellMotionDetector detector)
  else pure (.other rule_type)

def readRule : CtxtReader RuleEnginePara :=
  readCmdString >>= fun name =>
    readCmdString >>= fun rule_token =>
      readByte >>= fun rule_type =>
        readItems rule_type.toNat >>= fun items => pure ⟨name, rule_token, items⟩

/-- `sizeof(RULE_ENGINE_PARA)`. -/
def ruleEngineParaSize : Nat := 24

def readRules (size : Nat) : CtxtReader (List RuleEnginePara) :=
  if tscmMalloc (ruleEngineParaSize * size) then many readRule size else pure []

def readInfo : CtxtReader GetRulesOutputInfo :=
  readWord >>= fun cmd_code =>
    readByte >>= fun return_code =>
      readCmdString >>= fun user_name =>
        readCmdString >>= fun password =>
          readByte >>= fun size =>
            readRules size.toNat >>= fun rules =>
              pure ⟨cmd_code, return_code, user_name, password, rules⟩

/-- `_GetRulesOutput_dec`, from the command code on. -/
def getRulesOutputDec (ctxt : List UInt8) : Except TscmStop GetRulesOutputInfo :=
  (readInfo.run ctxt).map Prod.fst

end IteSdk.Tscam
