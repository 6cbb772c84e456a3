import IteSdk.Tscam.RulesOutput

/-!
# Rules that come back

Every field is read as it was written, but for the byte behind a list without points:
the decoder does not step over it, and reads it as the first byte of the next rule.
-/

namespace IteSdk.Tscam

open Lib

theorem readByte_reads (byte : UInt8) : Reads readByte [byte] byte :=
  (Reads.symbols TscmStop.buffer [byte] rfl).map fun bytes => bytes.getD 0 0

theorem getWord_setWord {value : Nat} (bounded : value < 2 ^ 16) :
    getWord (setWord value) 0 = value := by
  rw [getWord, setWord]
  simp only [List.getD_cons_zero, List.getD_cons_succ, Nat.zero_add, UInt8.toNat_ofNat']
  omega

theorem getDword_setDword {value : Nat} (bounded : value < 2 ^ 32) :
    getDword (setDword value) 0 = value := by
  rw [getDword, getWord, getWord, setDword, setWord, setWord]
  simp only [List.cons_append, List.nil_append, List.getD_cons_zero, List.getD_cons_succ,
    Nat.zero_add, UInt8.toNat_ofNat']
  omega

theorem length_setDword (value : Nat) : (setDword value).length = 4 := rfl

theorem length_setCmdString (str : CmdString) : (setCmdString str).length = 4 + str.length := by
  rw [setCmdString, List.length_append, length_setDword]

theorem readWord_reads (word : UInt16) : Reads readWord (setWord word.toNat) word := by
  have value : UInt16.ofNat (getWord (setWord word.toNat) 0) = word := by
    rw [getWord_setWord word.toNat_lt, UInt16.ofNat_toNat]
  have reads := (Reads.symbols TscmStop.buffer (setWord word.toNat)
    rfl).map fun bytes => UInt16.ofNat (getWord bytes 0)
  rwa [value] at reads

theorem readDword_reads (dword : UInt32) : Reads readDword (setDword dword.toNat) dword := by
  have value : UInt32.ofNat (getDword (setDword dword.toNat) 0) = dword := by
    rw [getDword_setDword dword.toNat_lt, UInt32.ofNat_toNat]
  have reads := (Reads.symbols TscmStop.buffer (setDword dword.toNat)
    rfl).map fun bytes => UInt32.ofNat (getDword bytes 0)
  rwa [value] at reads

theorem readCmdString_reads {str : CmdString} (bounded : str.length < 2 ^ 32) :
    Reads readCmdString (setCmdString str) str := by
  have length : (UInt32.ofNat str.length).toNat = str.length := UInt32.toNat_ofNat_of_lt' bounded
  have lengthRead := readDword_reads (UInt32.ofNat str.length)
  rw [length] at lengthRead
  exact lengthRead.bind (Reads.symbols TscmStop.buffer str length.symm)

theorem readPoint_reads (point : PolygonPoint) : Reads readPoint point.bytes point := by
  have reads := (Reads.symbols TscmStop.buffer point.bytes
    rfl).map fun bytes =>
      ({ point_x := UInt16.ofNat ((bytes.getD 0 0).toNat + (bytes.getD 1 0).toNat * 256)
         point_y := UInt16.ofNat ((bytes.getD 2 0).toNat + (bytes.getD 3 0).toNat * 256) } :
        PolygonPoint)
  have low : point.point_x.toNat % 256 + point.point_x.toNat / 256 % 256 * 256 =
      point.point_x.toNat := by
    have bounded := point.point_x.toNat_lt
    omega
  have high : point.point_y.toNat % 256 + point.point_y.toNat / 256 % 256 * 256 =
      point.point_y.toNat := by
    have bounded := point.point_y.toNat_lt
    omega
  simp only [PolygonPoint.bytes, List.getD_cons_zero, List.getD_cons_succ,
    UInt8.toNat_ofNat', low, high, UInt16.ofNat_toNat] at reads
  exact reads

theorem readPolyline_reads {polyline : List PolygonPoint} (anyPoints : polyline ≠ [])
    (bounded : polyline.length < 256) (metadata_stream : UInt8) :
    Reads readPolyline (setPolyline polyline metadata_stream) (polyline, metadata_stream) := by
  have size : (UInt8.ofNat polyline.length).toNat = polyline.length :=
    UInt8.toNat_ofNat_of_lt' bounded
  have granted : tscmMalloc (4 * polyline.length) = true := by
    have positive := List.length_pos_iff.mpr anyPoints
    exact decide_eq_true (by omega)
  refine (readByte_reads _).bind ?_
  rw [size, if_pos granted]
  exact (Reads.many fun point _ => readPoint_reads point).bind
    ((readByte_reads metadata_stream).map fun metadata_stream => (polyline, metadata_stream))

theorem readPolyline_empty : Reads readPolyline [0] ([], 0) :=
  (readByte_reads 0).bind (Reads.pure_value _)

/-! ## Rules -/

namespace RuleEngineItems

def Known : RuleEngineItems → Prop
  | other _ => False
  | _ => True

def polyline? : RuleEngineItems → Option (List PolygonPoint)
  | lineDetector _ polyline _ => some polyline
  | fieldDetector polyline _ => some polyline
  | declarativeMotionDetector _ polyline _ => some polyline
  | countingRule _ _ _ polyline _ => some polyline
  | cellMotionDetector _ => none
  | other _ => none

def metadataStream : RuleEngineItems → UInt8
  | lineDetector _ _ metadata_stream => metadata_stream
  | fieldDetector _ metadata_stream => metadata_stream
  | declarativeMotionDetector _ _ metadata_stream => metadata_stream
  | countingRule _ _ _ _ metadata_stream => metadata_stream
  | cellMotionDetector detector => detector.metadata_stream
  | other _ => 0

/-- What is left of a rule whose metadata stream was not read. -/
def withoutMetadata : RuleEngineItems → RuleEngineItems
  | lineDetector direction polyline _ => lineDetector direction polyline 0
  | fieldDetector polyline _ => fieldDetector polyline 0
  | declarativeMotionDetector motion_expression polyline _ =>
    declarativeMotionDetector motion_expression polyline 0
  | countingRule report_time_interval reset_time_interval direction polyline _ =>
    countingRule report_time_interval reset_time_interval direction polyline 0
  | items => items

structure Representable (items : RuleEngineItems) : Prop where
  known : items.Known
  polyline : ∀ polyline ∈ items.polyline?, polyline.length < 256
  active_cells : ∀ detector, items = cellMotionDetector detector →
    detector.active_cells.length < 2 ^ 32

variable {items : RuleEngineItems}

theorem ruleType_lt (known : items.Known) : items.ruleType < 256 := by
  cases items with
  | other rule_type => exact known.elim
  | _ =>
    rw [ruleType]
    decide

theorem bytes_length (items : RuleEngineItems) : items.bytes.length = items.size := by
  have points (polyline : List PolygonPoint) (metadata_stream : UInt8) :
      (setPolyline polyline metadata_stream).length = 2 + 4 * polyline.length := by
    have each : (polyline.map fun point => (PolygonPoint.bytes point).length).sum =
        4 * polyline.length := by
      change (polyline.map fun _ => 4).sum = _
      rw [List.map_const', List.sum_replicate]
      exact Nat.mul_comm _ _
    rw [setPolyline, List.length_append, List.length_append, List.length_flatMap, each]
    simp only [List.length_cons, List.length_nil]
    omega
  cases items with
  | cellMotionDetector detector =>
    simp only [bytes, CellMotionDetector.bytes, size, List.length_append,
      length_setCmdString, length_setDword, setWord, List.length_cons, List.length_nil]
    omega
  | fieldDetector polyline metadata_stream => exact points polyline metadata_stream
  | other rule_type => rfl
  | _ =>
    simp only [bytes, size, List.length_append, points, length_setDword, setWord,
      List.length_cons, List.length_nil]
    omega

theorem withoutMetadata_eq_self_iff (noPoints : items.polyline? = some []) :
    items.withoutMetadata = items ↔ items.metadataStream = 0 := by
  cases items with
  | cellMotionDetector detector | other rule_type => cases noPoints
  | _ =>
    simp only [withoutMetadata, metadataStream, lineDetector.injEq, fieldDetector.injEq,
      declarativeMotionDetector.injEq, countingRule.injEq, true_and]
    exact eq_comm

theorem bytes_dropLast (noPoints : items.polyline? = some []) :
    items.bytes = items.bytes.dropLast ++ [items.metadataStream] := by
  cases items with
  | cellMotionDetector detector | other rule_type => cases noPoints
  | _ =>
    cases Option.some_inj.mp noPoints
    rfl

end RuleEngineItems

open RuleEngineItems

theorem readCellMotionDetector_reads {detector : CellMotionDetector}
    (bounded : detector.active_cells.length < 2 ^ 32) :
    Reads readCellMotionDetector detector.bytes detector :=
  (readWord_reads _).bind <| (readDword_reads _).bind <| (readDword_reads _).bind <|
    (readWord_reads _).bind <| (readCmdString_reads bounded).bind <|
      (readByte_reads _).bind <| (readWord_reads _).bind <| (readWord_reads _).bind <|
        (readWord_reads _).bind <| (readWord_reads _).bind <| (readByte_reads _).bind <|
          (readByte_reads _).bind <| (readByte_reads detector.metadata_stream).map fun _ => _

variable {items : RuleEngineItems}

theorem readItems_reads (representable : items.Representable) (points : items.polyline? ≠ some []) :
    Reads (readItems items.ruleType) items.bytes items := by
  have tail {polyline : List PolygonPoint} (listed : items.polyline? = some polyline)
      (metadata_stream : UInt8) :
      Reads readPolyline (setPolyline polyline metadata_stream) (polyline, metadata_stream) :=
    readPolyline_reads (fun noPoints => points (noPoints ▸ listed))
      (representable.polyline polyline listed) metadata_stream
  cases items with
  | lineDetector direction polyline metadata_stream =>
    exact (readWord_reads direction).bind ((tail rfl metadata_stream).map fun tail =>
      lineDetector direction tail.1 tail.2)
  | fieldDetector polyline metadata_stream =>
    exact (tail rfl metadata_stream).map fun tail => fieldDetector tail.1 tail.2
  | declarativeMotionDetector motion_expression polyline metadata_stream =>
    exact (readWord_reads motion_expression).bind ((tail rfl metadata_stream).map fun tail =>
      declarativeMotionDetector motion_expression tail.1 tail.2)
  | countingRule report_time_interval reset_time_interval direction polyline metadata_stream =>
      exact (readDword_reads report_time_interval).bind <|
        (readDword_reads reset_time_interval).bind <|
          (readWord_reads direction).bind <| (tail rfl metadata_stream).map fun tail =>
            countingRule report_time_interval reset_time_interval direction tail.1 tail.2
  | cellMotionDetector detector =>
    exact (readCellMotionDetector_reads
      (representable.active_cells detector rfl)).map cellMotionDetector
  | other rule_type => exact representable.known.elim

theorem readItems_withoutMetadata (noPoints : items.polyline? = some []) :
    Reads (readItems items.ruleType) items.bytes.dropLast items.withoutMetadata := by
  cases items with
  | lineDetector direction polyline metadata_stream =>
    cases Option.some_inj.mp noPoints
    exact (readWord_reads direction).bind (readPolyline_empty.map fun tail =>
      lineDetector direction tail.1 tail.2)
  | fieldDetector polyline metadata_stream =>
    cases Option.some_inj.mp noPoints
    exact readPolyline_empty.map fun tail => fieldDetector tail.1 tail.2
  | declarativeMotionDetector motion_expression polyline metadata_stream =>
    cases Option.some_inj.mp noPoints
    exact (readWord_reads motion_expression).bind (readPolyline_empty.map fun tail =>
      declarativeMotionDetector motion_expression tail.1 tail.2)
  | countingRule report_time_interval reset_time_interval direction polyline metadata_stream =>
      cases Option.some_inj.mp noPoints
      exact (readDword_reads report_time_interval).bind <|
        (readDword_reads reset_time_interval).bind <|
          (readWord_reads direction).bind <| readPolyline_empty.map fun tail =>
            countingRule report_time_interval reset_time_interval direction tail.1 tail.2
  | cellMotionDetector detector | other rule_type => cases noPoints

structure RuleEnginePara.Representable (rule : RuleEnginePara) : Prop where
  name : rule.name.length < 2 ^ 32
  rule_token : rule.rule_token.length < 2 ^ 32
  items : rule.items.Representable

def RuleEnginePara.NoPoints (rule : RuleEnginePara) : Prop := rule.items.polyline? = some []

variable {rule : RuleEnginePara} {rules : List RuleEnginePara}
  {left rest tail : List UInt8}

theorem readRule_step {bytes : List UInt8} (representable : rule.Representable)
    (read : Reads (readItems rule.items.ruleType) bytes items) :
    Reads readRule
      (setCmdString rule.name ++ (setCmdString rule.rule_token ++
        ([UInt8.ofNat rule.items.ruleType] ++ bytes)))
      ⟨rule.name, rule.rule_token, items⟩ := by
  have type : (UInt8.ofNat rule.items.ruleType).toNat = rule.items.ruleType :=
    UInt8.toNat_ofNat_of_lt' (ruleType_lt representable.items.known)
  rw [← type] at read
  exact (readCmdString_reads representable.name).bind <|
    (readCmdString_reads representable.rule_token).bind <|
      (readByte_reads _).bind (read.map (RuleEnginePara.mk rule.name rule.rule_token))

theorem readRule_reads (representable : rule.Representable) (points : ¬ rule.NoPoints) :
    Reads readRule rule.bytes rule :=
  readRule_step representable (readItems_reads representable.items points)

/-- The bytes of a rule without points that the decoder steps over. -/
def RuleEnginePara.front (rule : RuleEnginePara) : List UInt8 :=
  setCmdString rule.name ++ (setCmdString rule.rule_token ++
    ([UInt8.ofNat rule.items.ruleType] ++ rule.items.bytes.dropLast))

theorem RuleEnginePara.bytes_eq_front (noPoints : rule.NoPoints) :
    rule.bytes = rule.front ++ [rule.items.metadataStream] := by
  rw [bytes, front, RuleEngineItems.bytes_dropLast noPoints]
  simp only [List.append_assoc, List.dropLast_concat]

theorem readRule_withoutMetadata (representable : rule.Representable) (noPoints : rule.NoPoints) :
    Reads readRule rule.front { rule with items := rule.items.withoutMetadata } :=
  readRule_step representable (readItems_withoutMetadata noPoints)

theorem readCmdString_lag {str : CmdString} (bounded : str.length < 2 ^ 32)
    (run : readCmdString.run (0 :: (setCmdString str ++ tail)) = .ok (str, left)) :
    str = [] ∧ left = 0 :: tail := by
  have early : (0 : UInt8) :: (setCmdString str ++ tail) =
      setDword (str.length / 256) ++ (UInt8.ofNat str.length :: (str ++ tail)) := by
    have top : str.length / 256 / 65536 / 256 = 0 := by omega
    have second : str.length / 65536 / 256 = str.length / 256 / 65536 := by omega
    have third : str.length / 65536 = str.length / 256 / 256 := by omega
    rw [setCmdString, setDword, setWord, setWord, setDword, setWord, setWord, top, second, third]
    rfl
  have length : (UInt32.ofNat (str.length / 256)).toNat = str.length / 256 :=
    UInt32.toNat_ofNat_of_lt' (show _ < 2 ^ 32 by omega)
  have lengthRead := readDword_reads (UInt32.ofNat (str.length / 256))
  rw [length] at lengthRead
  rw [early, readCmdString, lengthRead.run_bind_iff, symbols_eq_ok_iff, length] at run
  obtain ⟨whole, shorter⟩ := run
  have noPoints : str = [] := List.eq_nil_of_length_eq_zero (by omega)
  rw [noPoints] at whole
  exact ⟨noPoints, whole.symm⟩

theorem readRule_lag (representable : rule.Representable) :
    readRule.run (0 :: (rule.bytes ++ tail)) ≠ .ok (rule, left) := by
  intro run
  rw [RuleEnginePara.bytes, List.append_assoc, List.append_assoc, List.append_assoc, readRule,
    run_bind_eq_ok_iff] at run
  obtain ⟨name, afterName, nameRun, run⟩ := run
  obtain ⟨rule_token, afterToken, tokenRun, run⟩ := run_bind_eq_ok_iff.mp run
  obtain ⟨rule_type, afterType, typeRun, run⟩ := run_bind_eq_ok_iff.mp run
  obtain ⟨items, afterItems, itemsRun, run⟩ := run_bind_eq_ok_iff.mp run
  obtain ⟨same, -⟩ := run_pure_eq_ok_iff.mp run
  subst same
  obtain ⟨-, rfl⟩ := readCmdString_lag representable.name nameRun
  obtain ⟨-, rfl⟩ := readCmdString_lag representable.rule_token tokenRun
  cases (readByte_reads 0 _).symm.trans typeRun
  obtain ⟨rfl, -⟩ := run_pure_eq_ok_iff.mp itemsRun
  exact representable.items.known

/-- Behind a rule without points there is no other, and its metadata stream is off. -/
def ReadBack (rules : List RuleEnginePara) : Prop :=
  ∀ before rule after, rules = before ++ rule :: after → rule.NoPoints →
    after = [] ∧ rule.items.metadataStream = 0

theorem readBack_nil : ReadBack [] := by
  intro before rule after split
  cases before <;> cases split

theorem readBack_cons_iff :
    ReadBack (rule :: rules) ↔
      (rule.NoPoints → rules = [] ∧ rule.items.metadataStream = 0) ∧ ReadBack rules := by
  constructor
  · intro readBack
    refine ⟨readBack [] rule rules rfl, fun before other after split => ?_⟩
    exact readBack (rule :: before) other after (congrArg (List.cons rule) split)
  · intro ⟨here, later⟩ before other after split
    rcases List.cons_eq_append_iff.mp split with ⟨rfl, same⟩ | ⟨others, rfl, rest⟩
    · obtain ⟨rfl, rfl⟩ := List.cons.inj same
      exact here
    · exact later others other after rest

theorem many_readRule_iff (representable : ∀ rule ∈ rules, rule.Representable) (tail : List UInt8) :
    (∃ left, (many readRule rules.length).run
      (rules.flatMap RuleEnginePara.bytes ++ tail) = .ok (rules, left)) ↔
      ReadBack rules := by
  induction rules with
  | nil =>
    exact iff_of_true ⟨tail, rfl⟩ readBack_nil
  | cons rule rules ih =>
    obtain ⟨here, later⟩ := List.forall_mem_cons.mp representable
    rw [readBack_cons_iff, List.length_cons, List.flatMap_cons, List.append_assoc]
    by_cases points : rule.NoPoints
    · rw [RuleEnginePara.bytes_eq_front points, List.append_assoc]
      simp only [(readRule_withoutMetadata here points).many_succ_iff]
      constructor
      · intro ⟨left, same, run⟩
        have off : rule.items.metadataStream = 0 :=
          (withoutMetadata_eq_self_iff points).mp (congrArg RuleEnginePara.items same)
        cases rules with
        | nil => exact ⟨fun _ => ⟨rfl, off⟩, (ih later).mp ⟨tail, rfl⟩⟩
        | cons next rules =>
          rw [off] at run
          obtain ⟨between, first⟩ := many_cons_head run
          rw [List.singleton_append, List.flatMap_cons, List.append_assoc] at first
          exact absurd first (readRule_lag (later _ List.mem_cons_self))
      · intro ⟨alone, _⟩
        obtain ⟨rfl, off⟩ := alone points
        have same : rule.items.withoutMetadata = rule.items :=
          (withoutMetadata_eq_self_iff points).mpr off
        rw [same]
        exact ⟨_, rfl, rfl⟩
    · simp only [(readRule_reads here points).many_succ_iff, true_and]
      rw [ih later]
      exact ⟨fun readBack => ⟨fun noPoints => absurd noPoints points, readBack⟩, fun both => both.2⟩

/-! ## The command -/

/-- Every length fits into the field that holds it, and every rule is of a known type. -/
structure GetRulesOutputInfo.Representable (info : GetRulesOutputInfo) : Prop where
  user_name : info.user_name.length < 2 ^ 32
  password : info.password.length < 2 ^ 32
  rules : info.rules.length < 256
  each : ∀ rule ∈ info.rules, rule.Representable

variable {info : GetRulesOutputInfo}

theorem readRules_iff (representable : info.Representable) (tail : List UInt8) :
    (∃ left, (readRules info.rules.length).run
        (info.rules.flatMap RuleEnginePara.bytes ++ tail) = .ok (info.rules, left)) ↔
      ReadBack info.rules := by
  rw [← many_readRule_iff representable.each tail, readRules]
  split
  · rfl
  · next refused =>
    have noPoints : info.rules = [] := by
      refine List.eq_nil_of_length_eq_zero ?_
      rw [tscmMalloc, decide_eq_true_eq, not_not, ruleEngineParaSize] at refused
      omega
    rw [noPoints]
    rfl

theorem getRulesOutputDec_iff (representable : info.Representable) (tail : List UInt8) :
    getRulesOutputDec (info.data ++ tail) = .ok info ↔
      info.cmd_code = UInt16.ofNat cmdGetRulesOutput ∧ ReadBack info.rules := by
  have dec : getRulesOutputDec (info.data ++ tail) = .ok info ↔
      ∃ left, readInfo.run (info.data ++ tail) = .ok (info, left) := by
    rw [getRulesOutputDec]
    cases readInfo.run (info.data ++ tail) with
    | error stop =>
      constructor
      · intro same
        cases same
      · intro ⟨left, same⟩
        cases same
    | ok result =>
      constructor
      · intro same
        exact ⟨result.2, congrArg (fun read => Except.ok (read, result.2)) (Except.ok.inj same)⟩
      · intro ⟨left, same⟩
        rw [same]
        rfl
  have code : Reads readWord (setWord cmdGetRulesOutput) (UInt16.ofNat cmdGetRulesOutput) :=
    readWord_reads (UInt16.ofNat cmdGetRulesOutput)
  have size : (UInt8.ofNat info.rules.length).toNat = info.rules.length :=
    UInt8.toNat_ofNat_of_lt' representable.rules
  rw [dec, ← readRules_iff representable tail, GetRulesOutputInfo.data]
  simp only [List.append_assoc, readInfo, code.run_bind_iff,
    (readByte_reads _).run_bind_iff, (readCmdString_reads representable.user_name).run_bind_iff,
    (readCmdString_reads representable.password).run_bind_iff, size, run_bind_eq_ok_iff,
    run_pure_eq_ok_iff]
  constructor
  · intro ⟨left, rules, between, run, same, _⟩
    have sameCode := congrArg GetRulesOutputInfo.cmd_code same
    have sameRules : rules = info.rules := congrArg GetRulesOutputInfo.rules same
    rw [sameRules] at run
    exact ⟨sameCode.symm, between, run⟩
  · intro ⟨sameCode, left, run⟩
    refine ⟨left, info.rules, left, run, ?_, rfl⟩
    rw [← sameCode]

theorem rules_length (rules : List RuleEnginePara) :
    (rules.flatMap RuleEnginePara.bytes).length = (rules.map RuleEnginePara.size).sum := by
  rw [List.length_flatMap]
  refine congrArg List.sum (List.map_congr_left fun rule _ => ?_)
  rw [RuleEnginePara.bytes, RuleEnginePara.size, List.length_append, List.length_append,
    List.length_append, length_setCmdString, length_setCmdString, bytes_length,
    List.length_singleton]
  omega

theorem length_written (info : GetRulesOutputInfo) : info.written.length + 1 = info.size := by
  simp only [GetRulesOutputInfo.written, GetRulesOutputInfo.data, GetRulesOutputInfo.size,
    List.length_append, length_setDword, length_setCmdString, rules_length, setWord,
    List.length_cons, List.length_nil]
  omega

theorem getRulesOutputCmdCtxtNew_eq (bounded : info.size < 2 ^ 32) :
    ∃ checkSum, getRulesOutputCmdCtxtNew info = .ok (some (info.written ++ [checkSum])) := by
  have length := length_written info
  have uncut : info.cmdLength = info.written.length + 1 := by
    rw [GetRulesOutputInfo.cmdLength, Nat.mod_eq_of_lt bounded, length]
  have granted : tscmMalloc info.cmdLength = true := by
    rw [uncut]
    rfl
  have body : overwrite 0 info.written (List.replicate info.cmdLength 0) =
    info.written ++ [0] := by
    rw [overwrite, List.take_zero, List.nil_append, List.drop_replicate, uncut, Nat.zero_add,
      Nat.add_sub_cancel_left]
    rfl
  have last (checkSum : UInt8) :
      overwrite (info.cmdLength - 1) [checkSum] (info.written ++ [0]) =
        info.written ++ [checkSum] := by
    rw [overwrite, uncut, Nat.add_sub_cancel, List.take_left, List.length_singleton,
      List.drop_eq_nil_of_le (by rw [List.length_append]; rfl), List.append_nil]
  rw [getRulesOutputCmdCtxtNew, if_pos granted, if_pos (by omega)]
  dsimp only
  rw [body, last]
  exact ⟨_, rfl⟩

theorem getRulesOutputCmdCtxtNew_cut (large : 2 ^ 32 ≤ info.size) (ctxt : List UInt8) :
    getRulesOutputCmdCtxtNew info ≠ .ok (some ctxt) := by
  have length := length_written info
  have cut : info.cmdLength < 2 ^ 32 := Nat.mod_lt _ (by decide)
  have smaller : info.cmdLength + 2 ^ 32 ≤ info.size := by
    rw [GetRulesOutputInfo.cmdLength]
    omega
  rw [getRulesOutputCmdCtxtNew]
  split
  · rw [if_neg (by omega)]
    intro same
    cases same
  · intro same
    cases same

/-- The encoder writes as many bytes as it has computed and the decoder gives the
value back exactly when the value has the code of the command, its length has 32 bits,
and only the last rule may have a list without points, with its metadata stream off. -/
theorem getRulesOutput_roundTrip_iff (info : GetRulesOutputInfo)
    (representable : info.Representable) :
    (info.written.length + 1 = info.cmdLength ∧
        ∃ ctxt, getRulesOutputCmdCtxtNew info = .ok (some ctxt) ∧
          getRulesOutputDec (ctxt.drop 4) = .ok info) ↔
      info.cmd_code = UInt16.ofNat cmdGetRulesOutput ∧
        17 + info.user_name.length + info.password.length +
            (info.rules.map fun rule =>
              9 + rule.name.length + rule.rule_token.length + rule.items.size).sum < 2 ^ 32 ∧
          ∀ before rule after, info.rules = before ++ rule :: after →
            rule.items.polyline? = some [] → after = [] ∧ rule.items.metadataStream = 0 := by
  have total : 17 + info.user_name.length + info.password.length +
      (info.rules.map fun rule =>
        9 + rule.name.length + rule.rule_token.length + rule.items.size).sum = info.size := by
    have each : (info.rules.map fun rule =>
        9 + rule.name.length + rule.rule_token.length + rule.items.size) =
          info.rules.map RuleEnginePara.size := by
      refine List.map_congr_left fun rule _ => ?_
      rw [RuleEnginePara.size]
      omega
    rw [each, GetRulesOutputInfo.size]
    omega
  have drop (checkSum : UInt8) :
      (info.written ++ [checkSum]).drop 4 = info.data ++ [checkSum] := by
    rw [GetRulesOutputInfo.written, List.append_assoc]
    exact List.drop_left' rfl
  rw [total]
  constructor
  · intro ⟨_, ctxt, built, decoded⟩
    have bounded : info.size < 2 ^ 32 := by
      by_contra large
      exact getRulesOutputCmdCtxtNew_cut (Nat.le_of_not_lt large) ctxt built
    obtain ⟨checkSum, written⟩ := getRulesOutputCmdCtxtNew_eq bounded
    cases written.symm.trans built
    rw [drop] at decoded
    obtain ⟨code, readBack⟩ := (getRulesOutputDec_iff representable _).mp decoded
    exact ⟨code, bounded, readBack⟩
  · intro ⟨code, bounded, readBack⟩
    obtain ⟨checkSum, written⟩ := getRulesOutputCmdCtxtNew_eq bounded
    refine ⟨?_, _, written, ?_⟩
    · rw [length_written, GetRulesOutputInfo.cmdLength, Nat.mod_eq_of_lt bounded]
    · rw [drop]
      exact (getRulesOutputDec_iff representable _).mpr ⟨code, readBack⟩

/-- A line of one point, and a field without points whose metadata stream is off. -/
def lineThenField : GetRulesOutputInfo :=
  ⟨UInt16.ofNat cmdGetRulesOutput, 0, [97], [98],
    [⟨[108], [49], .lineDetector 1 [⟨16, 32⟩] 1⟩, ⟨[102], [50], .fieldDetector [] 0⟩]⟩

def fieldThenLine : GetRulesOutputInfo :=
  { lineThenField with rules := lineThenField.rules.reverse }

theorem line_representable :
    RuleEnginePara.Representable ⟨[108], [49], .lineDetector 1 [⟨16, 32⟩] 1⟩ where
  name := by decide
  rule_token := by decide
  items := ⟨trivial, by decide, nofun⟩

theorem field_representable : RuleEnginePara.Representable ⟨[102], [50], .fieldDetector [] 0⟩ where
  name := by decide
  rule_token := by decide
  items := ⟨trivial, by decide, nofun⟩

theorem getRulesOutput_roundTrip_iff_lineThenField :
    lineThenField.written.length + 1 = lineThenField.cmdLength ∧
      ∃ ctxt, getRulesOutputCmdCtxtNew lineThenField = .ok (some ctxt) ∧
        getRulesOutputDec (ctxt.drop 4) = .ok lineThenField :=
  (getRulesOutput_roundTrip_iff lineThenField
    ⟨by decide, by decide, by decide, List.forall_mem_cons.mpr
      ⟨line_representable, List.forall_mem_singleton.mpr field_representable⟩⟩).mpr
    ⟨rfl, by decide, readBack_cons_iff.mpr ⟨(fun points => by cases points),
      readBack_cons_iff.mpr ⟨fun _ => ⟨rfl, rfl⟩, readBack_nil⟩⟩⟩

/-- Behind a field without points the length of the next name is read one byte early,
and the length of its token is far behind the end of the context. -/
theorem getRulesOutput_notReadBack :
    fieldThenLine.Representable ∧
      ∃ ctxt, getRulesOutputCmdCtxtNew fieldThenLine = .ok (some ctxt) ∧
        getRulesOutputDec (ctxt.drop 4) = .error .buffer := by
  refine ⟨⟨by decide, by decide, by decide, ?_⟩, _, rfl, rfl⟩
  exact List.forall_mem_cons.mpr ⟨field_representable,
    List.forall_mem_singleton.mpr line_representable⟩

end IteSdk.Tscam
