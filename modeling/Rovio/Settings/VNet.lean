import Mathlib.Algebra.GroupWithZero.Nat
import Rovio.Kit.Decimal
import Rovio.Settings.Wlan

/-! `Config_SetVNet` and `Config_GetVNet`: the tunnel to a server, and its channels, which travel as
one text of port numbers and type characters. -/
namespace Rovio.Settings
open Rovio.Http Kit

/-- What else the HTTP library does with strings: numbers to texts and back. -/
structure VNetLib extends StringLib where
  httpLong2String : Int32 → CString
  httpString2Bool : CString → Bool
  long_back : ∀ n, httpString2Long (httpLong2String n) = n.toInt
  bool_back : httpString2Bool (httpLong2String 1) = true ∧
    httpString2Bool (httpLong2String 0) = false

/-- The part of `g_ConfigParam` that is about the tunnel. -/
structure VNetConfig where
  bEnableBPS : Bool
  acBPSDomainName : Text 32
  aiBPSLocalPort : Nat → Int32
  acBPSType : Nat → Char
  iBPSPort : Int32
  iBPSChannelsNum : Nat
  uDelayTime_InMSec : UInt32
  channels_le : iBPSChannelsNum ≤ 6

/-- The parameters of a call, the absent ones NULL. -/
structure VNetRequest where
  enable : Option CString
  server : Option CString
  port : Option CString
  description : Option CString
  interval : Option CString

structure VNetReport where
  enable : CString
  server : CString
  port : CString
  description : CString
  interval : CString

/-! ### sscanf -/

def isSpace (c : Char) : Bool :=
  c = ' ' || c = '\t' || c = '\n' || c = '\x0b' || c = '\x0c' || c = '\r'

/-- `BUF` without its final zero. -/
def scanWidth : Nat := 325

def strtol : CString → Int32
  | '+' :: digits => Int32.ofIntClamp (decimalValue digits)
  | text => Int32.ofIntClamp (decimalValue text)

/-- The sign and the digits that `%d` takes. -/
def numberText : CString → CString
  | '+' :: rest => '+' :: rest.takeWhile Char.isDigit
  | '-' :: rest => '-' :: rest.takeWhile Char.isDigit
  | text => text.takeWhile Char.isDigit

/-- `%d`: the number and what is left of the input. -/
def scanInt (input : CString) : Option (Int32 × CString) :=
  let input := input.dropWhile isSpace
  let text := numberText (input.take scanWidth)
  if text.any Char.isDigit then some (strtol text, input.drop text.length) else none

/-- `n` times "%d%c": the numbers, each with its character unless the input ends before it. -/
def scanPairs : Nat → CString → List (Int32 × Option Char)
  | 0, _ => []
  | n + 1, input =>
    match scanInt input with
    | none => []
    | some (number, []) => [(number, none)]
    | some (number, c :: rest) => (number, some c) :: scanPairs n rest

/-- How many fields are assigned; a return of -1 is 0 here. -/
def fields (pairs : List (Int32 × Option Char)) : Nat :=
  (pairs.map fun pair => if pair.2.isSome then 2 else 1).sum

/-! ### The two calls -/

def assign : Nat → List (Int32 × Option Char) → (Nat → Int32) → (Nat → Char) →
    (Nat → Int32) × (Nat → Char)
  | _, [], ports, types => (ports, types)
  | i, (port, type) :: rest, ports, types =>
    assign (i + 1) rest (Function.update ports i port)
      (match type with
        | none => types
        | some type => Function.update types i type)

theorem fields_le (n : Nat) (input : CString) : fields (scanPairs n input) ≤ 2 * n := by
  induction n generalizing input with
  | zero => exact Nat.le_refl _
  | succ n ih =>
    unfold scanPairs
    split
    · exact Nat.zero_le _
    · simp [fields]
      omega
    · rename_i rest _
      have tail := ih rest
      simp only [fields, List.map_cons, List.sum_cons] at tail ⊢
      simp
      omega

def setEnable (lib : VNetLib) (config : VNetConfig) : Option CString → VNetConfig
  | none => config
  | some enable => { config with bEnableBPS := lib.httpString2Bool enable }

def setServer (lib : VNetLib) (config : VNetConfig) : Option CString → VNetConfig
  | none => config
  | some server => { config with acBPSDomainName := lib.text (Nat.zero_lt_succ 31) server }

def setPort (lib : VNetLib) (config : VNetConfig) : Option CString → VNetConfig
  | none => config
  | some port => { config with iBPSPort := Int32.ofInt (lib.httpString2Long port) }

def setDescription (config : VNetConfig) : Option CString → VNetConfig
  | none => config
  | some description =>
    let pairs := scanPairs 6 description
    { config with
      aiBPSLocalPort := (assign 0 pairs config.aiBPSLocalPort config.acBPSType).1
      acBPSType := (assign 0 pairs config.aiBPSLocalPort config.acBPSType).2
      iBPSChannelsNum := fields pairs / 2
      channels_le := Nat.div_le_of_le_mul (fields_le 6 description) }

def setInterval (lib : VNetLib) (config : VNetConfig) : Option CString → VNetConfig
  | none => config
  | some interval =>
    { config with uDelayTime_InMSec := (Int32.ofInt (lib.httpString2Long interval)).toUInt32 }

def configSetVNet (lib : VNetLib) (config : VNetConfig) (request : VNetRequest) : VNetConfig :=
  let config := setEnable lib config request.enable
  let config := setServer lib config request.server
  let config := setPort lib config request.port
  let config := setDescription config request.description
  setInterval lib config request.interval

/-- `sprintf` of one channel. -/
def channelText (port : Int32) (type : Char) : CString :=
  decimalText port.toInt ++ [if type = 'v' ∨ type = 'V' then 'V' else 'C']

/-- `acDescription`, which has whatever is left on the stack until something is printed there. -/
def acDescription (config : VNetConfig) (leftover : CString) : CString :=
  if config.iBPSChannelsNum = 0 then leftover
  else (List.range' 0 config.iBPSChannelsNum).flatMap fun i =>
    channelText (config.aiBPSLocalPort i) (config.acBPSType i)

def configGetVNet (lib : VNetLib) (config : VNetConfig) (leftover : CString) : VNetReport where
  enable := lib.httpLong2String (if config.bEnableBPS then 1 else 0)
  server := config.acBPSDomainName.val
  port := lib.httpLong2String config.iBPSPort
  description := acDescription config leftover
  interval := lib.httpLong2String config.uDelayTime_InMSec.toInt32

/-! ### What is asked for -/

/-- The report says what the configuration has, each channel with its own type. -/
structure Reports (lib : VNetLib) (config : VNetConfig) (report : VNetReport) : Prop where
  enable : lib.httpString2Bool report.enable = config.bEnableBPS
  server : report.server = config.acBPSDomainName.val
  port : lib.httpString2Long report.port = config.iBPSPort.toInt
  description : report.description = (List.range' 0 config.iBPSChannelsNum).flatMap fun i =>
    decimalText (config.aiBPSLocalPort i).toInt ++ [config.acBPSType i]
  interval : (Int32.ofInt (lib.httpString2Long report.interval)).toUInt32 = config.uDelayTime_InMSec

def VNetReport.request (report : VNetReport) : VNetRequest where
  enable := some report.enable
  server := some report.server
  port := some report.port
  description := some report.description
  interval := some report.interval

/-! ### Reading the text back -/

section
variable {digits rest : CString} {type : Char} {port : Int32}

theorem takeWhile_digits (all : ∀ c ∈ digits, c.isDigit) (other : type.isDigit = false) :
    (digits ++ type :: rest).takeWhile Char.isDigit = digits := by
  rw [List.takeWhile_append_of_pos all, List.takeWhile_cons_of_neg (by simp [other]),
    List.append_nil]

theorem digit_ne_sign {c : Char} (digit : c.isDigit = true) : c ≠ '+' ∧ c ≠ '-' := by
  refine ⟨?_, ?_⟩ <;> (rintro rfl; exact absurd digit (by decide))

theorem numberText_digits (all : ∀ c ∈ digits, c.isDigit) (some : digits ≠ [])
    (other : type.isDigit = false) : numberText (digits ++ type :: rest) = digits := by
  have taken : (digits ++ type :: rest).takeWhile Char.isDigit = digits :=
    takeWhile_digits all other
  cases digits with
  | nil => exact absurd rfl some
  | cons c ds =>
    obtain ⟨plus, minus⟩ := digit_ne_sign (all c List.mem_cons_self)
    unfold numberText
    split
    · rename_i same
      exact absurd (List.cons.inj same).1 plus
    · rename_i same
      exact absurd (List.cons.inj same).1 minus
    · exact taken

theorem numberText_decimal (n : Int) (other : type.isDigit = false) :
    numberText (decimalText n ++ type :: rest) = decimalText n := by
  have digits (n : Nat) : ∀ c ∈ Nat.toDigits 10 n, c.isDigit := fun c here => toDigits_isDigit here
  cases n with
  | ofNat n =>
    exact numberText_digits (digits n) (List.ne_nil_of_length_pos Nat.length_toDigits_pos) other
  | negSucc n =>
    exact congrArg ('-' :: ·) (takeWhile_digits (digits (n + 1)) other)

/-- The first character of a number is no space and no plus sign. -/
theorem decimalText_first (n : Int) : ∃ c text, decimalText n = c :: text ∧
    isSpace c = false ∧ c ≠ '+' := by
  cases whole : decimalText n with
  | nil =>
    have some := decimalText_length_pos n
    rw [whole] at some
    exact absurd some (Nat.lt_irrefl 0)
  | cons c text =>
    refine ⟨c, text, rfl, ?_⟩
    rcases decimalText_plain (n := n) (whole ▸ List.mem_cons_self) with digit | rfl
    · refine ⟨?_, (digit_ne_sign digit).1⟩
      simp only [isSpace, Bool.or_eq_false_iff, decide_eq_false_iff_not]
      refine ⟨⟨⟨⟨⟨?_, ?_⟩, ?_⟩, ?_⟩, ?_⟩, ?_⟩ <;> (rintro rfl; exact absurd digit (by decide))
    · decide

theorem decimalText_any (n : Int) : (decimalText n).any Char.isDigit = true := by
  have digits (n : Nat) : (Nat.toDigits 10 n).any Char.isDigit = true := by
    obtain ⟨c, ds, whole⟩ := List.exists_cons_of_length_pos (@Nat.length_toDigits_pos 10 n)
    have first : c.isDigit = true := toDigits_isDigit (n := n) (by rw [whole]; simp)
    rw [whole, List.any_cons, first, Bool.true_or]
  cases n with
  | ofNat n => exact digits n
  | negSucc n =>
    rw [decimalText, List.any_cons, digits, Bool.or_true]

/-- `%d` reads back what `%d` has printed in front of a type character. -/
theorem scanInt_text (port : Int32) (other : type.isDigit = false) :
    scanInt (decimalText port.toInt ++ type :: rest) = some (port, type :: rest) := by
  obtain ⟨c, text, whole, noSpace, noPlus⟩ := decimalText_first port.toInt
  have short : (decimalText port.toInt).length ≤ 11 := by
    have low := port.le_toInt
    have high := port.toInt_lt
    exact decimalText_length_le (by omega) (by omega)
  have skipped : (decimalText port.toInt ++ type :: rest).dropWhile isSpace =
      decimalText port.toInt ++ type :: rest := by
    rw [whole, List.cons_append, List.dropWhile_cons_of_neg (by simp [noSpace])]
  have cut : ∃ left, (decimalText port.toInt ++ type :: rest).take scanWidth =
      decimalText port.toInt ++ type :: left := by
    obtain ⟨n, room⟩ : ∃ n, scanWidth - (decimalText port.toInt).length = n + 1 :=
      ⟨scanWidth - (decimalText port.toInt).length - 1, by unfold scanWidth; omega⟩
    refine ⟨rest.take n, ?_⟩
    rw [List.take_append, room, List.take_of_length_le (by unfold scanWidth; omega),
      List.take_succ_cons]
  obtain ⟨left, cut⟩ := cut
  have value : strtol (decimalText port.toInt) = port := by
    have back : Int32.ofIntClamp (decimalValue (decimalText port.toInt)) = port := by
      rw [decimalValue_text, Int32.ofIntClamp_toInt]
    unfold strtol
    split
    · rename_i same
      exact absurd (List.cons.inj (whole.symm.trans same)).1 noPlus
    · exact back
  unfold scanInt
  simp only [skipped, cut, numberText_decimal port.toInt other, decimalText_any, value,
    List.drop_left, if_true]

end

variable {lib : VNetLib} {config : VNetConfig}

/-- The channels from `i` on, as the text has them. -/
def channels (config : VNetConfig) (i n : Nat) : List (Int32 × Option Char) :=
  (List.range' i n).map fun i => (config.aiBPSLocalPort i, some (config.acBPSType i))

/-- A type that is reported as it is. -/
def Plain (type : Char) : Prop := type = 'V' ∨ type = 'C'

instance (type : Char) : Decidable (Plain type) := inferInstanceAs (Decidable (_ ∨ _))

theorem plain_reported {type : Char} :
    (if type = 'v' ∨ type = 'V' then 'V' else 'C') = type ↔ Plain type := by
  unfold Plain
  split
  · rename_i video
    rcases video with rfl | rfl <;> decide
  · rename_i other
    constructor
    · rintro rfl
      exact .inr rfl
    · rintro (rfl | rfl)
      · exact absurd (.inr rfl) other
      · rfl

/-- As many channels as there are times "%d%c" are read back from their text. -/
theorem scanPairs_text (config : VNetConfig) (i n m : Nat) (room : n ≤ m)
    (plain : ∀ k, i ≤ k → k < i + n → Plain (config.acBPSType k)) :
    scanPairs m ((List.range' i n).flatMap fun i =>
      channelText (config.aiBPSLocalPort i) (config.acBPSType i)) = channels config i n := by
  induction n generalizing i m with
  | zero => 
    cases m <;> rfl
  | succ n ih =>
    obtain ⟨m, rfl⟩ := Nat.exists_eq_add_of_le' room
    have mine := plain i (Nat.le_refl i) (by omega)
    have digit : (config.acBPSType i).isDigit = false := by
      rcases mine with video | control
      · rw [video]; rfl
      · rw [control]; rfl
    have tail := ih (i + 1) (m + n) (by omega) fun k low high => plain k (by omega) (by omega)
    have first : scanInt (decimalText (config.aiBPSLocalPort i).toInt ++ config.acBPSType i ::
        (List.range' (i + 1) n).flatMap fun i =>
          channelText (config.aiBPSLocalPort i) (config.acBPSType i)) = _ := scanInt_text _ digit
    have text : (List.range' i (n + 1)).flatMap (fun i =>
        channelText (config.aiBPSLocalPort i) (config.acBPSType i)) =
        decimalText (config.aiBPSLocalPort i).toInt ++ config.acBPSType i ::
          (List.range' (i + 1) n).flatMap fun i =>
            channelText (config.aiBPSLocalPort i) (config.acBPSType i) := by
      rw [List.range'_succ, List.flatMap_cons, channelText, plain_reported.mpr mine]
      simp
    show scanPairs (m + n + 1) _ = _
    rw [text, scanPairs, first]
    simp only [tail]
    rfl

theorem fields_channels (config : VNetConfig) (i n : Nat) :
    fields (channels config i n) = 2 * n := by
  induction n generalizing i with
  | zero => rfl
  | succ n ih =>
    have tail := ih (i + 1)
    simp only [fields, channels, List.range'_succ, List.map_cons, List.sum_cons] at tail ⊢
    rw [tail]
    simp
    omega

theorem assign_channels (config : VNetConfig) (i n : Nat) :
    assign i (channels config i n) config.aiBPSLocalPort config.acBPSType =
      (config.aiBPSLocalPort, config.acBPSType) := by
  induction n generalizing i with
  | zero => rfl
  | succ n ih =>
    show assign i ((config.aiBPSLocalPort i, some (config.acBPSType i)) ::
      channels config (i + 1) n) _ _ = _
    rw [assign, Function.update_eq_self, Function.update_eq_self]
    exact ih (i + 1)

/-- Setting the channels to what is reported of them changes nothing. -/
theorem setDescription_same (config : VNetConfig) (leftover : CString)
    (any : 0 < config.iBPSChannelsNum)
    (plain : ∀ i < config.iBPSChannelsNum, Plain (config.acBPSType i)) :
    setDescription config (some (acDescription config leftover)) = config := by
  have scanned := scanPairs_text config 0 config.iBPSChannelsNum 6 config.channels_le
    fun k _ high => plain k (by omega)
  unfold setDescription acDescription
  simp only [if_neg (Nat.ne_of_gt any), scanned, fields_channels, assign_channels,
    Nat.mul_div_cancel_left _ (Nat.zero_lt_succ 1)]

/-- What the tunnel's settings are reported as, and what comes of submitting that again. -/
def RoundTrips (lib : VNetLib) (config : VNetConfig) : Prop :=
  ∀ leftover, Reports lib config (configGetVNet lib config leftover) ∧
    configSetVNet lib config (configGetVNet lib config leftover).request = config

theorem flatMap_same {f g : Nat → CString} (sizes : ∀ k, (f k).length = (g k).length)
    (l : List Nat) : l.flatMap f = l.flatMap g ↔ ∀ k ∈ l, f k = g k := by
  induction l with
  | nil => simp
  | cons k l ih =>
    rw [List.flatMap_cons, List.flatMap_cons, List.forall_mem_cons, ← ih]
    exact ⟨fun same => List.append_inj same (sizes k), fun ⟨first, rest⟩ => by rw [first, rest]⟩

/-- The channels are reported as they are exactly when each type is one of those reported. -/
theorem description_reported (leftover : CString) (some : 0 < config.iBPSChannelsNum) :
    acDescription config leftover = (List.range' 0 config.iBPSChannelsNum).flatMap (fun i =>
      decimalText (config.aiBPSLocalPort i).toInt ++ [config.acBPSType i]) ↔
    ∀ i < config.iBPSChannelsNum, Plain (config.acBPSType i) := by
  rw [acDescription, if_neg (Nat.ne_of_gt some), flatMap_same fun k => by simp [channelText]]
  constructor
  · intro same i high
    have here := same i (List.mem_range'_1.mpr ⟨Nat.zero_le i, by omega⟩)
    rw [channelText, List.append_cancel_left_eq] at here
    exact plain_reported.mp (List.cons.inj here).1
  · intro plain i inside
    have high := (List.mem_range'_1.mp inside).2
    rw [channelText, plain_reported.mpr (plain i (by omega))]

/-- Everything but the channels is reported as it is. -/
theorem reports_iff (leftover : CString) :
    Reports lib config (configGetVNet lib config leftover) ↔
      acDescription config leftover = (List.range' 0 config.iBPSChannelsNum).flatMap fun i =>
        decimalText (config.aiBPSLocalPort i).toInt ++ [config.acBPSType i] := by
  refine ⟨fun reports => reports.description, fun description => ⟨?_, rfl, lib.long_back _,
    description, ?_⟩⟩
  · cases enable : config.bEnableBPS with
    | true => simpa [configGetVNet, enable] using lib.bool_back.1
    | false => simpa [configGetVNet, enable] using lib.bool_back.2
  · show (Int32.ofInt (lib.httpString2Long (lib.httpLong2String _))).toUInt32 = _
    rw [lib.long_back, Int32.ofInt_toInt]
    rfl

theorem text_same (s : Text 32) (room : 0 < 32) : lib.text room s.val = s :=
  Subtype.ext (lib.strncpy_short s.val 32 s.property)

theorem set_reported {report : VNetReport} (reports : Reports lib config report)
    (same : setDescription config (some report.description) = config) :
    configSetVNet lib config report.request = config := by
  have enable : setEnable lib config (some report.enable) = config := by
    rw [setEnable, reports.enable]
  have server : setServer lib config (some report.server) = config := by
    rw [setServer, reports.server, text_same]
  have port : setPort lib config (some report.port) = config := by
    rw [setPort, reports.port, Int32.ofInt_toInt]
  have interval : setInterval lib config (some report.interval) = config := by
    rw [setInterval, reports.interval]
  unfold configSetVNet VNetReport.request
  dsimp only
  rw [enable, server, port, same, interval]

/-- The settings are reported as they are, and stay when the report is submitted, exactly when there
is a channel and each has one of the types that are reported. -/
theorem vnet_round_trip (lib : VNetLib) (config : VNetConfig) :
    RoundTrips lib config ↔ 0 < config.iBPSChannelsNum ∧
      ∀ i < config.iBPSChannelsNum, Plain (config.acBPSType i) := by
  constructor
  · intro trips
    have some : 0 < config.iBPSChannelsNum := by
      refine Nat.pos_of_ne_zero fun none => ?_
      have empty := reports_iff [' '] |>.mp (trips [' ']).1
      rw [acDescription, if_pos none, none] at empty
      cases empty
    exact ⟨some, (description_reported [] some).mp ((reports_iff []).mp (trips []).1)⟩
  · rintro ⟨some, plain⟩ leftover
    have reports : Reports lib config _ :=
      (reports_iff leftover).mpr ((description_reported leftover some).mpr plain)
    exact ⟨reports, set_reported reports (setDescription_same config leftover some plain)⟩

/-- Texts that are decimal numbers. -/
def plainVNet : VNetLib where
  toStringLib := { plainStrings with httpString2Long := decimalValue }
  httpLong2String n := decimalText n.toInt
  httpString2Bool s := s ≠ ['0']
  long_back n := decimalValue_text n.toInt
  bool_back := ⟨rfl, rfl⟩

theorem vnet_round_trip_two : RoundTrips plainVNet
    ⟨true, ⟨['r'], by decide⟩, fun i => if i = 0 then 80 else -1,
      fun i => if i = 0 then 'V' else 'C', 21846, 2, 11000, by decide⟩ :=
  (vnet_round_trip plainVNet _).mpr (by decide)

/-- Without a channel the report has what was on the stack. -/
theorem no_channel_reported : ¬ ∀ (lib : VNetLib) (config : VNetConfig) (request : VNetRequest),
    RoundTrips lib (configSetVNet lib config request) := by
  intro trips
  have report := (trips plainVNet
    ⟨true, ⟨[], by decide⟩, fun _ => 80, fun _ => 'V', 21846, 1, 11000, by decide⟩
    ⟨none, none, none, some [], none⟩ ['x']).1.description
  have none : ['x'] = ([] : CString) := report
  cases none

end Rovio.Settings
