import Rovio.Period.Led

/-! The conditions that the calls make, the word that says them and the pattern they ask for. -/
namespace Rovio.Led
open Kit

/-! ### What the calls ask for -/

structure Conditions where
  error : Option LedError
  factoryDefault : Bool
  lowBattery : Bool
  network : Option LedNetwork

/-- As many times six blinks as the error's code, then a pause. -/
def errorPattern (e : LedError) : List LedDes :=
  (List.replicate e.code.toNat ((List.replicate 6 [⟨LED_GREEN, 5⟩, ⟨LED_RED, 5⟩]).flatten ++
    [⟨LED_ORANGE, 150⟩])).flatten ++ [⟨LED_BLACK, 150⟩]

def networkPattern (lowBattery : Bool) : Option LedNetwork → List LedDes
  | some .ready | some .connected =>
    if lowBattery then LED_DES_READY_LOW_BATTERY else LED_DES_READY
  | some .streaming => if lowBattery then LED_DES_STREAMING_LOW_BATTERY else LED_DES_STREAMING
  | some .init => if lowBattery then LED_DES_BOOTING_LOW_BATTERY else LED_DES_BOOTING
  | some .tryConnect | none =>
    if lowBattery then LED_DES_CONNECTING_LOW_BATTERY else LED_DES_CONNECTING

/-- An error is more serious than the factory default, and that than battery and network. -/
def Conditions.pattern (c : Conditions) : List LedDes :=
  match c.error with
  | some e => errorPattern e
  | none =>
    if c.factoryDefault then LED_DES_RESET_DEFAULT else networkPattern c.lowBattery c.network

/-- The conditions, and the pattern of the last call that asked for one. -/
structure Asked where
  conditions : Conditions
  pattern : Option (List LedDes)

def Asked.of (conditions : Conditions) : Asked := ⟨conditions, some conditions.pattern⟩

/-- The last error counts, and it ends when it is cleared itself. -/
def Asked.after (a : Asked) : LedCall → Asked
  | .ledError e => .of { a.conditions with error := some e }
  | .ledClearError e =>
    if a.conditions.error = some e then .of { a.conditions with error := none } else a
  | .ledSetFactoryDefault => .of { a.conditions with factoryDefault := true }
  | .ledClearFactoryDefault => .of { a.conditions with factoryDefault := false }
  | .ledSetLowBattery lowBattery => .of { a.conditions with lowBattery }
  | .ledSetNetwork network => .of { a.conditions with network := some network }
  | .ledShowState_PoweredOn => { a with pattern := some LED_DES_BOOTING }

def asked (calls : List LedCall) : Asked :=
  calls.foldl Asked.after ⟨⟨none, false, false, none⟩, none⟩

@[simp] theorem asked_append (calls : List LedCall) (c : LedCall) :
    asked (calls ++ [c]) = (asked calls).after c := by
  simp [asked]

/-! ### The word -/

/-- The fields of the word say the conditions. -/
structure Encodes (word : BitVec 32) (c : Conditions) : Prop where
  error : field word LED_ST_ERROR = if c.error.isSome then LED_ST_ERROR else 0
  code : field word LED_ST_MASK_ERROR_CODE = (c.error.map LedError.code).getD 0
  factoryDefault :
    field word LED_ST_SET_DEFAULT = if c.factoryDefault then LED_ST_SET_DEFAULT else 0
  lowBattery : field word LED_ST_LOW_BATTERY = if c.lowBattery then LED_ST_LOW_BATTERY else 0
  network : field word LED_ST_MASK_NETWORK = (c.network.map LedNetwork.state).getD 0

theorem encodes_zero : Encodes 0 ⟨none, false, false, none⟩ := by
  constructor <;> decide

@[simp] theorem field_code (e : LedError) : field e.code LED_ST_MASK_ERROR_CODE = e.code := by
  cases e <;> rfl

@[simp] theorem field_state (network : LedNetwork) :
    field network.state LED_ST_MASK_NETWORK = network.state := by
  cases network <;> rfl

theorem code_injective {e e' : LedError} (same : e.code = e'.code) : e = e' := by
  revert same
  cases e <;> cases e' <;> decide

theorem code_ne_zero (e : LedError) : e.code ≠ 0 := by
  cases e <;> decide

section
variable {word : BitVec 32} {c : Conditions}

theorem Encodes.setError (encodes : Encodes word c) (e : LedError) :
    Encodes (setField (setField word LED_ST_MASK_ERROR_CODE e.code) LED_ST_ERROR LED_ST_ERROR)
      { c with error := some e } := by
  obtain ⟨-, -, factoryDefault, lowBattery, network⟩ := encodes
  constructor <;> simp (disch := decide) [field_setField_apart, *]

theorem Encodes.clearError (encodes : Encodes word c) :
    Encodes (setField (setField word LED_ST_MASK_ERROR_CODE 0#32) LED_ST_ERROR 0#32)
      { c with error := none } := by
  obtain ⟨-, -, factoryDefault, lowBattery, network⟩ := encodes
  constructor <;> simp (disch := decide) [field_setField_apart, *]

theorem Encodes.setDefault (encodes : Encodes word c) (factoryDefault : Bool) :
    Encodes (setField word LED_ST_SET_DEFAULT (if factoryDefault then LED_ST_SET_DEFAULT else 0))
      { c with factoryDefault } := by
  obtain ⟨error, code, -, lowBattery, network⟩ := encodes
  constructor <;> cases factoryDefault <;> simp (disch := decide) [field_setField_apart, *]

theorem Encodes.setBattery (encodes : Encodes word c) (lowBattery : Bool) :
    Encodes (setField word LED_ST_LOW_BATTERY (if lowBattery then LED_ST_LOW_BATTERY else 0))
      { c with lowBattery } := by
  obtain ⟨error, code, factoryDefault, -, network⟩ := encodes
  constructor <;> cases lowBattery <;> simp (disch := decide) [field_setField_apart, *]

theorem Encodes.setNetwork (encodes : Encodes word c) (network : LedNetwork) :
    Encodes (setField word LED_ST_MASK_NETWORK network.state)
      { c with network := some network } := by
  obtain ⟨error, code, factoryDefault, lowBattery, -⟩ := encodes
  constructor <;> simp (disch := decide) [field_setField_apart, *]

end

/-! ### The patterns -/

/-- A pattern has entries, as many as the array takes; it goes on from each at last after 150 ticks,
and from a lone one perhaps never. -/
structure Showable (p : List LedDes) : Prop where
  entries : 0 < p.length ∧ p.length < 128
  short : ∀ des ∈ p, des.usTime ≤ 150
  ends : ∀ des ∈ p, des.usTime = 0 → p.length = 1

theorem errorDes_code (e : LedError) : errorDes e.code.toNat = errorPattern e := by
  cases e <;> rfl

theorem Showable.booting : Showable LED_DES_BOOTING := by
  constructor <;> decide

theorem Showable.error (e : LedError) : Showable (errorPattern e) := by
  cases e <;> constructor <;> decide

theorem Showable.factoryDefault : Showable LED_DES_RESET_DEFAULT := by
  constructor <;> decide

theorem Showable.network (lowBattery : Bool) (network : Option LedNetwork) :
    Showable (networkPattern lowBattery network) := by
  rcases network with _ | (_ | _ | _ | _ | _) <;> cases lowBattery <;> constructor <;> decide

theorem Conditions.showable (c : Conditions) : Showable c.pattern := by
  obtain ⟨error, factoryDefault, lowBattery, network⟩ := c
  cases error with
  | some e => exact .error e
  | none =>
    cases factoryDefault with
    | true => exact .factoryDefault
    | false => exact .network lowBattery network

theorem ledUpdateStatus_eq {s : Leds} {c : Conditions} (encodes : Encodes s.g_uLED_STATUS c) :
    ledUpdateStatus s = ledShowState s c.pattern := by
  obtain ⟨flag, code, default_, battery, state⟩ := encodes
  unfold field at flag code default_ battery state
  simp only [ledUpdateStatus, flag, code, default_, battery, state]
  obtain ⟨error, factoryDefault, lowBattery, network⟩ := c
  cases error with
  | some e =>
    have raised : LED_ST_ERROR ≠ 0 := by decide
    exact (if_pos raised).trans (congrArg _ (errorDes_code e))
  | none =>
    cases factoryDefault with
    | true => rfl
    | false => rcases network with _ | (_ | _ | _ | _ | _) <;> cases lowBattery <;> rfl

theorem code_cleared {word : BitVec 32} {c : Conditions} (encodes : Encodes word c)
    (e : LedError) :
    word &&& LED_ST_MASK_ERROR_CODE = e.code &&& LED_ST_MASK_ERROR_CODE ↔ c.error = some e := by
  have own : e.code &&& LED_ST_MASK_ERROR_CODE = e.code := field_code e
  have code := encodes.code
  unfold field at code
  rw [code, own]
  cases c.error with
  | none => simpa using (code_ne_zero e).symm
  | some e' => simpa using ⟨code_injective, congrArg _⟩

theorem flag_set (word : BitVec 32) : word ||| LED_ST_ERROR ≠ 0 := by
  intro zero
  have flag := field_setField word LED_ST_ERROR LED_ST_ERROR
  rw [← or_eq_setField, zero] at flag
  revert flag
  decide

/-- What a call does: nothing, or it asks for the pattern of what it makes of the conditions. -/
inductive Calls (s : Leds) (a : Asked) (c : LedCall) : Prop where
  | idle : s.call c = s → a.after c = a → Calls s a c
  | asks (word : BitVec 32) (p : List LedDes) : Encodes word (a.after c).conditions →
      (a.after c).pattern = some p → Showable p →
      s.call c = ledShowState { s with g_uLED_STATUS := word } p → Calls s a c

theorem calls_of {s : Leds} {a : Asked} {c : LedCall} {word : BitVec 32} {conditions : Conditions}
    (encodes : Encodes word conditions) (after : a.after c = .of conditions)
    (call : s.call c = ledUpdateStatus { s with g_uLED_STATUS := word }) : Calls s a c := by
  have updated : ledUpdateStatus { s with g_uLED_STATUS := word } = _ := ledUpdateStatus_eq encodes
  refine .asks word conditions.pattern ?_ ?_ conditions.showable (call.trans updated)
  · exact after ▸ encodes
  · rw [after, Asked.of]

theorem call_calls {s : Leds} {a : Asked} (encodes : Encodes s.g_uLED_STATUS a.conditions)
    (c : LedCall) : Calls s a c := by
  cases c with
  | ledError e =>
    refine calls_of (encodes.setError e) rfl ?_
    rw [← or_eq_setField]
    rfl
  | ledClearError e =>
    by_cases current : a.conditions.error = some e
    · refine calls_of encodes.clearError (if_pos current) ?_
      rw [← and_not_eq_setField, ← and_not_eq_setField]
      exact if_pos ⟨flag_set _, (code_cleared encodes e).mpr current⟩
    · exact .idle (if_neg fun cleared => current ((code_cleared encodes e).mp cleared.2))
        (if_neg current)
  | ledSetFactoryDefault =>
    refine calls_of (encodes.setDefault true) rfl ?_
    rw [if_pos rfl, ← or_eq_setField]
    rfl
  | ledClearFactoryDefault =>
    refine calls_of (encodes.setDefault false) rfl ?_
    rw [if_neg Bool.false_ne_true]
    exact congrArg (fun word => ledUpdateStatus { s with g_uLED_STATUS := word })
      (and_not_eq_setField ..)
  | ledSetLowBattery lowBattery =>
    refine calls_of (encodes.setBattery lowBattery) rfl ?_
    cases lowBattery <;> simp [Leds.call, ledSetLowBattery, setField]
  | ledSetNetwork network => exact calls_of (encodes.setNetwork network) rfl rfl
  | ledShowState_PoweredOn => exact .asks s.g_uLED_STATUS _ encodes rfl .booting rfl

end Rovio.Led
