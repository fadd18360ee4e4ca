import Rovio.Kit.Fields
import Rovio.Kit.Runs

/-! `PeriodTask_LED.c`: the two lights. The conditions of the camera are kept in a word, and the
pattern of the most serious one is copied to where the task of the period thread reads it. The
callers of the functions exclude each other; nothing keeps the task from reading while one of them
writes. -/
namespace Rovio.Led
open Kit

/-! ### Conditions and patterns -/

def LED_GPIO_RED : BitVec 32 := 0x01000000#32
def LED_GPIO_GREEN : BitVec 32 := 0x02000000#32

def LED_ST_MASK_NETWORK : BitVec 32 := 0x0F000000#32
def LED_ST_MASK_ERROR_CODE : BitVec 32 := 0x0000FFFF#32
def LED_ST_SET_DEFAULT : BitVec 32 := 0x80000000#32
def LED_ST_LOW_BATTERY : BitVec 32 := 0x40000000#32
def LED_ST_ERROR : BitVec 32 := 0x00100000#32

def LED_BLACK : Nat := 0
def LED_RED : Nat := 1
def LED_GREEN : Nat := 2
def LED_ORANGE : Nat := 3

inductive LedError where
  | wifi
  | videoSensor
  | audioCodec
  | mcu
  | noMem
  deriving DecidableEq

def LedError.code : LedError → BitVec 32
  | .wifi => 2
  | .videoSensor => 3
  | .audioCodec => 4
  | .mcu => 5
  | .noMem => 6

inductive LedNetwork where
  | tryConnect
  | ready
  | connected
  | streaming
  | init
  deriving DecidableEq

def LedNetwork.state : LedNetwork → BitVec 32
  | .tryConnect => 0x01000000#32
  | .ready => 0x02000000#32
  | .connected => 0x03000000#32
  | .streaming => 0x04000000#32
  | .init => 0x08000000#32

/-- A colour and how many ticks it is shown, 0 for no end. -/
structure LedDes where
  usColor : Nat
  usTime : Nat
  deriving DecidableEq

def LED_DES_RESET_DEFAULT : List LedDes := [⟨LED_RED, 20⟩, ⟨LED_GREEN, 20⟩, ⟨LED_ORANGE, 20⟩]
def LED_DES_BOOTING : List LedDes := [⟨LED_ORANGE, 0⟩]
def LED_DES_BOOTING_LOW_BATTERY : List LedDes := [⟨LED_ORANGE, 40⟩, ⟨LED_BLACK, 40⟩]
def LED_DES_STREAMING : List LedDes := [⟨LED_RED, 0⟩]
def LED_DES_STREAMING_LOW_BATTERY : List LedDes := [⟨LED_RED, 40⟩, ⟨LED_BLACK, 40⟩]
def LED_DES_READY : List LedDes := [⟨LED_GREEN, 0⟩]
def LED_DES_READY_LOW_BATTERY : List LedDes := [⟨LED_GREEN, 40⟩, ⟨LED_BLACK, 40⟩]
def LED_DES_CONNECTING : List LedDes := [⟨LED_ORANGE, 0⟩]
def LED_DES_CONNECTING_LOW_BATTERY : List LedDes := [⟨LED_ORANGE, 40⟩, ⟨LED_BLACK, 40⟩]

/-! ### The state -/

/-- The array of C has the entries below 128. -/
structure LedTaskStatus where
  aDescriptor : Nat → LedDes
  ucDesNum : Nat
  ucDesCurrent : Nat
  pTask : Bool

/-- `g_prdtskUpdateLED` among the tasks of the period thread. -/
inductive LedTask where
  | deleted
  | prdNothing (tTimeout : Nat)
  | prdTask_LED (tTimeout : Nat)
  deriving DecidableEq

/-- Where the thread that has the lock stands: in the copy of a pattern with so many of its short
words copied, before the three assignments behind it, before the task is registered, or away
between `ledSuspend` and `ledWakeup`. -/
inductive Holder where
  | none
  | copying (pDescriptor : List LedDes) (shorts : Nat)
  | counting (pDescriptor : List LedDes)
  | rewinding (pDescriptor : List LedDes)
  | naming (pDescriptor : List LedDes)
  | registering (pDescriptor : List LedDes)
  | suspended

/-- Where the period thread stands in `prdTask_LED`, with its variables. -/
inductive Place where
  | away
  | entered
  | found (i : Nat)
  | loaded (i ucDesCurrent : Nat)
  | stored (i ucDesCurrent : Nat)
  | wrapping (i : Nat)
  | advanced (i : Nat)
  | unlisted (i : Nat)
  | timed (i tTimeout : Nat)
  | showing (i : Nat)
  | lighting (usColor : Nat)
  deriving DecidableEq

/-- Whether `prdTask_LED` has the lock of the tasks. -/
def Place.locked : Place → Bool
  | .unlisted _ | .timed .. => true
  | _ => false

inductive LedCall where
  | ledError (eErrorCode : LedError)
  | ledClearError (eErrorCode : LedError)
  | ledSetFactoryDefault
  | ledClearFactoryDefault
  | ledSetLowBattery (bLowBattery : Bool)
  | ledSetNetwork (eNetworkState : LedNetwork)
  | ledShowState_PoweredOn

/-- The memory, the two threads, and what happened: the calls made and the colours lit. -/
structure Leds where
  g_uLED_STATUS : BitVec 32
  g_status_LED : LedTaskStatus
  g_prdtskUpdateLED : LedTask
  REG_GPIOB_DAT : BitVec 32
  holder : Holder
  place : Place
  calls : List LedCall
  lit : List Nat

def ledInit (REG_GPIOB_DAT : BitVec 32) : Leds where
  g_uLED_STATUS := 0
  g_status_LED := ⟨fun _ => ⟨LED_BLACK, 0⟩, 0, 0, false⟩
  g_prdtskUpdateLED := .prdNothing 60000
  REG_GPIOB_DAT := REG_GPIOB_DAT ||| (LED_GPIO_RED ||| LED_GPIO_GREEN)
  holder := .none
  place := .away
  calls := []
  lit := []

/-! ### The functions -/

/-- Up to the copy, which begins where the pattern is another one. -/
def ledShowState (s : Leds) (pDescriptor : List LedDes) : Leds :=
  if s.g_status_LED.ucDesNum ≠ pDescriptor.length % 256 ∨
      (List.range pDescriptor.length).map s.g_status_LED.aDescriptor ≠ pDescriptor ∨
      s.g_status_LED.pTask = false then
    if pDescriptor.length < 128 then { s with holder := .copying pDescriptor 0 } else s
  else s

def ledShowState_SetDefault (s : Leds) : Leds := ledShowState s LED_DES_RESET_DEFAULT

def ledShowState_Streaming (s : Leds) : Leds := ledShowState s LED_DES_STREAMING

def ledShowState_Streaming_LowBattery (s : Leds) : Leds :=
  ledShowState s LED_DES_STREAMING_LOW_BATTERY

def ledShowState_PoweredOn (s : Leds) : Leds := ledShowState s LED_DES_BOOTING

def ledShowState_Ready (s : Leds) : Leds := ledShowState s LED_DES_READY

def ledShowState_NetworkReady (s : Leds) : Leds := ledShowState_Ready s

def ledShowState_Connecting (s : Leds) : Leds := ledShowState s LED_DES_CONNECTING

def ledShowState_Booting (s : Leds) : Leds := ledShowState s LED_DES_BOOTING

def ledShowState_Booting_LowBattery (s : Leds) : Leds := ledShowState s LED_DES_BOOTING_LOW_BATTERY

def ledShowState_TryConnect (s : Leds) : Leds := ledShowState_Connecting s

def ledShowState_NetworkReady_LowBattery (s : Leds) : Leds :=
  ledShowState s LED_DES_READY_LOW_BATTERY

def ledShowState_TryConnect_LowBattery (s : Leds) : Leds :=
  ledShowState s LED_DES_CONNECTING_LOW_BATTERY

/-- An entry is added while there is room for one. -/
def addDes (alDes : List LedDes) (des : LedDes) : List LedDes :=
  if alDes.length < 128 then alDes ++ [des] else alDes

/-- The pattern of an error: so many times six blinks. -/
def errorDes (eErrorCode : Nat) : List LedDes :=
  addDes ((List.range eErrorCode).foldl (fun alDes _ =>
    addDes ((List.range 6).foldl (fun alDes _ =>
      addDes (addDes alDes ⟨LED_GREEN, 5⟩) ⟨LED_RED, 5⟩) alDes) ⟨LED_ORANGE, 150⟩) [])
    ⟨LED_BLACK, 150⟩

def ledShowState_Error (s : Leds) (eErrorCode : BitVec 32) : Leds :=
  ledShowState s (errorDes eErrorCode.toNat)

def ledUpdateStatus (s : Leds) : Leds :=
  if s.g_uLED_STATUS &&& LED_ST_ERROR ≠ 0 then
    ledShowState_Error s (s.g_uLED_STATUS &&& LED_ST_MASK_ERROR_CODE)
  else if s.g_uLED_STATUS &&& LED_ST_SET_DEFAULT ≠ 0 then ledShowState_SetDefault s
  else
    let network := s.g_uLED_STATUS &&& LED_ST_MASK_NETWORK
    if s.g_uLED_STATUS &&& LED_ST_LOW_BATTERY ≠ 0 then
      if network = LedNetwork.tryConnect.state then ledShowState_TryConnect_LowBattery s
      else if network = LedNetwork.ready.state then ledShowState_NetworkReady_LowBattery s
      else if network = LedNetwork.connected.state then ledShowState_NetworkReady_LowBattery s
      else if network = LedNetwork.streaming.state then ledShowState_Streaming_LowBattery s
      else if network = LedNetwork.init.state then ledShowState_Booting_LowBattery s
      else ledShowState_TryConnect_LowBattery s
    else
      if network = LedNetwork.tryConnect.state then ledShowState_TryConnect s
      else if network = LedNetwork.ready.state then ledShowState_Ready s
      else if network = LedNetwork.connected.state then ledShowState_NetworkReady s
      else if network = LedNetwork.streaming.state then ledShowState_Streaming s
      else if network = LedNetwork.init.state then ledShowState_Booting s
      else ledShowState_TryConnect s

def ledError (s : Leds) (eErrorCode : LedError) : Leds :=
  ledUpdateStatus { s with
    g_uLED_STATUS := s.g_uLED_STATUS &&& ~~~LED_ST_MASK_ERROR_CODE |||
      eErrorCode.code &&& LED_ST_MASK_ERROR_CODE ||| LED_ST_ERROR }

/-- The flag is not looked at: the word with the flag is never 0. -/
def ledClearError (s : Leds) (eErrorCode : LedError) : Leds :=
  if s.g_uLED_STATUS ||| LED_ST_ERROR ≠ 0 ∧
      s.g_uLED_STATUS &&& LED_ST_MASK_ERROR_CODE =
        eErrorCode.code &&& LED_ST_MASK_ERROR_CODE then
    ledUpdateStatus { s with
      g_uLED_STATUS := s.g_uLED_STATUS &&& ~~~LED_ST_MASK_ERROR_CODE &&& ~~~LED_ST_ERROR }
  else s

def ledSetFactoryDefault (s : Leds) : Leds :=
  ledUpdateStatus { s with g_uLED_STATUS := s.g_uLED_STATUS ||| LED_ST_SET_DEFAULT }

def ledClearFactoryDefault (s : Leds) : Leds :=
  ledUpdateStatus { s with g_uLED_STATUS := s.g_uLED_STATUS &&& ~~~LED_ST_SET_DEFAULT }

def ledSetLowBattery (s : Leds) (bLowBattery : Bool) : Leds :=
  ledUpdateStatus { s with
    g_uLED_STATUS := s.g_uLED_STATUS &&& ~~~LED_ST_LOW_BATTERY |||
      if bLowBattery then LED_ST_LOW_BATTERY else 0 }

def ledSetNetwork (s : Leds) (eNetworkState : LedNetwork) : Leds :=
  ledUpdateStatus { s with
    g_uLED_STATUS := s.g_uLED_STATUS &&& ~~~LED_ST_MASK_NETWORK |||
      eNetworkState.state &&& LED_ST_MASK_NETWORK }

def Leds.call (s : Leds) : LedCall → Leds
  | .ledError eErrorCode => ledError s eErrorCode
  | .ledClearError eErrorCode => ledClearError s eErrorCode
  | .ledSetFactoryDefault => ledSetFactoryDefault s
  | .ledClearFactoryDefault => ledClearFactoryDefault s
  | .ledSetLowBattery bLowBattery => ledSetLowBattery s bLowBattery
  | .ledSetNetwork eNetworkState => ledSetNetwork s eNetworkState
  | .ledShowState_PoweredOn => ledShowState_PoweredOn s

/-- The next short word of the pattern, the colour or the time of an entry. -/
def copyShort (aDescriptor : Nat → LedDes) (pDescriptor : List LedDes) (n : Nat) : Nat → LedDes :=
  let des := pDescriptor.getD (n / 2) ⟨0, 0⟩
  Function.update aDescriptor (n / 2)
    (if n % 2 = 0 then { aDescriptor (n / 2) with usColor := des.usColor }
    else { aDescriptor (n / 2) with usTime := des.usTime })

/-- The next step of the copy and of what follows it in `ledShowState`. -/
def Leds.resume (s : Leds) : Option Leds :=
  let status := s.g_status_LED
  match s.holder with
  | .copying pDescriptor n =>
    if n < 2 * pDescriptor.length then
      some { s with
        g_status_LED := { status with
          aDescriptor := copyShort status.aDescriptor pDescriptor n }
        holder := .copying pDescriptor (n + 1) }
    else some { s with holder := .counting pDescriptor }
  | .counting pDescriptor =>
    some { s with
      g_status_LED := { status with ucDesNum := pDescriptor.length % 256 }
      holder := .rewinding pDescriptor }
  | .rewinding pDescriptor =>
    some { s with
      g_status_LED := { status with ucDesCurrent := 0 }
      holder := .naming pDescriptor }
  | .naming pDescriptor =>
    some { s with
      g_status_LED := { status with pTask := true }
      holder := .registering pDescriptor }
  | .registering _ =>
    if s.place.locked then none
    else some { s with g_prdtskUpdateLED := .prdTask_LED 0, holder := .none }
  | _ => none

/-- A light is on where its bit is 0. -/
def showColor (REG_GPIOB_DAT : BitVec 32) (usColor : Nat) : BitVec 32 :=
  if usColor = LED_BLACK then REG_GPIOB_DAT ||| LED_GPIO_RED ||| LED_GPIO_GREEN
  else if usColor = LED_RED then REG_GPIOB_DAT &&& ~~~LED_GPIO_RED ||| LED_GPIO_GREEN
  else if usColor = LED_GREEN then REG_GPIOB_DAT &&& ~~~LED_GPIO_GREEN ||| LED_GPIO_RED
  else REG_GPIOB_DAT &&& ~~~LED_GPIO_RED &&& ~~~LED_GPIO_GREEN

/-- The call of the registered task, or the next step of `prdTask_LED`; `none` where the task is
not registered, its pointer is NULL or an entry lies outside the array. -/
def Leds.prdTask_LED (s : Leds) : Option Leds :=
  let status := s.g_status_LED
  match s.place with
  | .away =>
    match s.g_prdtskUpdateLED with
    | .deleted => none
    | .prdNothing _ => some s
    | .prdTask_LED _ => some { s with place := .entered }
  | .entered => some { s with place := .found status.ucDesCurrent }
  | .found i => some { s with place := .loaded i status.ucDesCurrent }
  | .loaded i ucDesCurrent =>
    some { s with
      g_status_LED := { status with ucDesCurrent := (ucDesCurrent + 1) % 256 }
      place := .stored i ((ucDesCurrent + 1) % 256) }
  | .stored i ucDesCurrent =>
    some { s with place := if ucDesCurrent ≥ status.ucDesNum then .wrapping i else .advanced i }
  | .wrapping i =>
    some { s with g_status_LED := { status with ucDesCurrent := 0 }, place := .advanced i }
  | .advanced i =>
    if status.pTask then some { s with g_prdtskUpdateLED := .deleted, place := .unlisted i }
    else none
  | .unlisted i =>
    if i < 128 then
      let usTime := (status.aDescriptor i).usTime
      some { s with place := .timed i (if usTime ≠ 0 then usTime else 60000) }
    else none
  | .timed i tTimeout =>
    some { s with g_prdtskUpdateLED := .prdTask_LED tTimeout, place := .showing i }
  | .showing i =>
    if i < 128 then some { s with place := .lighting (status.aDescriptor i).usColor } else none
  | .lighting usColor =>
    some { s with
      REG_GPIOB_DAT := showColor s.REG_GPIOB_DAT usColor
      place := .away
      lit := s.lit ++ [usColor] }

/-- A call, or a step of the thread that makes one; the period thread; another driver, which writes
its own bits of the register in one step. -/
inductive Action where
  | call (c : LedCall)
  | resume
  | ledSuspend
  | ledWakeup
  | prdTask_LED
  | outpw (value : BitVec 32)

def Leds.step (s : Leds) : Action → Option Leds
  | .call c =>
    match s.holder with
    | .none => some { s.call c with calls := s.calls ++ [c] }
    | _ => none
  | .resume => s.resume
  | .ledSuspend =>
    match s.holder with
    | .none => some { s with holder := .suspended }
    | _ => none
  | .ledWakeup =>
    match s.holder with
    | .suspended => some { s with holder := .none }
    | _ => none
  | .prdTask_LED => s.prdTask_LED
  | .outpw value =>
    let lights := LED_GPIO_RED ||| LED_GPIO_GREEN
    some { s with REG_GPIOB_DAT := value &&& ~~~lights ||| s.REG_GPIOB_DAT &&& lights }

def Steps (s : Leds) (action : Action) (t : Leds) : Prop := s.step action = some t

end Rovio.Led
