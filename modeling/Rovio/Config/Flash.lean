import Mathlib.Logic.Function.Basic
import Mathlib.Data.List.Basic

/-! The configuration and its two areas of the flash. An area holds the bytes of the structure as
they were when it was written; the checksum among them says whether they are a configuration. -/
namespace Rovio.Config

/-- CAMERA_CONFIG_PARAM_T as bytes: those before `ulCheckSum`, and those behind it. -/
structure CameraConfigParam where
  front : List UInt8
  ulCheckSum : UInt32
  back : List UInt8
  deriving DecidableEq

/-- The part of the checksum of the bytes from index `i` on. -/
def weigh : Nat → List UInt8 → UInt32
  | _, [] => 0
  | i, puc :: rest => puc.toUInt32 * UInt32.ofNat i + UInt32.ofNat i + weigh (i + 1) rest

/-- The size of the structure goes into the sum. -/
def getConfigCheckSum (c : CameraConfigParam) : UInt32 :=
  weigh 0 c.front + weigh (c.front.length + 4) c.back +
    UInt32.ofNat (c.front.length + 4 + c.back.length)

def CameraConfigParam.Valid (c : CameraConfigParam) : Prop := getConfigCheckSum c = c.ulCheckSum

instance (c : CameraConfigParam) : Decidable c.Valid := inferInstanceAs (Decidable (_ = _))

/-- What the threads share, and the areas of the flash. -/
structure Shared where
  usiIsReady : Bool
  g_ConfigParam : CameraConfigParam
  s_bNotResetCheckSum : Bool
  mainArea : CameraConfigParam
  defaultArea : CameraConfigParam

def readFlashMemory (s : Shared) : Option CameraConfigParam :=
  if s.usiIsReady then
    let pcConfigParam := if s.mainArea.Valid then s.mainArea else s.defaultArea
    if pcConfigParam.Valid then some pcConfigParam else none
  else none

def setCheckSum (s : Shared) (ulCheckSum : UInt32) : Shared :=
  { s with g_ConfigParam := { s.g_ConfigParam with ulCheckSum } }

/-- What is done with the flash under `g_ptmConfigParam`. -/
def writeArea (s : Shared) (bOnDefaultArea : Bool) : Shared :=
  if s.usiIsReady then
    if bOnDefaultArea then { s with defaultArea := s.g_ConfigParam }
    else { s with mainArea := s.g_ConfigParam }
  else s

/-- `__WriteFlashMemory`, where no other thread comes in between. -/
def writeFlashMemory (s : Shared) (bResetCheckSum bOnDefaultArea : Bool) : Bool × Shared :=
  if bResetCheckSum && s.s_bNotResetCheckSum then (false, s)
  else
    let s :=
      if bResetCheckSum then setCheckSum s (getConfigCheckSum s.g_ConfigParam)
      else { s with s_bNotResetCheckSum := true }
    (s.usiIsReady, writeArea s bOnDefaultArea)

variable {s : Shared} {sum : UInt32}

theorem valid_setCheckSum :
    (setCheckSum s sum).g_ConfigParam.Valid ↔ getConfigCheckSum s.g_ConfigParam = sum := Iff.rfl

theorem writeArea_main (ready : s.usiIsReady = true) :
    writeArea s false = { s with mainArea := s.g_ConfigParam } := by
  simp only [writeArea, ready, if_true, Bool.false_eq_true, if_false]

@[simp] theorem writeArea_config (bOnDefaultArea : Bool) :
    (writeArea s bOnDefaultArea).g_ConfigParam = s.g_ConfigParam := by
  unfold writeArea
  split
  · split <;> rfl
  · rfl

/-- What a reset stores is no checksum. -/
theorem poisoned (sum : UInt32) : sum ≠ sum + 1 := by simp

end Rovio.Config
