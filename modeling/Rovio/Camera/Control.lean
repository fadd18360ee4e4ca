import Rovio.Kit.Writes
import Rovio.Kit.Runs
import Mathlib.Logic.Function.Basic

/-! The settings of the camera. A request sends the camera thread a message and stores the setting;
the thread sets the drivers and notes in `g_WebCamState` what it has set. -/
namespace Rovio.Controls
open Kit

inductive Setting where
  | resolution
  | quality
  | framerate
  | brightness
  | speakerVolume
  | micVolume
  deriving DecidableEq

/-! ### The drivers -/

/-- What the drivers are set to. -/
structure Drivers where
  sPlanarSize : Nat × Nat
  nJPEGQua : BitVec 32
  uEncFrameRateStatic : BitVec 32
  uEncBitRate : BitVec 32
  nBrightness : Int
  playVolume : Int
  recordVolume : Int

def MAX_MP4_WIDTHxHEIGHT : Nat := 640 * 480

def vcptSetWindow (d : Drivers) (usWidth usHeight : Nat) : Drivers :=
  if usWidth * usHeight > MAX_MP4_WIDTHxHEIGHT ∨ usWidth = 0 ∨ usHeight = 0 then d
  else { d with sPlanarSize := (usWidth, usHeight) }

def wb702SetLocalVideoSource (d : Drivers) (usWidth usHeight : Nat) : Drivers :=
  vcptSetWindow d usWidth usHeight

def vmp4encSetQuality (d : Drivers) (uFrameRate uBitRate : BitVec 32) : Drivers × Bool :=
  if uFrameRate = 0 ∨ 100 ≤ uFrameRate.toNat then (d, false)
  else ({ d with uEncFrameRateStatic := uFrameRate, uEncBitRate := uBitRate }, true)

def wb702SetVideoBitRate (d : Drivers) (bitrate : BitVec 32) : Drivers :=
  (vmp4encSetQuality d d.uEncFrameRateStatic bitrate).1

def wb702SetVideoFramerate (d : Drivers) (framerate : BitVec 32) : Drivers × Bool :=
  vmp4encSetQuality d framerate d.uEncBitRate

def wb702SetJPEGQuality (d : Drivers) (quality : BitVec 32) : Drivers :=
  let var := if quality.toInt > 2 then 1 else quality
  { d with nJPEGQua := 3 - var }

/-- A value put between the least and the greatest. -/
def clamp (least greatest value : Int) : Int :=
  if value < least then least else if value > greatest then greatest else value

def vcptSetContrastBright (d : Drivers) (nBrightness : BitVec 32) : Drivers :=
  { d with nBrightness := clamp 0 6 nBrightness.toInt }

/-- `rt` tells whether the audio device is enabled and takes the volume. -/
def vauSetPlayVolume (d : Drivers) (volume : BitVec 32) (rt : Bool) : Drivers × Bool :=
  if rt then ({ d with playVolume := clamp 0 31 volume.toInt }, true) else (d, false)

def vauSetRecordVolume (d : Drivers) (volume : BitVec 32) (rt : Bool) : Drivers × Bool :=
  if rt then ({ d with recordVolume := clamp 0 31 volume.toInt }, true) else (d, false)

/-! ### `W99702Camera.c` -/

/-- The unsigned characters of `g_WebCamState` that say the settings: `ucResolution`,
`ucCompressionRatio`, `ucFramerate`, `ucBright`, `ucSpeakerVolume` and `ucMicVolume`. -/
abbrev WebCamState := Setting → Nat

/-- The character read as an integer. -/
def WebCamState.int (g : WebCamState) (setting : Setting) : BitVec 32 := .ofNat 32 (g setting)

def W99702_GetImageResolution (g : WebCamState) : Option (Nat × Nat) :=
  match g .resolution with
  | 0 => some (176, 144)
  | 1 => some (320, 240)
  | 2 => some (352, 288)
  | 3 => some (640, 480)
  | _ => none

def aaBitrateTable : List (List Nat) :=
  [[64 * 1024, 128 * 1024, 192 * 1024], [256 * 1024, 512 * 1024, 768 * 1024],
    [256 * 1024, 512 * 1024, 768 * 1024], [512 * 1024, 1024 * 1024, 2304 * 1024]]

/-- `none` where the table is read outside. -/
def _W99702_SetImageQuality (d : Drivers) (iQuality : BitVec 32) (iResX : Nat) :
    Option (Drivers × Bool) :=
  if iQuality.toInt ≥ 3 then some (d, false)
  else
    let d := wb702SetJPEGQuality d iQuality
    let row := if iResX ≤ 176 then 0 else if iResX ≤ 320 then 1 else if iResX ≤ 352 then 2 else 3
    ((aaBitrateTable[row]?).bind fun bitrates => bitrates[iQuality.toNat]?).map fun bitrate =>
      (wb702SetVideoBitRate d (.ofNat 32 bitrate), true)

/-- `none` where the old resolution is not known, and the variables have no value. -/
def W99702_SetImageResolution (d : Drivers) (g : WebCamState) (iResX iResY : Nat) :
    Option (Drivers × Bool) :=
  (W99702_GetImageResolution g).bind fun old =>
    if iResX ≠ old.1 ∨ iResY ≠ old.2 then
      _W99702_SetImageQuality (wb702SetLocalVideoSource d iResX iResY) (g.int .quality) iResX
    else some (d, false)

def W99702_SetImageQuality (d : Drivers) (g : WebCamState) (iQuality : BitVec 32) :
    Option (Drivers × Bool) :=
  if iQuality ≠ g.int .quality then
    (W99702_GetImageResolution g).bind fun res => _W99702_SetImageQuality d iQuality res.1
  else some (d, true)

def W99702_SetFramerate (d : Drivers) (g : WebCamState) (iFramerate : BitVec 32) :
    Drivers × Bool :=
  if iFramerate ≠ g.int .framerate then
    if iFramerate.toInt > 0 then wb702SetVideoFramerate d iFramerate else (d, false)
  else (d, true)

def W99702_SetImageBrightness (d : Drivers) (g : WebCamState) (iBright : BitVec 32) :
    Drivers × Bool :=
  if iBright ≠ g.int .brightness then (vcptSetContrastBright d iBright, true) else (d, true)

def W99702_SetSpeakerVolume (d : Drivers) (g : WebCamState) (iVolume : BitVec 32) (rt : Bool) :
    Drivers × Bool :=
  if iVolume ≠ g.int .speakerVolume then vauSetPlayVolume d iVolume rt else (d, true)

def W99702_SetMicVolume (d : Drivers) (g : WebCamState) (iVolume : BitVec 32) (rt : Bool) :
    Drivers × Bool :=
  if iVolume ≠ g.int .micVolume then vauSetRecordVolume d iVolume rt else (d, true)

/-- The bit rate and the size at the start. -/
def W99702_OpenCamera (d : Drivers) : Drivers :=
  wb702SetLocalVideoSource (wb702SetVideoBitRate d (.ofNat 32 (32 * 1024))) 176 144

/-! ### The camera thread -/

/-- MSG_T, with the messages that set nothing as one kind. -/
inductive CameraMsg where
  | set (setting : Setting) (lData : BitVec 32)
  | other
  | quit
  deriving DecidableEq

/-- `ucResolution = msg.lData` and so on, where the driver has done it. -/
def noted (setting : Setting) (lData : Nat) (g : WebCamState) (done : Drivers × Bool) :
    Drivers × WebCamState :=
  (done.1, if done.2 then Function.update g setting (lData % 256) else g)

/-- The message MSG_CAMERA_RES; H.263 has two of the sizes only. -/
def setResolution (h263 : Bool) (d : Drivers) (g : WebCamState) (lData : BitVec 32) :
    Option (Drivers × WebCamState) :=
  let set (lData iResX iResY : Nat) : Option (Drivers × WebCamState) :=
    (W99702_SetImageResolution d g iResX iResY).map (noted .resolution lData g)
  match lData.toNat with
  | 0 => set 0 176 144
  | 1 => if h263 then set 2 352 288 else set 1 320 240
  | 2 => set 2 352 288
  | 3 => if h263 then set 2 352 288 else set 3 640 480
  | _ => some (d, g)

/-- What the thread does with a setting's message; `rt` is the audio device's answer. -/
def setSetting (h263 : Bool) (d : Drivers) (g : WebCamState) (lData : BitVec 32) (rt : Bool) :
    Setting → Option (Drivers × WebCamState)
  | .resolution => setResolution h263 d g lData
  | .quality => (W99702_SetImageQuality d g lData).map (noted .quality lData.toNat g)
  | .framerate => some (noted .framerate lData.toNat g (W99702_SetFramerate d g lData))
  | .brightness => some (noted .brightness lData.toNat g (W99702_SetImageBrightness d g lData))
  | .speakerVolume =>
    some (noted .speakerVolume lData.toNat g (W99702_SetSpeakerVolume d g lData rt))
  | .micVolume => some (noted .micVolume lData.toNat g (W99702_SetMicVolume d g lData rt))

/-- Where the thread stands: before the camera is open, with so many messages of
`SetCameraInitState` sent, in the loop behind it, or at its end. -/
inductive Place where
  | closed
  | initial (n : Nat)
  | running
  | ended
  deriving DecidableEq

/-- The settings that `SetCameraInitState` sends in turn, `none` where it sends another message. -/
def SetCameraInitState : List (Option Setting) :=
  [some .resolution, some .quality, none, some .framerate, some .brightness, some .speakerVolume,
    some .micVolume, none]

/-- The memory and the threads, with `request` the one between its message and its store, which
has `g_rmutex`; and what happened: the settings' messages that the open camera has been told, and
whether the audio device has refused the last one. -/
structure CameraControl where
  g_ConfigParam : Setting → BitVec 32
  g_pMsgCamera : List CameraMsg
  request : Option (Setting × BitVec 32)
  place : Place
  drivers : Drivers
  g_WebCamState : WebCamState
  told : List (Setting × BitVec 32)
  refused : Setting → Bool

/-- `bPush` tells whether there was memory for the message. -/
def CameraControl.SendCameraMsg (s : CameraControl) (msg : CameraMsg) (bPush : Bool) :
    CameraControl :=
  { s with g_pMsgCamera := s.g_pMsgCamera ++ if bPush then [msg] else [] }

/-- The next pass of a loop of `CameraThread`. -/
def CameraControl.CameraThread (h263 : Bool) (s : CameraControl) (rt bPush : Bool) :
    Option CameraControl :=
  match s.place, s.g_pMsgCamera with
  | .closed, [] =>
    some { s with drivers := W99702_OpenCamera s.drivers, place := .initial 0 }
  | .closed, .quit :: rest => some { s with g_pMsgCamera := rest, place := .ended }
  | .closed, _ :: rest => some { s with g_pMsgCamera := rest }
  | .initial n, _ =>
    match SetCameraInitState[n]? with
    | some (some setting) =>
      let msg := .set setting (s.g_ConfigParam setting)
      some { s.SendCameraMsg msg bPush with place := .initial (n + 1) }
    | some none => some { s.SendCameraMsg .other bPush with place := .initial (n + 1) }
    | none => some { s with place := .running }
  | .running, [] => some s
  | .running, .quit :: rest => some { s with g_pMsgCamera := rest, place := .ended }
  | .running, .other :: rest => some { s with g_pMsgCamera := rest }
  | .running, .set setting lData :: rest =>
    (setSetting h263 s.drivers s.g_WebCamState lData rt setting).map fun done =>
      { s with
        g_pMsgCamera := rest
        drivers := done.1
        g_WebCamState := done.2
        told := s.told ++ [(setting, lData)]
        refused := Function.update s.refused setting (!rt) }
  | .ended, _ => none

/-! ### Requests -/

inductive IctlResult where
  | ICTL_OK
  | ICTL_UNAUTHORIZED
  | ICTL_INVALID_PARAMETERS
  deriving DecidableEq

def AUTH_ADMIN : Int := 1

/-- The answer of `ictlSetResolution`, `ictlSetFramerate`, `ictlSetBrightness`,
`ictlSetSpeakerVolume` and `ictlSetMicVolume`, and with its own check of `ictlSetQuality`. -/
def ictlSetAnswer (privilege : Int) (setting : Setting) (value : BitVec 32) : IctlResult :=
  if privilege < AUTH_ADMIN then .ICTL_UNAUTHORIZED
  else if setting = .quality ∧ (value.toInt < 0 ∨ value.toInt > 2) then .ICTL_INVALID_PARAMETERS
  else .ICTL_OK

/-- A request up to its message, and its store; the camera thread; the bit rate control, which sets
its own rate; another sender of a message. -/
inductive Action where
  | ictlSet (privilege : Int) (setting : Setting) (value : BitVec 32) (bPush : Bool)
  | store
  | CameraThread (rt bPush : Bool)
  | vmp4encSetBitrate (uBitRate : BitVec 32)
  | SendCameraMsg (msg : CameraMsg) (bPush : Bool)

/-- The others do not send settings. -/
def CameraControl.step (h263 : Bool) (s : CameraControl) : Action → Option CameraControl
  | .ictlSet privilege setting value bPush =>
    if ictlSetAnswer privilege setting value = .ICTL_OK then
      if s.request = none then
        some { s.SendCameraMsg (.set setting value) bPush with request := some (setting, value) }
      else none
    else some s
  | .store =>
    s.request.map fun request =>
      { s with
        g_ConfigParam := Function.update s.g_ConfigParam request.1 request.2
        request := none }
  | .CameraThread rt bPush => s.CameraThread h263 rt bPush
  | .vmp4encSetBitrate uBitRate =>
    some { s with drivers := { s.drivers with uEncBitRate := uBitRate } }
  | .SendCameraMsg (.set _ _) _ => none
  | .SendCameraMsg msg bPush => some (s.SendCameraMsg msg bPush)

def Steps (h263 : Bool) (s : CameraControl) (action : Action) (t : CameraControl) : Prop :=
  s.step h263 action = some t

/-- The drivers as they are initialised, `ResetCameraParam` done and the configuration read. -/
def ResetCameraParam (config : Setting → BitVec 32) (sPlanarSize : Nat × Nat) : CameraControl where
  g_ConfigParam := config
  g_pMsgCamera := []
  request := none
  place := .closed
  drivers := ⟨sPlanarSize, 2, 30, .ofNat 32 (64 * 1024), 3, 0, 0⟩
  g_WebCamState := fun _ => 0
  told := []
  refused := fun _ => false

end Rovio.Controls
