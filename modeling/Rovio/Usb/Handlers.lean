import Rovio.Usb.Session
import Rovio.Firmware.Usb

/-! What the requests of the USB channel do to the camera: to the configuration in
memory, to its saved copies and to the flash. Replies, delays and the restart of
the network change none of these and are left out. -/
namespace Rovio.Usb
open Rovio.Http Rovio.Account Kit

structure IpConfig where
  aucIPAssignedWay : UInt8
  ulAsIPAddress : Xdr.Word
  ulAsGateway : Xdr.Word
  ulAsNetmask : Xdr.Word
  aulAsDNS : List Xdr.Word

structure PppConfig where
  bPPPEnable : UInt8
  aacPPPServer : List CString
  aiPPPPort : List Int
  acPPPUser : CString
  acPPPPass : CString
  deriving DecidableEq

/-- The fields of `g_ConfigParam`, other than the accounts, that a request can change. The fields
of the wireless network are one value. -/
structure Settings where
  bDefaultImg : Bool
  ulImgResolution : Xdr.Word
  ulImgFramerate : Xdr.Word
  ulImgQuality : Xdr.Word
  ucMotionDetectWay : UInt8
  bMailEnable : Bool
  bFtpEnable : Bool
  eAudioFormat : Xdr.Word
  eVideoFormat : Xdr.Word
  ip : IpConfig
  acMAC : List UInt8
  abUseHardwareMac : Bool
  wlan : List UInt8
  ppp : PppConfig

/-- A copy of the configuration in the flash. -/
structure Saved where
  users : UserTable
  bUserCheck : Int
  settings : Settings
  checksumHolds : Bool

/-- `usi` has the calls that have changed the firmware's flash. -/
structure Device (H : HttpAuth) where
  camera : CameraState H
  settings : Settings
  saved : Saved
  factory : Saved
  usi : List Firmware.Call
  reboots : Nat

section
variable {H : HttpAuth}

/-- What the handlers call that is not in the repository or lies behind a check: the changes that
`ictlSetWlan` makes, if any, the default configuration, the restore function of libNS and the
handlers of custom commands. -/
structure Outside (H : HttpAuth) where
  wlanChange : Xdr.WlanSetting → Settings → Option Settings
  initDefaultParam : UserTable × Int × Settings
  restoreDefaults : Device H → Device H
  customHandlers : Handle → List UInt8 → Device H → Device H

def Device.image (d : Device H) (checksumHolds : Bool) : Saved :=
  ⟨d.camera.config, d.camera.bUserCheck, d.settings, checksumHolds⟩

def writeFlashMemory (d : Device H) : Device H := { d with saved := d.image true }

/-- The check that an `ictl` function makes in front of what it does. -/
def asAdmin (pHandle : Handle) (body : Device H → Ictl × Device H) (d : Device H) :
    Ictl × Device H :=
  if pHandle.privilege < authAdmin then (.unauthorized, d) else body d

/-- One image setting: stored when it differs. -/
def storeImage (differs : Bool) (set : Settings → Settings) (d : Device H) : Device H :=
  if differs then
    writeFlashMemory { d with settings := { set d.settings with bDefaultImg := false } }
  else d

def ictlSetResolution (pHandle : Handle) (pSize : Xdr.Word) : Device H → Ictl × Device H :=
  asAdmin pHandle fun d =>
    (.ok, storeImage (pSize ≠ d.settings.ulImgResolution)
      (fun c => { c with ulImgResolution := pSize }) d)

def ictlSetFramerate (pHandle : Handle) (nFramerate : Xdr.Word) : Device H → Ictl × Device H :=
  asAdmin pHandle fun d =>
    (.ok, storeImage (nFramerate ≠ d.settings.ulImgFramerate)
      (fun c => { c with ulImgFramerate := nFramerate }) d)

def ictlSetQuality (pHandle : Handle) (nQualityLevel : Xdr.Word) : Device H → Ictl × Device H :=
  asAdmin pHandle fun d =>
    if nQualityLevel.toInt < 0 ∨ 2 < nQualityLevel.toInt then (.invalidParameters, d)
    else (.ok, storeImage (nQualityLevel ≠ d.settings.ulImgQuality)
      (fun c => { c with ulImgQuality := nQualityLevel }) d)

/-- Not saved. -/
def ictlEnableMotionDetect (pHandle : Handle) (bEnable : UInt8)
    (bIsFtpUploadEnabled bIsMailUploadEnabled : Bool) : Device H → Ictl × Device H :=
  asAdmin pHandle fun d =>
    (.ok, { d with settings := { d.settings with
      ucMotionDetectWay := bEnable
      bMailEnable := bIsMailUploadEnabled
      bFtpEnable := bIsFtpUploadEnabled } })

def ictlSetMediaFormat (pHandle : Handle) (eAudioFormat eVideoFormat : Xdr.Word) :
    Device H → Ictl × Device H :=
  asAdmin pHandle fun d =>
    (.ok, if eAudioFormat ≠ d.settings.eAudioFormat ∨ eVideoFormat ≠ d.settings.eVideoFormat then
      writeFlashMemory { d with settings := { d.settings with eAudioFormat, eVideoFormat } }
    else d)

def ictlSetIP (pHandle : Handle) (way : UInt8) (ipadd gw netmask : Xdr.Word)
    (dns : List Xdr.Word) : Device H → Ictl × Device H :=
  asAdmin pHandle fun d =>
    (.ok, writeFlashMemory { d with settings := { d.settings with
      ip := ⟨way, ipadd, gw, netmask, dns⟩ } })

def ictlSetWlan (lib : Outside H) (pHandle : Handle) (wlan : Xdr.WlanSetting) :
    Device H → Ictl × Device H :=
  asAdmin pHandle fun d =>
    match lib.wlanChange wlan d.settings with
    | some settings => (.ok, writeFlashMemory { d with settings })
    | none => (.ok, d)

def ictlSetMac (pHandle : Handle) (mac : List UInt8) : Device H → Ictl × Device H :=
  asAdmin pHandle fun d =>
    (.ok, writeFlashMemory { d with settings := { d.settings with
      acMAC := mac, abUseHardwareMac := false } })

/-- The defaults are saved as the factory's, and the saved configuration is made invalid. -/
def ictlSetDefaultMac (lib : Outside H) (pHandle : Handle) (mac : List UInt8) :
    Device H → Ictl × Device H :=
  asAdmin pHandle fun d =>
    let (users, bUserCheck, settings) := lib.initDefaultParam
    let d := { d with
      camera := { d.camera with config := users, bUserCheck := bUserCheck }
      settings := { settings with acMAC := mac } }
    (.ok, { d with factory := d.image true, saved := d.image false })

def ictlSetFactoryDefault (lib : Outside H) (pHandle : Handle) : Device H → Ictl × Device H :=
  asAdmin pHandle fun d =>
    let d := lib.restoreDefaults d
    (.ok, { d with saved := d.image false })

def ictlReboot (pHandle : Handle) : Device H → Ictl × Device H :=
  asAdmin pHandle fun d => (.ok, { d with reboots := d.reboots + 1 })

/-- Whether the account function that `authRequest` calls comes to its `WriteFlashMemory`. -/
def authWrites (ctrlHandle : Handle) (user : UserSetting) (c : CameraState H) : Bool :=
  if user.type = 1 then
    (ictlSetUser H (some ctrlHandle) (some user.newName) (some user.newPasswd)
      user.nPrivilege c).1 = .ok
  else if user.type = 3 then
    (ictlDelUser H (some ctrlHandle) (some user.originalName) c).1 = .ok ∧
      ¬ isLastAdmin H c.auth user.originalName
  else if user.type = 4 then
    (ictlSetUserCheck H (some ctrlHandle) user.checkuser c).1 = .ok ∧
      user.checkuser ≠ c.bUserCheck
  else false

def deviceAuth (ctrlHandle : Handle) (user : UserSetting) (d : Device H) : Device H :=
  let changed := { d with camera := authSetting H ctrlHandle user d.camera }
  if authWrites ctrlHandle user d.camera then writeFlashMemory changed else changed

/-- What a decoding routine makes of the memory at `reqBuf`, if it does not run out of it. -/
def decoded {α : Type} (reqBuf : List UInt8) (routine : Nat → Xdr.Routine α) : Option α :=
  (routine reqBuf.length ⟨fun i => reqBuf.getD i 0, 0⟩).map Prod.fst

def lowByte (word : Xdr.Word) : UInt8 := ⟨word.setWidth 8⟩

def resolution (resolutionX : Xdr.Word) : Xdr.Word :=
  if resolutionX = 176 then 0 else if resolutionX = 320 then 1
  else if resolutionX = 352 then 2 else 3

def imageRequest (h : Handle) (image : Xdr.ImageSetting) (d : Device H) : Device H :=
  let d := (ictlSetResolution h (resolution image.resolutionX) d).2
  let d := (ictlSetFramerate h image.frameRate d).2
  let d := (ictlSetQuality h image.quality d).2
  (ictlEnableMotionDetect h (lowByte image.motionDetect) false false d).2

def usbIPRequest (h : Handle) (ipsetting : Xdr.IpSetting) (d : Device H) : Device H :=
  let way := if ipsetting.autoGetIP = 1 then 1 else 0
  (ictlSetIP h way ipsetting.ip ipsetting.gateway ipsetting.subnetMask
    [ipsetting.dns1, ipsetting.dns2, ipsetting.dns3] d).2

/-- `string_mac_to_long`, over the 17 characters of an address. -/
def stringMacToLong (src : List UInt8) : List UInt8 :=
  let digit (c : UInt8) : Option UInt8 :=
    if 65 ≤ c ∧ c ≤ 70 then some (c - 65 + 10)
    else if 97 ≤ c ∧ c ≤ 122 then some (c - 97 + 10)
    else if 48 ≤ c ∧ c ≤ 57 then some (c - 48) else none
  let digits := (src.take 17).filterMap digit
  (List.range 6).map fun i => (digits.getD (2 * i) 0) * 16 + digits.getD (2 * i + 1) 0

def systemRequest (lib : Outside H) (h : Handle) (system : Xdr.SystemSetting) (d : Device H) :
    Device H :=
  let mac := stringMacToLong ((system.mac_address.map Xdr.CString.bytes).getD [])
  if system.type = 1 then
    (ictlReboot h (ictlSetMediaFormat h system.audioFormat system.videoFormat d).2).2
  else if system.type = 2 then (ictlSetMac h mac d).2
  else if system.type = 4 then (ictlSetDefaultMac lib h mac d).2
  else d

def rebootRequst (h : Handle) (d : Device H) : Device H := (ictlReboot h d).2

def restoreRequst (lib : Outside H) (h : Handle) (d : Device H) : Device H :=
  match ictlSetFactoryDefault lib h d with
  | (.ok, d) => (ictlReboot h d).2
  | (_, d) => d

/-- MAX_PPP_SERVERS. -/
def maxPppServers : Nat := 10

/-- The settings that `vcom_setPPP` reads, each at its place in `reqBuf`. -/
def pppOf (reqBuf : List UInt8) : PppConfig :=
  let ports := 4 + 64 * maxPppServers
  let user := ports + 4 * maxPppServers
  { bPPPEnable := reqBuf.getD 0 0
    aacPPPServer := (List.range maxPppServers).map fun i => (xdrString (reqBuf.drop (4 + 64 * i))).1
    aiPPPPort := (List.range maxPppServers).map fun i => (xdrInt (reqBuf.drop (ports + 4 * i))).1
    acPPPUser := (xdrString (reqBuf.drop user)).1
    acPPPPass := (xdrString (reqBuf.drop (user + 24))).1 }

/-- No handle is looked at. -/
def vcomSetPPP (reqBuf : List UInt8) (d : Device H) : Device H :=
  let ppp := pppOf reqBuf
  if ppp ≠ d.settings.ppp then
    writeFlashMemory { d with settings := { d.settings with ppp := { ppp with
      aacPPPServer := ppp.aacPPPServer.map (H.httpMyStrncpy · 64)
      acPPPUser := H.httpMyStrncpy ppp.acPPPUser 24
      acPPPPass := H.httpMyStrncpy ppp.acPPPPass 24 } } }
  else d

/-- A request, with the packages that follow one for the firmware. -/
structure DeviceRequest where
  request : UsbRequest
  usiIsReady : Bool
  malloc : Bool
  packages : List (Option (List UInt8))

/-- "check whether is admin" is all that the source says of the handle. -/
def firmwareRequst (r : DeviceRequest) (d : Device H) : Device H :=
  let request := r.request.payload.map fun reqBuf i => reqBuf.getD i 0
  let acts := Firmware.firmwareRequst request r.usiIsReady r.malloc r.packages
  { d with usi := d.usi ++ acts.filterMap Firmware.Act.call }

/-- A handler behind its read of the request. -/
def withRequest {α : Type} (reqBuf : Option (List UInt8)) (routine : Nat → Xdr.Routine α)
    (handler : α → Device H → Device H) (d : Device H) : Device H :=
  match reqBuf.bind (decoded · routine) with
  | some setting => handler setting d
  | none => d

def handle (lib : Outside H) (type : CtrlType) (h : Handle) (length : Nat) (buffered : List UInt8)
    (r : DeviceRequest) (d : Device H) : Device H :=
  let optional := readRequest length buffered r.request
  match type with
  | .auth =>
    match optional with
    | some reqBuf => deviceAuth h (xdrUserSettingStru reqBuf) d
    | none => d
  | .image =>
    withRequest optional (Xdr.xdrimageSettingStru · .decode ⟨0, 0, 0, 0, 0⟩) (imageRequest h) d
  | .usbIp =>
    withRequest optional (Xdr.xdripSettingStru · .decode ⟨0, 0, 0, 0, 0, 0, 0⟩) (usbIPRequest h) d
  | .system =>
    withRequest r.request.payload (Xdr.xdrsystemSettingStru · .decode ⟨0, 0, 0, 0, none⟩)
      (systemRequest lib h) d
  | .usbWlan =>
    withRequest r.request.payload
      (Xdr.xdrwlanSettingStru · .decode ⟨none, 0, none, none, none, none, none, none, none⟩)
      (fun wlan d => (ictlSetWlan lib h wlan d).2) d
  | .reboot => rebootRequst h d
  | .restore => restoreRequst lib h d
  | .firmware => firmwareRequst r d
  | .usbSetPpp =>
    match r.request.payload with
    | some reqBuf => vcomSetPPP reqBuf d
    | none => d
  | .usbCustom =>
    match r.request.payload with
    | some reqBuf => lib.customHandlers h reqBuf d
    | none => d
  -- the mail and FTP settings are read and dropped, the others only report
  | _ => d

end

end Rovio.Usb
