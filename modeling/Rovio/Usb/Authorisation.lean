import Rovio.Usb.Handlers

/-! Which requests change the camera while nobody has logged on. The session's
handle stays a user's, and every handler but those of the firmware, the PPP
settings and the custom commands reaches the configuration through a function
that asks the handle for an administrator. -/
namespace Rovio.Usb
open Rovio.Http Rovio.Account Kit

/-- The static handle and the camera. -/
structure UsbDevice (H : HttpAuth) where
  ctrlHandle : Handle
  device : Device H

section
variable {H : HttpAuth} (lib : Outside H)

/-- `processClient` over the whole camera. -/
def serve (s : UsbDevice H) (r : DeviceRequest) : UsbDevice H :=
  match r.request.header with
  | none => s
  | some (b0, b1, b2, b3) =>
    let length := headerLength b0 b1
    let opcode := headerOpcode b2 b3
    if opcode < 1 ∧ 19 < opcode then s
    else if ctrlType opcode ≠ some .firmware ∧ maxRequestLine < length then s
    else
      let buffered := [b0, b1, b2, b3] ++ r.request.stack
      match ctrlType opcode with
      | some .logon =>
        let session : UsbState H := ⟨s.ctrlHandle, s.device.camera⟩
        { s with ctrlHandle := (logonRequest H length buffered r.request session).2.ctrlHandle }
      | some type => { s with device := handle lib type s.ctrlHandle length buffered r s.device }
      | none => s

def requestType (r : UsbRequest) : Option CtrlType :=
  r.header.bind fun bytes => ctrlType (headerOpcode bytes.2.2.1 bytes.2.2.2)

/-- The requests whose handlers do not ask for an administrator. -/
def unchecked : List CtrlType := [.firmware, .usbSetPpp, .usbCustom]

variable {lib}

/-- The handle fares as in the session alone. -/
theorem serve_handle (others : OtherHandlers H) (s : UsbDevice H) (r : DeviceRequest) :
    (serve lib s r).ctrlHandle =
      (usbStep others ⟨s.ctrlHandle, s.device.camera⟩ r.request).ctrlHandle := by
  cases header : r.request.header with
  | none => simp only [serve, usbStep, processClient, header]
  | some bytes =>
    obtain ⟨b0, b1, b2, b3⟩ := bytes
    simp only [serve, usbStep, processClient, header]
    split
    · rfl
    · split
      · rfl
      · cases ctrlType (headerOpcode b2 b3) with
        | none => rfl
        | some type =>
          cases type
          case auth =>
            simp only [authRequest]
            split <;> rfl
          all_goals rfl

theorem asAdmin_refuses {h : Handle} (low : h.privilege < authAdmin)
    (body : Device H → Ictl × Device H) (d : Device H) :
    asAdmin h body d = (.unauthorized, d) := if_pos low

section
variable {h : Handle} (low : h.privilege < authAdmin)
include low

theorem deviceAuth_refuses (user : UserSetting) (d : Device H) : deviceAuth h user d = d := by
  have set (n p : Option CString) (k : Int) :
      ictlSetUser H (some h) n p k d.camera = (.unauthorized, d.camera) := if_pos low
  have del (n : Option CString) :
      ictlDelUser H (some h) n d.camera = (.unauthorized, d.camera) := if_pos low
  have check (b : Int) :
      ictlSetUserCheck H (some h) b d.camera = (.unauthorized, d.camera) := if_pos low
  have same : authSetting H h user d.camera = d.camera := by
    simp only [authSetting, set, del, check, ite_self]
  have silent : authWrites h user d.camera = false := by
    simp [authWrites, set, del, check]
  simp only [deviceAuth, same, silent, Bool.false_eq_true, if_false]

theorem imageRequest_refuses (image : Xdr.ImageSetting) (d : Device H) :
    imageRequest h image d = d := by
  simp only [imageRequest, ictlSetResolution, ictlSetFramerate, ictlSetQuality,
    ictlEnableMotionDetect, asAdmin_refuses low]

theorem systemRequest_refuses (system : Xdr.SystemSetting) (d : Device H) :
    systemRequest lib h system d = d := by
  simp only [systemRequest, ictlReboot, ictlSetMediaFormat, ictlSetMac, ictlSetDefaultMac,
    asAdmin_refuses low, ite_self]

omit low in
theorem withRequest_refuses {α : Type} (reqBuf : Option (List UInt8))
    (routine : Nat → Xdr.Routine α) {handler : α → Device H → Device H}
    (refuses : ∀ setting d, handler setting d = d) (d : Device H) :
    withRequest reqBuf routine handler d = d := by
  unfold withRequest
  split
  · exact refuses _ d
  · rfl

/-- A handler that asks the handle leaves the camera alone when a user holds it. -/
theorem handle_refuses {type : CtrlType} (checked : type ∉ unchecked) (length : Nat)
    (buffered : List UInt8) (r : DeviceRequest) (d : Device H) :
    handle lib type h length buffered r d = d := by
  cases type
  case auth =>
    simp only [handle]
    split
    · exact deviceAuth_refuses low _ d
    · rfl
  case image => exact withRequest_refuses _ _ (imageRequest_refuses low) d
  case usbIp =>
    have refuses (ipsetting : Xdr.IpSetting) (d : Device H) : usbIPRequest h ipsetting d = d := by
      simp only [usbIPRequest, ictlSetIP, asAdmin_refuses low]
    exact withRequest_refuses _ _ refuses d
  case system => exact withRequest_refuses _ _ (systemRequest_refuses low) d
  case usbWlan =>
    have refuses (wlan : Xdr.WlanSetting) (d : Device H) : (ictlSetWlan lib h wlan d).2 = d := by
      simp only [ictlSetWlan, asAdmin_refuses low]
    exact withRequest_refuses _ _ refuses d
  case reboot => simp only [handle, rebootRequst, ictlReboot, asAdmin_refuses low]
  case restore => simp only [handle, restoreRequst, ictlSetFactoryDefault, asAdmin_refuses low]
  case firmware | usbSetPpp | usbCustom => exact absurd (by decide) checked
  all_goals rfl

end

theorem serve_refuses {s : UsbDevice H} (low : s.ctrlHandle.privilege < authAdmin)
    {r : DeviceRequest} (checked : ∀ type ∈ requestType r.request, type ∉ unchecked) :
    (serve lib s r).device = s.device := by
  unfold serve
  unfold requestType at checked
  split
  · rfl
  · rename_i b0 b1 b2 b3 header
    rw [header] at checked
    dsimp only
    split
    · rfl
    · split
      · rfl
      · split
        · rfl
        · rename_i type _ known
          exact handle_refuses low (checked type known) _ _ r s.device
        · rfl

theorem serve_privilege {s : UsbDevice H} {r : DeviceRequest} (none : logonOf r.request = none) :
    (serve lib s r).ctrlHandle.privilege = s.ctrlHandle.privilege := by
  have others : OtherHandlers H := fun _ _ _ _ c => c
  rw [serve_handle others, usbStep_privilege, none]
  rfl

/-- The handle is a user's as long as no log-on has been read. -/
theorem run_user {s t : UsbDevice H} {rs : List DeviceRequest}
    (run : Run (graph (serve lib)) s rs t)
    (noLogon : ∀ r ∈ rs, logonOf r.request = none) :
    t.ctrlHandle.privilege = s.ctrlHandle.privilege := by
  induction run with
  | nil => rfl
  | cons step _ ih =>
    cases step
    obtain ⟨here, later⟩ := List.forall_mem_cons.mp noLogon
    rw [ih later, serve_privilege here]

/-- After any requests without a log-on, a request that is not one of the three changes nothing. -/
theorem unauthorised_requests (device : Device H) (rs : List DeviceRequest) (s : UsbDevice H)
    (run : Run (graph (serve lib)) ⟨zeroHandle, device⟩ rs s)
    (noLogon : ∀ r ∈ rs, logonOf r.request = none) (r : DeviceRequest)
    (checked : ∀ type ∈ requestType r.request, type ∉ unchecked) :
    (serve lib s r).device = s.device := by
  have user : s.ctrlHandle.privilege = authUser := run_user run noLogon
  have low : s.ctrlHandle.privilege < authAdmin := by
    rw [user]
    decide
  exact serve_refuses low checked

end

/-! The wrong log-on once more, before a request that adds an account. -/

def plainSettings : Settings where
  bDefaultImg := true
  ulImgResolution := 0
  ulImgFramerate := 20
  ulImgQuality := 1
  ucMotionDetectWay := 0
  bMailEnable := false
  bFtpEnable := false
  eAudioFormat := 0
  eVideoFormat := 0
  ip := ⟨1, 0, 0, 0, []⟩
  acMAC := [0, 2, 3, 4, 5, 6]
  abUseHardwareMac := true
  wlan := []
  ppp := ⟨0, [], [], [], []⟩

def oneUserDevice : Device plainAuth where
  camera := oneUserCamera
  settings := plainSettings
  saved := ⟨oneUserCamera.config, 1, plainSettings, true⟩
  factory := ⟨oneUserCamera.config, 1, plainSettings, true⟩
  usi := []
  reboots := 0

def idleOutside : Outside plainAuth where
  wlanChange _ _ := none
  initDefaultParam := (oneUserCamera.config, 1, plainSettings)
  restoreDefaults d := d
  customHandlers _ _ d := d

def alone (request : UsbRequest) : DeviceRequest := ⟨request, true, true, []⟩

/-- An AUTH request for an account `eve` with an administrator's privilege. -/
def addEve : UsbRequest where
  header := some (20, 0, 3, 0)
  stack := []
  payload := some [0, 0, 0, 0, 1, 0, 0, 0, 1, 0, 0, 0, 0, 0, 101, 118, 101, 0, 120, 0]

/-- An IMAGE request. -/
def setImage : UsbRequest where
  header := some (20, 0, 4, 0)
  stack := []
  payload := some [1, 0, 0, 0, 2, 0, 0, 0, 64, 1, 0, 0, 240, 0, 0, 0, 30, 0, 0, 0]

theorem unauthorised_requests_image :
    (serve idleOutside (serve idleOutside ⟨zeroHandle, oneUserDevice⟩ (alone setImage))
      (alone addEve)).device =
    (serve idleOutside ⟨zeroHandle, oneUserDevice⟩ (alone setImage)).device :=
  unauthorised_requests oneUserDevice [alone setImage] _ (.cons rfl (.nil _)) (by decide)
    (alone addEve) (by decide)

/-- No log-on names an administrator's account, and the account list has one more entry. -/
theorem wrong_logon_authorises :
    (∀ r ∈ [eveLogon, addEve],
      (logonOf r).bind (accountPrivilege oneUserCamera) ≠ some authAdmin) ∧
    oneUserCamera.bUserCheck = 1 ∧
    ([eveLogon, addEve].foldl (fun s r => serve idleOutside s (alone r))
      ⟨zeroHandle, oneUserDevice⟩).device.camera.config.iUserCurNum ≠
        oneUserDevice.camera.config.iUserCurNum := by
  exact ⟨by decide, rfl, by decide⟩

end Rovio.Usb
