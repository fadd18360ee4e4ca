import Rovio.Kit.Runs
import Rovio.Account.ConfigInterface

/-! The USB command channel: one request read, decoded and dispatched with the
static control handle. The replies that matter are those of a log-on; the other
handlers get the handle to read from and are a parameter. -/
namespace Rovio.Usb
open Rovio.Http Rovio.Account Kit

def maxRequestLine : Nat := 4096

inductive CtrlType where
  | logon | init | auth | image | usbIp | ftp | mail | firmware | extend | reboot | system
  | restore | getPppoeStatus | usbWlan | usbGetIp | usbCustom | data | freshWlan | usbClose
  | version | networkState | usbGetPpp | usbSetPpp
  deriving DecidableEq, Repr

def ctrlTypes : List CtrlType :=
  [.logon, .init, .auth, .image, .usbIp, .ftp, .mail, .firmware, .extend, .reboot, .system,
    .restore, .getPppoeStatus, .usbWlan, .usbGetIp, .usbCustom, .data, .freshWlan, .usbClose,
    .version, .networkState, .usbGetPpp, .usbSetPpp]

/-- `enum CTRL_TYPE` counts from 1. -/
def ctrlType : Nat → Option CtrlType
  | 0 => none
  | n + 1 => ctrlTypes[n]?

/-- What one call of `processClient` meets: the four bytes of the header unless their read fails,
the memory behind them, and the memory from `reqBuf` on after the second read unless it fails. -/
structure UsbRequest where
  header : Option (UInt8 × UInt8 × UInt8 × UInt8)
  stack : List UInt8
  payload : Option (List UInt8)

structure RequestStatus where
  errNum : Int
  msg : Option String
  deriving DecidableEq, Repr

structure UsbState (H : HttpAuth) where
  ctrlHandle : Handle
  camera : CameraState H

/-- `static ICTL_HANDLE_T ctrlHandle`, zero before the first request. -/
def zeroHandle : Handle := ⟨[], [], 0⟩

def xdrInt (buff : List UInt8) : Int × List UInt8 :=
  match buff with
  | b0 :: b1 :: b2 :: b3 :: rest =>
    ((b3.toBitVec ++ b2.toBitVec ++ b1.toBitVec ++ b0.toBitVec).toInt, rest)
  | _ => (0, [])

def xdrString (buff : List UInt8) : CString × List UInt8 :=
  ((buff.takeWhile (· ≠ 0)).map (fun b => Char.ofNat b.toNat), (buff.dropWhile (· ≠ 0)).tail)

structure LogonReq where
  name : CString
  passwd : CString
  deriving DecidableEq, Repr

def xdrLogonReqStru (buff : List UInt8) : LogonReq :=
  let (name, ret) := xdrString buff
  let (passwd, _) := xdrString ret
  ⟨name, passwd⟩

structure UserSetting where
  checkuser : Int
  type : Int
  nPrivilege : Int
  originalName : CString
  originalPasswd : CString
  newName : CString
  newPasswd : CString

def xdrUserSettingStru (buff : List UInt8) : UserSetting :=
  let (checkuser, ret) := xdrInt buff
  let (type, ret) := xdrInt ret
  let (nPrivilege, ret) := xdrInt ret
  let (originalName, ret) := xdrString ret
  let (originalPasswd, ret) := xdrString ret
  let (newName, ret) := xdrString ret
  let (newPasswd, _) := xdrString ret
  ⟨checkuser, type, nPrivilege, originalName, originalPasswd, newName, newPasswd⟩

/-- The `USBRead` at the head of a handler: `none` if it fails, else the memory from `reqBuf` on. -/
def readRequest (length : Nat) (buffered : List UInt8) (r : UsbRequest) : Option (List UInt8) :=
  if 0 < length then r.payload else some buffered

section
variable (H : HttpAuth)

/-- The checks of `logonRequest` up to its label `reply`. -/
def logonCheck (ctrlHandle : Handle) (logon : LogonReq) (c : CameraState H) :
    RequestStatus × Handle :=
  if logon.name = [] then (⟨-1, none⟩, ctrlHandle)
  else if logon.passwd = [] then (⟨-1, none⟩, ctrlHandle)
  else if 24 ≤ logon.name.length ∨ 24 ≤ logon.passwd.length then
    (⟨-1, some "User name si too long\n"⟩, ctrlHandle)
  else match ictlAuthUser H (some ctrlHandle) (some logon.name) (some logon.passwd) c with
    | (.ok, h) => (⟨(h.getD ctrlHandle).privilege, none⟩, h.getD ctrlHandle)
    | (.invalidParameters, h) => (⟨-1, some "invalid parameters"⟩, h.getD ctrlHandle)
    | (.unauthorized, h) => (⟨-1, some "unauthorized users"⟩, h.getD ctrlHandle)
    | (.error, h) => (⟨-1, none⟩, h.getD ctrlHandle)

def logonRequest (length : Nat) (buffered : List UInt8) (r : UsbRequest) (s : UsbState H) :
    Option RequestStatus × UsbState H :=
  match readRequest length buffered r with
  | none => (none, s)
  | some reqBuf =>
    let (reply, h) := logonCheck H s.ctrlHandle (xdrLogonReqStru reqBuf) s.camera
    -- "At present, we set the powerfullest provilege"
    (some reply, { s with ctrlHandle := { h with privilege := authAdmin } })

/-- `authRequest` behind its read. -/
def authSetting (ctrlHandle : Handle) (user : UserSetting) (c : CameraState H) : CameraState H :=
  if user.type = 1 then
    (ictlSetUser H (some ctrlHandle) (some user.newName) (some user.newPasswd)
      user.nPrivilege c).2
  else if user.type = 3 then (ictlDelUser H (some ctrlHandle) (some user.originalName) c).2
  else if user.type = 4 then (ictlSetUserCheck H (some ctrlHandle) user.checkuser c).2
  else c

def authRequest (length : Nat) (buffered : List UInt8) (r : UsbRequest) (s : UsbState H) :
    UsbState H :=
  match readRequest length buffered r with
  | none => s
  | some reqBuf =>
    { s with camera := authSetting H s.ctrlHandle (xdrUserSettingStru reqBuf) s.camera }

/-- The handlers other than `logonRequest` and `authRequest`. -/
abbrev OtherHandlers := CtrlType → Handle → Nat → UsbRequest → CameraState H → CameraState H

def headerLength (b0 b1 : UInt8) : Nat := b1.toNat * 256 + b0.toNat

/-- The opcode without its bit 0x0100, which says that the client is a Mac. -/
def headerOpcode (b2 b3 : UInt8) : Nat := b3.toNat / 2 * 2 * 256 + b2.toNat

def processClient (others : OtherHandlers H) (r : UsbRequest) (s : UsbState H) :
    Option RequestStatus × UsbState H :=
  match r.header with
  | none => (none, s)
  | some (b0, b1, b2, b3) =>
    let length := headerLength b0 b1
    let opcode := headerOpcode b2 b3
    -- an empty range: the source joins the two bounds with &&
    if opcode < 1 ∧ 19 < opcode then (none, s)
    else if ctrlType opcode ≠ some .firmware ∧ maxRequestLine < length then (none, s)
    else
      let buffered := [b0, b1, b2, b3] ++ r.stack
      match ctrlType opcode with
      | some .logon => logonRequest H length buffered r s
      | some .auth => (none, authRequest H length buffered r s)
      | some type => (none, { s with camera := others type s.ctrlHandle length r s.camera })
      | none => (none, s)

/-- The log-on that a request carries, if `processClient` gets to decode one. -/
def logonOf (r : UsbRequest) : Option LogonReq :=
  match r.header with
  | some (b0, b1, b2, b3) =>
    if headerOpcode b2 b3 = 1 ∧ headerLength b0 b1 ≤ maxRequestLine then
      (readRequest (headerLength b0 b1) ([b0, b1, b2, b3] ++ r.stack) r).map xdrLogonReqStru
    else none
  | none => none

end

section
variable {H : HttpAuth}

theorem ctrlType_logon {opcode : Nat} : ctrlType opcode = some .logon ↔ opcode = 1 := by
  constructor
  · intro logon
    cases opcode with
    | zero => cases logon
    | succ n =>
      have same : ctrlTypes[0]? = ctrlTypes[n]? := logon.symm
      have zero : 0 = n := (List.getElem?_inj (by decide) (by decide)).mp same
      omega
  · rintro rfl
    rfl

/-- A request either carries a log-on, and then sets the privilege, or leaves the handle alone. -/
theorem processClient_cases (others : OtherHandlers H) (r : UsbRequest) (s : UsbState H) :
    (∃ logon, logonOf r = some logon ∧
      processClient H others r s =
        (some (logonCheck H s.ctrlHandle logon s.camera).1,
          { s with ctrlHandle :=
            { (logonCheck H s.ctrlHandle logon s.camera).2 with privilege := authAdmin } })) ∨
    (logonOf r = none ∧ (processClient H others r s).1 = none ∧
      (processClient H others r s).2.ctrlHandle = s.ctrlHandle) := by
  cases header : r.header with
  | none => exact .inr (by simp [processClient, logonOf, header])
  | some bytes =>
    obtain ⟨b0, b1, b2, b3⟩ := bytes
    have noRange : ¬ (headerOpcode b2 b3 < 1 ∧ 19 < headerOpcode b2 b3) := by omega
    simp only [processClient, logonOf, header, noRange, if_false]
    by_cases logon : headerOpcode b2 b3 = 1
    · have type := ctrlType_logon.mpr logon
      by_cases long : maxRequestLine < headerLength b0 b1
      · have notShort : ¬ headerLength b0 b1 ≤ maxRequestLine := by omega
        exact .inr (by simp [type, long, notShort])
      · have short : headerLength b0 b1 ≤ maxRequestLine := by omega
        simp only [type, long, and_false, if_false]
        simp only [logon, short, and_self, if_true, logonRequest]
        cases readRequest (headerLength b0 b1) ([b0, b1, b2, b3] ++ r.stack) r with
        | none => exact .inr ⟨rfl, rfl, rfl⟩
        | some reqBuf => exact .inl ⟨_, rfl, rfl⟩
    · right
      have other := mt ctrlType_logon.mp logon
      simp only [logon, false_and, if_false]
      refine ⟨trivial, ?_⟩
      split
      · exact ⟨rfl, rfl⟩
      · split
        · contradiction
        · unfold authRequest
          split <;> exact ⟨rfl, rfl⟩
        · exact ⟨rfl, rfl⟩
        · exact ⟨rfl, rfl⟩

/-- The privilege of the account that a log-on names, if the saved table has it. -/
def accountPrivilege (c : CameraState H) (logon : LogonReq) : Option Int :=
  if logon.name = [] ∨ logon.passwd = [] ∨ 24 ≤ logon.name.length ∨ 24 ≤ logon.passwd.length then
    none
  else (findUser c.config logon.name logon.passwd).map c.config.acUserPrivilege

theorem logonCheck_errNum (h : Handle) (logon : LogonReq) (c : CameraState H)
    (check : c.bUserCheck = 1) :
    (logonCheck H h logon c).1.errNum = (accountPrivilege c logon).getD (-1) := by
  unfold logonCheck accountPrivilege
  split
  · rename_i empty
    simp [empty]
  · rename_i named
    split
    · rename_i empty
      simp [empty]
    · rename_i secret
      split
      · rename_i long
        simp [long]
      · rename_i short
        have fits : ¬ (24 < logon.passwd.length ∨ 24 < logon.name.length) := by omega
        simp only [named, secret, short, or_self, if_false, ictlAuthUser, fits, check,
          ne_eq, not_true_eq_false]
        cases findUser c.config logon.name logon.passwd with
        | none => rfl
        | some i => rfl

/-- The state of the session after one request. -/
def usbStep (others : OtherHandlers H) (s : UsbState H) (r : UsbRequest) : UsbState H :=
  (processClient H others r s).2

theorem usbStep_privilege (others : OtherHandlers H) (s : UsbState H) (r : UsbRequest) :
    (usbStep others s r).ctrlHandle.privilege =
      if (logonOf r).isSome then authAdmin else s.ctrlHandle.privilege := by
  unfold usbStep
  rcases processClient_cases others r s with ⟨logon, carried, out⟩ | ⟨none, _, same⟩
  · rw [out, carried]
    rfl
  · rw [same, none]
    rfl

theorem run_privilege (others : OtherHandlers H) {s t : UsbState H} {rs : List UsbRequest}
    (run : Run (graph (usbStep others)) s rs t) :
    t.ctrlHandle.privilege =
      if rs.any (fun r => (logonOf r).isSome) then authAdmin else s.ctrlHandle.privilege := by
  induction run with
  | nil => rfl
  | @cons s r t i is step _ ih =>
    cases step
    rw [ih, usbStep_privilege, List.any_cons]
    cases (logonOf i).isSome <;> simp

/-- The session is a user's until a log-on is decoded and an administrator's from then on; only
the reply tells which account, if any, the log-on named. -/
theorem session_privilege (others : OtherHandlers H) (camera : CameraState H) (t : UsbState H)
    (rs : List UsbRequest) (run : Run (graph (usbStep others)) ⟨zeroHandle, camera⟩ rs t) :
    t.ctrlHandle.privilege =
      (if rs.any (fun r => (logonOf r).isSome) then authAdmin else authUser) ∧
    ∀ r logon, logonOf r = some logon → t.camera.bUserCheck = 1 →
      ∃ reply, (processClient H others r t).1 = some reply ∧
        reply.errNum = (accountPrivilege t.camera logon).getD (-1) := by
  constructor
  · exact run_privilege others run
  · intro r logon carried check
    rcases processClient_cases others r t with ⟨decoded, same, out⟩ | ⟨none, _⟩
    · cases carried.symm.trans same
      exact ⟨_, by rw [out], logonCheck_errNum _ _ _ check⟩
    · cases carried.symm.trans none

end

/-! One wrong log-on against a camera that checks its users. -/

/-- A log-on as `eve` with password `x`. -/
def eveLogon : UsbRequest where
  header := some (6, 0, 1, 0)
  stack := []
  payload := some [101, 118, 101, 0, 120, 0]

def idleHandlers (H : HttpAuth) : OtherHandlers H := fun _ _ _ _ c => c

/-- The log-on names no account and is told so, and still the session becomes an
administrator's. -/
theorem wrong_logon_raises :
    logonOf eveLogon = some ⟨"eve".toList, "x".toList⟩ ∧
    accountPrivilege oneUserCamera ⟨"eve".toList, "x".toList⟩ = none ∧
    oneUserCamera.bUserCheck = 1 ∧
    (processClient plainAuth (idleHandlers _) eveLogon ⟨zeroHandle, oneUserCamera⟩).1 =
      some ⟨-1, some "unauthorized users"⟩ ∧
    zeroHandle.privilege <
      (usbStep (idleHandlers _) ⟨zeroHandle, oneUserCamera⟩ eveLogon).ctrlHandle.privilege := by
  refine ⟨by decide, by decide, rfl, by decide, by decide⟩

theorem session_privilege_eve :
    (usbStep (idleHandlers plainAuth) ⟨zeroHandle, oneUserCamera⟩ eveLogon).ctrlHandle.privilege =
      authAdmin :=
  (session_privilege (idleHandlers plainAuth) oneUserCamera _ [eveLogon]
    (.cons rfl (.nil _))).1.trans (by decide)

end Rovio.Usb
