import Rovio.Kit.Wire
import Rovio.Kit.Bytes

/-! The messages of the USB configuration protocol, as vp_com.c writes and reads them: one
routine for each type that does both, and a function for the length. Reading takes the
strings where they stand in the buffer, of which `size` bytes are there. -/
namespace Rovio.Xdr

open Kit

/-- The bytes in front of the final zero. -/
structure CString where
  bytes : List UInt8
  noZero : 0 ∉ bytes

def CString.empty : CString := ⟨[], by simp⟩

def CString.cons (b : UInt8) (nonzero : b ≠ 0) (s : CString) : CString :=
  ⟨b :: s.bytes, by simpa [s.noZero] using Ne.symm nonzero⟩

/-- A `char *`, which may be NULL. -/
abbrev Str := Option CString

/-- NULL goes over the wire as the empty string. -/
def Str.normal (str : Str) : Str := some (str.getD .empty)

abbrev Word := BitVec 32

inductive OpCode
  | encode | decode
  deriving DecidableEq

abbrev Routine (α : Type) := Wire UInt8 α

def maxElement : Nat := 30

/-! ### Integers and strings -/

def xdrStringLenth : Str → Nat
  | none => 1
  | some s => s.bytes.length + 1

def putBytes (bytes : List UInt8) : Routine Unit := fun p =>
  some ((), ⟨store p.buff p.pos bytes, p.pos + bytes.length⟩)

variable (size : Nat)

def getInt : Routine Word := fun p =>
  if p.pos + 4 ≤ size then
    some (leWord (p.buff p.pos) (p.buff (p.pos + 1)) (p.buff (p.pos + 2)) (p.buff (p.pos + 3)),
      ⟨p.buff, p.pos + 4⟩)
  else none

/-- The string at the position, with so many bytes left of the buffer. -/
def stringAt (buff : Nat → UInt8) : Nat → Nat → Option CString
  | 0, _ => none
  | left + 1, pos =>
    if zero : buff pos = 0 then some .empty
    else (stringAt buff left (pos + 1)).map (CString.cons (buff pos) zero)

def getString : Routine Str := fun p =>
  (stringAt p.buff (size - p.pos) p.pos).map fun s =>
    (some s, ⟨p.buff, p.pos + s.bytes.length + 1⟩)

def xdrInt (opCode : OpCode) (aa : Word) : Routine Word :=
  match opCode with
  | .encode => do
    putBytes (leBytes aa)
    return aa
  | .decode => getInt size

def xdrUnsignedInt (opCode : OpCode) (aa : Word) : Routine Word := xdrInt size opCode aa

def xdrString (opCode : OpCode) (str : Str) : Routine Str :=
  match opCode with
  | .encode => do
    match str with
    | none => putBytes [0]
    | some s => putBytes (s.bytes ++ [0])
    return str
  | .decode => getString size

/-! ### Lists of strings -/

/-- `num` and the first `num` entries of the array. -/
structure PointerArray where
  array : List Str
  bound : array.length ≤ maxElement

def PointerArray.num (array : PointerArray) : Word := array.array.length

def xdrpointerArrayLenth (array : PointerArray) : Nat :=
  4 + (array.array.map xdrStringLenth).sum

/-- A loop over the entries, of which the reader has `count`; the writer's are given. -/
def xdrEntries {α : Type} (entry : OpCode → α → Routine α) (zero : α) (opCode : OpCode) :
    Nat → List α → Routine (List α)
  | 0, _ => return []
  | count + 1, entries => do
    let first ← entry opCode (entries.head?.getD zero)
    let rest ← xdrEntries entry zero opCode count entries.tail
    return first :: rest

/-- A number out of range returns NULL, which the caller goes on with. -/
def xdrpointerArrayStru (opCode : OpCode) (array : PointerArray) : Routine PointerArray := do
  let num ← xdrInt size opCode array.num
  if num.toInt < 0 ∨ num.toInt > maxElement then fun _ => none
  else
    let entries ← xdrEntries (xdrString size) none opCode num.toNat array.array
    if bound : entries.length ≤ maxElement then return ⟨entries, bound⟩ else fun _ => none

structure Iter where
  min : Word
  max : Word
  step : Word
  current : Word

def xdrIterLenth (_ : Iter) : Nat := 4 * 4

def xdrIterStru (opCode : OpCode) (iter : Iter) : Routine Iter := do
  let min ← xdrInt size opCode iter.min
  let max ← xdrInt size opCode iter.max
  let step ← xdrInt size opCode iter.step
  let current ← xdrInt size opCode iter.current
  return ⟨min, max, step, current⟩

/-! ### The messages -/

structure UserSetting where
  checkuser : Word
  type : Word
  nPrivilege : Word
  originalName : Str
  originalPasswd : Str
  newName : Str
  newPasswd : Str

def xdrUserSettingLenth (set : UserSetting) : Nat :=
  4 + 4 + 4 + xdrStringLenth set.originalName + xdrStringLenth set.originalPasswd +
    xdrStringLenth set.newName + xdrStringLenth set.newPasswd

def xdrUserSettingStru (opCode : OpCode) (set : UserSetting) : Routine UserSetting := do
  let checkuser ← xdrInt size opCode set.checkuser
  let type ← xdrInt size opCode set.type
  let nPrivilege ← xdrInt size opCode set.nPrivilege
  let originalName ← xdrString size opCode set.originalName
  let originalPasswd ← xdrString size opCode set.originalPasswd
  let newName ← xdrString size opCode set.newName
  let newPasswd ← xdrString size opCode set.newPasswd
  return ⟨checkuser, type, nPrivilege, originalName, originalPasswd, newName, newPasswd⟩

structure LogonReq where
  name : Str
  passwd : Str

def xdrlogonReqLenth (logon : LogonReq) : Nat :=
  xdrStringLenth logon.name + xdrStringLenth logon.passwd

def xdrlogonReqStru (opCode : OpCode) (logon : LogonReq) : Routine LogonReq := do
  let name ← xdrString size opCode logon.name
  let passwd ← xdrString size opCode logon.passwd
  return ⟨name, passwd⟩

structure RequestStatus where
  errNum : Word
  msg : Str

/-- `version` is what `WRGetProductVersion` returns; a reader drops the one it reads. -/
def xdrrequestStatusLenth (version : CString) (result : RequestStatus) : Nat :=
  4 + xdrStringLenth result.msg + xdrStringLenth (some version)

def xdrrequestStatusStru (version : CString) (opCode : OpCode) (result : RequestStatus) :
    Routine RequestStatus := do
  let errNum ← xdrInt size opCode result.errNum
  let msg ← xdrString size opCode result.msg
  let _ ← xdrString size opCode (some version)
  return ⟨errNum, msg⟩

structure ImageSetting where
  motionDetect : Word
  resolutionX : Word
  resolutionY : Word
  quality : Word
  frameRate : Word

/-- `sizeof(struct imageSetting)`. -/
def xdrimageSettingLenth (_ : ImageSetting) : Nat := 20

def xdrimageSettingStru (opCode : OpCode) (result : ImageSetting) : Routine ImageSetting := do
  let motionDetect ← xdrInt size opCode result.motionDetect
  let quality ← xdrInt size opCode result.quality
  let resolutionX ← xdrInt size opCode result.resolutionX
  let resolutionY ← xdrInt size opCode result.resolutionY
  let frameRate ← xdrInt size opCode result.frameRate
  return ⟨motionDetect, resolutionX, resolutionY, quality, frameRate⟩

structure EmailSetting where
  sendMail : Word
  mailServer : Word
  userName : Str
  passwd : Str
  sendAddr : Str
  recAddr : Str
  mailSubject : Str

def xdremailSettingLenth (result : EmailSetting) : Nat :=
  4 + 4 + xdrStringLenth result.userName + xdrStringLenth result.passwd +
    xdrStringLenth result.sendAddr + xdrStringLenth result.recAddr +
    xdrStringLenth result.mailSubject

def xdremailSettingStru (opCode : OpCode) (result : EmailSetting) : Routine EmailSetting := do
  let mailServer ← xdrInt size opCode result.mailServer
  let sendMail ← xdrInt size opCode result.sendMail
  let userName ← xdrString size opCode result.userName
  let passwd ← xdrString size opCode result.passwd
  let sendAddr ← xdrString size opCode result.sendAddr
  let recAddr ← xdrString size opCode result.recAddr
  let mailSubject ← xdrString size opCode result.mailSubject
  return ⟨sendMail, mailServer, userName, passwd, sendAddr, recAddr, mailSubject⟩

structure FtpSetting where
  sendMail : Word
  ftpServer : Word
  userName : Str
  passwd : Str
  account : Str
  path : Str

def xdrftpSettingLenth (result : FtpSetting) : Nat :=
  4 + 4 + xdrStringLenth result.userName + xdrStringLenth result.passwd +
    xdrStringLenth result.account + xdrStringLenth result.path

def xdrftpSettingStru (opCode : OpCode) (result : FtpSetting) : Routine FtpSetting := do
  let sendMail ← xdrInt size opCode result.sendMail
  let ftpServer ← xdrInt size opCode result.ftpServer
  let userName ← xdrString size opCode result.userName
  let passwd ← xdrString size opCode result.passwd
  let account ← xdrString size opCode result.account
  let path ← xdrString size opCode result.path
  return ⟨sendMail, ftpServer, userName, passwd, account, path⟩

structure IpSetting where
  autoGetIP : Word
  ip : Word
  subnetMask : Word
  gateway : Word
  dns1 : Word
  dns2 : Word
  dns3 : Word

/-- `sizeof(struct ipSetting)`. -/
def xdripSettingLenth (_ : IpSetting) : Nat := 28

def xdripSettingStru (opCode : OpCode) (result : IpSetting) : Routine IpSetting := do
  let autoGetIP ← xdrInt size opCode result.autoGetIP
  let ip ← xdrUnsignedInt size opCode result.ip
  let subnetMask ← xdrUnsignedInt size opCode result.subnetMask
  let gateway ← xdrUnsignedInt size opCode result.gateway
  let dns1 ← xdrUnsignedInt size opCode result.dns1
  let dns2 ← xdrUnsignedInt size opCode result.dns2
  let dns3 ← xdrUnsignedInt size opCode result.dns3
  return ⟨autoGetIP, ip, subnetMask, gateway, dns1, dns2, dns3⟩

structure ExtendSetting where
  autoGetTime : Word
  timeServer : Word
  date : Str
  time : Str
  timeZone : Str

def xdrextendSettingLenth (result : ExtendSetting) : Nat :=
  4 + 4 + xdrStringLenth result.date + xdrStringLenth result.time + xdrStringLenth result.timeZone

def xdrextendSettingStru (opCode : OpCode) (result : ExtendSetting) : Routine ExtendSetting := do
  let autoGetTime ← xdrInt size opCode result.autoGetTime
  let timeServer ← xdrInt size opCode result.timeServer
  let date ← xdrString size opCode result.date
  let time ← xdrString size opCode result.time
  let timeZone ← xdrString size opCode result.timeZone
  return ⟨autoGetTime, timeServer, date, time, timeZone⟩

structure SystemSetting where
  type : Word
  videoFormat : Word
  audioFormat : Word
  debug : Word
  mac_address : Str

def xdrsystemSettingLenth (result : SystemSetting) : Nat :=
  4 + 4 + 4 + 4 + xdrStringLenth result.mac_address

def xdrsystemSettingStru (opCode : OpCode) (result : SystemSetting) : Routine SystemSetting := do
  let type ← xdrInt size opCode result.type
  let videoFormat ← xdrInt size opCode result.videoFormat
  let audioFormat ← xdrInt size opCode result.audioFormat
  let debug ← xdrInt size opCode result.debug
  let mac_address ← xdrString size opCode result.mac_address
  return ⟨type, videoFormat, audioFormat, debug, mac_address⟩

structure WlanSetting where
  handleMethod : Str
  ulWlanChannel : Word
  pcWepSet : Str
  pcWepAsc : Str
  pcWep128 : Str
  pcWep64 : Str
  pcWep64type : Str
  pcWep128type : Str
  pcWlanESSID : Str

def xdrwlanSettingLenth (wlan : WlanSetting) : Nat :=
  4 + xdrStringLenth wlan.handleMethod + xdrStringLenth wlan.pcWepSet +
    xdrStringLenth wlan.pcWepAsc + xdrStringLenth wlan.pcWep128 + xdrStringLenth wlan.pcWep64 +
    xdrStringLenth wlan.pcWep64type + xdrStringLenth wlan.pcWep128type +
    xdrStringLenth wlan.pcWlanESSID

def xdrwlanSettingStru (opCode : OpCode) (wlan : WlanSetting) : Routine WlanSetting := do
  let ulWlanChannel ← xdrUnsignedInt size opCode wlan.ulWlanChannel
  let handleMethod ← xdrString size opCode wlan.handleMethod
  let pcWepSet ← xdrString size opCode wlan.pcWepSet
  let pcWepAsc ← xdrString size opCode wlan.pcWepAsc
  let pcWep128 ← xdrString size opCode wlan.pcWep128
  let pcWep64 ← xdrString size opCode wlan.pcWep64
  let pcWep128type ← xdrString size opCode wlan.pcWep128type
  let pcWep64type ← xdrString size opCode wlan.pcWep64type
  let pcWlanESSID ← xdrString size opCode wlan.pcWlanESSID
  return ⟨handleMethod, ulWlanChannel, pcWepSet, pcWepAsc, pcWep128, pcWep64, pcWep64type,
    pcWep128type, pcWlanESSID⟩

/-- Of `userPrivilege` the entries that belong to `userList`. -/
structure InitialInfo where
  resulationList : PointerArray
  userList : PointerArray
  userPrivilege : List Word
  privileges : userPrivilege.length = userList.array.length
  adminIndex : Word
  frame : Iter
  quality : Iter
  ipset : IpSetting
  wlan : WlanSetting
  auth_CheckUser : Word
  current_resolation : Word
  motion_detect : Word
  audioFormat : Word
  videoFormat : Word
  mac_address : Str

def xdrinitialInfoLenth (info : InitialInfo) : Nat :=
  4 + 4 + 4 + 4 + 4 + 4 + xdrIterLenth info.quality + xdrIterLenth info.frame +
    xdrpointerArrayLenth info.resulationList + xdrpointerArrayLenth info.userList +
    xdripSettingLenth info.ipset + xdrwlanSettingLenth info.wlan +
    xdrStringLenth info.mac_address + 4 * info.userList.num.toNat

/-- Behind the two inner messages the cursor is moved by their length functions. -/
def xdrinitialInfoStru (opCode : OpCode) (info : InitialInfo) : Routine InitialInfo := do
  let auth_CheckUser ← xdrInt size opCode info.auth_CheckUser
  let current_resolation ← xdrInt size opCode info.current_resolation
  let motion_detect ← xdrInt size opCode info.motion_detect
  let videoFormat ← xdrInt size opCode info.videoFormat
  let audioFormat ← xdrInt size opCode info.audioFormat
  let adminIndex ← xdrInt size opCode info.adminIndex
  let quality ← xdrIterStru size opCode info.quality
  let frame ← xdrIterStru size opCode info.frame
  let userList ← xdrpointerArrayStru size opCode info.userList
  let resulationList ← xdrpointerArrayStru size opCode info.resulationList
  let ipset ← advanceBy xdripSettingLenth (xdripSettingStru size opCode info.ipset)
  let wlan ← advanceBy xdrwlanSettingLenth (xdrwlanSettingStru size opCode info.wlan)
  let mac_address ← xdrString size opCode info.mac_address
  let userPrivilege ← xdrEntries (xdrInt size) 0 opCode userList.num.toNat info.userPrivilege
  if privileges : userPrivilege.length = userList.array.length then
    return ⟨resulationList, userList, userPrivilege, privileges, adminIndex, frame, quality, ipset,
      wlan, auth_CheckUser, current_resolation, motion_detect, audioFormat, videoFormat,
        mac_address⟩
  else fun _ => none

structure CustomSetting where
  value : Str

def xdrcustomSettingLenth (custom : CustomSetting) : Nat := xdrStringLenth custom.value

def xdrcustomSettingStru (opCode : OpCode) (custom : CustomSetting) : Routine CustomSetting := do
  let value ← xdrString size opCode custom.value
  return ⟨value⟩

structure Firmware where
  lenth : Word

/-- `sizeof(struct firmware)`. -/
def xdrfirmwareLenth (_ : Firmware) : Nat := 4

def xdrfirmwareStru (opCode : OpCode) (firm : Firmware) : Routine Firmware := do
  let lenth ← xdrUnsignedInt size opCode firm.lenth
  return ⟨lenth⟩

structure WlanAPEntry where
  essid : Str
  mode : Word
  signal : Word
  noise : Word
  encode : Word

def xdrwlanAPEntryLenth (ap : WlanAPEntry) : Nat := 4 + 4 + 4 + 4 + xdrStringLenth ap.essid

def xdrwlanAPEntryStru (opCode : OpCode) (ap : WlanAPEntry) : Routine WlanAPEntry := do
  let mode ← xdrUnsignedInt size opCode ap.mode
  let signal ← xdrUnsignedInt size opCode ap.signal
  let noise ← xdrUnsignedInt size opCode ap.noise
  let encode ← xdrUnsignedInt size opCode ap.encode
  let essid ← xdrString size opCode ap.essid
  return ⟨essid, mode, signal, noise, encode⟩

/-- `num` is an `int`, and the array has as many entries. -/
structure WlanAPArray where
  array : List WlanAPEntry
  bound : array.length < 2 ^ 31

def WlanAPArray.num (ap : WlanAPArray) : Word := BitVec.ofNat 32 ap.array.length

def xdrwlanAPArrayLenth (ap : WlanAPArray) : Nat := 4 + (ap.array.map xdrwlanAPEntryLenth).sum

def emptyAPEntry : WlanAPEntry := ⟨none, 0, 0, 0, 0⟩

/-- A negative number of entries is read as none. -/
def xdrwlanAPArrayStru (opCode : OpCode) (ap : WlanAPArray) : Routine WlanAPArray := do
  let num ← xdrInt size opCode ap.num
  let entries ← xdrEntries
    (fun opCode ent => advanceBy xdrwlanAPEntryLenth (xdrwlanAPEntryStru size opCode ent))
    emptyAPEntry opCode num.toInt.toNat ap.array
  if bound : entries.length < 2 ^ 31 then return ⟨entries, bound⟩ else fun _ => none

end Rovio.Xdr
