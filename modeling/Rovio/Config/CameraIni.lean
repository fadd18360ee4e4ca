import Mathlib.Data.Fin.VecNotation
import Rovio.Kit.Ini
import Rovio.Kit.Decimal
import Rovio.Settings.Wlan

/-! `WriteCameraINI` and `ReadCameraINI`: the settings as a text of named sections, in the build
with a file system. -/
namespace Rovio.Config.Ini
open Rovio.Http Rovio.Settings Kit

/-- The library functions that the two call. A value is read into a buffer of a given size and cut
when it does not fit. -/
structure IniLib extends StringLib where
  httpReadConfigValue : CString → CString → CString → Nat → Option CString
  httpString2Bool : CString → Bool
  httpIP2String : BitVec 32 → CString
  inet_addr : CString → BitVec 32
  httpSplitString : CString → Char → Option (List CString)
  reads : ∀ file seg name size, 0 < size → ∃ v,
    httpReadConfigValue file seg name size = some v ∧ v.length < size ∧
      ((Kit.Ini.textAfter file seg name).length < size → v = Kit.Ini.textAfter file seg name)
  long_decimal : ∀ t, IsDecimal t → -2147483648 ≤ decimalValue t → decimalValue t < 2147483648 →
    httpString2Long t = decimalValue t
  bool_one : httpString2Bool ['1'] = true
  bool_zero : httpString2Bool ['0'] = false
  bool_empty : httpString2Bool [] = false
  ip_length : ∀ ip, 7 ≤ (httpIP2String ip).length ∧ (httpIP2String ip).length ≤ 15
  ip_text : ∀ ip, ∀ c ∈ httpIP2String ip, c.isDigit ∨ c = '.'
  ip_again : ∀ ip, inet_addr (httpIP2String ip) = ip
  split_empty : ∀ nodes, httpSplitString [] ',' = some nodes → nodes.length < 4

structure Rect where
  iLeft : BitVec 32
  iTop : BitVec 32
  iRight : BitVec 32
  iBottom : BitVec 32
deriving DecidableEq

def Rect.zero : Rect := ⟨0, 0, 0, 0⟩

/-! The settings of the configuration that are in the file, section by section. -/

structure Wlan where
  acWlanESSID : Text 33
  ulWlanChannel : BitVec 32
  ucWlanOperationMode : BitVec 8

structure Ip where
  acCameraName : Text 19
  aulAsDNS : Fin 3 → BitVec 32

structure Net where
  abAsNetEnable : Bool
  aucIPAssignedWay : BitVec 8
  ulAsIPAddress : BitVec 32
  ulAsNetmask : BitVec 32
  ulAsGateway : BitVec 32

structure PPPoE where
  bEnablePPPoE : Bool
  bPPPoEConnectOnBoot : Bool
  acPPPoEUserName : Text 64
  acPPPoEUserPass : Text 64
  acPPPoESeviceName : Text 64
  ulPPPoEDisConnectTime_InSec : BitVec 32

structure Modem where
  bEnableModem : Bool
  bEnableModemAutoConnect : Bool
  acModemUserName : Text 64
  acModemUserPass : Text 64
  acModemPhone : Text 64
  ulModemDisConnectTime_InSec : BitVec 32

structure Dial where
  bIfMailOnDialed : Bool
  acDial_MailSender : Text 64
  acDial_MailReceiver : Text 256
  acDial_MailServer : Text 64
  acDial_MailUser : Text 64
  acDial_MailPassword : Text 64
  acDial_MailSubject : Text 64
  bDial_MailCheck : Bool

structure Ftp where
  acFtpServer : Text 64
  acFtpUser : Text 64
  acFtpPass : Text 64
  acFtpAccount : Text 64
  acFtpUploadPath : Text 256
  bFtpEnable : Bool

structure Mail where
  acMailSender : Text 64
  acMailReceiver : Text 256
  acMailServer : Text 64
  acMailUser : Text 64
  acMailPassword : Text 64
  acMailSubject : Text 64
  bMailCheck : Bool
  bMailEnable : Bool

structure User where
  bUserCheck : Bool
  iUserCurNum : Int
  aacUserName : Nat → Text 24
  aacUserPass : Nat → Text 24
  acUserPrivilege : Nat → BitVec 8
  acAdminName : Text 24
  acAdminPass : Text 24

structure Camera where
  bDefaultImg : Bool
  eVideoFormat : BitVec 32
  eAudioFormat : BitVec 32
  ulImgResolution : BitVec 32
  ulImgQuality : BitVec 32
  ulImgFramerate : BitVec 32
  ulImgBrightness : BitVec 32
  ulImgContrast : BitVec 32
  ulImgHue : BitVec 32
  ulImgSaturation : BitVec 32
  ulImgSharpness : BitVec 32
  rMoniteRect : Rect
  ulMotionDetectSensitivity : BitVec 32
  ucMotionDetectWay : BitVec 8

structure Other where
  lTimeZone_InSec : BitVec 32
  acNtpServer : Text 64
  bUseNtp : Bool

structure CameraConfig where
  wlan : Wlan
  ip : Ip
  net : Fin 2 → Net
  pppoe : PPPoE
  modem : Modem
  dial : Dial
  ftp : Ftp
  mail : Mail
  user : User
  camera : Camera
  other : Other

def MAX_USERSET_ENABLE : Nat := 30
def AUTH_ADMIN : BitVec 8 := 1
def IP_ASSIGNMENT_MANUALLY : BitVec 8 := 0
def IP_ASSIGNMENT_DHCP : BitVec 8 := 1

/-! The writer. -/

/-- A value as one of the formats takes it. -/
inductive Stored where
  | string (s : CString)
  | flag (b : Bool)
  | long (x : BitVec 32)
  | ulong (x : BitVec 32)
  | byte (x : BitVec 8)
  | address (ip : BitVec 32)
  | assignment (way : BitVec 8)
  | rect (r : Rect)
  | minutes (seconds : BitVec 32)

def Stored.text (lib : IniLib) : Stored → CString
  | .string s => s
  | .flag b => if b then ['1'] else ['0']
  | .long x => decimalText x.toInt
  | .ulong x => decimalText x.toNat
  | .byte x => decimalText x.toNat
  | .address ip => lib.httpIP2String ip
  | .assignment way => if way = IP_ASSIGNMENT_MANUALLY then "manually".toList else "dhcp".toList
  | .rect r => decimalText r.iLeft.toInt ++ ", ".toList ++ decimalText r.iTop.toInt ++ ", ".toList ++
      decimalText r.iRight.toInt ++ ", ".toList ++ decimalText r.iBottom.toInt
  | .minutes seconds => decimalText (seconds.toInt.tdiv 60)

abbrev Entries := List (CString × Stored)

def Wlan.stored (c : Wlan) : Entries :=
  [("ESSID".toList, .string c.acWlanESSID.val),
   ("Channel".toList, .long c.ulWlanChannel),
   ("Mode".toList, .byte c.ucWlanOperationMode)]

def Ip.stored (c : Ip) : Entries :=
  [("CameraName".toList, .string c.acCameraName.val),
   ("DNS0".toList, .address (c.aulAsDNS 0)),
   ("DNS1".toList, .address (c.aulAsDNS 1)),
   ("DNS2".toList, .address (c.aulAsDNS 2))]

def Net.stored (c : Net) : Entries :=
  [("Enable".toList, .flag c.abAsNetEnable),
   ("IPAssignment".toList, .assignment c.aucIPAssignedWay),
   ("IP".toList, .address c.ulAsIPAddress),
   ("Netmask".toList, .address c.ulAsNetmask),
   ("Gateway".toList, .address c.ulAsGateway)]

def PPPoE.stored (c : PPPoE) : Entries :=
  [("PPPoEConnectOnBoot".toList, .flag c.bPPPoEConnectOnBoot),
   ("PPPoEUserName".toList, .string c.acPPPoEUserName.val),
   ("PPPoEUserPass".toList, .string c.acPPPoEUserPass.val),
   ("PPPoESeviceName".toList, .string c.acPPPoESeviceName.val),
   ("PPPoEDisConnectTime_InSec".toList, .ulong c.ulPPPoEDisConnectTime_InSec)]

def Modem.stored (c : Modem) : Entries :=
  [("EnableModemAutoConnect".toList, .flag c.bEnableModemAutoConnect),
   ("ModemUserName".toList, .string c.acModemUserName.val),
   ("ModemUserPass".toList, .string c.acModemUserPass.val),
   ("ModemPhone".toList, .string c.acModemPhone.val),
   ("ModemDisConnectTime_InSec".toList, .ulong c.ulModemDisConnectTime_InSec)]

def Dial.stored (c : Dial) : Entries :=
  [("MailOnDial".toList, .flag c.bIfMailOnDialed),
   ("DialMailSender".toList, .string c.acDial_MailSender.val),
   ("DialMailReceiver".toList, .string c.acDial_MailReceiver.val),
   ("DialMailServer".toList, .string c.acDial_MailServer.val),
   ("DialMailUser".toList, .string c.acDial_MailUser.val),
   ("DialMailPassword".toList, .string c.acDial_MailPassword.val),
   ("DialMailCheckPass".toList, .flag c.bDial_MailCheck),
   ("DialMailSubject".toList, .string c.acDial_MailSubject.val)]

def Ftp.stored (c : Ftp) : Entries :=
  [("FtpServer".toList, .string c.acFtpServer.val),
   ("FtpUser".toList, .string c.acFtpUser.val),
   ("FtpPass".toList, .string c.acFtpPass.val),
   ("FtpAccount".toList, .string c.acFtpAccount.val),
   ("FtpUploadPath".toList, .string c.acFtpUploadPath.val),
   ("FtpEnable".toList, .flag c.bFtpEnable)]

def Mail.stored (c : Mail) : Entries :=
  [("MailSender".toList, .string c.acMailSender.val),
   ("MailReceiver".toList, .string c.acMailReceiver.val),
   ("MailServer".toList, .string c.acMailServer.val),
   ("MailUser".toList, .string c.acMailUser.val),
   ("MailPassword".toList, .string c.acMailPassword.val),
   ("MailCheckPass".toList, .flag c.bMailCheck),
   ("MailSubject".toList, .string c.acMailSubject.val),
   ("MailEnable".toList, .flag c.bMailEnable)]

/-- A name with the number of an account. -/
def numbered (name : String) (i : Nat) : CString := name.toList ++ decimalText i

/-- The accounts the writer's loop reaches. -/
def accountNumbers (iUserCurNum : Int) : List Nat :=
  (List.range' 1 (MAX_USERSET_ENABLE - 1)).takeWhile fun i => decide ((i : Int) < iUserCurNum)

def User.account (c : User) (i : Nat) : Entries :=
  [(numbered "UserName_" i, .string (c.aacUserName i).val),
   (numbered "UserPass_" i, .string (c.aacUserPass i).val),
   (numbered "UserPrivilege_" i, .byte (c.acUserPrivilege i))]

def User.administrator (c : User) : Entries :=
  [("UserCheck".toList, .flag c.bUserCheck),
   ("AdminName".toList, .string c.acAdminName.val),
   ("AdminPass".toList, .string c.acAdminPass.val)]

def User.stored (count : Int) (c : User) : Entries :=
  c.administrator ++ (accountNumbers count).flatMap c.account

def Camera.stored (c : Camera) : Entries :=
  [("DefaultImg".toList, .flag c.bDefaultImg),
   ("ImgResolution".toList, .long c.ulImgResolution),
   ("ImgQuality".toList, .long c.ulImgQuality),
   ("ImgFramerate".toList, .long c.ulImgFramerate),
   ("ImgBrightness".toList, .long c.ulImgBrightness),
   ("ImgContrast".toList, .long c.ulImgContrast),
   ("ImgHue".toList, .long c.ulImgHue),
   ("ImgSaturation".toList, .long c.ulImgSaturation),
   ("ImgSharpness".toList, .long c.ulImgSharpness),
   ("MoniteRect".toList, .rect c.rMoniteRect),
   ("MotionDetectSensitivity".toList, .long c.ulMotionDetectSensitivity),
   ("MotionDetect".toList, .byte c.ucMotionDetectWay),
   ("AudioFormat".toList, .long c.eAudioFormat),
   ("VideoFormat".toList, .long c.eVideoFormat)]

def Other.stored (c : Other) : Entries :=
  [("TimeZone".toList, .minutes c.lTimeZone_InSec),
   ("NtpServer".toList, .string c.acNtpServer.val),
   ("UseNtp".toList, .flag c.bUseNtp)]

/-- The sections of the file. The headers of two of them end in a line feed alone. -/
def CameraConfig.sections (count : Int) (c : CameraConfig) : List (Kit.Ini.Section Stored) :=
  [⟨"WLAN".toList, true, c.wlan.stored, true⟩,
   ⟨"IP".toList, true, c.ip.stored, true⟩,
   ⟨"IP_eth1".toList, true, (c.net 0).stored, true⟩,
   ⟨"IP_wlan0".toList, true, (c.net 1).stored, true⟩,
   ⟨"PPPoE".toList, true, c.pppoe.stored, true⟩,
   ⟨"Modem".toList, true, c.modem.stored, true⟩,
   ⟨"Dial".toList, false, c.dial.stored, true⟩,
   ⟨"Ftp".toList, false, c.ftp.stored, true⟩,
   ⟨"Mail".toList, true, c.mail.stored, true⟩,
   ⟨"User".toList, true, c.user.stored count, true⟩,
   ⟨"Camera".toList, true, c.camera.stored, true⟩,
   ⟨"Other".toList, true, c.other.stored, false⟩]

/-- `PRINT` for the pieces of a format, as `vfnprintf` does them: a piece without room is cut, and
the rest is not printed. What is returned is the number of characters stored. -/
def vfnprintf (n : Nat) : Nat → List CString → CString
  | _, [] => []
  | ret, piece :: rest =>
    let length := min piece.length (n - ret - 1)
    if length < piece.length then piece.take length
    else piece ++ vfnprintf n (ret + piece.length) rest

def snprintf (size : Nat) (pieces : List CString) : CString := vfnprintf size 0 pieces

def pieces : Kit.Ini.Line → List CString
  | .entry name value => [name ++ " = ".toList, value, "\r\n".toList]
  | line => [line.text]

def szBuffer : Nat := 1024

/-- `j += snprintf(filebuffer + j, szBuffer - j, ..)`, line by line. -/
def fill : CString → List Kit.Ini.Line → CString
  | filebuffer, [] => filebuffer
  | filebuffer, line :: lines =>
    fill (filebuffer ++ snprintf (szBuffer - filebuffer.length) (pieces line)) lines

/-- What the heap and the file system answer. -/
structure Answers where
  filebuffer : Bool
  hFile : Int
  nstatus : Int
  writelen : Nat

/-- The file that is left when the writer returns TRUE. -/
def WriteCameraINI (lib : IniLib) (a : Answers) (c : CameraConfig) : Option CString :=
  if a.filebuffer = false then none
  else if a.hFile < 0 then none
  else
    let filebuffer :=
      fill [] (Kit.Ini.fileLines (Stored.text lib) (c.sections c.user.iUserCurNum))
    if szBuffer ≤ filebuffer.length then none
    else if a.nstatus < 0 ∨ a.writelen ≠ filebuffer.length then none
    else some filebuffer

/-! The reader. -/

section
variable (lib : IniLib) (file : CString)

/-- `__ReadDefault` with the buffer `acValue`. -/
def readDefault (seg name : CString) : Option CString := lib.httpReadConfigValue file seg name 128

/-- `httpMyStrncpy` to a field. -/
def IniLib.string {n : Nat} (lib : IniLib) (acValue : CString) : Text (n + 1) :=
  lib.text (Nat.succ_pos n) acValue

def IniLib.long (lib : IniLib) (acValue : CString) : BitVec 32 :=
  BitVec.ofInt 32 (lib.httpString2Long acValue)

def IniLib.uchar (lib : IniLib) (acValue : CString) : BitVec 8 :=
  BitVec.ofInt 8 (lib.httpString2Long acValue)

def readWlan : Option Wlan := do
  let essid ← readDefault lib file "WLAN".toList "ESSID".toList
  let channel ← readDefault lib file "WLAN".toList "Channel".toList
  let mode ← readDefault lib file "WLAN".toList "Mode".toList
  some {
    acWlanESSID := lib.string essid
    ulWlanChannel := lib.long channel
    ucWlanOperationMode := if mode = [] then 2 else lib.uchar mode }

def readIp : Option Ip := do
  let name ← readDefault lib file "IP".toList "CameraName".toList
  let dns0 ← readDefault lib file "IP".toList "DNS0".toList
  let dns1 ← readDefault lib file "IP".toList "DNS1".toList
  let dns2 ← readDefault lib file "IP".toList "DNS2".toList
  some {
    acCameraName := lib.string name
    aulAsDNS := ![lib.inet_addr dns0, lib.inet_addr dns1, lib.inet_addr dns2] }

def assignedWay (acValue : CString) : BitVec 8 :=
  if sameIgnoringCase acValue "manually".toList then IP_ASSIGNMENT_MANUALLY else IP_ASSIGNMENT_DHCP

def readNet (acName : CString) : Option Net := do
  let enable ← readDefault lib file acName "Enable".toList
  let assignment ← readDefault lib file acName "IPAssignment".toList
  let ip ← readDefault lib file acName "IP".toList
  let netmask ← readDefault lib file acName "Netmask".toList
  let gateway ← readDefault lib file acName "Gateway".toList
  some {
    abAsNetEnable := lib.httpString2Bool enable
    aucIPAssignedWay := assignedWay assignment
    ulAsIPAddress := lib.inet_addr ip
    ulAsNetmask := lib.inet_addr netmask
    ulAsGateway := lib.inet_addr gateway }

def readPPPoE : Option PPPoE := do
  let boot ← readDefault lib file "PPPoE".toList "PPPoEConnectOnBoot".toList
  let userName ← readDefault lib file "PPPoE".toList "PPPoEUserName".toList
  let userPass ← readDefault lib file "PPPoE".toList "PPPoEUserPass".toList
  let seviceName ← readDefault lib file "PPPoE".toList "PPPoESeviceName".toList
  let time ← readDefault lib file "PPPoE".toList "PPPoEDisConnectTime_InSec".toList
  some {
    bEnablePPPoE := true
    bPPPoEConnectOnBoot := lib.httpString2Bool boot
    acPPPoEUserName := lib.string userName
    acPPPoEUserPass := lib.string userPass
    acPPPoESeviceName := lib.string seviceName
    ulPPPoEDisConnectTime_InSec := lib.long time }

def readModem : Option Modem := do
  let auto ← readDefault lib file "Modem".toList "EnableModemAutoConnect".toList
  let userName ← readDefault lib file "Modem".toList "ModemUserName".toList
  let userPass ← readDefault lib file "Modem".toList "ModemUserPass".toList
  let phone ← readDefault lib file "Modem".toList "ModemPhone".toList
  let time ← readDefault lib file "Modem".toList "ModemDisConnectTime_InSec".toList
  some {
    bEnableModem := true
    bEnableModemAutoConnect := lib.httpString2Bool auto
    acModemUserName := lib.string userName
    acModemUserPass := lib.string userPass
    acModemPhone := lib.string phone
    ulModemDisConnectTime_InSec := lib.long time }

def readDial : Option Dial := do
  let mail ← readDefault lib file "Dial".toList "MailOnDial".toList
  let sender ← readDefault lib file "Dial".toList "DialMailSender".toList
  let receiver ← readDefault lib file "Dial".toList "DialMailReceiver".toList
  let server ← readDefault lib file "Dial".toList "DialMailServer".toList
  let password ← readDefault lib file "Dial".toList "DialMailPassword".toList
  let user ← readDefault lib file "Dial".toList "DialMailUser".toList
  let check ← readDefault lib file "Dial".toList "DialMailCheckPass".toList
  let subject ← readDefault lib file "Dial".toList "DialMailSubject".toList
  some {
    bIfMailOnDialed := lib.httpString2Bool mail
    acDial_MailSender := lib.string sender
    acDial_MailReceiver := lib.string receiver
    acDial_MailServer := lib.string server
    acDial_MailUser := lib.string user
    acDial_MailPassword := lib.string password
    acDial_MailSubject := lib.string subject
    bDial_MailCheck := lib.httpString2Bool check }

def readFtp : Option Ftp := do
  let server ← readDefault lib file "Ftp".toList "FtpServer".toList
  let user ← readDefault lib file "Ftp".toList "FtpUser".toList
  let pass ← readDefault lib file "Ftp".toList "FtpPass".toList
  let account ← readDefault lib file "Ftp".toList "FtpAccount".toList
  let uploadPath ← readDefault lib file "Ftp".toList "FtpUploadPath".toList
  let enable ← readDefault lib file "Ftp".toList "FtpEnable".toList
  some {
    acFtpServer := lib.string server
    acFtpUser := lib.string user
    acFtpPass := lib.string pass
    acFtpAccount := lib.string account
    acFtpUploadPath := lib.string uploadPath
    bFtpEnable := lib.httpString2Bool enable }

def readMail : Option Mail := do
  let sender ← readDefault lib file "Mail".toList "MailSender".toList
  let receiver ← readDefault lib file "Mail".toList "MailReceiver".toList
  let server ← readDefault lib file "Mail".toList "MailServer".toList
  let user ← readDefault lib file "Mail".toList "MailUser".toList
  let password ← readDefault lib file "Mail".toList "MailPassword".toList
  let check ← readDefault lib file "Mail".toList "MailCheckPass".toList
  let subject ← readDefault lib file "Mail".toList "MailSubject".toList
  let enable ← readDefault lib file "Mail".toList "MailEnable".toList
  some {
    acMailSender := lib.string sender
    acMailReceiver := lib.string receiver
    acMailServer := lib.string server
    acMailUser := lib.string user
    acMailPassword := lib.string password
    acMailSubject := lib.string subject
    bMailCheck := lib.httpString2Bool check
    bMailEnable := lib.httpString2Bool enable }

/-- The loop over the accounts. Its body counts `i` up as its header does, and an empty text ends
it. -/
def readAccounts (i : Nat) (u : User) : Option User :=
  if i < MAX_USERSET_ENABLE then do
    let name ← readDefault lib file "User".toList (numbered "UserName_" i)
    if name = [] then some { u with iUserCurNum := i }
    else do
      let u := { u with aacUserName := Function.update u.aacUserName i (lib.string name) }
      let pass ← readDefault lib file "User".toList (numbered "UserPass_" i)
      if pass = [] then some { u with iUserCurNum := i }
      else do
        let u := { u with aacUserPass := Function.update u.aacUserPass i (lib.string pass) }
        let privilege ← readDefault lib file "User".toList (numbered "UserPrivilege_" i)
        if privilege = [] then some { u with iUserCurNum := i }
        else
          readAccounts (i + 2)
            { u with
              acUserPrivilege := Function.update u.acUserPrivilege i (lib.uchar privilege) }
  else some { u with iUserCurNum := i }
termination_by MAX_USERSET_ENABLE - i

def emptyText {n : Nat} : Text (n + 1) := ⟨[], Nat.succ_pos n⟩

/-- The accounts before the loop: the administrator is the first. -/
def User.initial (lib : IniLib) (check adminName adminPass : CString) : User :=
  let acAdminName : Text 24 := lib.string adminName
  let acAdminPass : Text 24 := lib.string adminPass
  { bUserCheck := lib.httpString2Bool check
    iUserCurNum := 0
    acAdminName := acAdminName
    acAdminPass := acAdminPass
    aacUserName := Function.update (fun _ => emptyText) 0 (lib.string acAdminName.val)
    aacUserPass := Function.update (fun _ => emptyText) 0 (lib.string acAdminPass.val)
    acUserPrivilege := Function.update (fun _ => 0) 0 AUTH_ADMIN }

def readUser : Option User := do
  let check ← readDefault lib file "User".toList "UserCheck".toList
  let adminName ← readDefault lib file "User".toList "AdminName".toList
  let adminPass ← readDefault lib file "User".toList "AdminPass".toList
  readAccounts lib file 1 (User.initial lib check adminName adminPass)

/-- The rectangle: fewer than four numbers are taken for none. -/
def readRect (acValue : CString) : Rect :=
  match (lib.httpSplitString acValue ',').map (List.map lib.long) with
  | some (left :: top :: right :: bottom :: _) => ⟨left, top, right, bottom⟩
  | _ => Rect.zero

/-- `AudioFormat` is read and not stored. -/
def readCamera : Option Camera := do
  let defaultImg ← readDefault lib file "Camera".toList "DefaultImg".toList
  let resolution ← readDefault lib file "Camera".toList "ImgResolution".toList
  let quality ← readDefault lib file "Camera".toList "ImgQuality".toList
  let framerate ← readDefault lib file "Camera".toList "ImgFramerate".toList
  let brightness ← readDefault lib file "Camera".toList "ImgBrightness".toList
  let contrast ← readDefault lib file "Camera".toList "ImgContrast".toList
  let hue ← readDefault lib file "Camera".toList "ImgHue".toList
  let saturation ← readDefault lib file "Camera".toList "ImgSaturation".toList
  let sharpness ← readDefault lib file "Camera".toList "ImgSharpness".toList
  let videoFormat ← readDefault lib file "Camera".toList "VideoFormat".toList
  let _ ← readDefault lib file "Camera".toList "AudioFormat".toList
  let moniteRect ← readDefault lib file "Camera".toList "MoniteRect".toList
  let sensitivity ← readDefault lib file "Camera".toList "MotionDetectSensitivity".toList
  let motionDetect ← readDefault lib file "Camera".toList "MotionDetect".toList
  some {
    bDefaultImg := lib.httpString2Bool defaultImg
    eVideoFormat := lib.long videoFormat
    eAudioFormat := 0
    ulImgResolution := lib.long resolution
    ulImgQuality := lib.long quality
    ulImgFramerate := lib.long framerate
    ulImgBrightness := lib.long brightness
    ulImgContrast := lib.long contrast
    ulImgHue := lib.long hue
    ulImgSaturation := lib.long saturation
    ulImgSharpness := lib.long sharpness
    rMoniteRect := readRect lib moniteRect
    ulMotionDetectSensitivity := lib.long sensitivity
    ucMotionDetectWay := lib.uchar motionDetect }

def readOther : Option Other := do
  let timeZone ← readDefault lib file "Other".toList "TimeZone".toList
  let ntpServer ← readDefault lib file "Other".toList "NtpServer".toList
  let useNtp ← readDefault lib file "Other".toList "UseNtp".toList
  some {
    lTimeZone_InSec := lib.long timeZone * 60
    acNtpServer := lib.string ntpServer
    bUseNtp := lib.httpString2Bool useNtp }

def ReadCameraINI : Option CameraConfig := do
  let wlan ← readWlan lib file
  let ip ← readIp lib file
  let eth1 ← readNet lib file "IP_eth1".toList
  let wlan0 ← readNet lib file "IP_wlan0".toList
  let pppoe ← readPPPoE lib file
  let modem ← readModem lib file
  let dial ← readDial lib file
  let ftp ← readFtp lib file
  let mail ← readMail lib file
  let user ← readUser lib file
  let camera ← readCamera lib file
  let other ← readOther lib file
  some { wlan, ip, net := ![eth1, wlan0], pppoe, modem, dial, ftp, mail, user, camera, other }

end
end Rovio.Config.Ini
