import Rovio.Usb.Codec

/-! What the routines write is read back as the value that was written, and its length is
what the length functions say. -/
namespace Rovio.Xdr

open Kit

variable {size : Nat}

/-- The bytes of a value, and the value that a reader makes of them. -/
structure Codes {α : Type} (size : Nat) (stru : OpCode → α → Routine α) (bytes : α → List UInt8)
    (normal : α → α) : Prop where
  writes : ∀ v, Writes (stru .encode v) (bytes v) v
  reads : ∀ u v, Reads size (stru .decode u) (bytes v) (normal v)

/-! ### Integers, strings and lists -/

theorem putBytes_writes (bytes : List UInt8) : Writes (putBytes bytes) bytes () := fun _ _ => rfl

theorem xdrInt_codes : Codes size (xdrInt size) leBytes id where
  writes v := (putBytes_writes (leBytes v)).last fun _ => v
  reads _ v := by
    intro buff pos holds fits
    have byte0 := holds 0 _ rfl
    have byte1 := holds 1 _ rfl
    have byte2 := holds 2 _ rfl
    have byte3 := holds 3 _ rfl
    rw [Nat.add_zero] at byte0
    have run : getInt size ⟨buff, pos⟩ = if pos + 4 ≤ size then
        some (leWord (buff pos) (buff (pos + 1)) (buff (pos + 2)) (buff (pos + 3)), ⟨buff, pos + 4⟩)
        else none := rfl
    change getInt size ⟨buff, pos⟩ = _
    rw [run, if_pos (by simpa using fits), byte0, byte1, byte2, byte3, leWord_leBytes]
    rfl

def strBytes (str : Str) : List UInt8 := (str.getD .empty).bytes ++ [0]

theorem length_strBytes (str : Str) : (strBytes str).length = xdrStringLenth str := by
  cases str with
  | none => rfl
  | some s => simp [strBytes, xdrStringLenth]

@[simp] theorem strBytes_normal (str : Str) : strBytes str.normal = strBytes str := by
  cases str <;> rfl

theorem stringAt_holds {buff : Nat → UInt8} {s : CString} {left pos : Nat}
    (holds : Holds buff pos (s.bytes ++ [0])) (room : s.bytes.length < left) :
    stringAt buff left pos = some s := by
  obtain ⟨bytes, noZero⟩ := s
  induction bytes generalizing left pos with
  | nil =>
    obtain ⟨left, rfl⟩ : ∃ n, left = n + 1 := ⟨left - 1, by simp at room; omega⟩
    have zero : buff pos = 0 := holds 0 0 rfl
    rw [stringAt, dif_pos zero]
    rfl
  | cons b bytes ih =>
    obtain ⟨left, rfl⟩ : ∃ n, left = n + 1 := ⟨left - 1, by simp at room; omega⟩
    obtain ⟨other, rest⟩ : 0 ≠ b ∧ 0 ∉ bytes := by simpa using noZero
    have first : buff pos = b := holds 0 b rfl
    have behind : stringAt buff left (pos + 1) = some ⟨bytes, rest⟩ := by
      apply ih
      · intro i x here
        have := holds (i + 1) x here
        rwa [Nat.add_comm i 1, ← Nat.add_assoc] at this
      · simpa using room
    subst first
    rw [stringAt, dif_neg (Ne.symm other), behind]
    rfl

theorem xdrString_codes : Codes size (xdrString size) strBytes Str.normal where
  writes v := by
    cases v with
    | none => exact (putBytes_writes [0]).last fun _ => none
    | some s => exact (putBytes_writes (s.bytes ++ [0])).last fun _ => some s
  reads _ v := by
    intro buff pos holds fits
    rw [strBytes, List.length_append, List.length_singleton] at fits
    have run : getString size ⟨buff, pos⟩ = (stringAt buff (size - pos) pos).map fun s =>
        (some s, ⟨buff, pos + s.bytes.length + 1⟩) := rfl
    change getString size ⟨buff, pos⟩ = _
    rw [run, stringAt_holds holds (by omega)]
    simp [strBytes, Str.normal, Nat.add_assoc]

section
variable {α : Type} {entry : OpCode → α → Routine α} {bytes : α → List UInt8} {normal : α → α}

theorem xdrEntries_writes (codes : Codes size entry bytes normal) (zero : α) (vs : List α) :
    Writes (xdrEntries entry zero .encode vs.length vs) (vs.flatMap bytes) vs := by
  induction vs with
  | nil => exact .done []
  | cons v vs ih => exact (codes.writes v).bind (ih.last fun rest => v :: rest)

theorem xdrEntries_reads (codes : Codes size entry bytes normal) (zero : α) (us vs : List α) :
    Reads size (xdrEntries entry zero .decode vs.length us) (vs.flatMap bytes) (vs.map normal) := by
  induction vs generalizing us with
  | nil => exact .done size []
  | cons v vs ih =>
    exact (codes.reads _ v).bind ((ih us.tail).last fun rest => normal v :: rest)

end

theorem length_flatMap {α : Type} {bytes : α → List UInt8} {length : α → Nat}
    (same : ∀ v, (bytes v).length = length v) (vs : List α) :
    (vs.flatMap bytes).length = (vs.map length).sum := by
  induction vs with
  | nil => rfl
  | cons v vs ih => simp [ih, same]

def PointerArray.normal (array : PointerArray) : PointerArray :=
  ⟨array.array.map Str.normal, by simpa using array.bound⟩

def PointerArray.bytes (array : PointerArray) : List UInt8 :=
  leBytes array.num ++ array.array.flatMap strBytes

@[simp] theorem PointerArray.bytes_normal (array : PointerArray) :
    array.normal.bytes = array.bytes := by
  simp [PointerArray.bytes, PointerArray.normal, PointerArray.num, List.flatMap_map]

theorem PointerArray.num_toNat (array : PointerArray) : array.num.toNat = array.array.length := by
  have bound := array.bound
  simp only [maxElement] at bound
  simp only [PointerArray.num, BitVec.natCast_eq_ofNat, BitVec.toNat_ofNat]
  omega

theorem PointerArray.num_range (array : PointerArray) :
    ¬ (array.num.toInt < 0 ∨ array.num.toInt > maxElement) := by
  have number := array.num_toNat
  have bound := array.bound
  rw [BitVec.toInt_eq_toNat_cond]
  simp only [maxElement] at bound ⊢
  omega

theorem xdrpointerArray_codes :
    Codes size (xdrpointerArrayStru size) PointerArray.bytes PointerArray.normal where
  writes v := by
    refine (xdrInt_codes.writes v.num).bind ?_
    rw [if_neg v.num_range, v.num_toNat]
    intro buff pos
    rw [bind_of_run (xdrEntries_writes xdrString_codes none v.array buff pos), dif_pos v.bound]
    rfl
  reads u v := by
    refine (xdrInt_codes.reads u.num v.num).bind ?_
    rw [id, if_neg v.num_range, v.num_toNat]
    intro buff pos holds fits
    rw [bind_of_run (xdrEntries_reads xdrString_codes none u.array v.array buff pos holds fits),
      dif_pos (by simpa using v.bound)]
    rfl

theorem length_pointerArray (array : PointerArray) :
    array.bytes.length = xdrpointerArrayLenth array := by
  simp [PointerArray.bytes, xdrpointerArrayLenth, length_flatMap length_strBytes]

/-! ### The messages -/

def Iter.bytes (v : Iter) : List UInt8 :=
  leBytes v.min ++ (leBytes v.max ++ (leBytes v.step ++ leBytes v.current))

theorem xdrIter_codes : Codes size (xdrIterStru size) Iter.bytes id where
  writes v := (xdrInt_codes.writes v.min).bind <| (xdrInt_codes.writes v.max).bind <|
    (xdrInt_codes.writes v.step).bind <| (xdrInt_codes.writes v.current).last _
  reads u v := (xdrInt_codes.reads u.min v.min).bind <| (xdrInt_codes.reads u.max v.max).bind <|
    (xdrInt_codes.reads u.step v.step).bind <| (xdrInt_codes.reads u.current v.current).last _

theorem length_Iter (v : Iter) : v.bytes.length = xdrIterLenth v := by
  simp [Iter.bytes, xdrIterLenth]

def UserSetting.bytes (v : UserSetting) : List UInt8 :=
  leBytes v.checkuser ++ (leBytes v.type ++ (leBytes v.nPrivilege ++ (strBytes v.originalName ++ (
    strBytes v.originalPasswd ++ (strBytes v.newName ++ strBytes v.newPasswd)))))

def UserSetting.normal (v : UserSetting) : UserSetting :=
  { v with
    originalName := v.originalName.normal, originalPasswd := v.originalPasswd.normal,
    newName := v.newName.normal, newPasswd := v.newPasswd.normal }

theorem xdrUserSetting_codes :
    Codes size (xdrUserSettingStru size) UserSetting.bytes UserSetting.normal where
  writes v := (xdrInt_codes.writes v.checkuser).bind <| (xdrInt_codes.writes v.type).bind <|
    (xdrInt_codes.writes v.nPrivilege).bind <| (xdrString_codes.writes v.originalName).bind <|
    (xdrString_codes.writes v.originalPasswd).bind <| (xdrString_codes.writes v.newName).bind <|
    (xdrString_codes.writes v.newPasswd).last _
  reads u v := (xdrInt_codes.reads u.checkuser v.checkuser).bind <|
    (xdrInt_codes.reads u.type v.type).bind <|
    (xdrInt_codes.reads u.nPrivilege v.nPrivilege).bind <|
    (xdrString_codes.reads u.originalName v.originalName).bind <|
    (xdrString_codes.reads u.originalPasswd v.originalPasswd).bind <|
    (xdrString_codes.reads u.newName v.newName).bind <|
    (xdrString_codes.reads u.newPasswd v.newPasswd).last _

theorem length_UserSetting (v : UserSetting) : v.bytes.length = xdrUserSettingLenth v := by
  simp [UserSetting.bytes, length_strBytes, xdrUserSettingLenth]
  omega

def LogonReq.bytes (v : LogonReq) : List UInt8 :=
  strBytes v.name ++ strBytes v.passwd

def LogonReq.normal (v : LogonReq) : LogonReq :=
  { v with name := v.name.normal, passwd := v.passwd.normal }

theorem xdrlogonReq_codes : Codes size (xdrlogonReqStru size) LogonReq.bytes LogonReq.normal where
  writes v := (xdrString_codes.writes v.name).bind <| (xdrString_codes.writes v.passwd).last _
  reads u v := (xdrString_codes.reads u.name v.name).bind <|
    (xdrString_codes.reads u.passwd v.passwd).last _

theorem length_logonReq (v : LogonReq) : v.bytes.length = xdrlogonReqLenth v := by
  simp [LogonReq.bytes, length_strBytes, xdrlogonReqLenth]

def ImageSetting.bytes (v : ImageSetting) : List UInt8 :=
  leBytes v.motionDetect ++ (leBytes v.quality ++ (leBytes v.resolutionX ++ (
    leBytes v.resolutionY ++ leBytes v.frameRate)))

theorem xdrimageSetting_codes : Codes size (xdrimageSettingStru size) ImageSetting.bytes id where
  writes v := (xdrInt_codes.writes v.motionDetect).bind <| (xdrInt_codes.writes v.quality).bind <|
    (xdrInt_codes.writes v.resolutionX).bind <| (xdrInt_codes.writes v.resolutionY).bind <|
    (xdrInt_codes.writes v.frameRate).last _
  reads u v := (xdrInt_codes.reads u.motionDetect v.motionDetect).bind <|
    (xdrInt_codes.reads u.quality v.quality).bind <|
    (xdrInt_codes.reads u.resolutionX v.resolutionX).bind <|
    (xdrInt_codes.reads u.resolutionY v.resolutionY).bind <|
    (xdrInt_codes.reads u.frameRate v.frameRate).last _

theorem length_imageSetting (v : ImageSetting) : v.bytes.length = xdrimageSettingLenth v := by
  simp [ImageSetting.bytes, xdrimageSettingLenth]

def EmailSetting.bytes (v : EmailSetting) : List UInt8 :=
  leBytes v.mailServer ++ (leBytes v.sendMail ++ (strBytes v.userName ++ (strBytes v.passwd ++ (
    strBytes v.sendAddr ++ (strBytes v.recAddr ++ strBytes v.mailSubject)))))

def EmailSetting.normal (v : EmailSetting) : EmailSetting :=
  { v with
    userName := v.userName.normal, passwd := v.passwd.normal, sendAddr := v.sendAddr.normal,
    recAddr := v.recAddr.normal, mailSubject := v.mailSubject.normal }

theorem xdremailSetting_codes :
    Codes size (xdremailSettingStru size) EmailSetting.bytes EmailSetting.normal where
  writes v := (xdrInt_codes.writes v.mailServer).bind <| (xdrInt_codes.writes v.sendMail).bind <|
    (xdrString_codes.writes v.userName).bind <| (xdrString_codes.writes v.passwd).bind <|
    (xdrString_codes.writes v.sendAddr).bind <| (xdrString_codes.writes v.recAddr).bind <|
    (xdrString_codes.writes v.mailSubject).last _
  reads u v := (xdrInt_codes.reads u.mailServer v.mailServer).bind <|
    (xdrInt_codes.reads u.sendMail v.sendMail).bind <|
    (xdrString_codes.reads u.userName v.userName).bind <|
    (xdrString_codes.reads u.passwd v.passwd).bind <|
    (xdrString_codes.reads u.sendAddr v.sendAddr).bind <|
    (xdrString_codes.reads u.recAddr v.recAddr).bind <|
    (xdrString_codes.reads u.mailSubject v.mailSubject).last _

theorem length_emailSetting (v : EmailSetting) : v.bytes.length = xdremailSettingLenth v := by
  simp [EmailSetting.bytes, length_strBytes, xdremailSettingLenth]
  omega

def FtpSetting.bytes (v : FtpSetting) : List UInt8 :=
  leBytes v.sendMail ++ (leBytes v.ftpServer ++ (strBytes v.userName ++ (strBytes v.passwd ++ (
    strBytes v.account ++ strBytes v.path))))

def FtpSetting.normal (v : FtpSetting) : FtpSetting :=
  { v with
    userName := v.userName.normal, passwd := v.passwd.normal, account := v.account.normal,
    path := v.path.normal }

theorem xdrftpSetting_codes :
    Codes size (xdrftpSettingStru size) FtpSetting.bytes FtpSetting.normal where
  writes v := (xdrInt_codes.writes v.sendMail).bind <| (xdrInt_codes.writes v.ftpServer).bind <|
    (xdrString_codes.writes v.userName).bind <| (xdrString_codes.writes v.passwd).bind <|
    (xdrString_codes.writes v.account).bind <| (xdrString_codes.writes v.path).last _
  reads u v := (xdrInt_codes.reads u.sendMail v.sendMail).bind <|
    (xdrInt_codes.reads u.ftpServer v.ftpServer).bind <|
    (xdrString_codes.reads u.userName v.userName).bind <|
    (xdrString_codes.reads u.passwd v.passwd).bind <|
    (xdrString_codes.reads u.account v.account).bind <|
    (xdrString_codes.reads u.path v.path).last _

theorem length_ftpSetting (v : FtpSetting) : v.bytes.length = xdrftpSettingLenth v := by
  simp [FtpSetting.bytes, length_strBytes, xdrftpSettingLenth]
  omega

def IpSetting.bytes (v : IpSetting) : List UInt8 :=
  leBytes v.autoGetIP ++ (leBytes v.ip ++ (leBytes v.subnetMask ++ (leBytes v.gateway ++ (
    leBytes v.dns1 ++ (leBytes v.dns2 ++ leBytes v.dns3)))))

theorem xdripSetting_codes : Codes size (xdripSettingStru size) IpSetting.bytes id where
  writes v := (xdrInt_codes.writes v.autoGetIP).bind <| (xdrInt_codes.writes v.ip).bind <|
    (xdrInt_codes.writes v.subnetMask).bind <| (xdrInt_codes.writes v.gateway).bind <|
    (xdrInt_codes.writes v.dns1).bind <| (xdrInt_codes.writes v.dns2).bind <|
    (xdrInt_codes.writes v.dns3).last _
  reads u v := (xdrInt_codes.reads u.autoGetIP v.autoGetIP).bind <|
    (xdrInt_codes.reads u.ip v.ip).bind <| (xdrInt_codes.reads u.subnetMask v.subnetMask).bind <|
    (xdrInt_codes.reads u.gateway v.gateway).bind <| (xdrInt_codes.reads u.dns1 v.dns1).bind <|
    (xdrInt_codes.reads u.dns2 v.dns2).bind <| (xdrInt_codes.reads u.dns3 v.dns3).last _

theorem length_ipSetting (v : IpSetting) : v.bytes.length = xdripSettingLenth v := by
  simp [IpSetting.bytes, xdripSettingLenth]

def ExtendSetting.bytes (v : ExtendSetting) : List UInt8 :=
  leBytes v.autoGetTime ++ (leBytes v.timeServer ++ (strBytes v.date ++ (strBytes v.time ++
    strBytes v.timeZone)))

def ExtendSetting.normal (v : ExtendSetting) : ExtendSetting :=
  { v with date := v.date.normal, time := v.time.normal, timeZone := v.timeZone.normal }

theorem xdrextendSetting_codes :
    Codes size (xdrextendSettingStru size) ExtendSetting.bytes ExtendSetting.normal where
  writes v := (xdrInt_codes.writes v.autoGetTime).bind <|
    (xdrInt_codes.writes v.timeServer).bind <| (xdrString_codes.writes v.date).bind <|
    (xdrString_codes.writes v.time).bind <| (xdrString_codes.writes v.timeZone).last _
  reads u v := (xdrInt_codes.reads u.autoGetTime v.autoGetTime).bind <|
    (xdrInt_codes.reads u.timeServer v.timeServer).bind <|
    (xdrString_codes.reads u.date v.date).bind <| (xdrString_codes.reads u.time v.time).bind <|
    (xdrString_codes.reads u.timeZone v.timeZone).last _

theorem length_extendSetting (v : ExtendSetting) : v.bytes.length = xdrextendSettingLenth v := by
  simp [ExtendSetting.bytes, length_strBytes, xdrextendSettingLenth]
  omega

def SystemSetting.bytes (v : SystemSetting) : List UInt8 :=
  leBytes v.type ++ (leBytes v.videoFormat ++ (leBytes v.audioFormat ++ (leBytes v.debug ++
    strBytes v.mac_address)))

def SystemSetting.normal (v : SystemSetting) : SystemSetting :=
  { v with mac_address := v.mac_address.normal }

theorem xdrsystemSetting_codes :
    Codes size (xdrsystemSettingStru size) SystemSetting.bytes SystemSetting.normal where
  writes v := (xdrInt_codes.writes v.type).bind <| (xdrInt_codes.writes v.videoFormat).bind <|
    (xdrInt_codes.writes v.audioFormat).bind <| (xdrInt_codes.writes v.debug).bind <|
    (xdrString_codes.writes v.mac_address).last _
  reads u v := (xdrInt_codes.reads u.type v.type).bind <|
    (xdrInt_codes.reads u.videoFormat v.videoFormat).bind <|
    (xdrInt_codes.reads u.audioFormat v.audioFormat).bind <|
    (xdrInt_codes.reads u.debug v.debug).bind <|
    (xdrString_codes.reads u.mac_address v.mac_address).last _

theorem length_systemSetting (v : SystemSetting) : v.bytes.length = xdrsystemSettingLenth v := by
  simp [SystemSetting.bytes, length_strBytes, xdrsystemSettingLenth]
  omega

def WlanSetting.bytes (v : WlanSetting) : List UInt8 :=
  leBytes v.ulWlanChannel ++ (strBytes v.handleMethod ++ (strBytes v.pcWepSet ++ (
    strBytes v.pcWepAsc ++ (strBytes v.pcWep128 ++ (strBytes v.pcWep64 ++ (
    strBytes v.pcWep128type ++ (strBytes v.pcWep64type ++ strBytes v.pcWlanESSID)))))))

def WlanSetting.normal (v : WlanSetting) : WlanSetting :=
  { v with
    handleMethod := v.handleMethod.normal, pcWepSet := v.pcWepSet.normal,
    pcWepAsc := v.pcWepAsc.normal, pcWep128 := v.pcWep128.normal, pcWep64 := v.pcWep64.normal,
    pcWep128type := v.pcWep128type.normal, pcWep64type := v.pcWep64type.normal,
    pcWlanESSID := v.pcWlanESSID.normal }

theorem xdrwlanSetting_codes :
    Codes size (xdrwlanSettingStru size) WlanSetting.bytes WlanSetting.normal where
  writes v := (xdrInt_codes.writes v.ulWlanChannel).bind <|
    (xdrString_codes.writes v.handleMethod).bind <| (xdrString_codes.writes v.pcWepSet).bind <|
    (xdrString_codes.writes v.pcWepAsc).bind <| (xdrString_codes.writes v.pcWep128).bind <|
    (xdrString_codes.writes v.pcWep64).bind <| (xdrString_codes.writes v.pcWep128type).bind <|
    (xdrString_codes.writes v.pcWep64type).bind <| (xdrString_codes.writes v.pcWlanESSID).last _
  reads u v := (xdrInt_codes.reads u.ulWlanChannel v.ulWlanChannel).bind <|
    (xdrString_codes.reads u.handleMethod v.handleMethod).bind <|
    (xdrString_codes.reads u.pcWepSet v.pcWepSet).bind <|
    (xdrString_codes.reads u.pcWepAsc v.pcWepAsc).bind <|
    (xdrString_codes.reads u.pcWep128 v.pcWep128).bind <|
    (xdrString_codes.reads u.pcWep64 v.pcWep64).bind <|
    (xdrString_codes.reads u.pcWep128type v.pcWep128type).bind <|
    (xdrString_codes.reads u.pcWep64type v.pcWep64type).bind <|
    (xdrString_codes.reads u.pcWlanESSID v.pcWlanESSID).last _

theorem length_wlanSetting (v : WlanSetting) : v.bytes.length = xdrwlanSettingLenth v := by
  simp [WlanSetting.bytes, length_strBytes, xdrwlanSettingLenth]
  omega

def CustomSetting.bytes (v : CustomSetting) : List UInt8 :=
  strBytes v.value

def CustomSetting.normal (v : CustomSetting) : CustomSetting :=
  { v with value := v.value.normal }

theorem xdrcustomSetting_codes :
    Codes size (xdrcustomSettingStru size) CustomSetting.bytes CustomSetting.normal where
  writes v := (xdrString_codes.writes v.value).last _
  reads u v := (xdrString_codes.reads u.value v.value).last _

theorem length_customSetting (v : CustomSetting) : v.bytes.length = xdrcustomSettingLenth v := by
  simp [CustomSetting.bytes, length_strBytes, xdrcustomSettingLenth]

def Firmware.bytes (v : Firmware) : List UInt8 :=
  leBytes v.lenth

theorem xdrfirmware_codes : Codes size (xdrfirmwareStru size) Firmware.bytes id where
  writes v := (xdrInt_codes.writes v.lenth).last _
  reads u v := (xdrInt_codes.reads u.lenth v.lenth).last _

theorem length_firmware (v : Firmware) : v.bytes.length = xdrfirmwareLenth v := by
  simp [Firmware.bytes, xdrfirmwareLenth]

def WlanAPEntry.bytes (v : WlanAPEntry) : List UInt8 :=
  leBytes v.mode ++ (leBytes v.signal ++ (leBytes v.noise ++ (leBytes v.encode ++
    strBytes v.essid)))

def WlanAPEntry.normal (v : WlanAPEntry) : WlanAPEntry :=
  { v with essid := v.essid.normal }

theorem xdrwlanAPEntry_codes :
    Codes size (xdrwlanAPEntryStru size) WlanAPEntry.bytes WlanAPEntry.normal where
  writes v := (xdrInt_codes.writes v.mode).bind <| (xdrInt_codes.writes v.signal).bind <|
    (xdrInt_codes.writes v.noise).bind <| (xdrInt_codes.writes v.encode).bind <|
    (xdrString_codes.writes v.essid).last _
  reads u v := (xdrInt_codes.reads u.mode v.mode).bind <|
    (xdrInt_codes.reads u.signal v.signal).bind <| (xdrInt_codes.reads u.noise v.noise).bind <|
    (xdrInt_codes.reads u.encode v.encode).bind <| (xdrString_codes.reads u.essid v.essid).last _

theorem length_wlanAPEntry (v : WlanAPEntry) : v.bytes.length = xdrwlanAPEntryLenth v := by
  simp [WlanAPEntry.bytes, length_strBytes, xdrwlanAPEntryLenth]
  omega

/-! ### Messages with parts of their own -/

def RequestStatus.bytes (version : CString) (v : RequestStatus) : List UInt8 :=
  leBytes v.errNum ++ (strBytes v.msg ++ strBytes (some version))

def RequestStatus.normal (v : RequestStatus) : RequestStatus := { v with msg := v.msg.normal }

theorem xdrrequestStatus_codes (version : CString) :
    Codes size (xdrrequestStatusStru size version) (RequestStatus.bytes version)
      RequestStatus.normal where
  writes v := (xdrInt_codes.writes v.errNum).bind <| (xdrString_codes.writes v.msg).bind <|
    (xdrString_codes.writes (some version)).last fun _ => (⟨v.errNum, v.msg⟩ : RequestStatus)
  reads u v := (xdrInt_codes.reads u.errNum v.errNum).bind <|
    (xdrString_codes.reads u.msg v.msg).bind <|
    (xdrString_codes.reads (some version) (some version)).last fun _ =>
      (⟨v.errNum, v.msg.normal⟩ : RequestStatus)

theorem length_requestStatus (version : CString) (v : RequestStatus) :
    (v.bytes version).length = xdrrequestStatusLenth version v := by
  simp [RequestStatus.bytes, length_strBytes, xdrrequestStatusLenth]
  omega

theorem WlanAPEntry.bytes_normal (v : WlanAPEntry) : v.normal.bytes = v.bytes := by
  simp [WlanAPEntry.bytes, WlanAPEntry.normal]

theorem WlanAPEntry.lenth_normal (v : WlanAPEntry) :
    xdrwlanAPEntryLenth v.normal = xdrwlanAPEntryLenth v := by
  rw [← length_wlanAPEntry, v.bytes_normal, length_wlanAPEntry]

/-- An entry of the array, which moves the cursor by its length. -/
theorem wlanAPEntry_advance_codes :
    Codes size (fun op ent => advanceBy xdrwlanAPEntryLenth (xdrwlanAPEntryStru size op ent))
      WlanAPEntry.bytes WlanAPEntry.normal where
  writes v := (xdrwlanAPEntry_codes.writes v).advanceBy (length_wlanAPEntry v).symm
  reads u v := (xdrwlanAPEntry_codes.reads u v).advanceBy
    (v.lenth_normal.trans (length_wlanAPEntry v).symm)

def WlanAPArray.bytes (v : WlanAPArray) : List UInt8 :=
  leBytes v.num ++ v.array.flatMap WlanAPEntry.bytes

def WlanAPArray.normal (v : WlanAPArray) : WlanAPArray :=
  ⟨v.array.map WlanAPEntry.normal, by simpa using v.bound⟩

theorem WlanAPArray.bytes_normal (v : WlanAPArray) : v.normal.bytes = v.bytes := by
  simp [WlanAPArray.bytes, WlanAPArray.normal, WlanAPArray.num, List.flatMap_map,
    WlanAPEntry.bytes_normal]

theorem WlanAPArray.num_toInt (v : WlanAPArray) : v.num.toInt.toNat = v.array.length := by
  have bound := v.bound
  rw [WlanAPArray.num, BitVec.toInt_eq_toNat_cond, BitVec.toNat_ofNat]
  omega

theorem xdrwlanAPArray_codes :
    Codes size (xdrwlanAPArrayStru size) WlanAPArray.bytes WlanAPArray.normal where
  writes v := by
    refine (xdrInt_codes.writes v.num).bind ?_
    rw [v.num_toInt]
    intro buff pos
    rw [bind_of_run (xdrEntries_writes wlanAPEntry_advance_codes emptyAPEntry v.array buff pos),
      dif_pos v.bound]
    rfl
  reads u v := by
    refine (xdrInt_codes.reads u.num v.num).bind ?_
    rw [id, v.num_toInt]
    intro buff pos holds fits
    rw [bind_of_run (xdrEntries_reads wlanAPEntry_advance_codes emptyAPEntry u.array v.array buff
      pos holds fits), dif_pos (by simpa using v.bound)]
    rfl

theorem length_wlanAPArray (v : WlanAPArray) : v.bytes.length = xdrwlanAPArrayLenth v := by
  simp [WlanAPArray.bytes, xdrwlanAPArrayLenth, length_flatMap length_wlanAPEntry]

theorem WlanSetting.bytes_normal (v : WlanSetting) : v.normal.bytes = v.bytes := by
  simp [WlanSetting.bytes, WlanSetting.normal]

theorem WlanSetting.lenth_normal (v : WlanSetting) :
    xdrwlanSettingLenth v.normal = xdrwlanSettingLenth v := by
  rw [← length_wlanSetting, v.bytes_normal, length_wlanSetting]

def InitialInfo.bytes (v : InitialInfo) : List UInt8 :=
  leBytes v.auth_CheckUser ++ (leBytes v.current_resolation ++ (leBytes v.motion_detect ++ (
    leBytes v.videoFormat ++ (leBytes v.audioFormat ++ (leBytes v.adminIndex ++ (v.quality.bytes ++ (
    v.frame.bytes ++ (v.userList.bytes ++ (v.resulationList.bytes ++ (v.ipset.bytes ++ (
    v.wlan.bytes ++ (strBytes v.mac_address ++ v.userPrivilege.flatMap leBytes))))))))))))

def InitialInfo.normal (v : InitialInfo) : InitialInfo :=
  { v with
    resulationList := v.resulationList.normal, userList := v.userList.normal,
    privileges := by simpa [PointerArray.normal] using v.privileges, wlan := v.wlan.normal,
    mac_address := v.mac_address.normal }

theorem InitialInfo.bytes_normal (v : InitialInfo) : v.normal.bytes = v.bytes := by
  simp [InitialInfo.bytes, InitialInfo.normal, WlanSetting.bytes_normal]

theorem xdripSetting_advance_codes :
    Codes size (fun op set => advanceBy xdripSettingLenth (xdripSettingStru size op set))
      IpSetting.bytes id where
  writes v := (xdripSetting_codes.writes v).advanceBy (length_ipSetting v).symm
  reads u v := (xdripSetting_codes.reads u v).advanceBy (length_ipSetting v).symm

theorem xdrwlanSetting_advance_codes :
    Codes size (fun op set => advanceBy xdrwlanSettingLenth (xdrwlanSettingStru size op set))
      WlanSetting.bytes WlanSetting.normal where
  writes v := (xdrwlanSetting_codes.writes v).advanceBy (length_wlanSetting v).symm
  reads u v := (xdrwlanSetting_codes.reads u v).advanceBy
    (v.lenth_normal.trans (length_wlanSetting v).symm)

theorem xdrinitialInfo_codes :
    Codes size (xdrinitialInfoStru size) InitialInfo.bytes InitialInfo.normal where
  writes v := by
    refine (xdrInt_codes.writes v.auth_CheckUser).bind <|
      (xdrInt_codes.writes v.current_resolation).bind <|
      (xdrInt_codes.writes v.motion_detect).bind <| (xdrInt_codes.writes v.videoFormat).bind <|
      (xdrInt_codes.writes v.audioFormat).bind <| (xdrInt_codes.writes v.adminIndex).bind <|
      (xdrIter_codes.writes v.quality).bind <| (xdrIter_codes.writes v.frame).bind <|
      (xdrpointerArray_codes.writes v.userList).bind <|
      (xdrpointerArray_codes.writes v.resulationList).bind <|
      (xdripSetting_advance_codes.writes v.ipset).bind <|
      (xdrwlanSetting_advance_codes.writes v.wlan).bind <|
      (xdrString_codes.writes v.mac_address).bind ?_
    have entries : v.userList.num.toNat = v.userPrivilege.length :=
      v.userList.num_toNat.trans v.privileges.symm
    rw [entries]
    intro buff pos
    rw [bind_of_run (xdrEntries_writes xdrInt_codes 0 v.userPrivilege buff pos),
      dif_pos v.privileges]
    rfl
  reads u v := by
    refine (xdrInt_codes.reads u.auth_CheckUser v.auth_CheckUser).bind <|
      (xdrInt_codes.reads u.current_resolation v.current_resolation).bind <|
      (xdrInt_codes.reads u.motion_detect v.motion_detect).bind <|
      (xdrInt_codes.reads u.videoFormat v.videoFormat).bind <|
      (xdrInt_codes.reads u.audioFormat v.audioFormat).bind <|
      (xdrInt_codes.reads u.adminIndex v.adminIndex).bind <|
      (xdrIter_codes.reads u.quality v.quality).bind <|
      (xdrIter_codes.reads u.frame v.frame).bind <|
      (xdrpointerArray_codes.reads u.userList v.userList).bind <|
      (xdrpointerArray_codes.reads u.resulationList v.resulationList).bind <|
      (xdripSetting_advance_codes.reads u.ipset v.ipset).bind <|
      (xdrwlanSetting_advance_codes.reads u.wlan v.wlan).bind <|
      (xdrString_codes.reads u.mac_address v.mac_address).bind ?_
    have entries : v.userList.normal.num.toNat = v.userPrivilege.length := by
      rw [PointerArray.num_toNat, v.privileges]
      exact List.length_map _
    rw [entries]
    intro buff pos holds fits
    rw [bind_of_run (xdrEntries_reads xdrInt_codes 0 u.userPrivilege v.userPrivilege buff pos holds
      fits), dif_pos (by simpa [PointerArray.normal] using v.privileges)]
    simp only [List.map_id]
    rfl

theorem length_initialInfo (v : InitialInfo) : v.bytes.length = xdrinitialInfoLenth v := by
  have privileges : (v.userPrivilege.flatMap leBytes).length = 4 * v.userList.num.toNat := by
    rw [length_flatMap (fun _ => rfl), v.userList.num_toNat, ← v.privileges]
    simp [Nat.mul_comm]
  simp only [InitialInfo.bytes, List.length_append, length_leBytes, length_Iter,
    length_pointerArray, length_ipSetting, length_wlanSetting, length_strBytes, privileges,
    xdrinitialInfoLenth]
  omega

/-! ### All message types -/

inductive MessageType
  | userSetting | logonReq | requestStatus | imageSetting | emailSetting | ftpSetting | ipSetting
  | extendSetting | systemSetting | wlanSetting | initialInfo | customSetting | firmware
  | wlanAPArray

namespace MessageType

def Value : MessageType → Type
  | .userSetting => UserSetting
  | .logonReq => LogonReq
  | .requestStatus => RequestStatus
  | .imageSetting => ImageSetting
  | .emailSetting => EmailSetting
  | .ftpSetting => FtpSetting
  | .ipSetting => IpSetting
  | .extendSetting => ExtendSetting
  | .systemSetting => SystemSetting
  | .wlanSetting => WlanSetting
  | .initialInfo => InitialInfo
  | .customSetting => CustomSetting
  | .firmware => Firmware
  | .wlanAPArray => WlanAPArray

def stru (size : Nat) (version : CString) :
    (type : MessageType) → OpCode → type.Value → Routine type.Value
  | .userSetting => xdrUserSettingStru size
  | .logonReq => xdrlogonReqStru size
  | .requestStatus => xdrrequestStatusStru size version
  | .imageSetting => xdrimageSettingStru size
  | .emailSetting => xdremailSettingStru size
  | .ftpSetting => xdrftpSettingStru size
  | .ipSetting => xdripSettingStru size
  | .extendSetting => xdrextendSettingStru size
  | .systemSetting => xdrsystemSettingStru size
  | .wlanSetting => xdrwlanSettingStru size
  | .initialInfo => xdrinitialInfoStru size
  | .customSetting => xdrcustomSettingStru size
  | .firmware => xdrfirmwareStru size
  | .wlanAPArray => xdrwlanAPArrayStru size

def lenth (version : CString) : (type : MessageType) → type.Value → Nat
  | .userSetting => xdrUserSettingLenth
  | .logonReq => xdrlogonReqLenth
  | .requestStatus => xdrrequestStatusLenth version
  | .imageSetting => xdrimageSettingLenth
  | .emailSetting => xdremailSettingLenth
  | .ftpSetting => xdrftpSettingLenth
  | .ipSetting => xdripSettingLenth
  | .extendSetting => xdrextendSettingLenth
  | .systemSetting => xdrsystemSettingLenth
  | .wlanSetting => xdrwlanSettingLenth
  | .initialInfo => xdrinitialInfoLenth
  | .customSetting => xdrcustomSettingLenth
  | .firmware => xdrfirmwareLenth
  | .wlanAPArray => xdrwlanAPArrayLenth

def bytes (version : CString) : (type : MessageType) → type.Value → List UInt8
  | .userSetting => UserSetting.bytes
  | .logonReq => LogonReq.bytes
  | .requestStatus => RequestStatus.bytes version
  | .imageSetting => ImageSetting.bytes
  | .emailSetting => EmailSetting.bytes
  | .ftpSetting => FtpSetting.bytes
  | .ipSetting => IpSetting.bytes
  | .extendSetting => ExtendSetting.bytes
  | .systemSetting => SystemSetting.bytes
  | .wlanSetting => WlanSetting.bytes
  | .initialInfo => InitialInfo.bytes
  | .customSetting => CustomSetting.bytes
  | .firmware => Firmware.bytes
  | .wlanAPArray => WlanAPArray.bytes

/-- The value with the empty string for every NULL. -/
def normal : (type : MessageType) → type.Value → type.Value
  | .userSetting => UserSetting.normal
  | .logonReq => LogonReq.normal
  | .requestStatus => RequestStatus.normal
  | .imageSetting => id
  | .emailSetting => EmailSetting.normal
  | .ftpSetting => FtpSetting.normal
  | .ipSetting => id
  | .extendSetting => ExtendSetting.normal
  | .systemSetting => SystemSetting.normal
  | .wlanSetting => WlanSetting.normal
  | .initialInfo => InitialInfo.normal
  | .customSetting => CustomSetting.normal
  | .firmware => id
  | .wlanAPArray => WlanAPArray.normal

variable (version : CString) (type : MessageType)

theorem codes : Codes size (type.stru size version) (type.bytes version) type.normal := by
  cases type with
  | userSetting => exact xdrUserSetting_codes
  | logonReq => exact xdrlogonReq_codes
  | requestStatus => exact xdrrequestStatus_codes version
  | imageSetting => exact xdrimageSetting_codes
  | emailSetting => exact xdremailSetting_codes
  | ftpSetting => exact xdrftpSetting_codes
  | ipSetting => exact xdripSetting_codes
  | extendSetting => exact xdrextendSetting_codes
  | systemSetting => exact xdrsystemSetting_codes
  | wlanSetting => exact xdrwlanSetting_codes
  | initialInfo => exact xdrinitialInfo_codes
  | customSetting => exact xdrcustomSetting_codes
  | firmware => exact xdrfirmware_codes
  | wlanAPArray => exact xdrwlanAPArray_codes

theorem length_bytes (v : type.Value) : (type.bytes version v).length = type.lenth version v := by
  cases type with
  | userSetting => exact length_UserSetting v
  | logonReq => exact length_logonReq v
  | requestStatus => exact length_requestStatus version v
  | imageSetting => exact length_imageSetting v
  | emailSetting => exact length_emailSetting v
  | ftpSetting => exact length_ftpSetting v
  | ipSetting => exact length_ipSetting v
  | extendSetting => exact length_extendSetting v
  | systemSetting => exact length_systemSetting v
  | wlanSetting => exact length_wlanSetting v
  | initialInfo => exact length_initialInfo v
  | customSetting => exact length_customSetting v
  | firmware => exact length_firmware v
  | wlanAPArray => exact length_wlanAPArray v

theorem bytes_normal (v : type.Value) :
    type.bytes version (type.normal v) = type.bytes version v := by
  cases type with
  | userSetting => simp [bytes, normal, UserSetting.bytes, UserSetting.normal]
  | logonReq => simp [bytes, normal, LogonReq.bytes, LogonReq.normal]
  | requestStatus => simp [bytes, normal, RequestStatus.bytes, RequestStatus.normal]
  | imageSetting => rfl
  | emailSetting => simp [bytes, normal, EmailSetting.bytes, EmailSetting.normal]
  | ftpSetting => simp [bytes, normal, FtpSetting.bytes, FtpSetting.normal]
  | ipSetting => rfl
  | extendSetting => simp [bytes, normal, ExtendSetting.bytes, ExtendSetting.normal]
  | systemSetting => simp [bytes, normal, SystemSetting.bytes, SystemSetting.normal]
  | wlanSetting => exact WlanSetting.bytes_normal v
  | initialInfo => exact InitialInfo.bytes_normal v
  | customSetting => simp [bytes, normal, CustomSetting.bytes, CustomSetting.normal]
  | firmware => rfl
  | wlanAPArray => exact WlanAPArray.bytes_normal v

end MessageType

/-- For every message type and value there are bytes, as many as the length function says of the
value and of what is read back, such that the encoder puts them at its cursor and nothing else
anywhere, and the decoder makes the value of them wherever they stand. -/
theorem message_codec (version : CString) (type : MessageType) (v : type.Value) :
    ∃ bytes : List UInt8, bytes.length = type.lenth version v ∧
      type.lenth version (type.normal v) = bytes.length ∧
      (∀ size buff pos, type.stru size version .encode v ⟨buff, pos⟩ =
        some (v, ⟨store buff pos bytes, pos + type.lenth version v⟩)) ∧
      ∀ size u buff pos, Holds buff pos bytes → pos + type.lenth version v ≤ size →
        type.stru size version .decode u ⟨buff, pos⟩ =
          some (type.normal v, ⟨buff, pos + type.lenth version v⟩) := by
  have length := type.length_bytes version v
  refine ⟨type.bytes version v, length, ?_, fun size buff pos => ?_,
    fun size u buff pos holds fits => ?_⟩
  · rw [← type.length_bytes version (type.normal v), type.bytes_normal]
  · rw [← length]
    exact (type.codes version).writes v buff pos
  · rw [← length] at fits ⊢
    exact (type.codes version).reads u v buff pos holds fits

end Rovio.Xdr
