import Rovio.Account.ConfigInterface

/-! `ictlSetWlan`: the wireless settings, and which of the strings given becomes the active key. -/
namespace Rovio.Settings
open Rovio.Http Rovio.Account

/-- What the HTTP library does with strings: a copy cut to the room of its destination, a decimal
number, and two hexadecimal digits to their byte. -/
structure StringLib where
  httpMyStrncpy : CString → Nat → CString
  httpString2Long : CString → Int
  httpHex2Char : Char → Char → UInt8
  strncpy_length : ∀ s n, 0 < n → (httpMyStrncpy s n).length < n
  strncpy_short : ∀ s n, s.length < n → httpMyStrncpy s n = s

/-- A string in an array of `n` characters. -/
def Text (n : Nat) : Type := { s : CString // s.length < n }

def StringLib.text (lib : StringLib) {n : Nat} (room : 0 < n) (s : CString) : Text n :=
  ⟨lib.httpMyStrncpy s n, lib.strncpy_length s n room⟩

/-- The part of `g_ConfigParam` that is about the wireless network. -/
structure WlanConfig where
  acWlanESSID : Text 33
  ucWlanOperationMode : UInt8
  acWlanKey : Text 64
  ulWlanChannel : Nat
  acWepAsc : Text 14
  acWep64 : List UInt8
  acWep128 : List UInt8
  bWep64UseAsc : UInt8
  bWep128UseAsc : UInt8
  ucWepSet : UInt8

/-- The parameters of a call, the absent ones NULL. -/
structure WlanRequest where
  pcWlanKey : Option CString
  pcWlanOperationMode : Option CString
  ulWlanChannel : Nat
  pcWepSet : Option CString
  pcWepAsc : Option CString
  pcWep64type : Option CString
  pcWep128type : Option CString
  pcWep64 : Option CString
  pcWep128 : Option CString
  pcWlanESSID : Option CString

def wepSetDisable : UInt8 := 0
def wepSetK64 : UInt8 := 1
def wepSetK128 : UInt8 := 2
def wepSetAsc : UInt8 := 4

def apcWlanOperationMode : List CString :=
  ["Auto".toList, "Ad-Hoc".toList, "Managed".toList, "Master".toList, "Repeater".toList,
    "Secondary".toList]

def sameIgnoringCase (s t : CString) : Bool := s.map Char.toLower == t.map Char.toLower

/-- The settings with `bIsChange`. -/
abbrev Changing := WlanConfig × Bool

/-- A field that differs is changed, and `bIsChange` set. -/
def changeIf (differs : Prop) [Decidable differs] (changed : WlanConfig) : Changing → Changing
  | (c, bIsChange) => if differs then (changed, true) else (c, bIsChange)

/-- NULL is not read. -/
def strlen : Option CString → Option Nat
  | none => none
  | some s => some s.length

section
variable (lib : StringLib)

/-- A mode is given by its name or its number. -/
def modeNumber (pcWlanOperationMode : CString) : Int :=
  match apcWlanOperationMode.findIdx? (sameIgnoringCase pcWlanOperationMode) with
  | some i => i
  | none => lib.httpString2Long pcWlanOperationMode

/-- The driver's answer is the mode before. -/
def setMode (iWlanOperationMode_Before : Option Nat) (pcWlanOperationMode : Option CString)
    (s : Changing) : Changing :=
  match pcWlanOperationMode with
  | none => s
  | some mode =>
    let i := modeNumber lib mode
    if 0 ≤ i ∧ i < apcWlanOperationMode.length then
      changeIf (iWlanOperationMode_Before ≠ some i.toNat ∨
          s.1.ucWlanOperationMode ≠ UInt8.ofNat i.toNat)
        { s.1 with ucWlanOperationMode := UInt8.ofNat i.toNat } s
    else s

def setEssid (pcWlanESSID : Option CString) (s : Changing) : Changing :=
  match pcWlanESSID with
  | none => s
  | some essid =>
    changeIf (s.1.acWlanESSID.val ≠ essid)
      { s.1 with acWlanESSID := lib.text (by decide) essid } s

/-- The new `ucWepSet`. -/
def newWepSet (ucWepSet : UInt8) (pcWepSet : Option CString) : UInt8 :=
  match pcWepSet with
  | none => ucWepSet
  | some pcWepSet =>
    if pcWepSet = "Disable".toList then wepSetDisable
    else if pcWepSet = "K64".toList then wepSetK64
    else if pcWepSet = "K128".toList then wepSetK128
    else if pcWepSet = "Asc".toList then wepSetAsc
    else ucWepSet

def setWepSet (ucWepSet : UInt8) (s : Changing) : Changing :=
  changeIf (s.1.ucWepSet ≠ ucWepSet) { s.1 with ucWepSet } s

/-- `pcWlanKey` after the selector has been read. -/
def explicitKey (pcWlanKey pcWepSet : Option CString) : Option CString :=
  if pcWepSet = some "Disable".toList ∧ pcWlanKey = none then some [] else pcWlanKey

/-- One of the tests by which a WEP string becomes the key: `&&` binds before `||`. -/
def takeWep (pcWlanKey pcWep : Option CString) (selected : Bool) (ascii hex : Nat) :
    Option (Option CString) := do
  let first ← if pcWlanKey.isNone ∧ pcWep.isSome ∧ selected then do
      let length ← strlen pcWep
      some (decide (length = ascii))
    else some false
  let second ← if first then some true else do
    let length ← strlen pcWep
    some (decide (length = hex))
  some (if second then pcWep else pcWlanKey)

/-- `pcWlanKey` after the three tests. -/
def chooseKey (pcWlanKey : Option CString) (ucWepSet : UInt8) (r : WlanRequest) :
    Option (Option CString) := do
  let pcWlanKey ← takeWep pcWlanKey r.pcWep64 (ucWepSet == wepSetK64) 5 10
  let pcWlanKey ← takeWep pcWlanKey r.pcWep128 (ucWepSet == wepSetK128) 13 26
  some (if pcWlanKey.isNone ∧ r.pcWepAsc.isSome ∧ ucWepSet = wepSetAsc then r.pcWepAsc
    else pcWlanKey)

def setKey (pcWlanKey : Option CString) (s : Changing) : Changing :=
  match pcWlanKey with
  | none => s
  | some key =>
    changeIf (s.1.acWlanKey.val ≠ key) { s.1 with acWlanKey := lib.text (by decide) key } s

def setChannel (ulWlanChannel : Nat) (s : Changing) : Changing :=
  changeIf (ulWlanChannel ≠ 0 ∧ s.1.ulWlanChannel ≠ ulWlanChannel) { s.1 with ulWlanChannel } s

/-- Whether the bytes of a WEP key are given as characters. -/
def useAsc (bUseAsc : UInt8) (asc hex : CString) (pcType : Option CString) : UInt8 :=
  match pcType with
  | none => bUseAsc
  | some pcType => if pcType = asc then 1 else if pcType = hex then 0 else bUseAsc

def charBytes (s : CString) : List UInt8 := s.map fun c => UInt8.ofNat c.toNat

def hexBytes : CString → List UInt8
  | high :: low :: s => lib.httpHex2Char high low :: hexBytes s
  | _ => []

/-- The bytes of a WEP key of `n` bytes, if the string has the length of its kind. -/
def wepBytes (bUseAsc : UInt8) (n : Nat) (pcWep : Option CString) (stored : List UInt8) :
    List UInt8 :=
  match pcWep with
  | none => stored
  | some wep =>
    if bUseAsc ≠ 0 ∧ wep.length = n then charBytes wep
    else if bUseAsc = 0 ∧ wep.length = 2 * n then hexBytes lib wep
    else stored

def setWep64 (r : WlanRequest) : Changing → Changing
  | (c, bIsChange) =>
    let bWep64UseAsc := useAsc c.bWep64UseAsc "Wep64ASC".toList "Wep64HEX".toList r.pcWep64type
    let acWep64 := wepBytes lib bWep64UseAsc 5 r.pcWep64 c.acWep64
    ({ c with bWep64UseAsc, acWep64 },
      bIsChange || decide (c.bWep64UseAsc ≠ bWep64UseAsc) || decide (c.acWep64 ≠ acWep64))

/-- A key of 26 digits is a change in any case. -/
def setWep128 (r : WlanRequest) : Changing → Changing
  | (c, bIsChange) =>
    let bWep128UseAsc := useAsc c.bWep128UseAsc "Wep128ASC".toList "Wep128HEX".toList r.pcWep128type
    let acWep128 := wepBytes lib bWep128UseAsc 13 r.pcWep128 c.acWep128
    let digits := decide (bWep128UseAsc = 0 ∧ strlen r.pcWep128 = some 26)
    ({ c with bWep128UseAsc, acWep128 },
      bIsChange || decide (c.bWep128UseAsc ≠ bWep128UseAsc) || digits ||
        decide (c.acWep128 ≠ acWep128))

def setAsc (pcWepAsc : Option CString) (s : Changing) : Changing :=
  match pcWepAsc with
  | none => s
  | some wepAsc =>
    changeIf (s.1.acWepAsc.val ≠ wepAsc) { s.1 with acWepAsc := lib.text (by decide) wepAsc } s

/-- The answer, the settings afterwards and whether they are written to the flash; nothing where
NULL is read. -/
def ictlSetWlan (iWlanOperationMode_Before : Option Nat) (pHandle : Option Handle)
    (r : WlanRequest) (config : WlanConfig) : Option (Ictl × WlanConfig × Bool) :=
  match pHandle with
  | none => some (.unauthorized, config, false)
  | some handle =>
    if handle.privilege < authAdmin then some (.unauthorized, config, false)
    else do
      let s := setEssid lib r.pcWlanESSID
        (setMode lib iWlanOperationMode_Before r.pcWlanOperationMode (config, false))
      let ucWepSet := newWepSet config.ucWepSet r.pcWepSet
      let s := setWepSet ucWepSet s
      let pcWlanKey ← chooseKey (explicitKey r.pcWlanKey r.pcWepSet) ucWepSet r
      let s := setChannel r.ulWlanChannel (setKey lib pcWlanKey s)
      let s := setAsc lib r.pcWepAsc (setWep128 lib r (setWep64 lib r s))
      some (.ok, s.1, s.2)

/-! ### The key that is due -/

/-- A WEP string of a valid length. -/
def validWep (ascii hex : Nat) : Option CString → Option CString
  | none => none
  | some wep => if wep.length = ascii ∨ wep.length = hex then some wep else none

/-- The string that the selector picks, where its length is valid. -/
def selectedKey (ucWepSet : UInt8) (r : WlanRequest) : Option CString :=
  if ucWepSet = wepSetK64 then validWep 5 10 r.pcWep64
  else if ucWepSet = wepSetK128 then validWep 13 26 r.pcWep128
  else if ucWepSet = wepSetAsc then r.pcWepAsc
  else none

def keyAfter (pcWlanKey : Option CString) (acWlanKey : Text 64) : Text 64 :=
  match pcWlanKey with
  | none => acWlanKey
  | some key => lib.text (by decide) key

/-- The explicit key, or else the selected one, or else the old one. -/
def dueKey (r : WlanRequest) (config : WlanConfig) : Text 64 :=
  keyAfter lib ((explicitKey r.pcWlanKey r.pcWepSet).or
    (selectedKey (newWepSet config.ucWepSet r.pcWepSet) r)) config.acWlanKey

/-- A call of an administrator reads no NULL and leaves the key that is due. -/
def SetsKey (r : WlanRequest) (config : WlanConfig) : Prop :=
  ∀ iWlanOperationMode_Before handle, authAdmin ≤ handle.privilege → ∃ after bIsChange,
    ictlSetWlan lib iWlanOperationMode_Before (some handle) r config =
      some (.ok, after, bIsChange) ∧ after.acWlanKey = dueKey lib r config

/-- A WEP string with the length of the digits becomes the key whatever else is given. -/
def forcedKey (wep64 wep128 : CString) : Option CString :=
  if wep128.length = 26 then some wep128 else if wep64.length = 10 then some wep64 else none

/-- Both WEP strings are given, and one that has the length of the digits is the key that is due. -/
def WepGiven (r : WlanRequest) (config : WlanConfig) : Prop :=
  ∃ wep64 wep128, r.pcWep64 = some wep64 ∧ r.pcWep128 = some wep128 ∧
    ∀ key, forcedKey wep64 wep128 = some key → lib.text (by decide) key = dueKey lib r config

end

section
variable {lib : StringLib} {r : WlanRequest} {config : WlanConfig} {s : Changing}

theorem takeWep_null (pcWlanKey : Option CString) (selected : Bool) (ascii hex : Nat) :
    takeWep pcWlanKey none selected ascii hex = none := by
  cases pcWlanKey <;> rfl

theorem takeWep_some (pcWlanKey : Option CString) (wep : CString) (selected : Bool)
    (ascii hex : Nat) : takeWep pcWlanKey (some wep) selected ascii hex =
      some (if pcWlanKey.isNone ∧ selected ∧ wep.length = ascii ∨ wep.length = hex then some wep
        else pcWlanKey) := by
  have given : (some wep).isSome = true := rfl
  simp only [takeWep, strlen, Option.bind_eq_bind, Option.bind_some, given, true_and]
  by_cases free : pcWlanKey.isNone = true ∧ selected = true
  · rw [if_pos free]
    by_cases characters : wep.length = ascii
    · simp only [characters, free, decide_true, if_true, and_self, true_or]
    · simp only [characters, decide_false, Bool.false_eq_true, if_false, decide_eq_true_eq,
        and_false, false_or]
  · have never : ¬ (pcWlanKey.isNone = true ∧ selected = true ∧ wep.length = ascii) :=
      fun all => free ⟨all.1, all.2.1⟩
    rw [if_neg free]
    simp only [Bool.false_eq_true, if_false, decide_eq_true_eq]
    exact congrArg some (if_congr (or_iff_right never).symm rfl rfl)

/-- The string that is left of the three tests. -/
theorem chooseKey_some {wep64 wep128 : CString} (first : r.pcWep64 = some wep64)
    (second : r.pcWep128 = some wep128) (pcWlanKey : Option CString) (ucWepSet : UInt8) :
    chooseKey pcWlanKey ucWepSet r =
      some ((forcedKey wep64 wep128).or (pcWlanKey.or (selectedKey ucWepSet r))) := by
  rw [chooseKey, first, second, Option.bind_eq_bind, takeWep_some, Option.bind_some,
    takeWep_some, Option.bind_some]
  rw [forcedKey, selectedKey, first, second]
  have kinds : wepSetK64 ≠ wepSetK128 ∧ wepSetK64 ≠ wepSetAsc ∧ wepSetK128 ≠ wepSetAsc := by decide
  refine congrArg some ?_
  by_cases digits128 : wep128.length = 26
  · simp [digits128]
  by_cases digits64 : wep64.length = 10
  · simp [digits128, digits64]
  cases pcWlanKey with
  | some key => simp [digits128, digits64]
  | none =>
    rcases eq_or_ne ucWepSet wepSetK64 with rfl | other64
    · by_cases characters : wep64.length = 5
      · simp [digits128, validWep, characters]
      · simp [digits128, digits64, validWep, characters, kinds]
    rcases eq_or_ne ucWepSet wepSetK128 with rfl | other128
    · by_cases characters : wep128.length = 13
      · simp [digits64, validWep, characters, other64]
      · simp [digits128, digits64, validWep, characters, other64, kinds]
    · cases asc : r.pcWepAsc with
      | none => simp [digits128, digits64, other64, other128]
      | some wepAsc => simp [digits128, digits64, other64, other128]

theorem chooseKey_null (missing : r.pcWep64 = none ∨ r.pcWep128 = none)
    (pcWlanKey : Option CString) (ucWepSet : UInt8) : chooseKey pcWlanKey ucWepSet r = none := by
  rcases missing with first | second
  · rw [chooseKey, first, takeWep_null]
    rfl
  · rw [chooseKey, second]
    cases r.pcWep64 with
    | none =>
      rw [takeWep_null]
      rfl
    | some wep64 =>
      rw [takeWep_some, Option.bind_eq_bind, Option.bind_some, takeWep_null]
      rfl

theorem changeIf_key {differs : Prop} [Decidable differs] {changed : WlanConfig}
    (same : changed.acWlanKey = s.1.acWlanKey) :
    (changeIf differs changed s).1.acWlanKey = s.1.acWlanKey := by
  rw [changeIf]
  split
  · exact same
  · rfl

theorem setMode_key (before : Option Nat) (mode : Option CString) :
    (setMode lib before mode s).1.acWlanKey = s.1.acWlanKey := by
  cases mode with
  | none => rfl
  | some mode =>
    simp only [setMode]
    split
    · exact changeIf_key rfl
    · rfl

theorem setEssid_key (essid : Option CString) :
    (setEssid lib essid s).1.acWlanKey = s.1.acWlanKey := by
  cases essid with
  | none => rfl
  | some essid => exact changeIf_key rfl

theorem setWepSet_key (ucWepSet : UInt8) :
    (setWepSet ucWepSet s).1.acWlanKey = s.1.acWlanKey := changeIf_key rfl

theorem setChannel_key (ulWlanChannel : Nat) :
    (setChannel ulWlanChannel s).1.acWlanKey = s.1.acWlanKey := changeIf_key rfl

theorem setAsc_key (wepAsc : Option CString) :
    (setAsc lib wepAsc s).1.acWlanKey = s.1.acWlanKey := by
  cases wepAsc with
  | none => rfl
  | some wepAsc => exact changeIf_key rfl

/-- A key that is the old one is not copied, which makes no difference. -/
theorem setKey_key (pcWlanKey : Option CString) :
    (setKey lib pcWlanKey s).1.acWlanKey = keyAfter lib pcWlanKey s.1.acWlanKey := by
  cases pcWlanKey with
  | none => rfl
  | some key =>
    rw [setKey, changeIf]
    split
    case isTrue => rfl
    case isFalse same =>
      have equal : s.1.acWlanKey.val = key := of_not_not same
      apply Subtype.ext
      have short : key.length < 64 := equal ▸ s.1.acWlanKey.property
      exact equal.trans (lib.strncpy_short key 64 short).symm

/-- What a call of an administrator leaves as the key. -/
theorem ictlSetWlan_key (before : Option Nat) {handle : Handle}
    (admin : authAdmin ≤ handle.privilege) (chosen : Option CString)
    (choice : chooseKey (explicitKey r.pcWlanKey r.pcWepSet)
      (newWepSet config.ucWepSet r.pcWepSet) r = some chosen) :
    ∃ after bIsChange, ictlSetWlan lib before (some handle) r config =
      some (.ok, after, bIsChange) ∧ after.acWlanKey = keyAfter lib chosen config.acWlanKey := by
  simp only [ictlSetWlan, if_neg (Int.not_lt.mpr admin), choice, Option.bind_eq_bind,
    Option.bind_some]
  refine ⟨_, _, rfl, ?_⟩
  rw [setAsc_key]
  change (setChannel _ _).1.acWlanKey = _
  rw [setChannel_key, setKey_key, setWepSet_key, setEssid_key, setMode_key]

/-- An administrator's call does what it should where both WEP strings are given and neither has
the length of the digits without being the key that is due. -/
theorem wlan_key_set (lib : StringLib) (r : WlanRequest) (config : WlanConfig) :
    SetsKey lib r config ↔ WepGiven lib r config := by
  constructor
  · intro sets
    have admin : authAdmin ≤ (Handle.mk [] [] authAdmin).privilege := Int.le_refl _
    obtain ⟨after, bIsChange, run, due⟩ := sets none _ admin
    have given : ¬ (r.pcWep64 = none ∨ r.pcWep128 = none) := by
      intro missing
      simp only [ictlSetWlan, if_neg (Int.not_lt.mpr admin), chooseKey_null missing] at run
      cases run
    obtain ⟨wep64, first⟩ := Option.ne_none_iff_exists'.mp fun none => given (.inl none)
    obtain ⟨wep128, second⟩ := Option.ne_none_iff_exists'.mp fun none => given (.inr none)
    refine ⟨wep64, wep128, first, second, fun key forced => ?_⟩
    obtain ⟨after', bIsChange', run', left⟩ :=
      ictlSetWlan_key none admin _ (chooseKey_some first second _ _)
    rw [run] at run'
    cases run'
    rw [← due, left, forced]
    rfl
  · rintro ⟨wep64, wep128, first, second, forces⟩ before handle admin
    obtain ⟨after, bIsChange, run, left⟩ :=
      ictlSetWlan_key before admin _ (chooseKey_some first second _ _)
    refine ⟨after, bIsChange, run, left.trans ?_⟩
    cases forced : forcedKey wep64 wep128 with
    | none => rfl
    | some key => exact forces key forced

end

theorem cut_length (s : CString) (n : Nat) (room : 0 < n) : (s.take (n - 1)).length < n := by
  rw [List.length_take]
  omega

theorem cut_short (s : CString) (n : Nat) (short : s.length < n) : s.take (n - 1) = s :=
  List.take_of_length_le (Nat.le_pred_of_lt short)

/-- Copies that are cut, and numbers of one digit. -/
def plainStrings : StringLib where
  httpMyStrncpy s n := s.take (n - 1)
  httpString2Long
    | [c] => if c.isDigit then c.toNat - 0x30 else 0
    | _ => 0
  httpHex2Char high low := UInt8.ofNat (high.toNat % 0x30 * 16 + low.toNat % 0x30)
  strncpy_length := cut_length
  strncpy_short := cut_short

/-- Encryption with a key of eight characters, and the WEP-64 field filled in. -/
def keyAndWep64 : WlanRequest where
  pcWlanKey := some "password".toList
  pcWlanOperationMode := none
  ulWlanChannel := 0
  pcWepSet := none
  pcWepAsc := none
  pcWep64type := none
  pcWep128type := none
  pcWep64 := some "1234567890".toList
  pcWep128 := some []
  pcWlanESSID := none

def openNetwork : WlanConfig where
  acWlanESSID := ⟨"ROVIO".toList, by decide⟩
  ucWlanOperationMode := 1
  acWlanKey := ⟨[], by decide⟩
  ulWlanChannel := 6
  acWepAsc := ⟨[], by decide⟩
  acWep64 := [0, 0, 0, 0, 0]
  acWep128 := List.replicate 13 0
  bWep64UseAsc := 1
  bWep128UseAsc := 1
  ucWepSet := wepSetDisable

/-- The WEP-64 string takes the place of the explicit key, and without it NULL is read. -/
theorem wep64_overrides : ¬ SetsKey plainStrings keyAndWep64 openNetwork ∧
    ¬ SetsKey plainStrings { keyAndWep64 with pcWep64 := none } openNetwork := by
  constructor
  · intro sets
    obtain ⟨after, bIsChange, run, due⟩ := sets none ⟨[], [], authAdmin⟩ (Int.le_refl _)
    cases run
    exact absurd (congrArg Subtype.val due) (by decide)
  · intro sets
    obtain ⟨after, bIsChange, run, due⟩ := sets none ⟨[], [], authAdmin⟩ (Int.le_refl _)
    cases run

end Rovio.Settings
