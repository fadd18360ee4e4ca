import Rovio.Config.CameraIni

/-! What a round trip through the file is, the file that the writer leaves, and what is read of one
value when the text is cut off at 1023 characters. -/
namespace Rovio.Config.Ini
open Rovio.Http Rovio.Settings Kit
open Kit.Ini (Placed Line render fileLines placed placedFile textAfter headerLength)

/-- No line end, and no blank at an end. -/
def Clean (s : CString) : Prop :=
  (∀ c ∈ s, c ≠ '\n' ∧ c ≠ '\r') ∧ s.head? ≠ some ' ' ∧ s.getLast? ≠ some ' '

/-- Whether the value has to be restored. -/
def Stored.Promised : Stored → Prop
  | .string s => Clean s
  | _ => True

def Stored.Same (u v : Stored) : Prop := u.Promised → v = u

/-- The values that the writer stores for this number of accounts. -/
def CameraConfig.stored (count : Int) (c : CameraConfig) : Entries :=
  (c.sections count).flatMap Kit.Ini.Section.entries

def Restored (c r : CameraConfig) : Prop :=
  List.Forall₂ (fun a b => a.2.Same b.2) (c.stored c.user.iUserCurNum)
    (r.stored c.user.iUserCurNum)

/-- Every file the writer leaves with TRUE is read with TRUE and gives the stored values back. -/
def RoundTrips (lib : IniLib) (c : CameraConfig) : Prop :=
  ∀ a file, WriteCameraINI lib a c = some file →
    ∃ r, ReadCameraINI lib file = some r ∧ Restored c r

def Stored.OneLine : Stored → Prop
  | .string s => ∀ c ∈ s, c ≠ '\n' ∧ c ≠ '\r'
  | _ => True

/-- No string of the configuration contains a line end. -/
def CameraConfig.OneLine (c : CameraConfig) : Prop :=
  ∀ e ∈ c.stored c.user.iUserCurNum, e.2.OneLine

/-- What an absent value is read as. -/
def Stored.Blank : Stored → Prop
  | .string s => s = []
  | .flag b => b = false
  | .long x => x = 0
  | .ulong x => x = 0
  | .byte x => x = 0
  | .address _ => False
  | .assignment _ => False
  | .rect r => r = Rect.zero
  | .minutes seconds => seconds = 0

/-- The whole text is read as the value: it is short enough for `acValue`, and its format loses
nothing. -/
def Stored.Exact (lib : IniLib) : Stored → Prop
  | .string s => s.length < 128
  | .ulong x => lib.long (decimalText x.toNat) = x
  | .assignment way => way = IP_ASSIGNMENT_MANUALLY ∨ way = IP_ASSIGNMENT_DHCP
  | .minutes seconds => 60 ∣ seconds.toInt
  | _ => True

/-- The value at this place of the text is restored: it is what an absent one is read as, or it is
exact and ends among the first 1023 characters. -/
def Stored.Kept (lib : IniLib) (place : Nat) (v : Stored) : Prop :=
  v.Promised → v.Blank ∨ v.Exact lib ∧ place + (v.text lib).length ≤ 1023

def Kept (lib : IniLib) (c : CameraConfig) : Prop :=
  ∀ e ∈ placedFile (Stored.text lib) 0 (c.sections c.user.iUserCurNum), e.value.Kept lib e.pos

/-! The file. -/

theorem vfnprintf_take (n ret : Nat) (pieces : List CString) :
    vfnprintf n ret pieces = pieces.flatten.take (n - ret - 1) := by
  induction pieces generalizing ret with
  | nil => simp [vfnprintf]
  | cons piece rest ih =>
    rw [vfnprintf, List.flatten_cons, ih]
    rcases Nat.lt_or_ge (n - ret - 1) piece.length with cut | fits
    · rw [Nat.min_eq_right (Nat.le_of_lt cut), if_pos cut,
        List.take_append_of_le_length (Nat.le_of_lt cut)]
    · rw [Nat.min_eq_left fits, if_neg (Nat.lt_irrefl _), List.take_append,
        List.take_of_length_le fits, Nat.sub_add_eq, Nat.sub_right_comm _ piece.length]

@[simp] theorem same_long (x y : BitVec 32) : Stored.Same (.long x) (.long y) ↔ y = x := by
  simp [Stored.Same, Stored.Promised]

@[simp] theorem same_ulong (x y : BitVec 32) : Stored.Same (.ulong x) (.ulong y) ↔ y = x := by
  simp [Stored.Same, Stored.Promised]

@[simp] theorem same_address (x y : BitVec 32) : Stored.Same (.address x) (.address y) ↔ y = x := by
  simp [Stored.Same, Stored.Promised]

@[simp] theorem same_assignment (x y : BitVec 8) :
    Stored.Same (.assignment x) (.assignment y) ↔ y = x := by
  simp [Stored.Same, Stored.Promised]

@[simp] theorem same_rect (r q : Rect) : Stored.Same (.rect r) (.rect q) ↔ q = r := by
  simp [Stored.Same, Stored.Promised]

@[simp] theorem same_minutes (x y : BitVec 32) :
    Stored.Same (.minutes x) (.minutes y) ↔ y = x := by
  simp [Stored.Same, Stored.Promised]

section
variable (lib : IniLib)

/-- The part of the value's text that is in the file. -/
def Stored.left (place : Nat) (v : Stored) : CString := (v.text lib).take (1023 - place)

/-- What is in `acValue` for the value. -/
def Shown (place : Nat) (v : Stored) (t : CString) : Prop :=
  t.length < 128 ∧ ((Stored.left lib place v).length < 128 → t = Stored.left lib place v)

theorem word_length (x : BitVec 32) : (decimalText x.toInt).length ≤ 11 := by
  have low := BitVec.le_toInt x
  have high := BitVec.toInt_lt (x := x)
  apply decimalText_length_le
  · omega
  · omega

/-- The shortest and the longest text of a format. -/
def Stored.least : Stored → Nat
  | .string s => s.length
  | .address _ => 7
  | .assignment _ => 4
  | .rect _ => 10
  | _ => 1

def Stored.most : Stored → Nat
  | .string s => s.length
  | .flag _ => 1
  | .address _ => 15
  | .assignment _ => 8
  | .rect _ => 50
  | _ => 11

theorem text_bounds (v : Stored) :
    v.least ≤ (v.text lib).length ∧ (v.text lib).length ≤ v.most := by
  cases v with
  | string s => exact ⟨Nat.le_refl _, Nat.le_refl _⟩
  | flag b => cases b <;> simp [Stored.text, Stored.least, Stored.most]
  | long x => exact ⟨decimalText_length_pos _, word_length x⟩
  | ulong x =>
    have most := decimalText_length_le (n := (x.toNat : Int)) (by omega) (by omega)
    exact ⟨decimalText_length_pos (x.toNat : Int), most⟩
  | byte x =>
    have most := decimalText_length_le (n := (x.toNat : Int)) (by omega) (by omega)
    exact ⟨decimalText_length_pos (x.toNat : Int), most⟩
  | address ip => exact lib.ip_length ip
  | assignment way =>
    simp only [Stored.text, Stored.least, Stored.most]
    split <;> decide
  | rect r =>
    have l := word_length r.iLeft
    have t := word_length r.iTop
    have r' := word_length r.iRight
    have b := word_length r.iBottom
    have l' := decimalText_length_pos r.iLeft.toInt
    have t' := decimalText_length_pos r.iTop.toInt
    have r'' := decimalText_length_pos r.iRight.toInt
    have b' := decimalText_length_pos r.iBottom.toInt
    have comma : ", ".toList.length = 2 := by decide
    simp only [Stored.text, Stored.least, Stored.most, List.length_append, comma]
    omega
  | minutes seconds =>
    have low := BitVec.le_toInt seconds
    have high := BitVec.toInt_lt (x := seconds)
    have part : (seconds.toInt.tdiv 60).natAbs = seconds.toInt.natAbs / 60 :=
      Int.natAbs_tdiv _ _
    refine ⟨decimalText_length_pos _, decimalText_length_le ?_ ?_⟩
    · omega
    · omega

theorem text_length_lt (v : Stored) (short : ∀ s, v = .string s → s.length < 128) :
    (v.text lib).length < 128 := by
  refine Nat.lt_of_le_of_lt (text_bounds lib v).2 ?_
  cases v with
  | string s => exact short s rfl
  | _ => simp [Stored.most]

variable {lib}

theorem Shown.left {place : Nat} {v : Stored} {t : CString} (shown : Shown lib place v t)
    (short : ∀ s, v = .string s → s.length < 128) : t = Stored.left lib place v := by
  have whole := text_length_lt lib v short
  apply shown.2
  rw [Stored.left, List.length_take]
  omega

variable (lib)

variable {lib}

/-! Values that are always in the file, and values that never are. -/

theorem Shown.late {place : Nat} {v : Stored} {t : CString} (shown : Shown lib place v t)
    (late : 1023 ≤ place) : t = [] := by
  have none : Stored.left lib place v = [] := by
    rw [Stored.left, Nat.sub_eq_zero_of_le late, List.take_zero]
  rw [← none]
  apply shown.2
  simp [none]

end

end Rovio.Config.Ini
