import Rovio.Usb.Handlers

/-! Which bytes a request makes its handler use: those it reads from USB into `reqBuf`, those its
strings take, and those that `string_mac_to_long` reads and writes. -/
namespace Rovio.Usb
open Kit

/-- The read into `reqBuf`, and what is decoded afterwards: the bytes that have been received, none
where the read fails or the handler looks at nothing. -/
structure HandlerRun where
  type : CtrlType
  requested : Option Nat
  received : Option (List UInt8)
  deriving DecidableEq

/-- `reqBuf` is read whatever the length, or if it is not zero, or not at all. -/
inductive Reading where
  | always | some | never

def reading : CtrlType → Reading
  | .logon => .some
  | .auth => .some
  | .image => .some
  | .usbIp => .some
  | .ftp => .always
  | .mail => .always
  | .usbWlan => .always
  | .usbCustom => .always
  | .system => .always
  | .firmware => .always
  | .usbSetPpp => .always
  | _ => .never

/-- `processClient` with the four bytes of the header. A read fails or gives all it is asked for,
the first bytes of `supply`. -/
def handlerRun (b0 b1 b2 b3 : UInt8) (supply : Nat → UInt8) (succeeds : Bool) :
    Option HandlerRun :=
  let lenth := headerLength b0 b1
  let opcode := headerOpcode b2 b3
  if opcode < 1 ∧ 19 < opcode then none
  else if ctrlType opcode ≠ some .firmware ∧ maxRequestLine < lenth then none
  else
    (ctrlType opcode).map fun type =>
      let payload := (List.range lenth).map supply
      match reading type with
      | .never => ⟨type, none, none⟩
      | .always => ⟨type, some lenth, if succeeds then some payload else none⟩
      | .some =>
        if lenth > 0 then ⟨type, some lenth, if succeeds then some payload else none⟩
        else ⟨type, none, some []⟩

/-- Where in `reqBuf` the strings of `vcom_setPPP` begin. -/
def pppStrings : List Nat := (List.range maxPppServers).map (4 + 64 * ·) ++ [684, 708]

/-- The strings that the handler takes end in what has been received. -/
def stringsInside (type : CtrlType) (received : List UInt8) : Prop :=
  match type with
  | .logon => (decoded received (Xdr.xdrlogonReqStru · .decode ⟨none, none⟩)).isSome
  | .auth =>
    (decoded received (Xdr.xdrUserSettingStru · .decode ⟨0, 0, 0, none, none, none, none⟩)).isSome
  | .ftp =>
    (decoded received (Xdr.xdrftpSettingStru · .decode ⟨0, 0, none, none, none, none⟩)).isSome
  | .mail =>
    (decoded received
      (Xdr.xdremailSettingStru · .decode ⟨0, 0, none, none, none, none, none⟩)).isSome
  | .usbWlan =>
    (decoded received (Xdr.xdrwlanSettingStru · .decode
      ⟨none, 0, none, none, none, none, none, none, none⟩)).isSome
  | .usbCustom => (decoded received (Xdr.xdrcustomSettingStru · .decode ⟨none⟩)).isSome
  | .system => (decoded received (Xdr.xdrsystemSettingStru · .decode ⟨0, 0, 0, 0, none⟩)).isSome
  | .usbSetPpp => ∀ start ∈ pppStrings, 0 ∈ received.drop start
  | _ => True

/-! ### `string_mac_to_long` -/

/-- The letters up to `z` count as digits. -/
def macDigit (c : UInt8) : Option UInt8 :=
  if 65 ≤ c ∧ c ≤ 70 then some (c - 65 + 10)
  else if 97 ≤ c ∧ c ≤ 122 then some (c - 97 + 10)
  else if 48 ≤ c ∧ c ≤ 57 then some (c - 48)
  else none

/-- The loop over the characters; none where a digit goes outside `dest`. -/
def macLoop : List UInt8 → Nat → List UInt8 → Option (List UInt8)
  | [], _, dest => some dest
  | c :: src, j, dest =>
    match macDigit c with
    | none => macLoop src j dest
    | some digit =>
      match dest[j / 2]? with
      | none => none
      | some byte => macLoop src (j + 1) (dest.set (j / 2) (byte <<< 4 + digit))

/-- The 17 characters are those of the string, its zero the last of them at most, and their digits go
into the six bytes of `mac`. -/
def macInside (mac_address : List UInt8) : Prop :=
  16 ≤ mac_address.length ∧
    (macLoop ((mac_address ++ [0]).take 17) 0 (List.replicate 6 0)).isSome

/-- An address is converted for SYSTEM_MAC and SYSTEM_DEFAULT_MAC. -/
def systemInside (received : List UInt8) : Prop :=
  ∀ system, decoded received (Xdr.xdrsystemSettingStru · .decode ⟨0, 0, 0, 0, none⟩) = some system →
    system.type = 2 ∨ system.type = 4 →
    ∀ mac_address, system.mac_address = some mac_address → macInside mac_address.bytes

/-- What is to hold of a handler. -/
structure HandlerRun.Inside (run : HandlerRun) : Prop where
  buffer : ∀ n, run.requested = some n → n ≤ maxRequestLine
  strings : ∀ received, run.received = some received → stringsInside run.type received
  mac : ∀ received, run.received = some received → run.type = .system → systemInside received

/-! ### How far a decoder goes -/

/-- What is left behind a string. -/
def behindString (left : List UInt8) : Option (List UInt8) :=
  if 0 ∈ left then some ((left.dropWhile (· ≠ 0)).drop 1) else none

def behindWord (left : List UInt8) : Option (List UInt8) :=
  if 4 ≤ left.length then some (left.drop 4) else none

def behindStrings : Nat → List UInt8 → Option (List UInt8)
  | 0, left => some left
  | strings + 1, left => (behindString left).bind (behindStrings strings)

/-- What is left behind so many integers and then so many strings. -/
def behind : Nat → Nat → List UInt8 → Option (List UInt8)
  | 0, strings, left => behindStrings strings left
  | words + 1, strings, left => (behindWord left).bind (behind words strings)

variable {received : List UInt8} {words strings : Nat} {α β : Type}

/-- Over the bytes received, a routine takes so many integers and then so many strings. -/
def Takes (received : List UInt8) (words strings : Nat) (routine : Xdr.Routine α) : Prop :=
  ∀ pos, pos ≤ received.length →
    match routine ⟨fun i => received.getD i 0, pos⟩ with
    | none => behind words strings (received.drop pos) = none
    | some (_, next) => next.buff = (fun i => received.getD i 0) ∧ next.pos ≤ received.length ∧
      behind words strings (received.drop pos) = some (received.drop next.pos)

theorem Takes.done (a : α) : Takes received 0 0 (pure a : Xdr.Routine α) :=
  fun _ inside => ⟨rfl, inside, rfl⟩

/-- A part, and what follows it. -/
theorem takes_bind {first : List UInt8 → Option (List UInt8)} {part : Xdr.Routine β}
    {rest : β → Xdr.Routine α} {words' strings' : Nat}
    (split : ∀ left, behind words strings left = (first left).bind (behind words' strings'))
    (runs : ∀ pos, pos ≤ received.length →
      match part ⟨fun i => received.getD i 0, pos⟩ with
      | none => first (received.drop pos) = none
      | some (_, next) => next.buff = (fun i => received.getD i 0) ∧ next.pos ≤ received.length ∧
        first (received.drop pos) = some (received.drop next.pos))
    (follows : ∀ b, Takes received words' strings' (rest b)) :
    Takes received words strings (part >>= rest) := by
  intro pos inside
  have here := runs pos inside
  rw [bind_run, split]
  cases run : part ⟨fun i => received.getD i 0, pos⟩ with
  | none =>
    rw [run] at here
    rw [show first (received.drop pos) = none from here]
    rfl
  | some result =>
    obtain ⟨b, ⟨buff, next⟩⟩ := result
    rw [run] at here
    obtain ⟨same, room, left⟩ := here
    cases same
    rw [left]
    exact follows b next room

theorem takes_int {aa : Xdr.Word} {rest : Xdr.Word → Xdr.Routine α}
    (follows : ∀ word, Takes received words strings (rest word)) :
    Takes received (words + 1) strings (Xdr.xdrInt received.length .decode aa >>= rest) := by
  refine takes_bind (fun left => rfl) (fun pos inside => ?_) follows
  have run : Xdr.xdrInt received.length .decode aa ⟨fun i => received.getD i 0, pos⟩ =
      if pos + 4 ≤ received.length then
        some (leWord (received.getD pos 0) (received.getD (pos + 1) 0) (received.getD (pos + 2) 0)
          (received.getD (pos + 3) 0), ⟨fun i => received.getD i 0, pos + 4⟩)
      else none := rfl
  rw [run]
  unfold behindWord
  rw [List.length_drop]
  by_cases room : pos + 4 ≤ received.length
  · rw [if_pos room, if_pos (by omega), List.drop_drop]
    exact ⟨rfl, room, rfl⟩
  · rw [if_neg room, if_neg (by omega)]

/-- The string that begins at a position ends at the first zero behind it. -/
theorem stringAt_received (pos : Nat) :
    (Xdr.stringAt (fun i => received.getD i 0) (received.length - pos) pos).map Xdr.CString.bytes =
      if 0 ∈ received.drop pos then some ((received.drop pos).takeWhile (· ≠ 0)) else none := by
  generalize size : received.length - pos = left
  induction left generalizing pos with
  | zero =>
    have none : received.drop pos = [] := List.drop_eq_nil_of_le (by omega)
    rw [none]
    rfl
  | succ left ih =>
    have inside : pos < received.length := by omega
    have rest := ih (pos + 1) (by omega)
    rw [Xdr.stringAt, List.drop_eq_getElem_cons inside,
      List.getD_eq_getElem received 0 inside]
    by_cases zero : received[pos] = 0
    · rw [dif_pos zero, zero]
      rfl
    · have cons : ∀ first : Option Xdr.CString,
          (first.map (Xdr.CString.cons received[pos] zero)).map Xdr.CString.bytes =
            (first.map Xdr.CString.bytes).map (received[pos] :: ·) := by
        rintro (_ | s) <;> rfl
      have first : 0 ∈ received[pos] :: received.drop (pos + 1) ↔ 0 ∈ received.drop (pos + 1) := by
        rw [List.mem_cons]
        exact or_iff_right fun here => zero here.symm
      rw [dif_neg zero, cons, rest, List.takeWhile_cons_of_pos (by simpa using zero)]
      simp only [first]
      split <;> rfl

theorem zero_splits {left : List UInt8} (zero : 0 ∈ left) :
    left = left.takeWhile (· ≠ 0) ++ 0 :: (left.dropWhile (· ≠ 0)).drop 1 := by
  induction left with
  | nil => cases zero
  | cons b left ih =>
    by_cases here : b = 0
    · rw [here]
      rfl
    · have later : 0 ∈ left := (List.mem_cons.mp zero).resolve_left fun same => here same.symm
      rw [List.takeWhile_cons_of_pos (by simpa using here),
        List.dropWhile_cons_of_pos (by simpa using here)]
      exact congrArg (b :: ·) (ih later)

/-- Behind the first zero. -/
theorem drop_behind {left : List UInt8} (zero : 0 ∈ left) :
    (left.takeWhile (· ≠ 0)).length < left.length ∧
      (left.dropWhile (· ≠ 0)).drop 1 = left.drop ((left.takeWhile (· ≠ 0)).length + 1) := by
  have parts := zero_splits zero
  generalize left.takeWhile (· ≠ 0) = front at parts ⊢
  generalize (left.dropWhile (· ≠ 0)).drop 1 = rest at parts ⊢
  rw [parts]
  constructor
  · rw [List.length_append, List.length_cons]
    omega
  · rw [← List.drop_drop, List.drop_left]
    rfl

theorem takes_string {str : Xdr.Str} {rest : Xdr.Str → Xdr.Routine α}
    (follows : ∀ str, Takes received 0 strings (rest str)) :
    Takes received 0 (strings + 1) (Xdr.xdrString received.length .decode str >>= rest) := by
  refine takes_bind (fun left => rfl) (fun pos inside => ?_) follows
  have run : Xdr.xdrString received.length .decode str ⟨fun i => received.getD i 0, pos⟩ =
      (Xdr.stringAt (fun i => received.getD i 0) (received.length - pos) pos).map fun s =>
        (some s, ⟨fun i => received.getD i 0, pos + s.bytes.length + 1⟩) := rfl
  have taken := @stringAt_received received pos
  rw [run]
  unfold behindString
  cases found : Xdr.stringAt (fun i => received.getD i 0) (received.length - pos) pos with
  | none =>
    rw [found] at taken
    split at taken
    · cases taken
    next noZero => exact if_neg noZero
  | some s =>
    rw [found] at taken
    split at taken
    next zero =>
      obtain ⟨short, left⟩ := drop_behind zero
      have bytes : s.bytes = (received.drop pos).takeWhile (· ≠ 0) := Option.some.inj taken
      rw [List.length_drop] at short
      dsimp only [Option.map_some]
      rw [if_pos zero, left, List.drop_drop, bytes]
      exact ⟨rfl, by omega, by rw [Nat.add_assoc]⟩
    · cases taken

/-- A string for each zero. -/
theorem behindStrings_isSome (left : List UInt8) :
    (behindStrings strings left).isSome ↔ strings ≤ left.count 0 := by
  induction strings generalizing left with
  | zero => exact iff_of_true rfl (Nat.zero_le _)
  | succ strings ih =>
    rw [behindStrings, behindString]
    split
    next zero =>
      have front : (left.takeWhile (· ≠ 0)).count 0 = 0 := by
        rw [List.count_eq_zero]
        intro inside
        have other := List.mem_takeWhile_imp inside
        simp at other
      have total := congrArg (List.count 0) (zero_splits zero)
      rw [List.count_append, front, List.count_cons_self] at total
      rw [Option.bind_some, ih, total]
      omega
    next noZero =>
      have none := List.count_eq_zero.mpr noZero
      rw [none]
      exact iff_of_false (by simp) (by omega)

theorem behind_isSome (some : 0 < strings) (left : List UInt8) :
    (behind words strings left).isSome ↔ strings ≤ (left.drop (4 * words)).count 0 := by
  induction words generalizing left with
  | zero => exact behindStrings_isSome left
  | succ words ih =>
    rw [behind, behindWord]
    split
    · rw [Option.bind_some, ih, List.drop_drop, Nat.mul_succ, Nat.add_comm 4]
    · rw [List.drop_eq_nil_of_le (by omega)]
      exact iff_of_false (by simp) (by rw [List.count_nil]; omega)

/-- A decoder stays inside what has been received if there is a zero for each of its strings. -/
theorem decoded_isSome {routine : Nat → Xdr.Routine α} (some : 0 < strings)
    (takes : Takes received words strings (routine received.length)) :
    (decoded received routine).isSome ↔ strings ≤ (received.drop (4 * words)).count 0 := by
  have here := takes 0 (Nat.zero_le _)
  rw [← behind_isSome some, decoded, Option.isSome_map]
  cases run : routine received.length ⟨fun i => received.getD i 0, 0⟩ with
  | none =>
    rw [run] at here
    rw [show behind words strings received = none from here]
    rfl
  | some result =>
    rw [run] at here
    rw [show behind words strings received = _ from here.2.2]
    rfl

/-! ### The requests -/

/-- The integers in front of the strings of a request, and the strings. -/
def message : CtrlType → Option (Nat × Nat)
  | .logon => some (0, 2)
  | .auth => some (3, 4)
  | .ftp => some (2, 4)
  | .mail => some (2, 5)
  | .usbWlan => some (1, 8)
  | .usbCustom => some (0, 1)
  | .system => some (4, 1)
  | _ => none

/-- Enough zeros have been received behind the integers; for `vcom_setPPP`, one behind the start of
the last string. -/
def zerosReceived (type : CtrlType) (received : List UInt8) : Prop :=
  match message type with
  | some (words, strings) => strings ≤ (received.drop (4 * words)).count 0
  | none => type = .usbSetPpp → 0 ∈ received.drop 708

theorem takes_logon (u : Xdr.LogonReq) :
    Takes received 0 2 (Xdr.xdrlogonReqStru received.length .decode u) :=
  takes_string fun _ => takes_string fun _ => .done _

theorem takes_user (u : Xdr.UserSetting) :
    Takes received 3 4 (Xdr.xdrUserSettingStru received.length .decode u) :=
  takes_int fun _ => takes_int fun _ => takes_int fun _ => takes_string fun _ =>
    takes_string fun _ => takes_string fun _ => takes_string fun _ => .done _

theorem takes_ftp (u : Xdr.FtpSetting) :
    Takes received 2 4 (Xdr.xdrftpSettingStru received.length .decode u) :=
  takes_int fun _ => takes_int fun _ => takes_string fun _ => takes_string fun _ =>
    takes_string fun _ => takes_string fun _ => .done _

theorem takes_email (u : Xdr.EmailSetting) :
    Takes received 2 5 (Xdr.xdremailSettingStru received.length .decode u) :=
  takes_int fun _ => takes_int fun _ => takes_string fun _ => takes_string fun _ =>
    takes_string fun _ => takes_string fun _ => takes_string fun _ => .done _

theorem takes_wlan (u : Xdr.WlanSetting) :
    Takes received 1 8 (Xdr.xdrwlanSettingStru received.length .decode u) :=
  takes_int fun _ => takes_string fun _ => takes_string fun _ => takes_string fun _ =>
    takes_string fun _ => takes_string fun _ => takes_string fun _ => takes_string fun _ =>
    takes_string fun _ => .done _

theorem takes_custom (u : Xdr.CustomSetting) :
    Takes received 0 1 (Xdr.xdrcustomSettingStru received.length .decode u) :=
  takes_string fun _ => .done _

theorem takes_system (u : Xdr.SystemSetting) :
    Takes received 4 1 (Xdr.xdrsystemSettingStru received.length .decode u) :=
  takes_int fun _ => takes_int fun _ => takes_int fun _ => takes_int fun _ =>
    takes_string fun _ => .done _

theorem stringsInside_iff (type : CtrlType) (received : List UInt8) :
    stringsInside type received ↔ zerosReceived type received := by
  cases type with
  | logon => exact decoded_isSome (by decide) (takes_logon _)
  | auth => exact decoded_isSome (by decide) (takes_user _)
  | ftp => exact decoded_isSome (by decide) (takes_ftp _)
  | mail => exact decoded_isSome (by decide) (takes_email _)
  | usbWlan => exact decoded_isSome (by decide) (takes_wlan _)
  | usbCustom => exact decoded_isSome (by decide) (takes_custom _)
  | system => exact decoded_isSome (by decide) (takes_system _)
  | usbSetPpp =>
    constructor
    · intro inside _
      exact inside 708 (by decide)
    · intro zero start member
      have before : start ≤ 708 := by
        revert start
        decide
      have last := zero rfl
      rw [show 708 = start + (708 - start) by omega, ← List.drop_drop] at last
      exact List.mem_of_mem_drop last
  | _ => exact iff_of_true trivial (by rintro ⟨⟩)

/-- The digits among the characters fit into what is left of the address. -/
theorem macLoop_isSome (src : List UInt8) (j : Nat) {dest : List UInt8} (size : dest.length = 6)
    (start : j ≤ 12) :
    (macLoop src j dest).isSome ↔ j + src.countP (fun c => (macDigit c).isSome) ≤ 12 := by
  induction src generalizing j dest with
  | nil => exact iff_of_true rfl start
  | cons c src ih =>
    rw [macLoop, List.countP_cons]
    cases digit : macDigit c with
    | none => exact ih j size start
    | some d =>
      dsimp only [Option.isSome_some]
      rw [if_pos rfl]
      rcases Nat.lt_or_ge j 12 with room | full
      · have inside : j / 2 < dest.length := by omega
        rw [List.getElem?_eq_getElem inside]
        exact (ih (j + 1) (by rw [List.length_set, size]) room).trans (by omega)
      · rw [List.getElem?_eq_none (by omega)]
        exact iff_of_false (by simp) (by omega)

/-- What the system request asks for, and the bytes of its address. -/
def systemType (received : List UInt8) : Xdr.Word :=
  leWord (received.getD 0 0) (received.getD 1 0) (received.getD 2 0) (received.getD 3 0)

/-- Of the address that is converted, at least 16 characters in front of its zero, and at most 12
digits among the first 17 bytes. -/
def macReceived (received : List UInt8) : Prop :=
  systemType received = 2 ∨ systemType received = 4 →
    16 ≤ ((received.drop 16).takeWhile (· ≠ 0)).length ∧
      ((received.drop 16).take 17).countP (fun c => (macDigit c).isSome) ≤ 12

theorem decoded_system (zero : 0 ∈ received.drop 16) : ∃ system : Xdr.SystemSetting,
    decoded received (Xdr.xdrsystemSettingStru · .decode ⟨0, 0, 0, 0, none⟩) = some system ∧
      system.type = systemType received ∧
      ∃ s, system.mac_address = some s ∧ s.bytes = (received.drop 16).takeWhile (· ≠ 0) := by
  have long : 16 < received.length := by
    have some := List.length_pos_of_mem zero
    rw [List.length_drop] at some
    omega
  have int : ∀ pos, pos + 4 ≤ received.length → ∀ aa,
      Xdr.xdrInt received.length .decode aa ⟨fun i => received.getD i 0, pos⟩ =
        some (leWord (received.getD pos 0) (received.getD (pos + 1) 0) (received.getD (pos + 2) 0)
          (received.getD (pos + 3) 0), ⟨fun i => received.getD i 0, pos + 4⟩) :=
    fun pos room _ => if_pos room
  have taken := @stringAt_received received 16
  rw [if_pos zero] at taken
  obtain ⟨s, found, bytes⟩ := Option.map_eq_some_iff.mp taken
  have string : Xdr.xdrString received.length .decode none ⟨fun i => received.getD i 0, 16⟩ =
      some (some s, ⟨fun i => received.getD i 0, 16 + s.bytes.length + 1⟩) := by
    change (Xdr.stringAt _ _ _).map _ = _
    rw [found]
    rfl
  unfold decoded Xdr.xdrsystemSettingStru
  dsimp only
  rw [bind_of_run (int 0 (by omega) _), bind_of_run (int 4 (by omega) _),
    bind_of_run (int 8 (by omega) _), bind_of_run (int 12 (by omega) _), bind_of_run string]
  exact ⟨_, rfl, rfl, s, rfl, bytes⟩

/-- The bytes that are converted. -/
theorem mac_take {left : List UInt8} (zero : 0 ∈ left)
    (long : 16 ≤ (left.takeWhile (· ≠ 0)).length) :
    (left.takeWhile (· ≠ 0) ++ [0]).take 17 = left.take 17 := by
  have parts := zero_splits zero
  generalize left.takeWhile (· ≠ 0) = front at parts long ⊢
  generalize (left.dropWhile (· ≠ 0)).drop 1 = rest at parts
  rw [parts, show (0 : UInt8) :: rest = [0] ++ rest from rfl, ← List.append_assoc]
  exact (List.take_append_of_le_length (by rw [List.length_append, List.length_singleton]; omega)).symm

theorem systemInside_iff (zero : 0 ∈ received.drop 16) :
    systemInside received ↔ macReceived received := by
  obtain ⟨system, run, type, s, mac, bytes⟩ := decoded_system zero
  have inside : macInside s.bytes ↔ 16 ≤ ((received.drop 16).takeWhile (· ≠ 0)).length ∧
      ((received.drop 16).take 17).countP (fun c => (macDigit c).isSome) ≤ 12 := by
    rw [macInside, bytes]
    refine and_congr_right fun long => ?_
    rw [mac_take zero long, macLoop_isSome _ 0 List.length_replicate (by decide), Nat.zero_add]
  unfold systemInside macReceived
  rw [← type, ← inside]
  constructor
  · intro all converted
    exact all system run converted s mac
  · intro fine found same converted mac_address given
    obtain rfl : system = found := Option.some.inj (run.symm.trans same)
    obtain rfl : s = mac_address := Option.some.inj (mac.symm.trans given)
    exact fine converted

/-- A handler that asks for no more than the buffer has room for. -/
theorem inside_iff {type : CtrlType} {requested : Option Nat} {read : Option (List UInt8)}
    (buffer : ∀ n, requested = some n → n ≤ maxRequestLine) :
    (HandlerRun.mk type requested read).Inside ↔ ∀ received, read = some received →
      zerosReceived type received ∧ (type = .system → macReceived received) := by
  have address : ∀ received, zerosReceived .system received → 0 ∈ received.drop 16 :=
    fun received enough => List.count_pos_iff.mp enough
  constructor
  · intro inside received here
    have enough := (stringsInside_iff type received).mp (inside.strings received here)
    refine ⟨enough, ?_⟩
    rintro rfl
    exact (systemInside_iff (address received enough)).mp (inside.mac received here rfl)
  · intro fine
    refine ⟨buffer, fun received here => (stringsInside_iff type received).mpr (fine received here).1,
      ?_⟩
    rintro received here system
    obtain rfl : type = .system := system
    obtain ⟨enough, mac⟩ := fine received here
    exact (systemInside_iff (address received enough)).mpr (mac rfl)

/-- What the header and the payload have to be. -/
def requestInside (b0 b1 b2 b3 : UInt8) (supply : Nat → UInt8) (succeeds : Bool) : Prop :=
  let lenth := headerLength b0 b1
  let payload := (List.range lenth).map supply
  match ctrlType (headerOpcode b2 b3) with
  | none => True
  | some type =>
    if type = .firmware then lenth ≤ maxRequestLine
    else lenth ≤ maxRequestLine →
      (match reading type with
        | .never => False
        | .always => succeeds = true
        | .some => lenth > 0 → succeeds = true) →
      zerosReceived type payload ∧ (type = .system → macReceived payload)

/-- A request keeps its handler inside the buffer and the bytes received exactly if a zero has come
for each string, an address that is converted is neither too short nor has too many digits, and a
firmware request is no longer than the buffer. -/
theorem usb_request_inside (b0 b1 b2 b3 : UInt8) (supply : Nat → UInt8) (succeeds : Bool) :
    (∀ run, handlerRun b0 b1 b2 b3 supply succeeds = some run → run.Inside) ↔
      requestInside b0 b1 b2 b3 supply succeeds := by
  have codes : ¬ (headerOpcode b2 b3 < 1 ∧ 19 < headerOpcode b2 b3) := by omega
  unfold handlerRun requestInside
  dsimp only
  rw [if_neg codes]
  have empty : headerLength b0 b1 = 0 → (List.range (headerLength b0 b1)).map supply = [] := by
    intro zero
    rw [zero]
    rfl
  generalize (List.range (headerLength b0 b1)).map supply = payload at empty ⊢
  generalize headerLength b0 b1 = lenth at empty ⊢
  cases ctrlType (headerOpcode b2 b3) with
  | none =>
    refine iff_of_true ?_ trivial
    rintro run here
    split at here <;> cases here
  | some type =>
    simp only [Option.map_some, ne_eq, Option.some.injEq]
    by_cases firmware : type = .firmware
    · subst firmware
      rw [if_neg (by simp), if_pos rfl]
      simp only [Option.some.injEq, forall_eq', reading]
      constructor
      · intro inside
        exact inside.buffer lenth rfl
      · intro short
        refine ⟨by rintro n ⟨⟩; exact short, fun received _ => trivial, ?_⟩
        rintro received _ ⟨⟩
    · rw [if_neg firmware]
      by_cases long : maxRequestLine < lenth
      · rw [if_pos ⟨firmware, long⟩]
        refine iff_of_true ?_ fun short => absurd short (Nat.not_le.mpr long)
        rintro run ⟨⟩
      have short := Nat.not_lt.mp long
      have asked : ∀ n, some lenth = some n → n ≤ maxRequestLine := by
        rintro n ⟨⟩
        exact short
      have unasked : ∀ n, (none : Option Nat) = some n → n ≤ maxRequestLine := by
        rintro n ⟨⟩
      have read : (∀ received, (if succeeds = true then some payload else none) = some received →
            zerosReceived type received ∧ (type = .system → macReceived received)) ↔
          (succeeds = true → zerosReceived type payload ∧ (type = .system → macReceived payload)) := by
        cases succeeds with
        | true => simp
        | false => simp
      rw [if_neg fun both => long both.2]
      simp only [Option.some.injEq, forall_eq', short, true_imp_iff]
      cases reading type with
      | never =>
        rw [inside_iff unasked]
        exact iff_of_true (by rintro received ⟨⟩) (by rintro ⟨⟩)
      | always => exact (inside_iff asked).trans read
      | some =>
        dsimp only
        by_cases positive : lenth > 0
        · rw [if_pos positive]
          exact (inside_iff asked).trans (read.trans (by simp [positive]))
        · rw [if_neg positive, inside_iff unasked, empty (by omega)]
          simp [positive]

/-- A log-on with one byte behind its header: the name has no end there. -/
theorem logon_runs_over :
    ¬ ∀ (b0 b1 b2 b3 : UInt8) (supply : Nat → UInt8) (succeeds : Bool) (run : HandlerRun),
      handlerRun b0 b1 b2 b3 supply succeeds = some run → run.Inside := by
  intro inside
  have strings := (inside 1 0 1 0 (fun _ => 65) true ⟨.logon, some 1, some [65]⟩
    (by decide)).strings [65] rfl
  have zeros : 2 ≤ [(65 : UInt8)].count 0 := (stringsInside_iff .logon [65]).mp strings
  revert zeros
  decide

end Rovio.Usb
