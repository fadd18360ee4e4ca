import Rovio.Account.ConfigInterface
import Rovio.Kit.Wire

/-! `ictlGetUser`: the saved accounts copied into the caller's arrays, and the two callers that read
them there. -/
namespace Rovio.Account
open Rovio.Http Kit

/-- The caller's arrays from `pcUserName` and `pnPrivilege` on, with the places that have been
written. -/
structure Listing where
  userName : Nat → Char
  privilege : Nat → Int
  userNameWritten : List Nat
  privilegeWritten : List Nat

namespace Listing

def strcpy (l : Listing) (pcUserName : Nat) (name : CString) : Listing :=
  { l with
    userName := store l.userName pcUserName (name ++ ['\x00'])
    userNameWritten := l.userNameWritten ++ List.range' pcUserName (name.length + 1) }

def setPrivilege (l : Listing) (i : Nat) (privilege : Int) : Listing :=
  { l with
    privilege := Function.update l.privilege i privilege
    privilegeWritten := l.privilegeWritten ++ [i] }

end Listing

section
variable (t : UserTable) (userlen maxnum : Nat)

/-- The loop from the account `i` on. A name that is too long is not copied, and `pcUserName` stays
where it is. -/
def getUsers : Nat → Nat → Nat → Listing → Listing
  | 0, _, _, l => l
  | left + 1, i, pcUserName, l =>
    if i < maxnum then
      if (t.aacUserName i).length ≤ userlen then
        getUsers left (i + 1) (pcUserName + userlen)
          ((l.strcpy pcUserName (t.aacUserName i)).setPrivilege i (t.acUserPrivilege i))
      else getUsers left (i + 1) pcUserName (l.setPrivilege i (t.acUserPrivilege i))
    else l

/-- The answer, the caller's arrays and `*usernum`. -/
def ictlGetUser (pHandle : Option Handle) (l : Listing) (usernum : Nat) : Ictl × Listing × Nat :=
  match pHandle with
  | none => (.unauthorized, l, usernum)
  | some handle =>
    if handle.privilege < authUser then (.unauthorized, l, usernum)
    else (.ok, getUsers t userlen maxnum t.iUserCurNum 0 0 l, t.iUserCurNum)

end

/-- The slots of `Config_GetUser` are 30, and `maxnum` is the size of the privileges in bytes. -/
def configGetUserReads (t : UserTable) (handle : Handle) (l : Listing) : Listing × List Nat :=
  let (_, l, usernum) := ictlGetUser t 24 (30 * 4) (some handle) l 0
  (l, List.range (if usernum > 30 then 30 else usernum))

/-- `initRequest` reads as many slots as there are accounts. -/
def initRequestReads (t : UserTable) (actualUserNum : Nat) (handle : Handle) (l : Listing) :
    Listing × List Nat :=
  let (_, l, actualUserNum) := ictlGetUser t 24 30 (some handle) l actualUserNum
  (l, List.range actualUserNum)

/-- A slot has the name of the account, with its end, and the privilege. -/
def Listed (t : UserTable) (userlen : Nat) (l : Listing) (i : Nat) : Prop :=
  (t.aacUserName i).length < userlen ∧
    Holds l.userName (userlen * i) (t.aacUserName i ++ ['\x00']) ∧
    l.privilege i = t.acUserPrivilege i

/-- Whatever the arrays hold before, the slots up to the reported number are filled, and nothing
else is written. -/
def ListsUsers (t : UserTable) (userlen maxnum : Nat) : Prop :=
  ∀ handle userName privilege usernum, authUser ≤ handle.privilege →
    let (_, l, usernum) := ictlGetUser t userlen maxnum (some handle)
      ⟨userName, privilege, [], []⟩ usernum
    (∀ i < usernum, Listed t userlen l i) ∧
    (∀ place ∈ l.userNameWritten, place < maxnum * userlen) ∧
    ∀ place ∈ l.privilegeWritten, place < maxnum

/-- The slots that a caller reads are filled. -/
def ReadsListed (t : UserTable) (caller : Handle → Listing → Listing × List Nat) : Prop :=
  ∀ handle userName privilege, authUser ≤ handle.privilege →
    let (l, read) := caller handle ⟨userName, privilege, [], []⟩
    ∀ i ∈ read, Listed t 24 l i

section
variable {t : UserTable} {userlen maxnum left i pcUserName : Nat} {l : Listing}

/-- Nothing before `pcUserName` is touched. -/
theorem getUsers_before {place : Nat} (before : place < pcUserName) :
    (getUsers t userlen maxnum left i pcUserName l).userName place = l.userName place := by
  induction left generalizing i pcUserName l with
  | zero => rfl
  | succ left ih =>
    rw [getUsers]
    split
    · split
      · rw [ih (by omega)]
        exact store_outside (.inl before)
      · exact ih before
    · rfl

theorem getUsers_privilege (k : Nat) :
    (getUsers t userlen maxnum left i pcUserName l).privilege k =
      if i ≤ k ∧ k < i + left ∧ k < maxnum then t.acUserPrivilege k else l.privilege k := by
  induction left generalizing i pcUserName l with
  | zero => rw [getUsers, if_neg (by omega)]
  | succ left ih =>
    have next (l : Listing) (p : Nat) (inside : i < maxnum) :
        (getUsers t userlen maxnum left (i + 1) p (l.setPrivilege i (t.acUserPrivilege i))).privilege k =
          if i ≤ k ∧ k < i + (left + 1) ∧ k <
            maxnum then t.acUserPrivilege k else l.privilege k := by
      rw [ih]
      rcases eq_or_ne k i with rfl | other
      · rw [if_neg (by omega), if_pos ⟨Nat.le_refl k, by omega, inside⟩]
        exact Function.update_self ..
      · have rest : (i + 1 ≤ k ∧ k < i + 1 + left ∧ k < maxnum) ↔
            i ≤ k ∧ k < i + (left + 1) ∧ k < maxnum := by omega
        rw [if_congr rest rfl rfl]
        exact congrArg _ (Function.update_of_ne other ..)
    rw [getUsers]
    split
    case isTrue inside =>
      split
      · exact next _ _ inside
      · exact next _ _ inside
    case isFalse full => rw [if_neg (by omega)]

/-- As long as the names before are short, every name is at its own slot. -/
theorem getUsers_slot {k : Nat} (aligned : pcUserName = userlen * i) (low : i ≤ k)
    (high : k < i + left) (room : k < maxnum)
    (short : ∀ m, i ≤ m → m ≤ k → (t.aacUserName m).length < userlen) :
    Holds (getUsers t userlen maxnum left i pcUserName l).userName (userlen * k)
      (t.aacUserName k ++ ['\x00']) := by
  induction left generalizing i pcUserName l with
  | zero => omega
  | succ left ih =>
    have here := short i (Nat.le_refl i) low
    rw [getUsers, if_pos (Nat.lt_of_le_of_lt low room), if_pos (Nat.le_of_lt here)]
    rcases Nat.eq_or_lt_of_le low with rfl | later
    · intro j c cell
      have inside : j < (t.aacUserName i ++ ['\x00']).length :=
        (List.getElem?_eq_some_iff.mp cell).1
      rw [List.length_append, List.length_singleton] at inside
      rw [getUsers_before (by omega), ← aligned]
      exact holds_store l.userName pcUserName (t.aacUserName i ++ ['\x00']) j c cell
    · apply ih
      · rw [aligned, Nat.mul_succ]
      · exact later
      · omega
      · exact fun m from_ => short m (by omega)

/-- Then no name leaves its slot. -/
theorem getUsers_nameWritten (aligned : pcUserName = userlen * i)
    (short : ∀ m, i ≤ m → m < i + left → (t.aacUserName m).length < userlen) :
    ∀ place ∈ (getUsers t userlen maxnum left i pcUserName l).userNameWritten,
      place ∈ l.userNameWritten ∨ place < maxnum * userlen := by
  induction left generalizing i pcUserName l with
  | zero => exact fun place written => .inl written
  | succ left ih =>
    have here := short i (Nat.le_refl i) (by omega)
    rw [getUsers]
    split
    case isFalse full => exact fun place written => .inl written
    case isTrue inside =>
      rw [if_pos (Nat.le_of_lt here)]
      intro place written
      have next : pcUserName + userlen = userlen * (i + 1) := by rw [aligned, Nat.mul_succ]
      rcases ih next (fun m from_ => by intro below; exact short m (by omega) (by omega)) place written
        with before | fits
      · rcases List.mem_append.mp before with old | new
        · exact .inl old
        · right
          have last := List.mem_range'_1.mp new
          have slots : userlen * (i + 1) ≤ maxnum * userlen := by
            rw [Nat.mul_comm maxnum]
            exact Nat.mul_le_mul_left userlen inside
          omega
      · exact .inr fits

theorem getUsers_privilegeWritten :
    ∀ place ∈ (getUsers t userlen maxnum left i pcUserName l).privilegeWritten,
      place ∈ l.privilegeWritten ∨ place < maxnum := by
  induction left generalizing i pcUserName l with
  | zero => exact fun place written => .inl written
  | succ left ih =>
    have next (l : Listing) (p : Nat) (inside : i < maxnum) : ∀ place ∈ (getUsers t userlen maxnum
        left (i + 1) p (l.setPrivilege i (t.acUserPrivilege i))).privilegeWritten,
        place ∈ l.privilegeWritten ∨ place < maxnum := by
      intro place written
      rcases ih place written with before | fits
      · rcases List.mem_append.mp before with old | new
        · exact .inl old
        · rw [List.mem_singleton.mp new]
          exact .inr inside
      · exact .inr fits
    rw [getUsers]
    split
    case isFalse full => exact fun place written => .inl written
    case isTrue inside =>
      split
      · exact next _ _ inside
      · exact next _ _ inside

/-- The slots before the first name that is too long are filled. -/
theorem getUsers_listed {k : Nat} (below : k < t.iUserCurNum) (room : k < maxnum)
    (short : ∀ m ≤ k, (t.aacUserName m).length < userlen) :
    Listed t userlen (getUsers t userlen maxnum t.iUserCurNum 0 0 l) k := by
  refine ⟨short k (Nat.le_refl k), ?_, ?_⟩
  · exact getUsers_slot rfl (Nat.zero_le k) (by omega) room fun m _ => short m
  · rw [getUsers_privilege, if_pos ⟨Nat.zero_le k, by omega, room⟩]

/-- A slot beyond `maxnum` has what the caller's arrays had before. -/
theorem not_listed_beyond {k : Nat} (beyond : maxnum ≤ k)
    (differs : l.privilege k ≠ t.acUserPrivilege k) :
    ¬ Listed t userlen (getUsers t userlen maxnum left i pcUserName l) k := by
  rintro ⟨-, -, same⟩
  rw [getUsers_privilege, if_neg (by omega)] at same
  exact differs same

theorem ictlGetUser_run {handle : Handle} (allowed : authUser ≤ handle.privilege) (usernum : Nat) :
    ictlGetUser t userlen maxnum (some handle) l usernum =
      (.ok, getUsers t userlen maxnum t.iUserCurNum 0 0 l, t.iUserCurNum) :=
  if_neg (Int.not_lt.mpr allowed)

theorem listsUsers_iff : ListsUsers t userlen maxnum ↔
    t.iUserCurNum ≤ maxnum ∧ ∀ i < t.iUserCurNum, (t.aacUserName i).length < userlen := by
  constructor
  · intro lists
    -- arrays whose privileges are none of the table's
    have filled := lists ⟨[], [], authUser⟩ (fun _ => '\x00') (fun k => t.acUserPrivilege k + 1) 0
      (Int.le_refl _)
    rw [ictlGetUser_run (Int.le_refl _)] at filled
    refine ⟨?_, fun i below => (filled.1 i below).1⟩
    apply Nat.le_of_not_lt
    intro more
    exact not_listed_beyond (Nat.le_refl maxnum) (Int.ne_of_gt (Int.lt_succ _))
      (filled.1 maxnum more)
  · rintro ⟨fits, short⟩ handle userName privilege usernum allowed
    rw [ictlGetUser_run allowed]
    refine ⟨fun i below => ?_, fun place written => ?_, fun place written => ?_⟩
    · have below : i < t.iUserCurNum := below
      exact getUsers_listed below (by omega) fun m le => short m (by omega)
    · rcases getUsers_nameWritten rfl (fun m _ below => short m (by omega)) place written
        with before | inside
      · cases before
      · exact inside
    · rcases getUsers_privilegeWritten place written with before | inside
      · cases before
      · exact inside

theorem httpReads_iff : ReadsListed t (configGetUserReads t) ↔
    ∀ i < min t.iUserCurNum 30, (t.aacUserName i).length < 24 := by
  have read (handle : Handle) (l : Listing) (allowed : authUser ≤ handle.privilege) :
      configGetUserReads t handle l = (getUsers t 24 (30 * 4) t.iUserCurNum 0 0 l,
        List.range (min t.iUserCurNum 30)) := by
    simp only [configGetUserReads, ictlGetUser_run allowed]
    split
    case isTrue many => rw [Nat.min_eq_right (Nat.le_of_lt many)]
    case isFalse few => rw [Nat.min_eq_left (Nat.le_of_not_lt few)]
  constructor
  · intro reads i below
    have filled := reads ⟨[], [], authUser⟩ (fun _ => '\x00') t.acUserPrivilege (Int.le_refl _)
    rw [read _ _ (Int.le_refl _)] at filled
    exact (filled i (List.mem_range.mpr below)).1
  · intro short handle userName privilege allowed
    rw [read handle _ allowed]
    intro i inside
    have below := List.mem_range.mp inside
    exact getUsers_listed (by omega) (by omega) fun m le => short m (by omega)

theorem usbReads_iff : (∀ actualUserNum, ReadsListed t (initRequestReads t actualUserNum)) ↔
    t.iUserCurNum ≤ 30 ∧ ∀ i < t.iUserCurNum, (t.aacUserName i).length < 24 := by
  have read (n : Nat) (handle : Handle) (l : Listing) (allowed : authUser ≤ handle.privilege) :
      initRequestReads t n handle l =
        (getUsers t 24 30 t.iUserCurNum 0 0 l, List.range t.iUserCurNum) := by
    simp only [initRequestReads, ictlGetUser_run allowed]
  constructor
  · intro reads
    have filled := reads 0 ⟨[], [], authUser⟩ (fun _ => '\x00') (fun k => t.acUserPrivilege k + 1)
      (Int.le_refl _)
    rw [read _ _ _ (Int.le_refl _)] at filled
    refine ⟨?_, fun i below => (filled i (List.mem_range.mpr below)).1⟩
    apply Nat.le_of_not_lt
    intro more
    exact not_listed_beyond (Nat.le_refl 30) (Int.ne_of_gt (Int.lt_succ _))
      (filled 30 (List.mem_range.mpr more))
  · rintro ⟨fits, short⟩ actualUserNum handle userName privilege allowed
    rw [read actualUserNum handle _ allowed]
    intro i inside
    have below := List.mem_range.mp inside
    exact getUsers_listed below (by omega) fun m le => short m (by omega)

/-- The accounts are listed where the array has a slot for each of them and each name with its end
fits into its slot. The first 30 of the table are all that is read for HTTP, and all of it is read
for USB. -/
theorem users_listed (t : UserTable) (userlen maxnum : Nat) :
    (ListsUsers t userlen maxnum ↔
      t.iUserCurNum ≤ maxnum ∧ ∀ i < t.iUserCurNum, (t.aacUserName i).length < userlen) ∧
    (ReadsListed t (configGetUserReads t) ↔
      ∀ i < min t.iUserCurNum 30, (t.aacUserName i).length < 24) ∧
    ((∀ actualUserNum, ReadsListed t (initRequestReads t actualUserNum)) ↔
      t.iUserCurNum ≤ 30 ∧ ∀ i < t.iUserCurNum, (t.aacUserName i).length < 24) :=
  ⟨listsUsers_iff, httpReads_iff, usbReads_iff⟩

end

/-- Three accounts, the first name longer than the others. -/
def threeUsers : UserTable where
  iUserCurNum := 3
  aacUserName
    | 0 => "administrator".toList
    | 1 => "bob".toList
    | _ => "eve".toList
  aacUserPass _ := []
  acUserPrivilege
    | 0 => authAdmin
    | _ => authUser
  written := [0, 1, 2]

/-- With slots of four characters the second name is in the first slot, and with two slots three
accounts are reported. -/
theorem listing_shifted : ¬ ListsUsers threeUsers 4 30 ∧ ¬ ListsUsers threeUsers 24 2 := by
  constructor
  · intro lists
    have listed := (lists ⟨[], [], authUser⟩ (fun _ => '\x00') (fun _ => 0) 0 (Int.le_refl _)).1 0
      (by decide)
    exact absurd listed.1 (by decide)
  · intro lists
    have listed := (lists ⟨[], [], authUser⟩ (fun _ => '\x00') (fun _ => 2) 0 (Int.le_refl _)).1 2
      (by decide)
    exact absurd listed.2.2 (by decide)

end Rovio.Account
