import Rovio.Http.Accounts

/-! The account part of the configuration interface: the saved user table, its
rebuild from the library's account lists, and the `ictl` functions that change
or read accounts. The flash write, the RTSP copy of the accounts and the log
have no effect on what is stored here. -/
namespace Rovio.Account
open Rovio.Http

def maxUsersetEnable : Nat := 30

/-- Size of one entry of `aacUserName` and of `aacUserPass`. -/
def userFieldSize : Nat := 24

/-- `iUserCurNum` and the three user arrays of the saved configuration. The arrays are addressed
as memory is, with no bound; `written` lists the indices the last rebuild stored to. -/
structure UserTable where
  iUserCurNum : Nat
  aacUserName : Nat → CString
  aacUserPass : Nat → CString
  acUserPrivilege : Nat → Int
  written : List Nat

structure CameraState (H : HttpAuth) where
  auth : H.Store
  config : UserTable
  bUserCheck : Int

inductive Ictl where
  | ok | error | unauthorized | invalidParameters
  deriving DecidableEq, Repr

structure Handle where
  username : CString
  passwd : CString
  privilege : Int
  deriving DecidableEq, Repr

section
variable (H : HttpAuth)

/-- The body of the inner loop of the rebuild, for one node of the list `ppList[i]`. -/
def rebuildNode (i : Int) (t : UserTable) : UserNode → UserTable
  | none => t
  | some (pcName, pcValue) =>
    { iUserCurNum := t.iUserCurNum + 1
      aacUserName := Function.update t.aacUserName t.iUserCurNum
        (H.httpMyStrncpy (pcName.getD []) userFieldSize)
      aacUserPass := Function.update t.aacUserPass t.iUserCurNum
        (H.httpMyStrncpy (pcValue.getD []) userFieldSize)
      acUserPrivilege := Function.update t.acUserPrivilege t.iUserCurNum i
      written := t.written ++ [t.iUserCurNum] }

def rebuildConfigParamAuth (s : CameraState H) : CameraState H :=
  { s with
    config := [authUser, authAdmin, authSystem].foldl
      (fun t i => (H.httpGetAuthUserList s.auth i).foldl (rebuildNode H i) t)
      { s.config with iUserCurNum := 0, written := [] } }

def isMoreThanOneAdmin (s : H.Store) : Bool :=
  match H.httpGetAuthUserList s authAdmin with
  | [] => false
  | [_] => false
  | _ :: _ :: _ => true

/-- The record exists, is an administrator's and is the only one of its list. -/
def isLastAdmin (s : H.Store) (pcUserName : CString) : Bool :=
  match H.httpAuthGetUser s pcUserName with
  | none => false
  | some iOldPrivilege => decide (authAdmin ≤ iOldPrivilege) && !isMoreThanOneAdmin H s

/-- The privilege that `ictlSetUser` stores: a demotion of the last administrator keeps the old one. -/
def storedPrivilege (s : H.Store) (pcUserName : CString) (nPrivilege : Int) : Int :=
  if nPrivilege < authAdmin ∧ isLastAdmin H s pcUserName then
    (H.httpAuthGetUser s pcUserName).getD nPrivilege
  else nPrivilege

/-- The part of `ictlSetUser` under the lock. -/
def storeUser (s : CameraState H) (pcUserName pcPassword : CString) (nPrivilege : Int) :
    CameraState H :=
  let kept := storedPrivilege H s.auth pcUserName nPrivilege
  rebuildConfigParamAuth H { s with auth := H.httpAuthSetUser s.auth pcUserName pcPassword kept }

/-- The part of `ictlDelUser` under the lock, where its guard lets it through. -/
def removeUser (s : CameraState H) (pcUserName : CString) : CameraState H :=
  rebuildConfigParamAuth H { s with auth := H.httpAuthDelUser s.auth pcUserName }

def ictlSetUser (pHandle : Option Handle) (pcUserName pcPassword : Option CString)
    (nPrivilege : Int) (s : CameraState H) : Ictl × CameraState H :=
  match pHandle with
  | none => (.unauthorized, s)
  | some h =>
    if h.privilege < authAdmin then (.unauthorized, s)
    else match pcUserName, pcPassword with
      | some name, some pass =>
        if 24 < pass.length ∨ 24 < name.length then (.invalidParameters, s)
        else (.ok, storeUser H s name pass nPrivilege)
      | _, _ => (.invalidParameters, s)

def ictlDelUser (pHandle : Option Handle) (pcUserName : Option CString)
    (s : CameraState H) : Ictl × CameraState H :=
  match pHandle with
  | none => (.unauthorized, s)
  | some h =>
    if h.privilege < authAdmin then (.unauthorized, s)
    else match pcUserName with
      | none => (.invalidParameters, s)
      | some name =>
        if 24 < name.length then (.invalidParameters, s)
        else if isLastAdmin H s.auth name then (.ok, s)
        else (.ok, removeUser H s name)

/-- The loop over the saved table: the first index whose name and password both match. -/
def findUser (t : UserTable) (pcUserName pcPassword : CString) : Option Nat :=
  (List.range t.iUserCurNum).find?
    (fun i => t.aacUserName i = pcUserName ∧ t.aacUserPass i = pcPassword)

def ictlAuthUser (pHandle : Option Handle) (pcUserName pcPassword : Option CString)
    (s : CameraState H) : Ictl × Option Handle :=
  match pHandle with
  | none => (.unauthorized, none)
  | some h =>
    match pcUserName, pcPassword with
    | some name, some pass =>
      if 24 < pass.length ∨ 24 < name.length then (.invalidParameters, some h)
      else if s.bUserCheck ≠ 1 then (.ok, some ⟨[], [], authAdmin⟩)
      else match findUser s.config name pass with
        | some i => (.ok, some ⟨name, pass, s.config.acUserPrivilege i⟩)
        | none => (.unauthorized, some h)
    | _, _ => (.invalidParameters, some h)

def ictlSetUserCheck (pHandle : Option Handle) (bEnable : Int)
    (s : CameraState H) : Ictl × CameraState H :=
  match pHandle with
  | none => (.unauthorized, s)
  | some h =>
    if h.privilege < authAdmin then (.unauthorized, s)
    else (.ok, { s with bUserCheck := bEnable })

inductive IctlCall where
  | setUser (pHandle : Option Handle) (pcUserName pcPassword : Option CString) (nPrivilege : Int)
  | delUser (pHandle : Option Handle) (pcUserName : Option CString)

def ictlCall (s : CameraState H) : IctlCall → CameraState H
  | .setUser h name pass k => (ictlSetUser H h name pass k s).2
  | .delUser h name => (ictlDelUser H h name s).2

end

section
variable {H : HttpAuth} {s t : CameraState H}

@[simp] theorem rebuild_auth (s : CameraState H) :
    (rebuildConfigParamAuth H s).auth = s.auth := rfl

@[simp] theorem storeUser_auth (s : CameraState H) (name pass : CString) (k : Int) :
    (storeUser H s name pass k).auth =
      H.httpAuthSetUser s.auth name pass (storedPrivilege H s.auth name k) := rfl

@[simp] theorem removeUser_auth (s : CameraState H) (name : CString) :
    (removeUser H s name).auth = H.httpAuthDelUser s.auth name := rfl

@[simp] theorem rebuild_bUserCheck (s : CameraState H) :
    (rebuildConfigParamAuth H s).bUserCheck = s.bUserCheck := rfl

theorem isLastAdmin_privilege {s : H.Store} {n : CString} (last : isLastAdmin H s n = true) :
    ∃ old, H.httpAuthGetUser s n = some old ∧ authAdmin ≤ old := by
  unfold isLastAdmin at last
  split at last
  · cases last
  · rename_i old found
    exact ⟨old, found, by simp_all⟩

/-- What a set can do: leave the state alone, or store one record and rebuild the table. The
second needs an administrator's handle and bounded strings. -/
theorem ictlSetUser_cases {h : Option Handle} {n p : Option CString} {k : Int} {c : Ictl}
    (out : ictlSetUser H h n p k s = (c, t)) :
    (t = s ∧ c ≠ .ok) ∨
    ∃ handle name pass, h = some handle ∧ n = some name ∧ p = some pass ∧ c = .ok ∧
      authAdmin ≤ handle.privilege ∧ name.length ≤ 24 ∧ pass.length ≤ 24 ∧
      t = storeUser H s name pass k := by
  unfold ictlSetUser at out
  split at out
  · cases out
    exact .inl ⟨rfl, nofun⟩
  · rename_i handle
    split at out
    · cases out
      exact .inl ⟨rfl, nofun⟩
    · rename_i allowed
      split at out
      · rename_i name pass
        split at out
        · cases out
          exact .inl ⟨rfl, nofun⟩
        · rename_i short
          cases out
          exact .inr ⟨handle, name, pass, rfl, rfl, rfl, rfl, by omega, by omega, by omega, rfl⟩
      · cases out
        exact .inl ⟨rfl, nofun⟩

theorem ictlSetUser_allowed {h : Handle} {name pass : CString} (admin : authAdmin ≤ h.privilege)
    (ln : name.length ≤ 24) (lp : pass.length ≤ 24) (k : Int) :
    ictlSetUser H (some h) (some name) (some pass) k s = (.ok, storeUser H s name pass k) := by
  have low : ¬ h.privilege < authAdmin := Int.not_lt.mpr admin
  have short : ¬ (24 < pass.length ∨ 24 < name.length) := by omega
  simp only [ictlSetUser, low, short, if_false]

/-- What a delete can do: leave the state alone, or remove one record that is not the last
administrator's and rebuild the table. -/
theorem ictlDelUser_cases {h : Option Handle} {n : Option CString} {c : Ictl}
    (out : ictlDelUser H h n s = (c, t)) :
    t = s ∨
    ∃ handle name, h = some handle ∧ n = some name ∧ authAdmin ≤ handle.privilege ∧
      isLastAdmin H s.auth name = false ∧
      t = removeUser H s name := by
  unfold ictlDelUser at out
  split at out
  · cases out
    exact .inl rfl
  · rename_i handle
    split at out
    · cases out
      exact .inl rfl
    · rename_i allowed
      split at out
      · cases out
        exact .inl rfl
      · rename_i name
        split at out
        · cases out
          exact .inl rfl
        · split at out
          · cases out
            exact .inl rfl
          · rename_i more
            cases out
            exact .inr ⟨handle, name, rfl, rfl, by omega, by simpa using more, rfl⟩

/-- A call changes nothing, stores one record of bounded strings or removes a record that is not
the last administrator's. -/
theorem ictlCall_cases (s : CameraState H) (call : IctlCall) :
    ictlCall H s call = s ∨
    (∃ name pass k, name.length ≤ 24 ∧ pass.length ≤ 24 ∧
      ictlCall H s call = storeUser H s name pass k) ∨
    ∃ name, isLastAdmin H s.auth name = false ∧ ictlCall H s call = removeUser H s name := by
  cases call with
  | setUser h n p k =>
    rcases ictlSetUser_cases (Prod.eta (ictlSetUser H h n p k s)).symm with ⟨same, _⟩ | set
    · exact .inl same
    · obtain ⟨_, name, pass, _, _, _, _, _, ln, lp, eq⟩ := set
      exact .inr (.inl ⟨name, pass, k, ln, lp, eq⟩)
  | delUser h n =>
    rcases ictlDelUser_cases (Prod.eta (ictlDelUser H h n s)).symm with same | del
    · exact .inl same
    · obtain ⟨_, name, _, _, _, notLast, eq⟩ := del
      exact .inr (.inr ⟨name, notLast, eq⟩)

end

/-- A camera with one account that checks its users. -/
def oneUserCamera : CameraState plainAuth where
  auth := ⟨[⟨"ann".toList, "pw".toList, authAdmin⟩], by decide⟩
  config :=
    { iUserCurNum := 1, aacUserName := fun _ => "ann".toList, aacUserPass := fun _ => "pw".toList
      acUserPrivilege := fun _ => authAdmin, written := [0] }
  bUserCheck := 1

end Rovio.Account
