import Rovio.Http.Params
import Rovio.Account.ConfigInterface

/-! The account commands of the web server and their dispatch. A command is
called twice: to say which privilege it needs and, if the connection has it, to
run. The reply it writes changes no account and is left out. -/
namespace Rovio.Account
open Rovio.Http

/-- `httpGetCurrentUser`, `httpGetAuthPrivilege` and `httpPrivilege` of a request. -/
structure Connection where
  currentUser : CString
  authPrivilege : Int
  httpPrivilege : Handle

inductive ConfigAction where
  | auth | config

structure Session (H : HttpAuth) where
  conn : Connection
  camera : CameraState H

section
variable (H : HttpAuth) (P : HttpParams)

abbrev SubCmd := P.ParamList → ConfigAction → Session H → Int × Session H

/-- The privilege an account command needs: less when it names the current user. -/
def selfAuth (pcUser : Option CString) (conn : Connection) : Int :=
  match pcUser with
  | some user => if user = conn.currentUser then authUser else authAdmin
  | none => authAdmin

/-- A call made with the handle's privilege replaced for a request that names the current user,
and the privilege put back after it. -/
def asSelf (user : CString) (call : Option Handle → CameraState H → Ictl × CameraState H)
    (s : Session H) : Session H :=
  let nPrivilege := s.conn.httpPrivilege.privilege
  let raised := if user = s.conn.currentUser
    then { s.conn.httpPrivilege with privilege := authAdmin } else s.conn.httpPrivilege
  { conn := { s.conn with httpPrivilege := { raised with privilege := nPrivilege } }
    camera := (call (some raised) s.camera).2 }

def requestedPrivilege (pParamList : P.ParamList) (s : H.Store) : Int :=
  if P.httpIsExistParam pParamList "Privilege" then P.httpGetLong pParamList "Privilege"
  else ((P.httpGetString pParamList "User").bind (H.httpAuthGetUser s)).getD authUser

def configSetUser : SubCmd H P := fun pParamList iAction s =>
  match iAction with
  | .auth => (selfAuth (P.httpGetString pParamList "User") s.conn, s)
  | .config =>
    match P.httpGetString pParamList "User", P.httpGetString pParamList "Pass" with
    | some user, some pass =>
      if user.length < 24 ∧ pass.length < 24 then
        (0, asSelf H user (fun h => ictlSetUser H h (some user) (some pass)
          (requestedPrivilege H P pParamList s.camera.auth)) s)
      else (0, s)
    | _, _ => (0, s)

def configDelUser : SubCmd H P := fun pParamList iAction s =>
  match iAction with
  | .auth => (selfAuth (P.httpGetString pParamList "User") s.conn, s)
  | .config =>
    match P.httpGetString pParamList "User" with
    | some user => (0, asSelf H user (fun h => ictlDelUser H h (some user)) s)
    | none => (0, s)

def configGetUser : SubCmd H P := fun _ iAction s =>
  match iAction with
  | .auth => (authAdmin, s)
  | .config => (0, s)

/-- `Http_SubCmdRun`: the command runs if the connection has the privilege it asks for. -/
def httpSubCmdRun (funConfig : SubCmd H P) (pList : P.ParamList) (s : Session H) : Session H :=
  let (iAuthRequired, s) := funConfig pList .auth s
  if s.conn.authPrivilege < iAuthRequired then s else (funConfig pList .config s).2

inductive AccountRequest where
  | setUser (pParamList : P.ParamList)
  | delUser (pParamList : P.ParamList)
  | getUser (pParamList : P.ParamList)

def accountRequest (s : Session H) : AccountRequest P → Session H
  | .setUser pl => httpSubCmdRun H P (configSetUser H P) pl s
  | .delUser pl => httpSubCmdRun H P (configDelUser H P) pl s
  | .getUser pl => httpSubCmdRun H P (configGetUser H P) pl s

end

section
variable {H : HttpAuth} {P : HttpParams}

@[simp] theorem asSelf_conn (user : CString)
    (call : Option Handle → CameraState H → Ictl × CameraState H) (s : Session H) :
    (asSelf H user call s).conn = s.conn := by
  unfold asSelf
  split <;> rfl

/-- What the handle allows during the call. -/
theorem asSelf_camera (user : CString)
    (call : Option Handle → CameraState H → Ictl × CameraState H) (s : Session H) :
    ∃ h : Handle, (asSelf H user call s).camera = (call (some h) s.camera).2 ∧
      (authAdmin ≤ h.privilege ↔
        user = s.conn.currentUser ∨ authAdmin ≤ s.conn.httpPrivilege.privilege) := by
  unfold asSelf
  by_cases self : user = s.conn.currentUser
  · exact ⟨_, rfl, by simp [self]⟩
  · exact ⟨_, rfl, by simp [self]⟩

/-- A set request leaves the accounts alone or stores one record, which takes the current user's
own name or an administrator's handle. -/
theorem configSetUser_cases (pl : P.ParamList) (s : Session H) :
    (configSetUser H P pl .config s).2.conn = s.conn ∧
    ((configSetUser H P pl .config s).2.camera = s.camera ∨
      ∃ user pass, P.httpGetString pl "User" = some user ∧ P.httpGetString pl "Pass" = some pass ∧
        user.length < 24 ∧ pass.length < 24 ∧
        (user = s.conn.currentUser ∨ authAdmin ≤ s.conn.httpPrivilege.privilege) ∧
        (configSetUser H P pl .config s).2.camera =
          storeUser H s.camera user pass (requestedPrivilege H P pl s.camera.auth)) := by
  simp only [configSetUser]
  split
  · rename_i user pass hu hp
    split
    · rename_i short
      refine ⟨asSelf_conn _ _ _, ?_⟩
      obtain ⟨h, camera, allowed⟩ := asSelf_camera user (fun h => ictlSetUser H h (some user)
        (some pass) (requestedPrivilege H P pl s.camera.auth)) s
      rw [camera]
      rcases ictlSetUser_cases (Prod.eta (ictlSetUser H (some h) (some user) (some pass)
        (requestedPrivilege H P pl s.camera.auth) s.camera)).symm with ⟨same, _⟩ | set
      · exact .inl same
      · obtain ⟨_, _, _, hh, hn, hq, _, admin, _, _, eq⟩ := set
        cases hh
        cases hn
        cases hq
        exact .inr ⟨user, pass, hu, hp, short.1, short.2, allowed.mp admin, eq⟩
    · exact ⟨rfl, .inl rfl⟩
  · exact ⟨rfl, .inl rfl⟩

theorem configDelUser_cases (pl : P.ParamList) (s : Session H) :
    (configDelUser H P pl .config s).2.conn = s.conn ∧
    ((configDelUser H P pl .config s).2.camera = s.camera ∨
      ∃ user, P.httpGetString pl "User" = some user ∧
        (user = s.conn.currentUser ∨ authAdmin ≤ s.conn.httpPrivilege.privilege) ∧
        isLastAdmin H s.camera.auth user = false ∧
        (configDelUser H P pl .config s).2.camera = removeUser H s.camera user) := by
  simp only [configDelUser]
  split
  · rename_i user hu
    refine ⟨asSelf_conn _ _ _, ?_⟩
    obtain ⟨h, camera, allowed⟩ :=
      asSelf_camera user (fun h => ictlDelUser H h (some user)) s
    rw [camera]
    rcases ictlDelUser_cases (Prod.eta
      (ictlDelUser H (some h) (some user) s.camera)).symm with same | del
    · exact .inl same
    · obtain ⟨_, _, hh, hn, admin, notLast, eq⟩ := del
      cases hh
      cases hn
      exact .inr ⟨user, hu, allowed.mp admin, notLast, eq⟩
  · exact ⟨rfl, .inl rfl⟩

theorem httpSubCmdRun_cases (f : SubCmd H P) (pl : P.ParamList) (s : Session H)
    (pure : (f pl .auth s).2 = s) :
    (s.conn.authPrivilege < (f pl .auth s).1 ∧ httpSubCmdRun H P f pl s = s) ∨
    ((f pl .auth s).1 ≤ s.conn.authPrivilege ∧
      httpSubCmdRun H P f pl s = (f pl .config s).2) := by
  unfold httpSubCmdRun
  simp only [pure]
  split
  · rename_i low
    exact .inl ⟨low, rfl⟩
  · rename_i high
    exact .inr ⟨by omega, rfl⟩

/-- One account request either changes no account, stores one record or removes one record. -/
theorem accountRequest_cases (s : Session H) (r : AccountRequest P) :
    (accountRequest H P s r).conn = s.conn ∧
    ((accountRequest H P s r).camera.auth = s.camera.auth ∨
      (∃ pl user pass, r = .setUser pl ∧ P.httpGetString pl "User" = some user ∧
        P.httpGetString pl "Pass" = some pass ∧ user.length < 24 ∧ pass.length < 24 ∧
        (user = s.conn.currentUser ∨ authAdmin ≤ s.conn.httpPrivilege.privilege) ∧
        selfAuth (some user) s.conn ≤ s.conn.authPrivilege ∧
        (accountRequest H P s r).camera.auth = H.httpAuthSetUser s.camera.auth user pass
          (storedPrivilege H s.camera.auth user (requestedPrivilege H P pl s.camera.auth))) ∨
      ∃ user, isLastAdmin H s.camera.auth user = false ∧
        (accountRequest H P s r).camera.auth = H.httpAuthDelUser s.camera.auth user) := by
  cases r with
  | setUser pl =>
    simp only [accountRequest]
    rcases httpSubCmdRun_cases (configSetUser H P) pl s rfl with ⟨_, same⟩ | ⟨gate, ran⟩
    · rw [same]
      exact ⟨rfl, .inl rfl⟩
    · rw [ran]
      obtain ⟨conn, same | set⟩ := configSetUser_cases pl s
      · exact ⟨conn, .inl (by rw [same])⟩
      · obtain ⟨user, pass, hu, hp, lu, lp, may, camera⟩ := set
        refine ⟨conn, .inr (.inl ⟨pl, user, pass, rfl, hu, hp, lu, lp, may, ?_,
          by rw [camera, storeUser_auth]⟩)⟩
        simpa [configSetUser, hu] using gate
  | delUser pl =>
    simp only [accountRequest]
    rcases httpSubCmdRun_cases (configDelUser H P) pl s rfl with ⟨_, same⟩ | ⟨_, ran⟩
    · rw [same]
      exact ⟨rfl, .inl rfl⟩
    · rw [ran]
      obtain ⟨conn, same | del⟩ := configDelUser_cases pl s
      · exact ⟨conn, .inl (by rw [same])⟩
      · obtain ⟨user, _, _, notLast, camera⟩ := del
        exact ⟨conn, .inr (.inr ⟨user, notLast, by rw [camera, removeUser_auth]⟩)⟩
  | getUser pl =>
    simp only [accountRequest]
    rcases httpSubCmdRun_cases (configGetUser H P) pl s rfl with ⟨_, same⟩ | ⟨_, ran⟩
    · rw [same]
      exact ⟨rfl, .inl rfl⟩
    · rw [ran]
      exact ⟨rfl, .inl rfl⟩

end

end Rovio.Account
