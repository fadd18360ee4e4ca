import Rovio.Kit.Runs
import Rovio.Account.Requests

/-! What a connection below administrator can do to the accounts. A request that
names the connection's own user runs with an administrator's handle, and the
privilege stored under it is the one the request asks for. -/
namespace Rovio.Account
open Rovio.Http Kit

/-- The connection is authenticated below administrator. -/
def Below (conn : Connection) : Prop :=
  conn.authPrivilege < authAdmin ∧ conn.httpPrivilege.privilege < authAdmin

instance (conn : Connection) : Decidable (Below conn) := inferInstanceAs (Decidable (_ ∧ _))

section
variable {H : HttpAuth} {P : HttpParams}

/-- Every account of `t` was there in `s` with at least its privilege. -/
def NoGain (s t : H.Store) : Prop :=
  ∀ a ∈ H.accounts t, ∃ b ∈ H.accounts s, b.name = a.name ∧ a.privilege ≤ b.privilege

/-- An accepted edit of the own name that either has no account or asks for more than it has. -/
def Escalates (s : Session H) (r : AccountRequest P) : Prop :=
  ∃ pl user pass, r = .setUser pl ∧ P.httpGetString pl "User" = some user ∧
    P.httpGetString pl "Pass" = some pass ∧ user.length < 24 ∧ pass.length < 24 ∧
    user = s.conn.currentUser ∧ authUser ≤ s.conn.authPrivilege ∧
    ∀ old, H.httpAuthGetUser s.camera.auth user = some old →
      old < requestedPrivilege H P pl s.camera.auth

theorem NoGain.refl (s : H.Store) : NoGain s s :=
  fun a ha => ⟨a, ha, rfl, Int.le_refl _⟩

theorem NoGain.trans {s r t : H.Store} (left : NoGain s r) (right : NoGain r t) : NoGain s t := by
  intro a ha
  obtain ⟨b, hb, nb, kb⟩ := right a ha
  obtain ⟨c, hc, nc, kc⟩ := left b hb
  exact ⟨c, hc, nc.trans nb, Int.le_trans kb kc⟩

theorem del_user_noGain (s : H.Store) (n : CString) : NoGain s (H.httpAuthDelUser s n) :=
  fun a ha => ⟨a, ((H.mem_del_user s n a).mp ha).1, rfl, Int.le_refl _⟩

/-- A set gains nothing exactly if the name has an account of at least the stored privilege. -/
theorem set_user_noGain (s : H.Store) (n p : CString) (k : Int) :
    NoGain s (H.httpAuthSetUser s n p k) ↔ ∃ old, H.httpAuthGetUser s n = some old ∧ k ≤ old := by
  constructor
  · intro safe
    obtain ⟨b, hb, name, le⟩ := safe ⟨n, p, k⟩ ((H.mem_set_user s n p k _).mpr (.inl rfl))
    exact ⟨b.privilege, (H.get_user s n _).mpr ⟨b, hb, name, rfl⟩, le⟩
  · rintro ⟨old, found, le⟩ a ha
    rcases (H.mem_set_user s n p k a).mp ha with rfl | ⟨kept, _⟩
    · obtain ⟨b, hb, name, rfl⟩ := (H.get_user s n old).mp found
      exact ⟨b, hb, name, le⟩
    · exact ⟨a, kept, rfl, Int.le_refl _⟩

theorem storedPrivilege_le {s : H.Store} {n : CString} {k old : Int}
    (found : H.httpAuthGetUser s n = some old) : storedPrivilege H s n k ≤ old ↔ k ≤ old := by
  unfold storedPrivilege
  split
  · rename_i kept
    have admin : authAdmin ≤ old := by
      have last := kept.2
      simp only [isLastAdmin, found, Bool.and_eq_true, decide_eq_true_eq] at last
      exact last.1
    rw [found, Option.getD_some]
    constructor
    · intro _
      exact Int.le_trans (Int.le_of_lt kept.1) admin
    · intro _
      exact Int.le_refl _
  · rfl

/-- An edit of the own name that passes both checks reaches the setter with what it asked for. -/
theorem setUser_self (s : Session H) {pl : P.ParamList} {user pass : CString}
    (hu : P.httpGetString pl "User" = some user) (hp : P.httpGetString pl "Pass" = some pass)
    (lu : user.length < 24) (lp : pass.length < 24) (self : user = s.conn.currentUser)
    (gate : authUser ≤ s.conn.authPrivilege) :
    (accountRequest H P s (.setUser pl)).camera =
      storeUser H s.camera user pass (requestedPrivilege H P pl s.camera.auth) := by
  have passes : selfAuth (some user) s.conn ≤ s.conn.authPrivilege := by
    simpa only [selfAuth, self, if_true] using gate
  rcases httpSubCmdRun_cases (configSetUser H P) pl s rfl with ⟨low, _⟩ | ⟨_, ran⟩
  · simp only [configSetUser, hu] at low
    omega
  · simp only [accountRequest, ran, configSetUser, hu, hp, lu, lp, and_self, if_true]
    obtain ⟨h, camera, allowed⟩ := asSelf_camera user (fun h => ictlSetUser H h (some user)
      (some pass) (requestedPrivilege H P pl s.camera.auth)) s
    rw [camera, ictlSetUser_allowed (allowed.mpr (.inl self)) (by omega) (by omega)]

theorem request_noGain {s : Session H} (below : Below s.conn) (r : AccountRequest P) :
    NoGain s.camera.auth (accountRequest H P s r).camera.auth ↔ ¬ Escalates s r := by
  constructor
  · rintro safe ⟨pl, user, pass, rfl, hu, hp, lu, lp, self, gate, more⟩
    rw [setUser_self s hu hp lu lp self gate, storeUser_auth] at safe
    obtain ⟨old, found, le⟩ := (set_user_noGain _ _ _ _).mp safe
    have := (storedPrivilege_le found).mp le
    have := more old found
    omega
  · intro safe
    obtain ⟨_, same | set | del⟩ := accountRequest_cases s r
    · rw [same]
      exact .refl _
    · obtain ⟨pl, user, pass, rfl, hu, hp, lu, lp, may, gate, set⟩ := set
      have self : user = s.conn.currentUser := by
        rcases may with self | admin
        · exact self
        · exact absurd below.2 (Int.not_lt.mpr admin)
      simp only [selfAuth, self, if_true] at gate
      rw [set]
      apply (set_user_noGain _ _ _ _).mpr
      by_contra fails
      apply safe
      refine ⟨pl, user, pass, rfl, hu, hp, lu, lp, self, gate, fun old found => ?_⟩
      by_contra le
      exact fails ⟨old, found, (storedPrivilege_le found).mpr (Int.not_lt.mp le)⟩
    · obtain ⟨user, _, del⟩ := del
      rw [del]
      exact del_user_noGain _ _

/-- Requests that do not escalate raise no account and create none, however many there are; and
a single request keeps the accounts down exactly if it does not escalate. -/
theorem no_escalation (s : Session H) (below : Below s.conn) :
    (∀ (rs : List (AccountRequest P)) (t : Session H),
      Run (Guarded (fun s r => ¬ Escalates s r) (graph (accountRequest H P))) s rs t →
        NoGain s.camera.auth t.camera.auth) ∧
    ∀ r : AccountRequest P,
      NoGain s.camera.auth (accountRequest H P s r).camera.auth ↔ ¬ Escalates s r := by
  constructor
  · intro rs t run
    refine run.relates (fun s => Below s.conn) (fun s t => NoGain s.camera.auth t.camera.auth)
      (fun s => .refl _) (fun _ _ _ => .trans) ?_ ?_ below
    · rintro s r _ below ⟨_, rfl⟩
      rw [(accountRequest_cases s r).1]
      exact below
    · rintro s r _ below ⟨safe, rfl⟩
      exact (request_noGain below r).mpr safe
  · exact request_noGain below

end

/-! A user that asks for an administrator's privilege along with a new password. -/

def bobSession : Session plainAuth where
  conn := ⟨"bob".toList, authUser, ⟨"bob".toList, "pw".toList, authUser⟩⟩
  camera := { oneUserCamera with auth := ⟨[⟨"bob".toList, "pw".toList, authUser⟩], by decide⟩ }

def bobRequest (text : String) : AccountRequest plainParams :=
  .setUser (plainParams.httpParseString text.toList)

theorem bob_becomes_admin :
    Below bobSession.conn ∧
    (accountRequest plainAuth plainParams bobSession
      (bobRequest "User=bob&Pass=x&Privilege=1")).camera.auth.val =
      [⟨"bob".toList, "x".toList, authAdmin⟩] ∧
    ¬ NoGain (H := plainAuth) bobSession.camera.auth (accountRequest plainAuth plainParams bobSession
      (bobRequest "User=bob&Pass=x&Privilege=1")).camera.auth := by
  have stored : (accountRequest plainAuth plainParams bobSession
      (bobRequest "User=bob&Pass=x&Privilege=1")).camera.auth.val =
      [⟨"bob".toList, "x".toList, authAdmin⟩] := by decide
  refine ⟨by decide, stored, fun safe => ?_⟩
  obtain ⟨b, hb, _, le⟩ := safe ⟨"bob".toList, "x".toList, authAdmin⟩ (by
    show _ ∈ Subtype.val _
    rw [stored]
    exact List.mem_singleton.mpr rfl)
  cases List.mem_singleton.mp hb
  exact absurd le (by decide)

theorem no_escalation_password :
    NoGain (H := plainAuth) bobSession.camera.auth (accountRequest plainAuth plainParams bobSession
      (bobRequest "User=bob&Pass=x")).camera.auth := by
  refine (no_escalation (P := plainParams) bobSession (by decide)).1
    [bobRequest "User=bob&Pass=x"] _ (.cons ⟨?_, rfl⟩ (.nil _))
  rintro ⟨pl, _, _, same, _, _, _, _, rfl, _, more⟩
  cases AccountRequest.setUser.inj same
  exact absurd (more authUser (by decide)) (by decide)

end Rovio.Account
