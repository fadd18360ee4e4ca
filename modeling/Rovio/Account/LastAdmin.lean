import Rovio.Kit.Runs
import Rovio.Account.Requests
import Rovio.Usb.Session

/-! The guard of the last administrator. It counts the list of privilege
`AUTH_ADMIN` only, which is enough: whoever is refused nothing leaves a second
record of that list behind. -/
namespace Rovio.Account
open Rovio.Http Rovio.Usb Kit

/-- The ways to reach the account setters: directly, from the web and from USB. -/
inductive AccountCall (P : HttpParams) where
  | ictl (call : IctlCall)
  | request (conn : Connection) (r : AccountRequest P)
  | usb (ctrlHandle : Handle) (user : UserSetting)

variable {H : HttpAuth} {P : HttpParams}

def accountCall (s : CameraState H) : AccountCall P → CameraState H
  | .ictl call => ictlCall H s call
  | .request conn r => (accountRequest H P ⟨conn, s⟩ r).camera
  | .usb ctrlHandle user => authSetting H ctrlHandle user s

def HasAdmin (s : H.Store) : Prop := ∃ a ∈ H.accounts s, authAdmin ≤ a.privilege

theorem isMoreThanOneAdmin_iff (s : H.Store) :
    isMoreThanOneAdmin H s = true ↔
      2 ≤ ((H.accounts s).filter (fun a => a.privilege = authAdmin)).length := by
  have size := (H.user_list s authAdmin (by decide) (by decide)).length_eq
  rw [List.length_map] at size
  rw [← size]
  unfold isMoreThanOneAdmin
  split
  · rename_i empty
    simp [empty]
  · rename_i single
    simp [single]
  · rename_i more
    simp [more]

/-- Whoever is not the last administrator leaves another one. -/
theorem other_admin {s : H.Store} {n : CString} (has : HasAdmin s)
    (notLast : isLastAdmin H s n = false) :
    ∃ b ∈ H.accounts s, b.name ≠ n ∧ authAdmin ≤ b.privilege := by
  obtain ⟨a, ha, admin⟩ := has
  by_cases named : a.name = n
  · have found : H.httpAuthGetUser s n = some a.privilege := named ▸ H.get_user_of_mem ha
    have more : isMoreThanOneAdmin H s = true := by
      simpa [isLastAdmin, found, admin] using notLast
    have two := (isMoreThanOneAdmin_iff s).mp more
    obtain ⟨b, hb, other⟩ : ∃ b ∈ (H.accounts s).filter (fun a => a.privilege = authAdmin),
        b ≠ a := by
      by_contra none
      push Not at none
      have single : (H.accounts s).filter (fun a => a.privilege = authAdmin) ⊆ [a] :=
        fun b hb => List.mem_singleton.mpr (none b hb)
      have one := (List.subperm_of_subset ((H.accounts_nodup s).filter _) single).length_le
      rw [List.length_singleton] at one
      omega
    obtain ⟨hb, kind⟩ := List.mem_filter.mp hb
    refine ⟨b, hb, ?_, Int.le_of_eq (of_decide_eq_true kind).symm⟩
    rintro rfl
    exact other (H.account_unique hb ha named.symm)
  · exact ⟨a, ha, named, admin⟩

theorem set_user_admin {s : H.Store} (has : HasAdmin s) (n p : CString) (k : Int) :
    HasAdmin (H.httpAuthSetUser s n p (storedPrivilege H s n k)) := by
  by_cases high : authAdmin ≤ storedPrivilege H s n k
  · exact ⟨_, (H.mem_set_user _ _ _ _ _).mpr (.inl rfl), high⟩
  · have notLast : isLastAdmin H s n = false := by
      by_contra last
      rw [Bool.not_eq_false] at last
      obtain ⟨old, found, admin⟩ := isLastAdmin_privilege last
      apply high
      unfold storedPrivilege
      split
      · simpa [found] using admin
      · rename_i kept
        simp only [last, and_true] at kept
        omega
    obtain ⟨b, hb, other, admin⟩ := other_admin has notLast
    exact ⟨b, (H.mem_set_user _ _ _ _ _).mpr (.inr ⟨hb, other⟩), admin⟩

theorem del_user_admin {s : H.Store} (has : HasAdmin s) {n : CString}
    (notLast : isLastAdmin H s n = false) : HasAdmin (H.httpAuthDelUser s n) := by
  obtain ⟨b, hb, other, admin⟩ := other_admin has notLast
  exact ⟨b, (H.mem_del_user _ _ _).mpr ⟨hb, other⟩, admin⟩

theorem ictlCall_admin {s : CameraState H} (has : HasAdmin s.auth) (call : IctlCall) :
    HasAdmin (ictlCall H s call).auth := by
  rcases ictlCall_cases s call with same | ⟨n, p, k, _, _, set⟩ | ⟨n, notLast, del⟩
  · rw [same]
    exact has
  · rw [set]
    exact set_user_admin has n p k
  · rw [del]
    exact del_user_admin has notLast

theorem accountRequest_admin {conn : Connection} {s : CameraState H} (has : HasAdmin s.auth)
    (r : AccountRequest P) : HasAdmin (accountRequest H P ⟨conn, s⟩ r).camera.auth := by
  obtain ⟨_, same | set | del⟩ := accountRequest_cases ⟨conn, s⟩ r
  · rw [same]
    exact has
  · obtain ⟨_, user, pass, _, _, _, _, _, _, _, set⟩ := set
    rw [set]
    exact set_user_admin has user pass _
  · obtain ⟨user, notLast, del⟩ := del
    rw [del]
    exact del_user_admin has notLast

/-- The USB command is one of the two calls, or changes no account. -/
theorem authSetting_admin {s : CameraState H} (has : HasAdmin s.auth) (h : Handle)
    (user : UserSetting) : HasAdmin (authSetting H h user s).auth := by
  unfold authSetting
  split
  · exact ictlCall_admin has (.setUser (some h) (some user.newName) (some user.newPasswd) _)
  · split
    · exact ictlCall_admin has (.delUser (some h) (some user.originalName))
    · split
      · unfold ictlSetUserCheck
        dsimp only
        split <;> exact has
      · exact has

/-- However the setters are called, an administrator remains. -/
theorem admin_remains (s t : CameraState H) (calls : List (AccountCall P))
    (has : HasAdmin s.auth) (run : Run (graph accountCall) s calls t) : HasAdmin t.auth := by
  refine run.invariant (fun s => HasAdmin s.auth) ?_ has
  rintro s call _ has rfl
  cases call with
  | ictl call => exact ictlCall_admin has call
  | request conn r => exact accountRequest_admin has r
  | usb h user => exact authSetting_admin has h user

theorem admin_remains_demoted :
    HasAdmin (H := plainAuth) (ictlCall plainAuth oneUserCamera (.setUser
      (some ⟨[], [], authAdmin⟩) (some "ann".toList) (some "pw".toList) authUser)).auth :=
  admin_remains (P := plainParams) oneUserCamera _ [.ictl (.setUser (some ⟨[], [], authAdmin⟩)
    (some "ann".toList) (some "pw".toList) authUser)]
    ⟨_, List.mem_singleton.mpr rfl, Int.le_refl _⟩ (.cons rfl (.nil _))

end Rovio.Account
