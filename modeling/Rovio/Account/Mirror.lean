import Rovio.Kit.Runs
import Rovio.Account.ConfigInterface

/-! The saved user table against the authentication list. The rebuild copies the
lists of the three privileges one after another; it loses a string of 24
characters, a privilege without a list and the bound of the table. -/
namespace Rovio.Account
open Rovio.Http Kit

def UserTable.row (t : UserTable) (i : Nat) : Account :=
  ⟨t.aacUserName i, t.aacUserPass i, t.acUserPrivilege i⟩

def UserTable.rows (t : UserTable) : List Account := (List.range t.iUserCurNum).map t.row

section
variable {H : HttpAuth}

/-- The table shows the accounts and no index past its arrays was written. -/
structure Mirrors (c : CameraState H) : Prop where
  rows : c.config.rows.Perm (H.accounts c.auth)
  count : c.config.iUserCurNum = (H.accounts c.auth).length
  bound : ∀ i ∈ c.config.written, i < maxUsersetEnable

def RowFits (a : Account) : Prop :=
  a.name.length < userFieldSize ∧ a.pass.length < userFieldSize ∧
    authUser ≤ a.privilege ∧ a.privilege ≤ authSystem

instance (a : Account) : Decidable (RowFits a) := inferInstanceAs (Decidable (_ ∧ _ ∧ _ ∧ _))

/-- The accounts that the table can show. -/
structure Fits (s : H.Store) : Prop where
  row : ∀ a ∈ H.accounts s, RowFits a
  count : (H.accounts s).length ≤ maxUsersetEnable

/-- What a node adds to the table. -/
def nodeRow (H : HttpAuth) (i : Int) : UserNode → Option Account
  | none => none
  | some (pcName, pcValue) =>
    some ⟨H.httpMyStrncpy (pcName.getD []) userFieldSize,
      H.httpMyStrncpy (pcValue.getD []) userFieldSize, i⟩

def truncated (H : HttpAuth) (a : Account) : Account :=
  ⟨H.httpMyStrncpy a.name userFieldSize, H.httpMyStrncpy a.pass userFieldSize, a.privilege⟩

/-- The indices written so far are those below the counter. -/
def UserTable.Filled (t : UserTable) : Prop := t.written = List.range t.iUserCurNum

theorem rebuildNode_rows (i : Int) (t : UserTable) (node : UserNode) :
    (rebuildNode H i t node).rows = t.rows ++ (nodeRow H i node).toList := by
  cases node with
  | none => simp [rebuildNode, nodeRow]
  | some strings =>
    have kept : ∀ j ∈ List.range t.iUserCurNum,
        (rebuildNode H i t (some strings)).row j = t.row j := by
      intro j hj
      have old : j ≠ t.iUserCurNum := Nat.ne_of_lt (List.mem_range.mp hj)
      simp [rebuildNode, UserTable.row, old]
    have size : (rebuildNode H i t (some strings)).iUserCurNum = t.iUserCurNum + 1 := rfl
    rw [UserTable.rows, size, List.range_succ, List.map_append, List.map_congr_left kept]
    simp [UserTable.rows, rebuildNode, UserTable.row, nodeRow]

theorem rebuildNode_filled (i : Int) {t : UserTable} (filled : t.Filled) (node : UserNode) :
    (rebuildNode H i t node).Filled := by
  cases node with
  | none => exact filled
  | some strings =>
    unfold UserTable.Filled at *
    simp [rebuildNode, filled, List.range_succ]

theorem rebuildNodes_rows (i : Int) (nodes : List UserNode) (t : UserTable) :
    (nodes.foldl (rebuildNode H i) t).rows = t.rows ++ nodes.filterMap (nodeRow H i) := by
  induction nodes generalizing t with
  | nil => simp
  | cons node rest ih =>
    rw [List.foldl_cons, ih, rebuildNode_rows, List.append_assoc]
    congr 1
    cases h : nodeRow H i node <;> simp [h]

theorem rebuildNodes_filled (i : Int) (nodes : List UserNode) {t : UserTable} (filled : t.Filled) :
    (nodes.foldl (rebuildNode H i) t).Filled := by
  induction nodes generalizing t with
  | nil => exact filled
  | cons node rest ih => exact ih (rebuildNode_filled i filled node)

theorem rebuild_filled (c : CameraState H) : (rebuildConfigParamAuth H c).config.Filled := by
  have empty : ({ c.config with iUserCurNum := 0, written := [] } : UserTable).Filled := rfl
  exact rebuildNodes_filled _ _ (rebuildNodes_filled _ _ (rebuildNodes_filled _ _ empty))

theorem list_rows (s : H.Store) {i : Int} (low : authUser ≤ i) (high : i ≤ authSystem) :
    ((H.httpGetAuthUserList s i).filterMap (nodeRow H i)).Perm
      (((H.accounts s).filter (fun a => a.privilege = i)).map (truncated H)) := by
  have nodes := (H.user_list s i low high).filterMap (nodeRow H i)
  rw [List.filterMap_map] at nodes
  have same : ∀ a ∈ (H.accounts s).filter (fun a => a.privilege = i),
      (nodeRow H i ∘ Account.node) a = some (truncated H a) := by
    intro a ha
    have kind := of_decide_eq_true (List.mem_filter.mp ha).2
    simp [nodeRow, Account.node, truncated, kind]
  rwa [List.filterMap_congr same, List.filterMap_eq_map'] at nodes

/-- Two filters that never both hold, one after the other. -/
theorem filter_append_filter {α : Type} (l : List α) (p q : α → Bool)
    (disjoint : ∀ a, p a = true → q a = false) :
    (l.filter p ++ l.filter q).Perm (l.filter (fun a => p a || q a)) := by
  induction l with
  | nil => simp
  | cons a rest ih =>
    cases hp : p a with
    | true => simpa [hp, disjoint a hp] using ih
    | false =>
      cases hq : q a with
      | true => simpa [hp, hq] using List.perm_middle.trans (ih.cons a)
      | false => simpa [hp, hq] using ih

def InLists (a : Account) : Bool :=
  (decide (a.privilege = authUser) || decide (a.privilege = authAdmin)) ||
    decide (a.privilege = authSystem)

theorem inLists_iff (a : Account) :
    InLists a = true ↔ authUser ≤ a.privilege ∧ a.privilege ≤ authSystem := by
  simp only [InLists, Bool.or_eq_true, decide_eq_true_eq]
  unfold authUser authAdmin authSystem
  omega

/-- The rebuilt rows: the accounts of the three lists, their strings cut. -/
theorem rebuild_rows (c : CameraState H) :
    (rebuildConfigParamAuth H c).config.rows.Perm
      (((H.accounts c.auth).filter InLists).map (truncated H)) := by
  have rows : (rebuildConfigParamAuth H c).config.rows =
      (H.httpGetAuthUserList c.auth authUser).filterMap (nodeRow H authUser) ++
      (H.httpGetAuthUserList c.auth authAdmin).filterMap (nodeRow H authAdmin) ++
      (H.httpGetAuthUserList c.auth authSystem).filterMap (nodeRow H authSystem) := by
    simp only [rebuildConfigParamAuth, List.foldl_cons, List.foldl_nil, rebuildNodes_rows]
    simp [UserTable.rows]
  rw [rows]
  refine (((list_rows c.auth (by decide) (by decide)).append
    (list_rows c.auth (by decide) (by decide))).append
    (list_rows c.auth (by decide) (by decide))).trans ?_
  rw [← List.map_append, ← List.map_append]
  refine List.Perm.map _ (((filter_append_filter _ _ _ ?_).append_right _).trans
    (filter_append_filter _ _ _ ?_))
  · intro a user
    rw [decide_eq_true_eq] at user
    rw [user]
    rfl
  · intro a low
    rw [Bool.or_eq_true, decide_eq_true_eq, decide_eq_true_eq] at low
    rcases low with low | low <;> rw [low] <;> rfl

theorem truncated_eq {a : Account} (name : a.name.length < userFieldSize)
    (pass : a.pass.length < userFieldSize) : truncated H a = a := by
  simp only [truncated, H.strncpy_short _ _ name, H.strncpy_short _ _ pass]

theorem truncated_length (a : Account) :
    (truncated H a).name.length < userFieldSize ∧ (truncated H a).pass.length < userFieldSize :=
  ⟨H.strncpy_length _ _ (by decide), H.strncpy_length _ _ (by decide)⟩

/-- A rebuild mirrors the accounts exactly if the table can show them. -/
theorem rebuild_mirrors (c : CameraState H) :
    Mirrors (rebuildConfigParamAuth H c) ↔ Fits c.auth := by
  have rows := rebuild_rows c
  have filled := rebuild_filled c
  constructor
  · intro mirrors
    have perm := rows.symm.trans mirrors.rows
    rw [rebuild_auth] at perm
    have listed : (H.accounts c.auth).filter InLists = H.accounts c.auth := by
      apply List.filter_eq_self.mpr
      have all := perm.length_eq
      rw [List.length_map] at all
      exact List.length_filter_eq_length_iff.mp all
    constructor
    · intro a ha
      obtain ⟨b, _, rfl⟩ := List.mem_map.mp (perm.mem_iff.mpr ha)
      have kind : InLists (truncated H b) = true := List.filter_eq_self.mp listed _ ha
      exact ⟨(truncated_length b).1, (truncated_length b).2, (inLists_iff _).mp kind⟩
    · by_contra many
      have count := mirrors.count
      have top : maxUsersetEnable ∈ (rebuildConfigParamAuth H c).config.written := by
        rw [filled, count]
        exact List.mem_range.mpr (Nat.not_le.mp many)
      exact absurd (mirrors.bound _ top) (Nat.lt_irrefl _)
  · intro fits
    have listed : (H.accounts c.auth).filter InLists = H.accounts c.auth :=
      List.filter_eq_self.mpr fun a ha => (inLists_iff a).mpr (fits.row a ha).2.2
    have whole : (H.accounts c.auth).map (truncated H) = H.accounts c.auth := by
      refine (List.map_congr_left fun a ha => ?_).trans (List.map_id _)
      exact truncated_eq (fits.row a ha).1 (fits.row a ha).2.1
    rw [listed, whole] at rows
    have count : (rebuildConfigParamAuth H c).config.iUserCurNum = (H.accounts c.auth).length := by
      have size := rows.length_eq
      rwa [UserTable.rows, List.length_map, List.length_range] at size
    refine ⟨rows, count, fun i written => ?_⟩
    rw [filled, count, List.mem_range] at written
    exact Nat.lt_of_lt_of_le written fits.count

/-- A call that reaches the store puts a record there that the table can show. -/
def CallFits (c : CameraState H) : IctlCall → Prop
  | .setUser h name pass k => ∀ handle n p, h = some handle → authAdmin ≤ handle.privilege →
      name = some n → pass = some p → n.length ≤ 24 → p.length ≤ 24 →
      n.length < userFieldSize ∧ p.length < userFieldSize ∧
        k ≤ authSystem ∧ (authUser ≤ k ∨ isLastAdmin H c.auth n) ∧
        ((H.httpAuthGetUser c.auth n).isSome ∨ (H.accounts c.auth).length < maxUsersetEnable)
  | .delUser _ _ => True

theorem set_user_fits {s : H.Store} (fits : Fits s) (n p : CString) (k : Int) :
    Fits (H.httpAuthSetUser s n p k) ↔ RowFits ⟨n, p, k⟩ ∧
      ((H.httpAuthGetUser s n).isSome ∨ (H.accounts s).length < maxUsersetEnable) := by
  have rows : (∀ a ∈ H.accounts (H.httpAuthSetUser s n p k), RowFits a) ↔ RowFits ⟨n, p, k⟩ := by
    constructor
    · intro all
      exact all _ ((H.mem_set_user s n p k _).mpr (.inl rfl))
    · intro new a ha
      rcases (H.mem_set_user s n p k a).mp ha with rfl | ⟨kept, _⟩
      · exact new
      · exact fits.row a kept
  have count : (H.accounts (H.httpAuthSetUser s n p k)).length ≤ maxUsersetEnable ↔
      ((H.httpAuthGetUser s n).isSome ∨ (H.accounts s).length < maxUsersetEnable) := by
    cases found : H.httpAuthGetUser s n with
    | none =>
      rw [H.set_user_length_fresh found]
      constructor
      · intro room
        exact .inr room
      · rintro (known | room)
        · cases known
        · exact room
    | some old =>
      rw [H.set_user_length_known found]
      exact iff_of_true fits.count (.inl rfl)
  rw [← rows, ← count]
  exact ⟨fun f => ⟨f.row, f.count⟩, fun ⟨row, count⟩ => ⟨row, count⟩⟩

/-- The guard of the last administrator replaces a privilege below all lists by a listed one. -/
theorem storedPrivilege_listed {s : H.Store} (fits : Fits s) (n : CString) (k : Int) :
    (authUser ≤ storedPrivilege H s n k ∧ storedPrivilege H s n k ≤ authSystem) ↔
      k ≤ authSystem ∧ (authUser ≤ k ∨ isLastAdmin H s n) := by
  unfold storedPrivilege
  split
  · rename_i kept
    obtain ⟨low, last⟩ := kept
    obtain ⟨old, found, _⟩ := isLastAdmin_privilege last
    obtain ⟨a, ha, _, rfl⟩ := (H.get_user s n old).mp found
    have listed := (fits.row a ha).2.2
    have under : k ≤ authSystem := by
      unfold authAdmin at low
      unfold authSystem
      omega
    simp only [found, Option.getD_some, listed, and_self, under, last, or_true]
  · rename_i asked
    constructor
    · rintro ⟨low, high⟩
      exact ⟨high, .inl low⟩
    · rintro ⟨high, low | last⟩
      · exact ⟨low, high⟩
      · refine ⟨?_, high⟩
        have notLow : ¬ k < authAdmin := fun low => asked ⟨low, last⟩
        unfold authAdmin at notLow
        unfold authUser
        omega

theorem del_user_fits {s : H.Store} (fits : Fits s) (n : CString) :
    Fits (H.httpAuthDelUser s n) :=
  ⟨fun a ha => fits.row a ((H.mem_del_user s n a).mp ha).1,
    Nat.le_trans (H.del_user_length_le s n) fits.count⟩

theorem call_mirrors {c : CameraState H} (fits : Fits c.auth) (mirrors : Mirrors c)
    (call : IctlCall) : (Mirrors (ictlCall H c call) ↔ CallFits c call) ∧
      (CallFits c call → Fits (ictlCall H c call).auth) := by
  cases call with
  | setUser h name pass k =>
    rcases ictlSetUser_cases (Prod.eta (ictlSetUser H h name pass k c)).symm with ⟨same, bad⟩ | set
    · have refused : CallFits c (.setUser h name pass k) := by
        rintro handle n p rfl admin rfl rfl ln lp
        rw [ictlSetUser_allowed admin ln lp k] at bad
        exact absurd rfl bad
      simp only [ictlCall, same, refused, iff_true, true_implies]
      exact ⟨mirrors, fits⟩
    · obtain ⟨handle, n, p, rfl, rfl, rfl, _, admin, ln, lp, eq⟩ := set
      have reach : CallFits c (.setUser (some handle) (some n) (some p) k) ↔
          Fits (H.httpAuthSetUser c.auth n p (storedPrivilege H c.auth n k)) := by
        have row := storedPrivilege_listed fits n k
        rw [set_user_fits fits]
        simp only [RowFits, row, and_assoc]
        constructor
        · intro ok
          exact ok handle n p rfl admin rfl rfl ln lp
        · intro ok _ _ _ hh _ hn hp _ _
          cases hh
          cases hn
          cases hp
          exact ok
      rw [reach]
      simp only [ictlCall, eq]
      exact ⟨rebuild_mirrors _, id⟩
  | delUser h name =>
    simp only [ictlCall, CallFits, iff_true, true_implies]
    rcases ictlDelUser_cases (Prod.eta (ictlDelUser H h name c)).symm with same | del
    · rw [same]
      exact ⟨mirrors, fits⟩
    · obtain ⟨_, n, _, _, _, _, eq⟩ := del
      rw [eq]
      have left := del_user_fits fits n
      exact ⟨(rebuild_mirrors _).mpr left, left⟩

/-- From a table that mirrors the accounts, calls that fit keep it so, and one call does
exactly if it fits. -/
theorem table_mirrors (c : CameraState H) (fits : Fits c.auth) (mirrors : Mirrors c) :
    (∀ (calls : List IctlCall) (t : CameraState H),
      Run (Guarded CallFits (graph (ictlCall H))) c calls t → Mirrors t) ∧
    ∀ call, Mirrors (ictlCall H c call) ↔ CallFits c call := by
  constructor
  · intro calls t run
    refine (run.invariant (fun c => Fits c.auth ∧ Mirrors c) ?_ ⟨fits, mirrors⟩).2
    rintro c call _ ⟨fits, mirrors⟩ ⟨ok, rfl⟩
    obtain ⟨iff, next⟩ := call_mirrors fits mirrors call
    exact ⟨next ok, iff.mpr ok⟩
  · exact fun call => (call_mirrors fits mirrors call).1

end

/-! Ordinary calls that the table cannot follow: a name of 24 characters, and one account more
than the table has rows. -/

def adminHandle : Handle := ⟨[], [], authAdmin⟩

def longName : CString := List.replicate 24 'a'

/-- Thirty accounts, with the table rebuilt from them. -/
def fullCamera : CameraState plainAuth :=
  rebuildConfigParamAuth plainAuth { oneUserCamera with
    auth := ⟨(List.range 30).map (fun i => ⟨[Char.ofNat (65 + i)], [], authUser⟩), by decide⟩ }

theorem oneUser_mirrors : Fits oneUserCamera.auth ∧ Mirrors oneUserCamera := by
  refine ⟨⟨?_, by decide⟩, ⟨.refl _, rfl, by decide⟩⟩
  intro a ha
  cases List.mem_singleton.mp ha
  decide

theorem full_mirrors : Fits fullCamera.auth ∧ Mirrors fullCamera := by
  have fits : Fits fullCamera.auth := by
    refine ⟨fun a ha => ?_, by decide⟩
    obtain ⟨i, _, rfl⟩ := List.mem_map.mp ha
    exact (by decide : 1 < 24 ∧ 0 < 24 ∧ authUser ≤ authUser ∧ authUser ≤ authSystem)
  exact ⟨fits, (rebuild_mirrors _).mpr fits⟩

theorem table_breaks :
    (Mirrors oneUserCamera ∧ ¬ Mirrors (ictlCall plainAuth oneUserCamera
      (.setUser (some adminHandle) (some longName) (some []) authUser))) ∧
    Mirrors fullCamera ∧
    ¬ Mirrors (ictlCall plainAuth fullCamera
      (.setUser (some adminHandle) (some ['a']) (some []) authUser)) ∧
    (ictlCall plainAuth fullCamera
      (.setUser (some adminHandle) (some ['a']) (some []) authUser)).config.written.contains 30 := by
  refine ⟨⟨oneUser_mirrors.2, fun kept => ?_⟩, full_mirrors.2, fun kept => ?_, by decide⟩
  · have short := ((call_mirrors oneUser_mirrors.1 oneUser_mirrors.2 _).1.mp kept
      adminHandle longName [] rfl (by decide) rfl rfl (by decide) (by decide)).1
    exact absurd short (by decide)
  · have room := ((call_mirrors full_mirrors.1 full_mirrors.2 _).1.mp kept
      adminHandle ['a'] [] rfl (by decide) rfl rfl (by decide) (by decide)).2.2.2.2
    exact absurd room (by decide)

theorem table_mirrors_two : Mirrors (ictlCall plainAuth oneUserCamera
    (.setUser (some adminHandle) (some "bob".toList) (some "x".toList) authUser)) := by
  refine (table_mirrors oneUserCamera oneUser_mirrors.1 oneUser_mirrors.2).1
    [.setUser (some adminHandle) (some "bob".toList) (some "x".toList) authUser] _
    (.cons ⟨?_, rfl⟩ (.nil _))
  intro _ _ _ hh _ hn hp _ _
  cases hh
  cases hn
  cases hp
  exact ⟨by decide, by decide, by decide, by decide, .inr (by decide)⟩

end Rovio.Account
