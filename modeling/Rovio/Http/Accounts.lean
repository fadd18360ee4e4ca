import Mathlib.Data.List.Nodup
import Mathlib.Data.List.Perm.Basic

/-! The account services of the HTTP library. Its source is not in the
repository; `HttpAuth` lists the functions the camera calls with what their
header and manual promise, and no theorem uses more. A C string is the list of
its characters before the terminating zero. -/
namespace Rovio.Http

abbrev CString := List Char

def authAny : Int := -1
def authUser : Int := 0
def authAdmin : Int := 1
def authSystem : Int := 2

structure Account where
  name : CString
  pass : CString
  privilege : Int
  deriving DecidableEq, Repr

/-- A node of a user list: `pValue`, and in it `pcName` and `pcValue`, each possibly NULL. -/
abbrev UserNode := Option (Option CString × Option CString)

def Account.node (a : Account) : UserNode := some (some a.name, some a.pass)

/-- The library's account store. `accounts` enumerates its records; the laws say that a set
inserts or overwrites, a delete removes and the lists show the records of one privilege. -/
structure HttpAuth where
  Store : Type
  accounts : Store → List Account
  httpAuthGetUser : Store → CString → Option Int
  httpAuthSetUser : Store → CString → CString → Int → Store
  httpAuthDelUser : Store → CString → Store
  httpGetAuthUserList : Store → Int → List UserNode
  httpMyStrncpy : CString → Nat → CString
  names_nodup : ∀ s, ((accounts s).map Account.name).Nodup
  get_user : ∀ s n k, httpAuthGetUser s n = some k ↔
    ∃ a ∈ accounts s, a.name = n ∧ a.privilege = k
  mem_set_user : ∀ s n p k a, a ∈ accounts (httpAuthSetUser s n p k) ↔
    a = ⟨n, p, k⟩ ∨ (a ∈ accounts s ∧ a.name ≠ n)
  mem_del_user : ∀ s n a, a ∈ accounts (httpAuthDelUser s n) ↔ a ∈ accounts s ∧ a.name ≠ n
  user_list : ∀ s i, authUser ≤ i → i ≤ authSystem →
    (httpGetAuthUserList s i).Perm
      (((accounts s).filter (fun a => a.privilege = i)).map Account.node)
  strncpy_length : ∀ s n, 0 < n → (httpMyStrncpy s n).length < n
  strncpy_short : ∀ s n, s.length < n → httpMyStrncpy s n = s

namespace HttpAuth

variable (H : HttpAuth)

theorem accounts_nodup (s : H.Store) : (H.accounts s).Nodup :=
  List.Nodup.of_map _ (H.names_nodup s)

theorem account_unique {s : H.Store} {a b : Account} (ha : a ∈ H.accounts s)
    (hb : b ∈ H.accounts s) (same : a.name = b.name) : a = b :=
  List.inj_on_of_nodup_map (H.names_nodup s) ha hb same

theorem get_user_of_mem {s : H.Store} {a : Account} (ha : a ∈ H.accounts s) :
    H.httpAuthGetUser s a.name = some a.privilege :=
  (H.get_user s _ _).mpr ⟨a, ha, rfl, rfl⟩

theorem get_user_none {s : H.Store} {n : CString} :
    H.httpAuthGetUser s n = none ↔ ∀ a ∈ H.accounts s, a.name ≠ n := by
  constructor
  · rintro none a ha rfl
    rw [H.get_user_of_mem ha] at none
    cases none
  · intro fresh
    cases found : H.httpAuthGetUser s n with
    | none => rfl
    | some k =>
      obtain ⟨a, ha, hn, _⟩ := (H.get_user s n k).mp found
      exact absurd hn (fresh a ha)

/-- A set leaves one record under its name and keeps every other record. -/
theorem set_user_perm (s : H.Store) (n p : CString) (k : Int) :
    (H.accounts (H.httpAuthSetUser s n p k)).Perm
      (⟨n, p, k⟩ :: (H.accounts s).filter (fun a => a.name ≠ n)) := by
  have fresh : (⟨n, p, k⟩ : Account) ∉ (H.accounts s).filter (fun a => a.name ≠ n) := by
    simp [List.mem_filter]
  have nodup : (⟨n, p, k⟩ :: (H.accounts s).filter (fun a => a.name ≠ n)).Nodup :=
    List.nodup_cons.mpr ⟨fresh, (H.accounts_nodup s).filter _⟩
  refine (List.perm_ext_iff_of_nodup (H.accounts_nodup _) nodup).mpr fun a => ?_
  simp [H.mem_set_user, List.mem_filter]

theorem set_user_length_known {s : H.Store} {n p : CString} {k old : Int}
    (known : H.httpAuthGetUser s n = some old) :
    (H.accounts (H.httpAuthSetUser s n p k)).length = (H.accounts s).length := by
  obtain ⟨a, ha, rfl, _⟩ := (H.get_user s n old).mp known
  rw [(H.set_user_perm s a.name p k).length_eq, List.length_cons]
  have one : ((H.accounts s).filter (fun b => b.name ≠ a.name)).length + 1 =
      (H.accounts s).length := by
    have same : (H.accounts s).filter (fun b => b.name ≠ a.name) = (H.accounts s).erase a := by
      rw [(H.accounts_nodup s).erase_eq_filter]
      refine List.filter_congr fun b hb => ?_
      have : b.name ≠ a.name ↔ b ≠ a :=
        not_congr ⟨fun e => H.account_unique hb ha e, fun e => e ▸ rfl⟩
      by_cases h : b = a <;> simp [this, h]
    rw [same, List.length_erase_of_mem ha]
    have pos := List.length_pos_of_mem ha
    omega
  exact one

theorem set_user_length_fresh {s : H.Store} {n p : CString} {k : Int}
    (fresh : H.httpAuthGetUser s n = none) :
    (H.accounts (H.httpAuthSetUser s n p k)).length = (H.accounts s).length + 1 := by
  rw [(H.set_user_perm s n p k).length_eq, List.length_cons,
    List.filter_eq_self.mpr (by simpa using H.get_user_none.mp fresh)]

theorem del_user_length_le (s : H.Store) (n : CString) :
    (H.accounts (H.httpAuthDelUser s n)).length ≤ (H.accounts s).length :=
  (List.subperm_of_subset (H.accounts_nodup _)
    fun a ha => ((H.mem_del_user s n a).mp ha).1).length_le

end HttpAuth

/-! A store kept as a plain list satisfies the laws. -/

/-- Account lists without a repeated name. -/
abbrev PlainStore := { l : List Account // (l.map Account.name).Nodup }

namespace PlainStore

def getUser (s : PlainStore) (n : CString) : Option Int :=
  (s.val.find? (fun a => a.name = n)).map Account.privilege

def delUser (s : PlainStore) (n : CString) : PlainStore :=
  ⟨s.val.filter (fun a => a.name ≠ n), s.property.sublist (List.filter_sublist.map _)⟩

def setUser (s : PlainStore) (n p : CString) (k : Int) : PlainStore :=
  ⟨⟨n, p, k⟩ :: s.val.filter (fun a => a.name ≠ n), by
    rw [List.map_cons, List.nodup_cons]
    exact ⟨by simp [List.mem_map, List.mem_filter], (s.delUser n).property⟩⟩

theorem getUser_iff (s : PlainStore) (n : CString) (k : Int) :
    s.getUser n = some k ↔ ∃ a ∈ s.val, a.name = n ∧ a.privilege = k := by
  constructor
  · intro h
    obtain ⟨a, ha, hk⟩ := Option.map_eq_some_iff.mp h
    exact ⟨a, List.mem_of_find?_eq_some ha, by simpa using List.find?_some ha, hk⟩
  · rintro ⟨a, ha, rfl, rfl⟩
    cases found : s.val.find? (fun b => b.name = a.name) with
    | none => exact absurd (List.find?_eq_none.mp found a ha) (by simp)
    | some b =>
      have same : b = a := List.inj_on_of_nodup_map s.property
        (List.mem_of_find?_eq_some found) ha (by simpa using List.find?_some found)
      simp [getUser, found, same]

end PlainStore

def plainAuth : HttpAuth where
  Store := PlainStore
  accounts s := s.val
  httpAuthGetUser := PlainStore.getUser
  httpAuthSetUser := PlainStore.setUser
  httpAuthDelUser := PlainStore.delUser
  httpGetAuthUserList s i := (s.val.filter (fun a => a.privilege = i)).map Account.node
  httpMyStrncpy s n := s.take (n - 1)
  names_nodup s := s.property
  get_user := PlainStore.getUser_iff
  mem_set_user s n p k a := by simp [PlainStore.setUser, List.mem_filter]
  mem_del_user s n a := by simp [PlainStore.delUser, List.mem_filter]
  user_list _ _ _ _ := List.Perm.refl _
  strncpy_length s n pos := by
    rw [List.length_take]
    omega
  strncpy_short s n short := List.take_of_length_le (by omega)

end Rovio.Http
