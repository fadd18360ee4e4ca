import Mathlib.Data.List.Basic
import Mathlib.Logic.Function.Basic

/-! Numbers that a system hands out to clients and takes back, and sets of numbers
that are kept in step with the clients' flags. A negative number stands for none. -/
namespace Kit

universe u
variable {Id : Type u}

/-- Who holds each number, and how often a number was given back by someone else. -/
structure Handles (Id : Type u) where
  owner : Int → Option Id
  stray : Nat

namespace Handles

def take (h : Handles Id) (c : Id) (n : Int) : Handles Id :=
  if 0 ≤ n then { h with owner := Function.update h.owner n (some c) } else h

def release [DecidableEq Id] (h : Handles Id) (c : Id) (n : Int) : Handles Id :=
  if h.owner n = some c then { h with owner := Function.update h.owner n none }
  else { h with stray := h.stray + 1 }

/-- The client holds this number and no other, or nothing where the number is negative. -/
def Sole (h : Handles Id) (c : Id) (n : Int) : Prop :=
  ∀ m, h.owner m = some c ↔ m = n ∧ 0 ≤ n

/-- Nothing but the numbers of one client changes hands. -/
structure Only (c : Id) (h h' : Handles Id) : Prop where
  others : ∀ d, d ≠ c → ∀ m, h'.owner m = some d ↔ h.owner m = some d
  stray : h'.stray = h.stray

/-- The choice of a number that nobody holds, or of none. -/
def Alloc (Id : Type u) : Type u :=
  { pick : (Int → Option Id) → Int // ∀ owner, pick owner = -1 ∨ 0 ≤ pick owner ∧
    owner (pick owner) = none }

variable {h h' : Handles Id} {c d : Id} {n : Int}

theorem Only.refl (c : Id) (h : Handles Id) : Only c h h := ⟨fun _ _ _ => Iff.rfl, rfl⟩

theorem Only.trans {h'' : Handles Id} (first : Only c h h') (second : Only c h' h'') :
    Only c h h'' :=
  ⟨fun d other m => (second.others d other m).trans (first.others d other m),
    second.stray.trans first.stray⟩

theorem Only.sole (only : Only c h h') (other : d ≠ c) (sole : Sole h d n) : Sole h' d n :=
  fun m => (only.others d other m).trans (sole m)

theorem release_sole [DecidableEq Id] (sole : Sole h c n) (real : 0 ≤ n) :
    Sole (h.release c n) c (-1) ∧ Only c h (h.release c n) := by
  have held : h.owner n = some c := (sole n).mpr ⟨rfl, real⟩
  unfold release
  rw [if_pos held]
  refine ⟨fun m => ?_, fun d other m => ?_, rfl⟩
  · by_cases same : m = n
    · subst same
      simp
    · simp [sole m, same]
  · by_cases same : m = n
    · subst same
      simp [held, Ne.symm other]
    · simp [Function.update_of_ne same]

theorem take_sole (alloc : Alloc Id) (sole : Sole h c (-1)) :
    Sole (h.take c (alloc.1 h.owner)) c (alloc.1 h.owner) ∧
      Only c h (h.take c (alloc.1 h.owner)) := by
  rcases alloc.2 h.owner with none | ⟨real, free⟩
  · rw [none]
    exact ⟨sole, .refl c h⟩
  · unfold take
    rw [if_pos real]
    refine ⟨fun m => ?_, fun d other m => ?_, rfl⟩
    · by_cases same : m = alloc.1 h.owner
      · subst same
        simp [real]
      · have not := (sole m).not.mpr (by omega)
        simp [not, same]
    · by_cases same : m = alloc.1 h.owner
      · subst same
        simp [free, Ne.symm other]
      · simp [Function.update_of_ne same]

end Handles

/-! ### Sets of numbers -/

/-- The set has just the numbers of the flagged clients. -/
def Marks (set : Int → Bool) (list : List Id) (num : Id → Int) (flag : Id → Bool) : Prop :=
  ∀ n, set n = true ↔ ∃ c ∈ list, num c = n ∧ 0 ≤ n ∧ flag c = true

def Distinct (list : List Id) (num : Id → Int) : Prop :=
  ∀ c ∈ list, ∀ d ∈ list, num c = num d → 0 ≤ num c → c = d

namespace Marks

variable {set : Int → Bool} {list : List Id} {num num' : Id → Int} {flag flag' : Id → Bool}
  {c : Id}

/-- The set depends on the flagged clients with a number only. -/
theorem congr (marks : Marks set list num flag) {list' : List Id}
    (same : ∀ d, 0 ≤ num d ∨ 0 ≤ num' d → (d ∈ list ∧ flag d = true ↔ d ∈ list' ∧ flag' d = true))
    (numbers : ∀ d ∈ list, num' d = num d) (numbers' : ∀ d ∈ list', num' d = num d) :
    Marks set list' num' flag' := by
  intro n
  rw [marks n]
  constructor
  · rintro ⟨d, mem, rfl, real, on⟩
    obtain ⟨mem', on'⟩ := (same d (.inl real)).mp ⟨mem, on⟩
    exact ⟨d, mem', numbers d mem, real, on'⟩
  · rintro ⟨d, mem, rfl, real, on⟩
    obtain ⟨mem', on'⟩ := (same d (.inr real)).mpr ⟨mem, on⟩
    exact ⟨d, mem', (numbers' d mem).symm, real, on'⟩

/-- A client leaves, and its number with it. -/
theorem erase [DecidableEq Id] (marks : Marks set list num flag) (distinct : Distinct list num)
    (nodup : list.Nodup) (mem : c ∈ list) :
    Marks (if flag c then Function.update set (num c) false else set) (list.erase c) num flag := by
  intro n
  have left (d : Id) : d ∈ list.erase c ↔ d ≠ c ∧ d ∈ list := nodup.mem_erase_iff
  cases on : flag c with
  | false =>
    simp only [Bool.false_eq_true, if_false]
    rw [marks n]
    constructor
    · rintro ⟨d, there, at_n, real, set⟩
      have other : d ≠ c := by
        rintro rfl
        rw [on] at set
        cases set
      exact ⟨d, (left d).mpr ⟨other, there⟩, at_n, real, set⟩
    · rintro ⟨d, there, rest⟩
      exact ⟨d, ((left d).mp there).2, rest⟩
  | true =>
    simp only [if_true]
    by_cases same : n = num c
    · subst same
      rw [Function.update_self]
      constructor
      · intro none
        cases none
      · rintro ⟨d, there, at_n, real, _⟩
        obtain ⟨other, there⟩ := (left d).mp there
        exact absurd (distinct d there c mem at_n (at_n ▸ real)) other
    · rw [Function.update_of_ne same, marks n]
      constructor
      · rintro ⟨d, there, at_n, rest⟩
        have other : d ≠ c := by
          rintro rfl
          exact same at_n.symm
        exact ⟨d, (left d).mpr ⟨other, there⟩, at_n, rest⟩
      · rintro ⟨d, there, rest⟩
        exact ⟨d, ((left d).mp there).2, rest⟩

/-- The set after a flagged client has changed its number. -/
def moved (set : Int → Bool) (old new : Int) : Int → Bool :=
  let cleared := if 0 ≤ old then Function.update set old false else set
  if 0 ≤ new then Function.update cleared new true else cleared

/-- A client changes its number; the others keep theirs. -/
theorem move (marks : Marks set list num flag) (distinct : Distinct list num)
    (mem : c ∈ list)
    (others : ∀ d, d ≠ c → num' d = num d) :
    Marks (if flag c then moved set (num c) (num' c) else set) list num' flag := by
  intro n
  have elsewhere (d : Id) (other : d ≠ c) : num' d = num d := others d other
  cases on : flag c with
  | false =>
    simp only [Bool.false_eq_true, if_false]
    rw [marks n]
    have other (d : Id) (set : flag d = true) : d ≠ c := by
      rintro rfl
      rw [on] at set
      cases set
    constructor
    · rintro ⟨d, there, at_n, real, set⟩
      exact ⟨d, there, (elsewhere d (other d set)).trans at_n, real, set⟩
    · rintro ⟨d, there, at_n, real, set⟩
      exact ⟨d, there, (elsewhere d (other d set)).symm.trans at_n, real, set⟩
  | true =>
    simp only [if_true, moved]
    by_cases new : n = num' c ∧ 0 ≤ n
    · obtain ⟨rfl, real⟩ := new
      rw [if_pos real, Function.update_self]
      exact iff_of_true rfl ⟨c, mem, rfl, real, on⟩
    · have step : (if 0 ≤ num' c then Function.update
          (if 0 ≤ num c then Function.update set (num c) false else set) (num' c) true
          else if 0 ≤ num c then Function.update set (num c) false else set) n =
          (if 0 ≤ num c then Function.update set (num c) false else set) n := by
        split
        · rename_i real
          have differs : n ≠ num' c := by
            rintro rfl
            exact new ⟨rfl, real⟩
          rw [Function.update_of_ne differs]
        · rfl
      rw [step]
      by_cases old : n = num c ∧ 0 ≤ n
      · obtain ⟨rfl, real⟩ := old
        rw [if_pos real, Function.update_self]
        constructor
        · intro none
          cases none
        · rintro ⟨d, there, at_n, _, _⟩
          by_cases self : d = c
          · subst self
            exact absurd ⟨at_n.symm, real⟩ new
          · rw [elsewhere d self] at at_n
            exact absurd (distinct d there c mem at_n (at_n ▸ real)) self
      · have kept : (if 0 ≤ num c then Function.update set (num c) false else set) n = set n := by
          split
          · rename_i real
            have differs : n ≠ num c := by
              rintro rfl
              exact old ⟨rfl, real⟩
            rw [Function.update_of_ne differs]
          · rfl
        rw [kept, marks n]
        constructor
        · rintro ⟨d, there, at_n, real, set⟩
          have self : d ≠ c := by
            rintro rfl
            exact old ⟨at_n.symm, real⟩
          exact ⟨d, there, (elsewhere d self).trans at_n, real, set⟩
        · rintro ⟨d, there, at_n, real, set⟩
          have self : d ≠ c := by
            rintro rfl
            exact new ⟨at_n.symm, real⟩
          exact ⟨d, there, (elsewhere d self).symm.trans at_n, real, set⟩

/-- The set brought up to date before it is used: what is wanted and not in it is put in, what is
in it and no longer wanted is taken out. -/
def settle (num : Id → Int) (marked want : Id → Bool) (set : Int → Bool) (c : Id) : Int → Bool :=
  if num c < 0 then set
  else if want c then if marked c then set else Function.update set (num c) true
  else if marked c then Function.update set (num c) false
  else set

/-- In the middle of the loop: of the clients passed the wanted ones, of the others the marked. -/
def Midway (set : Int → Bool) (passed rest : List Id) (num : Id → Int) (marked want : Id → Bool) :
    Prop :=
  ∀ n, set n = true ↔
    ∃ c, num c = n ∧ 0 ≤ n ∧ ((c ∈ passed ∧ want c = true) ∨ (c ∈ rest ∧ marked c = true))

theorem settle_step {passed rest : List Id} {marked want : Id → Bool}
    (midway : Midway set passed (c :: rest) num marked want)
    (distinct : Distinct (passed ++ c :: rest) num) (nodup : (passed ++ c :: rest).Nodup) :
    Midway (settle num marked want set c) (passed ++ [c]) rest num marked want := by
  have self (d : Id) (mem : d ∈ passed ∨ d ∈ rest) : d ≠ c := by
    rintro rfl
    simp only [List.nodup_append, List.nodup_cons, List.mem_cons] at nodup
    rcases mem with before | after
    · exact nodup.2.2 d before d (.inl rfl) rfl
    · exact nodup.2.1.1 after
  have apart (d : Id) (mem : d ∈ passed ∨ d ∈ rest) (at_c : num d = num c) (real : 0 ≤ num c) :
      False := by
    have there : d ∈ passed ++ c :: rest := by
      simp only [List.mem_append, List.mem_cons]
      tauto
    exact self d mem (distinct d there c (by simp) at_c (at_c ▸ real))
  intro n
  by_cases here : n = num c ∧ 0 ≤ n
  · obtain ⟨rfl, real⟩ := here
    have value : settle num marked want set c (num c) = want c := by
      have before : set (num c) = marked c := by
        rw [Bool.eq_iff_iff, midway]
        constructor
        · rintro ⟨d, at_c, _, ⟨mem, _⟩ | ⟨mem, on⟩⟩
          · exact (apart d (.inl mem) at_c real).elim
          · rcases List.mem_cons.mp mem with rfl | mem
            · exact on
            · exact (apart d (.inr mem) at_c real).elim
        · intro on
          exact ⟨c, rfl, real, .inr ⟨List.mem_cons_self, on⟩⟩
      unfold settle
      rw [if_neg (by omega)]
      cases wanted : want c <;> cases on : marked c <;> simp [before, on]
    rw [value]
    constructor
    · intro wanted
      exact ⟨c, rfl, real, .inl ⟨by simp, wanted⟩⟩
    · rintro ⟨d, at_c, _, ⟨mem, wanted⟩ | ⟨mem, _⟩⟩
      · rcases List.mem_append.mp mem with before | last
        · exact (apart d (.inl before) at_c real).elim
        · rw [List.mem_singleton.mp last] at wanted
          exact wanted
      · exact (apart d (.inr mem) at_c real).elim
  · have value : settle num marked want set c n = set n := by
      unfold settle
      split
      · rfl
      · rename_i negative
        have differs : n ≠ num c := by
          rintro rfl
          exact here ⟨rfl, by omega⟩
        split <;> split <;> simp [Function.update_of_ne differs]
    rw [value, midway n]
    constructor
    · rintro ⟨d, at_n, real, ⟨mem, wanted⟩ | ⟨mem, on⟩⟩
      · exact ⟨d, at_n, real, .inl ⟨by simp [mem], wanted⟩⟩
      · rcases List.mem_cons.mp mem with rfl | mem
        · exact absurd ⟨at_n.symm, real⟩ here
        · exact ⟨d, at_n, real, .inr ⟨mem, on⟩⟩
    · rintro ⟨d, at_n, real, ⟨mem, wanted⟩ | ⟨mem, on⟩⟩
      · rcases List.mem_append.mp mem with before | last
        · exact ⟨d, at_n, real, .inl ⟨before, wanted⟩⟩
        · obtain rfl := List.mem_singleton.mp last
          exact absurd ⟨at_n.symm, real⟩ here
      · exact ⟨d, at_n, real, .inr ⟨List.mem_cons_of_mem _ mem, on⟩⟩

/-- After the loop the set has the numbers of those that want it. -/
theorem settled {passed rest : List Id} {marked want : Id → Bool}
    (midway : Midway set passed rest num marked want) (distinct : Distinct (passed ++ rest) num)
    (nodup : (passed ++ rest).Nodup) :
    Marks (rest.foldl (settle num marked want) set) (passed ++ rest) num want := by
  induction rest generalizing passed set with
  | nil =>
    intro n
    rw [List.foldl_nil, midway n]
    simp only [List.append_nil, List.not_mem_nil, false_and, or_false]
    constructor
    · rintro ⟨c, at_n, real, mem, wanted⟩
      exact ⟨c, mem, at_n, real, wanted⟩
    · rintro ⟨c, mem, at_n, real, wanted⟩
      exact ⟨c, at_n, real, mem, wanted⟩
  | cons c rest ih =>
    have next := settle_step midway distinct nodup
    rw [List.append_cons] at distinct nodup
    have rest := ih next distinct nodup
    rwa [← List.append_cons] at rest

theorem foldl_settle {marked want : Id → Bool} (marks : Marks set list num marked)
    (distinct : Distinct list num) (nodup : list.Nodup) :
    Marks (list.foldl (settle num marked want) set) list num want := by
  have start : Midway set [] list num marked want := by
    intro n
    rw [marks n]
    simp only [List.not_mem_nil, false_and, false_or]
    constructor
    · rintro ⟨c, mem, at_n, real, on⟩
      exact ⟨c, at_n, real, mem, on⟩
    · rintro ⟨c, at_n, real, mem, on⟩
      exact ⟨c, mem, at_n, real, on⟩
  exact settled start distinct nodup

/-- What is left of the set after a query, where each client is marked by the answer. -/
theorem answered {marked want : Id → Bool} (marks : Marks set list num want)
    (ready : Int → Bool) (marked_iff : ∀ c ∈ list, 0 ≤ num c →
      marked c = (want c && (set (num c) && ready (num c)))) :
    Marks (fun n => set n && ready n) list num marked := by
  intro n
  rw [Bool.and_eq_true, marks n]
  constructor
  · rintro ⟨⟨c, mem, rfl, real, wanted⟩, on⟩
    refine ⟨c, mem, rfl, real, ?_⟩
    rw [marked_iff c mem real, wanted, (marks (num c)).mpr ⟨c, mem, rfl, real, wanted⟩, on]
    rfl
  · rintro ⟨c, mem, rfl, real, on⟩
    rw [marked_iff c mem real, Bool.and_eq_true, Bool.and_eq_true] at on
    exact ⟨⟨c, mem, rfl, real, on.1⟩, on.2.2⟩

end Marks

end Kit
