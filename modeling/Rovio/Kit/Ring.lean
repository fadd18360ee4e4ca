import Mathlib.Logic.Function.Basic
import Mathlib.Data.List.Nodup

/-! Circular doubly linked lists in a memory of links. A ring is a head and the nodes that
follow it, read off the links in both directions; exchanging the predecessors of two nodes
joins two rings or splits one, and leaves every ring that has neither node. -/
namespace Kit

universe u
variable {A : Type u}

/-- The two links of every node. -/
structure Links (A : Type u) where
  pPrev : A → A
  pNext : A → A

/-- From `a` the links lead through the nodes in turn to `b`, and back. -/
def Path (m : Links A) (a : A) : List A → A → Prop
  | [], b => m.pNext a = b ∧ m.pPrev b = a
  | x :: l, b => m.pNext a = x ∧ m.pPrev x = a ∧ Path m x l b

def Ring (m : Links A) (head : A) (l : List A) : Prop :=
  Path m head l head ∧ (head :: l).Nodup

variable {m m' : Links A} {a b c head : A} {l r : List A}

theorem path_append {x : A} :
    Path m a (l ++ x :: r) b ↔ Path m a l x ∧ Path m x r b := by
  induction l generalizing a with
  | nil => simp only [List.nil_append, Path, and_assoc]
  | cons y l ih => simp only [List.cons_append, Path, ih, and_assoc]

theorem Path.prev_mem (path : Path m a l b) : m.pPrev b ∈ a :: l := by
  induction l generalizing a with
  | nil => exact path.2 ▸ List.mem_cons_self
  | cons x l ih => exact List.mem_cons_of_mem a (ih path.2.2)

theorem Path.next_mem (path : Path m a l b) : m.pNext a ∈ b :: l := by
  cases l with
  | nil => exact path.1 ▸ List.mem_cons_self
  | cons x l => exact path.1 ▸ List.mem_cons_of_mem b List.mem_cons_self

/-- A path reads the links of its own nodes only. -/
theorem Path.congr (path : Path m a l b) (next : ∀ y ∈ a :: l, m'.pNext y = m.pNext y)
    (prev : ∀ y ∈ b :: l, m'.pPrev y = m.pPrev y) : Path m' a l b := by
  induction l generalizing a with
  | nil =>
    exact ⟨(next a List.mem_cons_self).trans path.1, (prev b List.mem_cons_self).trans path.2⟩
  | cons x l ih =>
    refine ⟨(next a List.mem_cons_self).trans path.1, (prev x (by simp)).trans path.2.1, ?_⟩
    refine ih path.2.2 (fun y hy => next y (List.mem_cons_of_mem a hy)) fun y hy => prev y ?_
    rcases List.mem_cons.mp hy with rfl | hy
    · exact List.mem_cons_self
    · exact List.mem_cons_of_mem b (List.mem_cons_of_mem x hy)

/-- The last node of a path is given another successor. -/
theorem Path.redirect (path : Path m a l b) (nodup : (a :: l).Nodup)
    (next : ∀ y ∈ a :: l, y ≠ m.pPrev b → m'.pNext y = m.pNext y)
    (prev : ∀ y ∈ l, m'.pPrev y = m.pPrev y)
    (last : m'.pNext (m.pPrev b) = c) (back : m'.pPrev c = m.pPrev b) : Path m' a l c := by
  induction l generalizing a with
  | nil => exact ⟨path.2 ▸ last, path.2 ▸ back⟩
  | cons x l ih =>
    obtain ⟨here, link, rest⟩ := path
    obtain ⟨absent, nodup⟩ := List.nodup_cons.mp nodup
    have inner : a ≠ m.pPrev b := fun same => absent (same ▸ rest.prev_mem)
    refine ⟨(next a List.mem_cons_self inner).trans here,
      (prev x List.mem_cons_self).trans link, ?_⟩
    exact ih rest nodup (fun y hy => next y (List.mem_cons_of_mem a hy))
      fun y hy => prev y (List.mem_cons_of_mem x hy)

theorem ring_nil : Ring m a [] ↔ m.pNext a = a ∧ m.pPrev a = a :=
  and_iff_left (List.nodup_singleton a)

/-- The first node after the head, or the head itself where there is none. -/
theorem Ring.next (ring : Ring m head l) : m.pNext head = l.headD head := by
  cases l with
  | nil => exact ring.1.1
  | cons x l => exact ring.1.1

/-- The node behind one of a ring. -/
theorem Ring.next_at (ring : Ring m head (l ++ a :: r)) : m.pNext a = r.headD head := by
  obtain ⟨-, path⟩ := path_append.mp ring.1
  cases r with
  | nil => exact path.1
  | cons b r => exact path.1

theorem Ring.congr (ring : Ring m head l) (next : ∀ y ∈ head :: l, m'.pNext y = m.pNext y)
    (prev : ∀ y ∈ head :: l, m'.pPrev y = m.pPrev y) : Ring m' head l :=
  ⟨ring.1.congr next prev, ring.2⟩

theorem Ring.next_mem (ring : Ring m head l) {x : A} (hx : x ∈ l) : m.pNext x ∈ head :: l := by
  obtain ⟨left, right, rfl⟩ := List.append_of_mem hx
  have after := (path_append.mp ring.1).2.next_mem
  rcases List.mem_cons.mp after with same | inside
  · exact same ▸ List.mem_cons_self
  · exact List.mem_cons_of_mem head (List.mem_append_right left (List.mem_cons_of_mem x inside))

theorem Ring.prev_mem (ring : Ring m head l) {x : A} (hx : x ∈ l) : m.pPrev x ∈ head :: l := by
  obtain ⟨left, right, rfl⟩ := List.append_of_mem hx
  have before := (path_append.mp ring.1).1.prev_mem
  rcases List.mem_cons.mp before with same | inside
  · exact same ▸ List.mem_cons_self
  · exact List.mem_cons_of_mem head (List.mem_append_left (x :: right) inside)

theorem Ring.link (ring : Ring m head l) {x : A} (hx : x ∈ l) : m.pPrev (m.pNext x) = x := by
  obtain ⟨left, right, rfl⟩ := List.append_of_mem hx
  have after := (path_append.mp ring.1).2
  cases right with
  | nil => exact after.1 ▸ after.2
  | cons y right => exact after.1 ▸ after.2.1

variable [DecidableEq A]

/-- `a` and `b` exchange their predecessors. -/
def Links.connect (m : Links A) (a b : A) : Links A where
  pNext := Function.update (Function.update m.pNext (m.pPrev a) b) (m.pPrev b) a
  pPrev := Function.update (Function.update m.pPrev a (m.pPrev b)) b (m.pPrev a)

theorem connect_next {y : A} (left : y ≠ m.pPrev a) (right : y ≠ m.pPrev b) :
    (m.connect a b).pNext y = m.pNext y := by
  simp [Links.connect, left, right]

theorem connect_prev {y : A} (left : y ≠ a) (right : y ≠ b) :
    (m.connect a b).pPrev y = m.pPrev y := by
  simp [Links.connect, left, right]

theorem connect_comm (other : a ≠ b) (apart : m.pPrev a ≠ m.pPrev b) :
    m.connect a b = m.connect b a := by
  unfold Links.connect
  congr 1
  · exact Function.update_comm other ..
  · exact Function.update_comm apart ..

/-- A ring that has none of the nodes and none of their predecessors. -/
theorem Ring.frame (ring : Ring m head l) (left : a ∉ head :: l) (right : b ∉ head :: l)
    (before : m.pPrev a ∉ head :: l) (behind : m.pPrev b ∉ head :: l) :
    Ring (m.connect a b) head l :=
  ring.congr
    (fun _ hy => connect_next (fun same => before (same ▸ hy)) (fun same => behind (same ▸ hy)))
    (fun _ hy => connect_prev (fun same => left (same ▸ hy)) (fun same => right (same ▸ hy)))

/-- A node alone joins a ring at its end. -/
theorem Ring.attach (ring : Ring m head l) (alone : Ring m a []) (outside : a ∉ head :: l) :
    Ring (m.connect a head) head (l ++ [a]) := by
  obtain ⟨next, prev⟩ := ring_nil.mp alone
  obtain ⟨path, nodup⟩ := ring
  have last : m.pPrev head ≠ a := fun same => outside (same ▸ path.prev_mem)
  have other : a ≠ head := fun same => outside (same ▸ List.mem_cons_self)
  refine ⟨path_append.mpr ⟨?_, ?_⟩, ?_⟩
  · refine path.redirect nodup (fun y hy inner => ?_) (fun y hy => ?_) ?_ ?_
    · exact connect_next (fun same => outside (prev ▸ same ▸ hy)) inner
    · refine connect_prev (fun same => outside (same ▸ List.mem_cons_of_mem head hy)) ?_
      exact fun same => (List.nodup_cons.mp nodup).1 (same ▸ hy)
    · simp [Links.connect]
    · simp [Links.connect, other]
  · simp [Path, Links.connect, prev, last.symm]
  · rw [← List.cons_append]
    exact List.nodup_append.mpr ⟨nodup, List.nodup_singleton a,
      fun y hy z hz same => outside (List.mem_singleton.mp hz ▸ same ▸ hy)⟩

/-- The same with the head named first. -/
theorem Ring.attach_head (ring : Ring m head l) (alone : Ring m a []) (outside : a ∉ head :: l) :
    Ring (m.connect head a) head (l ++ [a]) := by
  have other : head ≠ a := fun same => outside (same ▸ List.mem_cons_self)
  have apart : m.pPrev head ≠ m.pPrev a := by
    rw [(ring_nil.mp alone).2]
    exact fun same => outside (same ▸ ring.1.prev_mem)
  exact connect_comm other apart ▸ ring.attach alone outside

/-- A node leaves its ring and is alone. -/
theorem Ring.detach (ring : Ring m head (l ++ a :: r)) :
    Ring (m.connect a (m.pNext a)) head (l ++ r) ∧ Ring (m.connect a (m.pNext a)) a [] := by
  obtain ⟨path, nodup⟩ := ring
  obtain ⟨before, after⟩ := path_append.mp path
  have parts : (head :: l).Nodup ∧ (a :: r).Nodup ∧ ∀ y ∈ head :: l, ∀ z ∈ a :: r, y ≠ z :=
    List.nodup_append.mp nodup
  obtain ⟨front, back, apart⟩ := parts
  have outside : ∀ y ∈ head :: l, y ≠ a := fun y hy => apart y hy a List.mem_cons_self
  have prev : m.pPrev a ≠ a := outside _ before.prev_mem
  have link : m.pPrev (m.pNext a) = a := Ring.link ⟨path, nodup⟩ (by simp)
  have next : m.pNext a ≠ a := fun same => prev (by rw [same] at link; exact link)
  have fresh : ∀ y ∈ l, y ≠ m.pNext a := by
    rintro y hy rfl
    rcases List.mem_cons.mp after.next_mem with same | inside
    · exact (List.nodup_cons.mp front).1 (same ▸ hy)
    · exact apart _ (List.mem_cons_of_mem head hy) _ (List.mem_cons_of_mem a inside) rfl
  have reach : Path (m.connect a (m.pNext a)) head l (m.pNext a) := by
    refine before.redirect front (fun y hy inner => ?_) (fun y hy => ?_) ?_ ?_
    · exact connect_next inner (link.symm ▸ outside y hy)
    · exact connect_prev (outside y (List.mem_cons_of_mem head hy)) (fresh y hy)
    · simp [Links.connect, link, prev]
    · simp [Links.connect]
  refine ⟨⟨?_, ?_⟩, ring_nil.mpr ⟨?_, ?_⟩⟩
  · cases r with
    | nil =>
      rw [List.append_nil]
      exact after.1 ▸ reach
    | cons x r =>
      obtain ⟨rfl, -, rest⟩ := after
      refine path_append.mpr ⟨reach, rest.congr (fun y hy => ?_) fun y hy => ?_⟩
      · refine connect_next (fun same => ?_) (link.symm ▸ fun same => ?_)
        · exact apart _ before.prev_mem _ (List.mem_cons_of_mem a hy) same.symm
        · exact (List.nodup_cons.mp back).1 (same ▸ hy)
      · rcases List.mem_cons.mp hy with rfl | hy
        · refine connect_prev (outside y List.mem_cons_self) fun same => ?_
          exact apart y List.mem_cons_self (m.pNext a) (by simp) same
        · refine connect_prev (fun same => ?_) fun same => ?_
          · exact (List.nodup_cons.mp back).1 (List.mem_cons_of_mem _ (same ▸ hy))
          · exact (List.nodup_cons.mp (List.nodup_cons.mp back).2).1 (same ▸ hy)
  · refine List.Sublist.nodup (List.cons_sublist_cons.mpr ?_) nodup
    exact List.Sublist.append_left (List.sublist_cons_self a r) l
  · simp [Links.connect, link]
  · simp [Links.connect, next.symm, link]

/-- A node is given links to itself. -/
def Links.init (m : Links A) (a : A) : Links A where
  pPrev := Function.update m.pPrev a a
  pNext := Function.update m.pNext a a

theorem init_alone (m : Links A) (a : A) : Ring (m.init a) a [] :=
  ring_nil.mpr ⟨Function.update_self .., Function.update_self ..⟩

theorem Ring.init (ring : Ring m head l) (outside : a ∉ head :: l) : Ring (m.init a) head l :=
  have other : ∀ y ∈ head :: l, y ≠ a := fun _ hy same => outside (same ▸ hy)
  ring.congr (fun _ hy => Function.update_of_ne (other _ hy) ..)
    fun _ hy => Function.update_of_ne (other _ hy) ..

/-! ### Rings side by side -/

/-- The heads have their rings, and no two of them share a node. -/
structure Rings (m : Links A) (heads : List A) (members : A → List A) : Prop where
  ring : ∀ h ∈ heads, Ring m h (members h)
  apart : ∀ h ∈ heads, ∀ k ∈ heads, h ≠ k → ∀ x ∈ h :: members h, x ∉ k :: members k

variable {heads : List A} {members : A → List A}

/-- The node is in none of the rings. -/
def Outside (heads : List A) (members : A → List A) (a : A) : Prop :=
  ∀ h ∈ heads, a ∉ h :: members h

omit [DecidableEq A] in
theorem Rings.sub {fewer : List A} (rings : Rings m heads members) (sub : fewer ⊆ heads) :
    Rings m fewer members :=
  ⟨fun h hh => rings.ring h (sub hh), fun h hh k hk => rings.apart h (sub hh) k (sub hk)⟩

theorem Rings.init (rings : Rings m heads members) (outside : Outside heads members a) :
    Rings (m.init a) heads members :=
  ⟨fun h hh => (rings.ring h hh).init (outside h hh), rings.apart⟩

/-- A new head, with an empty ring. -/
theorem Rings.empty (rings : Rings m heads members) (outside : Outside heads members a)
    (new : members a = []) : Rings (m.init a) (a :: heads) members := by
  have old := rings.init outside
  refine ⟨fun h hh => ?_, fun h hh k hk other x hx => ?_⟩
  · rcases List.mem_cons.mp hh with rfl | hh
    · exact new ▸ init_alone m h
    · exact old.ring h hh
  · rcases List.mem_cons.mp hh with rfl | first
    · rcases List.mem_cons.mp hk with rfl | second
      · exact absurd rfl other
      · obtain rfl := List.mem_singleton.mp (new ▸ hx)
        exact outside k second
    · rcases List.mem_cons.mp hk with rfl | second
      · rw [new]
        intro same
        obtain rfl := List.mem_singleton.mp same
        exact outside h first hx
      · exact old.apart h first k second other x hx

theorem Rings.attach (rings : Rings m heads members) (alone : Ring m a [])
    (outside : Outside heads members a) (inside : head ∈ heads) :
    Rings (m.connect a head) heads
      (Function.update members head (members head ++ [a])) := by
  obtain ⟨next, prev⟩ := ring_nil.mp alone
  have mine := rings.ring head inside
  refine ⟨fun h hh => ?_, fun h hh k hk other x hx => ?_⟩
  · by_cases same : h = head
    · subst same
      rw [Function.update_self]
      exact mine.attach alone (outside h hh)
    · have away := rings.apart head inside h hh (Ne.symm same)
      rw [Function.update_of_ne same]
      exact (rings.ring h hh).frame (outside h hh) (away head List.mem_cons_self)
        (prev.symm ▸ outside h hh) (away _ mine.1.prev_mem)
  · have split : ∀ h x, x ∈ h :: Function.update members head (members head ++ [a]) h →
        x ∈ h :: members h ∨ h = head ∧ x = a := by
      intro h x hx
      by_cases same : h = head
      · subst same
        rw [Function.update_self, ← List.cons_append] at hx
        rcases List.mem_append.mp hx with hx | hx
        · exact .inl hx
        · exact .inr ⟨rfl, List.mem_singleton.mp hx⟩
      · rw [Function.update_of_ne same] at hx
        exact .inl hx
    intro both
    rcases split h x hx with left | ⟨rfl, rfl⟩
    · rcases split k x both with right | ⟨rfl, rfl⟩
      · exact rings.apart h hh k hk other x left right
      · exact outside h hh left
    · rcases split k x both with right | ⟨rfl, -⟩
      · exact outside k hk right
      · exact other rfl

theorem Rings.detach (rings : Rings m heads members) (inside : head ∈ heads)
    (here : members head = l ++ a :: r) :
    Rings (m.connect a (m.pNext a)) heads (Function.update members head (l ++ r)) ∧
      Ring (m.connect a (m.pNext a)) a [] ∧
      Outside heads (Function.update members head (l ++ r)) a := by
  have mine := rings.ring head inside
  have inMine : a ∈ members head := by rw [here]; simp
  have sub : ∀ h x, x ∈ h :: Function.update members head (l ++ r) h → x ∈ h :: members h := by
    intro h x hx
    by_cases same : h = head
    · subst same
      rw [Function.update_self] at hx
      rw [here]
      refine List.Sublist.mem hx (List.cons_sublist_cons.mpr ?_)
      exact List.Sublist.append_left (List.sublist_cons_self a r) l
    · rwa [Function.update_of_ne same] at hx
  obtain ⟨rest, alone⟩ := Ring.detach (here ▸ mine)
  refine ⟨⟨fun h hh => ?_, fun h hh k hk other x hx both => ?_⟩, alone, fun h hh ha => ?_⟩
  · by_cases same : h = head
    · subst same
      rwa [Function.update_self]
    · have away := rings.apart head inside h hh (Ne.symm same)
      rw [Function.update_of_ne same]
      refine (rings.ring h hh).frame (away a (List.mem_cons_of_mem head inMine))
        (away _ (mine.next_mem inMine)) (away _ (mine.prev_mem inMine)) ?_
      exact (mine.link inMine).symm ▸ away a (List.mem_cons_of_mem head inMine)
  · exact rings.apart h hh k hk other x (sub h x hx) (sub k x both)
  · by_cases same : h = head
    · subst same
      rw [Function.update_self] at ha
      have nodup := mine.2
      rw [here, ← List.cons_append] at nodup
      have apart := (List.nodup_append.mp nodup)
      rw [← List.cons_append] at ha
      rcases List.mem_append.mp ha with left | right
      · exact apart.2.2 a left a List.mem_cons_self rfl
      · exact (List.nodup_cons.mp apart.2.1).1 right
    · rw [Function.update_of_ne same] at ha
      exact rings.apart head inside h hh (Ne.symm same) a (List.mem_cons_of_mem head inMine) ha

/-- The first node of a ring goes to the end of another one. -/
theorem Rings.move {source target : A} (rings : Rings m heads members) (inside : source ∈ heads)
    (goal : target ∈ heads) (here : members source = a :: r) :
    let rest := Function.update members source r
    Rings ((m.connect a (m.pNext a)).connect a target) heads
      (Function.update rest target (rest target ++ [a])) := by
  obtain ⟨rings, alone, outside⟩ := rings.detach (l := [])  inside here
  exact rings.attach alone outside goal

end Kit
