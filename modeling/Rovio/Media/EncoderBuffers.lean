import Rovio.Media.Encoder

/-! Where the buffers of the encoder are, and which frames they hold. -/
namespace Rovio.Media.Encoder
open Kit

/-! ### The places of a buffer -/

def slot (o : Option Nat) (b : Nat) : Nat := if o = some b then 1 else 0

/-- Readers with so many references to a buffer are one place. -/
def readers (held : Nat) : Nat := if held = 0 then 0 else 1

@[simp] theorem readers_zero : readers 0 = 0 := rfl

@[simp] theorem readers_succ (n : Nat) : readers (n + 1) = 1 := if_neg (Nat.succ_ne_zero n)

/-- How many places a buffer is in, besides the free list: encoded into, held back, queued, or with
the readers. -/
def System.places (s : System) (b : Nat) : Nat :=
  slot s.encoding0 b + slot s.previous1 b + s.listBitstream.count b + readers (s.held b)

def System.refs (s : System) (b : Nat) : Nat :=
  slot s.encoding0 b + slot s.previous1 b + s.listBitstream.count b + s.held b

/-- The token, the buffer that is encoded into and the hardware, for each place of the thread with
the lock. -/
def System.Stage (s : System) : Prop :=
  match s.vmp4Lock with
  | none | some .locked =>
    s.encoding0 = none ∧ s.pcEncFlag = ⟨1, 0⟩ ∧ s.encoding = false
  | some .waiting =>
    (s.encoding0 = none ∧ s.pcEncFlag = ⟨1, 0⟩ ∧ s.encoding = false) ∨
      ∃ b, s.encoding0 = some b ∧ s.pcEncFlag = ⟨0, 1⟩
  | some (.looked _) =>
    s.encoding0 = none ∧ s.pcEncFlag = ⟨0, 0⟩ ∧ s.encoding = false

/-- The frames that have not got to the readers yet. -/
def System.ahead (s : System) : List Frame :=
  framesOf s.buffers s.listBitstream ++ framesOf s.buffers s.previous1.toList

def System.deliveredFrames (s : System) : List Frame := s.delivered.filterMap Bitstream.frame

/-- The indexes of one session in the order of encoding. -/
def indexes (encoded : List Frame) (session : Nat) : List Nat :=
  (encoded.filter (·.session = session)).map Frame.nIndex

/-- What the buffers and the history say of each other: a buffer has the index of its frame; the
frames come to the readers in their order; each is delivered, ahead, or has been dropped; the
indexes of a session count up. -/
structure System.Told (s : System) : Prop where
  index : ∀ b f, (s.buffers b).frame = some f → (s.buffers b).nIndex = f.nIndex
  delivered : ∀ x ∈ s.delivered, ∀ f, x.frame = some f → x.nIndex = f.nIndex
  order : (s.deliveredFrames ++ s.ahead).Sublist s.encoded
  once : s.encoded.Perm (s.deliveredFrames ++ s.ahead ++ (s.cleared ++ s.evicted))
  current : indexes s.encoded s.session = List.range s.nEncodeIndex
  past : ∀ session, ∃ n, indexes s.encoded session = List.range n
  later : ∀ session, s.session < session → indexes s.encoded session = []

structure Sound (count : Nat) (s : System) : Prop where
  blocks : s.pool.Counts count s.places s.refs
  stage : s.Stage
  told : s.Told

section
variable {s s' : System} {b c count : Nat} {list rest : List Nat} {buffers : Nat → Bitstream}
  {x : Bitstream} {pool : Pool}

@[simp] theorem slot_none : slot none b = 0 := rfl

@[simp] theorem slot_self : slot (some b) b = 1 := if_pos rfl

theorem slot_other (other : c ≠ b) : slot (some b) c = 0 :=
  if_neg fun same => other (Option.some.inj same).symm

theorem count_concat (list : List Nat) (b c : Nat) :
    (list ++ [b]).count c = list.count c + slot (some b) c := by
  rw [List.count_append, List.count_singleton]
  simp only [slot, beq_iff_eq, Option.some.injEq]

theorem places_refs (s : System) (b : Nat) : s.refs b = 0 ↔ s.places b = 0 := by
  unfold System.refs System.places
  cases s.held b with
  | zero => simp only [readers_zero]
  | succ n =>
    rw [readers_succ]
    omega

theorem framesOf_append (buffers : Nat → Bitstream) (list rest : List Nat) :
    framesOf buffers (list ++ rest) = framesOf buffers list ++ framesOf buffers rest :=
  List.filterMap_append

/-- The buffer that changes is not on the list. -/
theorem framesOf_elsewhere (off : b ∉ list) :
    framesOf (Function.update buffers b x) list = framesOf buffers list := by
  apply List.filterMap_congr
  intro c mem
  rw [Function.update_of_ne]
  rintro rfl
  exact off mem

/-- The buffer keeps its frame. -/
theorem framesOf_keeps (same : x.frame = (buffers b).frame) (list : List Nat) :
    framesOf (Function.update buffers b x) list = framesOf buffers list := by
  apply List.filterMap_congr
  intro c _
  rcases eq_or_ne c b with rfl | other
  · rw [Function.update_self, same]
  · rw [Function.update_of_ne other]

theorem toList_off (slotted : slot s.previous1 b = 0) : b ∉ s.previous1.toList := by
  intro mem
  rw [Option.mem_toList.mp mem, slot_self] at slotted
  cases slotted

theorem counts_taken {places refs : Nat → Nat} {pool' : Pool}
    (counts : pool.Counts count places refs) (new : pool.new = some (b, pool')) :
    pool'.Counts count (fun c => places c + slot (some b) c) (fun c => refs c + slot (some b) c) :=
  counts.new new (by rw [slot_self]) (by rw [slot_self])
    (fun c other => by
      rw [slot_other other]
      exact ⟨rfl, rfl⟩)

/-- One reference and the place that goes with it are given up. -/
theorem counts_released {places refs : Nat → Nat} {pool' : Pool}
    (counts : pool.Counts count (fun c => places c + slot (some b) c)
      (fun c => refs c + slot (some b) c))
    (both : ∀ b, refs b = 0 ↔ places b = 0) (decRef : pool.decRef b = some pool') :
    pool'.Counts count places refs := by
  have own : slot (some b) b = 1 := slot_self
  have bound := counts.le_one b
  have unplaced : places b = 0 := by omega
  have unheld := (both b).mpr unplaced
  have others (c : Nat) (other : c ≠ b) : places c = places c + slot (some b) c ∧
      refs c = refs c + slot (some b) c := by
    rw [slot_other other]
    exact ⟨rfl, rfl⟩
  have last : refs b + slot (some b) b = 1 := by omega
  have place : places b + slot (some b) b = places b + 1 := by omega
  obtain ⟨pool'', decRef', _, counts'⟩ := counts.decRef last place unheld others
  rw [decRef] at decRef'
  cases decRef'
  exact counts'

theorem counts_released_all {places refs : Nat → Nat} {pool' : Pool}
    (counts : pool.Counts count (fun b => places b + list.count b) (fun b => refs b + list.count b))
    (both : ∀ b, refs b = 0 ↔ places b = 0) (decRef : decRefAll pool list = some pool') :
    pool'.Counts count places refs := by
  induction list generalizing pool with
  | nil =>
    cases decRef
    exact counts
  | cons b rest ih =>
    simp only [decRefAll, Option.bind_eq_bind, Option.bind_eq_some_iff] at decRef
    obtain ⟨mid, first, decRef⟩ := decRef
    have split (c : Nat) : (b :: rest).count c = rest.count c + slot (some b) c := by
      rw [List.count_cons]
      simp only [slot, beq_iff_eq, Option.some.injEq]
    simp only [split, ← Nat.add_assoc] at counts
    have apart (c : Nat) : refs c + rest.count c = 0 ↔ places c + rest.count c = 0 := by
      have here := both c
      omega
    exact ih (counts_released counts apart first) decRef

end

end Rovio.Media.Encoder
