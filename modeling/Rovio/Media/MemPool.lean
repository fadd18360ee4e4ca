import Rovio.Kit.Ring
import Rovio.Kit.Simulation
import Rovio.Media.Pool

/-! `memory_pool.h`: a pool in a buffer, its free blocks a ring of links behind a header. To clients
that add references only to what is referenced it is the list of free blocks of `Pool`. -/
namespace Rovio.Media

open Kit

/-! ### The code -/

def MEM_ALIGN_SIZE (size : Nat) : Nat := (size + 32 - 1) / 32 * 32

/-- The buffer of a pool, `sizeof (TYPE_T)`, and where its `list` is. A `LIST_T` is two pointers. -/
structure Layout where
  pBuffer : Nat
  szEach : Nat
  szListOffset : Nat

def MEMORYPOOL_SIZE (struct_size count : Nat) : Nat :=
  MEM_ALIGN_SIZE 8 + MEM_ALIGN_SIZE struct_size * count

/-- The links at each address, and the `ref_count` of the block at each address. -/
structure Memory where
  links : Links Nat
  ref_count : Nat → Nat

variable (L : Layout)

/-- The loop of `__memInit`; a block is never empty. -/
def memInitFrom (szBuffer szEach i : Nat) (m : Links Nat) : Links Nat :=
  if 0 < szEach ∧ i + szEach ≤ szBuffer then
    let pListThis := L.pBuffer + i + L.szListOffset
    memInitFrom szBuffer szEach (i + szEach) ((m.init pListThis).connect L.pBuffer pListThis)
  else m
termination_by szBuffer - i
decreasing_by omega

/-- None for a buffer without room for the header. -/
def memInit (szBuffer : Nat) (m : Links Nat) : Option (Links Nat) :=
  if szBuffer < 8 then none
  else
    some (memInitFrom L szBuffer (MEM_ALIGN_SIZE L.szEach) (MEM_ALIGN_SIZE 8) (m.init L.pBuffer))

def memNew (head : Nat) (m : Links Nat) : Option Nat × Links Nat :=
  if m.pNext head = head then (none, m)
  else (some (m.pNext head), m.connect (m.pNext head) (m.pNext (m.pNext head)))

def memDel (head pListThis : Nat) (m : Links Nat) : Links Nat := m.connect head pListThis

/-- The loop of `listGetAt` from a node on. -/
def listGetFrom (m : Links Nat) (head : Nat) : Nat → Nat → Int → Option (Option Nat)
  | 0, _, _ => none
  | fuel + 1, pNode, nIndex =>
    if pNode = head then some none
    else if nIndex = 0 then some (some pNode)
    else listGetFrom m head fuel (m.pNext pNode) (nIndex - 1)

def listGetAt (m : Links Nat) (fuel head : Nat) (nIndex : Int) : Option (Option Nat) :=
  if nIndex < 0 then some none else listGetFrom m head fuel (m.pNext head) nIndex

def listLengthFrom (m : Links Nat) (head : Nat) : Nat → Nat → Nat → Option Nat
  | 0, _, _ => none
  | fuel + 1, pNode, i =>
    if pNode = head then some i else listLengthFrom m head fuel (m.pNext pNode) (i + 1)

def listLength (m : Links Nat) (fuel head : Nat) : Option Nat :=
  listLengthFrom m head fuel (m.pNext head) 0

/-- `GetParentAddr`. -/
def Layout.parent (pList : Nat) : Nat := pList - L.szListOffset

def Memory.new (mem : Memory) : Option Nat × Memory :=
  match memNew L.pBuffer mem.links with
  | (none, links) => (none, { mem with links })
  | (some pList, links) =>
    (some (L.parent pList), ⟨links, Function.update mem.ref_count (L.parent pList) 1⟩)

def Memory.addRef (mem : Memory) (pMemory : Option Nat) : Memory :=
  match pMemory with
  | none => mem
  | some p => { mem with ref_count := Function.update mem.ref_count p (mem.ref_count p + 1) }

/-- A block without references stops the program. -/
def Memory.decRef (mem : Memory) (pMemory : Option Nat) : Option Memory :=
  match pMemory with
  | none => some mem
  | some p =>
    if mem.ref_count p ≤ 0 then none
    else
      let mem := { mem with ref_count := Function.update mem.ref_count p (mem.ref_count p - 1) }
      if mem.ref_count p = 0 then
        some { mem with links := memDel L.pBuffer (p + L.szListOffset) mem.links }
      else some mem

def Memory.shift (mem : Memory) : Option Nat × Memory :=
  match memNew L.pBuffer mem.links with
  | (none, links) => (none, { mem with links })
  | (some pList, links) =>
    (some (L.parent pList), { mem with links := memDel L.pBuffer pList links })

inductive PoolCall
  | New
  | AddRef (pMemory : Option Nat)
  | DecRef (pMemory : Option Nat)
  | Shift
  | GetMemory (nIndex : Int)
  | GetFreeBlocksNum

/-- What a call returns: a block or NULL, a number, or nothing. -/
inductive Answer
  | block (p : Option Nat)
  | number (n : Nat)
  | done

/-- None when the program stops, or a loop does not end in so many rounds. -/
def Memory.call (fuel : Nat) (mem : Memory) : PoolCall → Option (Answer × Memory)
  | .New => some (.block (mem.new L).1, (mem.new L).2)
  | .AddRef p => some (.done, mem.addRef p)
  | .DecRef p => (mem.decRef L p).map fun mem => (.done, mem)
  | .Shift => some (.block (mem.shift L).1, (mem.shift L).2)
  | .GetMemory nIndex =>
    (listGetAt mem.links fuel L.pBuffer nIndex).map fun pList => (.block (pList.map L.parent), mem)
  | .GetFreeBlocksNum => (listLength mem.links fuel L.pBuffer).map fun n => (.number n, mem)

/-! ### The pool it stands for -/

def Pool.shift (pool : Pool) : Option Nat × Pool :=
  match pool.free with
  | [] => (none, pool)
  | b :: free => (some b, { pool with free := free ++ [b] })

/-- Blocks are numbers here. -/
def Pool.call (pool : Pool) : PoolCall → Option (Answer × Pool)
  | .New =>
    match pool.new with
    | none => some (.block none, pool)
    | some (b, pool) => some (.block (some b), pool)
  | .AddRef none => some (.done, pool)
  | .AddRef (some b) => some (.done, pool.addRef b)
  | .DecRef none => some (.done, pool)
  | .DecRef (some b) => (pool.decRef b).map fun pool => (.done, pool)
  | .Shift => some (.block pool.shift.1, pool.shift.2)
  | .GetMemory nIndex => some (.block (if nIndex < 0 then none else pool.free[nIndex.toNat]?), pool)
  | .GetFreeBlocksNum => some (.number pool.free.length, pool)

/-! ### Blocks and their links -/

/-- Where block `k` is, and where its links are. -/
def Layout.block (k : Nat) : Nat := L.pBuffer + MEM_ALIGN_SIZE 8 + k * MEM_ALIGN_SIZE L.szEach

def Layout.node (k : Nat) : Nat := L.block k + L.szListOffset

variable {L} {m : Links Nat} {mem : Memory} {pool : Pool} {count fuel k : Nat}

/-- The links of a block are inside it. -/
def Layout.Fits (L : Layout) : Prop := L.szListOffset + 8 ≤ L.szEach

theorem le_align (size : Nat) : size ≤ MEM_ALIGN_SIZE size := by
  unfold MEM_ALIGN_SIZE
  omega

theorem Layout.Fits.each_pos (fits : L.Fits) : 0 < MEM_ALIGN_SIZE L.szEach := by
  have below := le_align L.szEach
  unfold Layout.Fits at fits
  omega

@[simp] theorem parent_node (k : Nat) : L.parent (L.node k) = L.block k :=
  Nat.add_sub_cancel ..

theorem Layout.Fits.block_injective (fits : L.Fits) : Function.Injective L.block := by
  intro i j same
  exact Nat.eq_of_mul_eq_mul_right fits.each_pos (Nat.add_left_cancel same)

theorem Layout.Fits.node_injective (fits : L.Fits) : Function.Injective L.node := by
  intro i j same
  exact fits.block_injective (Nat.add_right_cancel same)

theorem node_ne_head (k : Nat) : L.node k ≠ L.pBuffer := by
  have room : 0 < MEM_ALIGN_SIZE 8 := by decide
  unfold Layout.node Layout.block
  omega

theorem head_not_mem (free : List Nat) : L.pBuffer ∉ free.map L.node := by
  intro inside
  obtain ⟨k, -, same⟩ := List.mem_map.mp inside
  exact node_ne_head k same

theorem Layout.Fits.node_mem (fits : L.Fits) {free : List Nat} :
    L.node k ∈ L.pBuffer :: free.map L.node ↔ k ∈ free := by
  rw [List.mem_cons, List.mem_map_of_injective fits.node_injective]
  exact or_iff_right (node_ne_head k)

/-! ### What the loops find -/

/-- The blocks go behind the header in the order of their addresses. -/
theorem Layout.Fits.ring_from (fits : L.Fits) (left n : Nat)
    (ring : Ring m L.pBuffer ((List.range n).map L.node)) :
    Ring (memInitFrom L (MEMORYPOOL_SIZE L.szEach (n + left)) (MEM_ALIGN_SIZE L.szEach)
      (MEM_ALIGN_SIZE 8 + n * MEM_ALIGN_SIZE L.szEach) m) L.pBuffer
      ((List.range (n + left)).map L.node) := by
  induction left generalizing n m with
  | zero =>
    rw [memInitFrom, if_neg]
    · exact ring
    · rintro ⟨positive, room⟩
      rw [MEMORYPOOL_SIZE, Nat.add_zero, Nat.mul_comm n] at room
      omega
  | succ left ih =>
    have room : MEM_ALIGN_SIZE 8 + n * MEM_ALIGN_SIZE L.szEach + MEM_ALIGN_SIZE L.szEach ≤
        MEMORYPOOL_SIZE L.szEach (n + (left + 1)) := by
      rw [MEMORYPOOL_SIZE, Nat.add_assoc, ← Nat.succ_mul, Nat.mul_comm]
      exact Nat.add_le_add_left (Nat.mul_le_mul_left _ (by omega)) _
    have outside : L.node n ∉ L.pBuffer :: (List.range n).map L.node := by
      rw [fits.node_mem, List.mem_range]
      exact Nat.lt_irrefl n
    have longer := (ring.init outside).attach_head (init_alone m (L.node n)) outside
    rw [show (List.range n).map L.node ++ [L.node n] = (List.range (n + 1)).map L.node by
      rw [List.range_succ, List.map_append, List.map_singleton]] at longer
    rw [memInitFrom, if_pos ⟨fits.each_pos, room⟩, Nat.add_assoc (MEM_ALIGN_SIZE 8), ← Nat.succ_mul,
      show n + (left + 1) = n + 1 + left by omega]
    have here : L.pBuffer + (MEM_ALIGN_SIZE 8 + n * MEM_ALIGN_SIZE L.szEach) + L.szListOffset =
        L.node n := by
      unfold Layout.node Layout.block
      omega
    rw [here]
    exact ih (n + 1) longer

theorem Layout.Fits.ring_init (fits : L.Fits) (m : Links Nat) (count : Nat) :
    ∃ links, memInit L (MEMORYPOOL_SIZE L.szEach count) m = some links ∧
      Ring links L.pBuffer ((List.range count).map L.node) := by
  have room : ¬ MEMORYPOOL_SIZE L.szEach count < 8 := by
    have header : 8 ≤ MEM_ALIGN_SIZE 8 := le_align 8
    unfold MEMORYPOOL_SIZE
    omega
  refine ⟨_, if_neg room, ?_⟩
  have start := fits.ring_from count 0 (init_alone m L.pBuffer)
  rwa [Nat.zero_mul, Nat.zero_add, Nat.add_zero] at start

section
variable {head a : Nat} {l : List Nat}

theorem listGetFrom_eq (path : Path m a l head) (outside : head ∉ l) (enough : l.length < fuel)
    (n : Nat) : listGetFrom m head fuel (m.pNext a) n = some l[n]? := by
  induction l generalizing a fuel n with
  | nil =>
    obtain ⟨fuel, rfl⟩ := Nat.exists_eq_succ_of_ne_zero (Nat.ne_of_gt enough)
    rw [listGetFrom, if_pos path.1]
    rfl
  | cons x l ih =>
    obtain ⟨fuel, rfl⟩ := Nat.exists_eq_succ_of_ne_zero (Nat.ne_of_gt (Nat.zero_lt_of_lt enough))
    obtain ⟨here, -, rest⟩ := path
    obtain ⟨other, outside⟩ := not_or.mp (List.mem_cons.not.mp outside)
    rw [listGetFrom, here, if_neg (Ne.symm other)]
    cases n with
    | zero => rfl
    | succ n =>
      rw [if_neg (by omega), show ((n + 1 : Nat) : Int) - 1 = n by omega, List.getElem?_cons_succ]
      exact ih rest outside (Nat.lt_of_succ_lt_succ enough) n

theorem listLengthFrom_eq (path : Path m a l head) (outside : head ∉ l)
    (enough : l.length < fuel) (i : Nat) :
    listLengthFrom m head fuel (m.pNext a) i = some (i + l.length) := by
  induction l generalizing a fuel i with
  | nil =>
    obtain ⟨fuel, rfl⟩ := Nat.exists_eq_succ_of_ne_zero (Nat.ne_of_gt enough)
    rw [listLengthFrom, if_pos path.1]
    rfl
  | cons x l ih =>
    obtain ⟨fuel, rfl⟩ := Nat.exists_eq_succ_of_ne_zero (Nat.ne_of_gt (Nat.zero_lt_of_lt enough))
    obtain ⟨here, -, rest⟩ := path
    obtain ⟨other, outside⟩ := not_or.mp (List.mem_cons.not.mp outside)
    rw [listLengthFrom, here, if_neg (Ne.symm other), List.length_cons,
      ih rest outside (Nat.lt_of_succ_lt_succ enough)]
    congr 1
    omega

theorem listGetAt_ring (ring : Ring m head l) (enough : l.length < fuel) (nIndex : Int) :
    listGetAt m fuel head nIndex = some (if nIndex < 0 then none else l[nIndex.toNat]?) := by
  unfold listGetAt
  split
  · rfl
  · next positive =>
    rw [← listGetFrom_eq ring.1 (List.nodup_cons.mp ring.2).1 enough,
      Int.toNat_of_nonneg (Int.not_lt.mp positive)]

theorem listLength_ring (ring : Ring m head l) (enough : l.length < fuel) :
    listLength m fuel head = some l.length := by
  rw [listLength, listLengthFrom_eq ring.1 (List.nodup_cons.mp ring.2).1 enough, Nat.zero_add]

end

/-! ### The refinement -/

def PoolCall.at (L : Layout) : PoolCall → PoolCall
  | .AddRef pMemory => .AddRef (pMemory.map L.block)
  | .DecRef pMemory => .DecRef (pMemory.map L.block)
  | c => c

def Answer.at (L : Layout) : Answer → Answer
  | .block p => .block (p.map L.block)
  | r => r

/-- The free blocks are the ring of the header, in order; every other block is alone. -/
structure Refines (L : Layout) (count : Nat) (mem : Memory) (pool : Pool) : Prop where
  ring : Ring mem.links L.pBuffer (pool.free.map L.node)
  below : ∀ b ∈ pool.free, b < count
  alone : ∀ b < count, b ∉ pool.free → Ring mem.links (L.node b) []
  counted : ∀ b < count, mem.ref_count (L.block b) = pool.ref_count b
  unreferenced : ∀ b < count, b ∈ pool.free ↔ pool.ref_count b = 0

/-- References are added to what has one, and taken from blocks of the pool. -/
def Pool.Fair (count : Nat) (pool : Pool) : PoolCall → Prop
  | .AddRef (some b) => b < count ∧ pool.ref_count b ≠ 0
  | .DecRef (some b) => b < count
  | _ => True

instance (count : Nat) (pool : Pool) : ∀ c, Decidable (pool.Fair count c)
  | .AddRef (some b) => inferInstanceAs (Decidable (b < count ∧ pool.ref_count b ≠ 0))
  | .DecRef (some b) => inferInstanceAs (Decidable (b < count))
  | .AddRef none | .DecRef none | .New | .Shift | .GetMemory _ | .GetFreeBlocksNum => isTrue trivial

variable {b c : Nat}

theorem Refines.init (fits : L.Fits) (m : Links Nat) (ref_count : Nat → Nat)
    (zero : ∀ b < count, ref_count (L.block b) = 0) :
    ∃ links, memInit L (MEMORYPOOL_SIZE L.szEach count) m = some links ∧
      Refines L count ⟨links, ref_count⟩ (initMemoryPool count) := by
  obtain ⟨links, done, ring⟩ := fits.ring_init m count
  refine ⟨links, done, ring, fun b hb => List.mem_range.mp hb, fun b hb absent => ?_, zero,
    fun b hb => ⟨fun _ => rfl, fun _ => List.mem_range.mpr hb⟩⟩
  exact absurd (List.mem_range.mpr hb) absent

theorem Refines.nodup (refines : Refines L count mem pool) : pool.free.Nodup :=
  (List.nodup_cons.mp refines.ring.2).2.of_map

theorem Refines.length_le (refines : Refines L count mem pool) : pool.free.length ≤ count := by
  have inside : pool.free ⊆ List.range count :=
    fun b hb => List.mem_range.mpr (refines.below b hb)
  simpa using (refines.nodup.subperm inside).length_le

/-- The first free block is taken out of the ring. -/
theorem Refines.taken (refines : Refines L count mem pool) (fits : L.Fits) {free : List Nat}
    (first : pool.free = b :: free) :
    mem.links.pNext L.pBuffer = L.node b ∧
      let links := mem.links.connect (L.node b) (mem.links.pNext (L.node b))
      Ring links L.pBuffer (free.map L.node) ∧
        ∀ c < count, c ∉ free → Ring links (L.node c) [] := by
  have ring := refines.ring
  have present : L.node b ∈ pool.free.map L.node := List.mem_map_of_mem (first ▸ List.mem_cons_self)
  have split : Ring mem.links L.pBuffer ([] ++ L.node b :: free.map L.node) := by
    rw [List.nil_append, ← List.map_cons, ← first]
    exact ring
  refine ⟨split.next, split.detach.1, fun c below absent => ?_⟩
  rcases eq_or_ne c b with rfl | other
  · exact split.detach.2
  · have busy : c ∉ pool.free := by
      rw [first, List.mem_cons]
      exact not_or.mpr ⟨other, absent⟩
    have away : ∀ y ∈ L.pBuffer :: pool.free.map L.node, y ∉ [L.node c] := by
      intro y hy same
      obtain rfl := List.mem_singleton.mp same
      exact busy (fits.node_mem.mp hy)
    refine (refines.alone c below busy).frame (away _ (List.mem_cons_of_mem _ present))
      (away _ (ring.next_mem present)) (away _ (ring.prev_mem present)) ?_
    exact (ring.link present).symm ▸ away _ (List.mem_cons_of_mem _ present)

/-- A block that is alone goes to the end of the ring. -/
theorem attached (fits : L.Fits) {links : Links Nat} {free : List Nat}
    (ring : Ring links L.pBuffer (free.map L.node)) (alone : Ring links (L.node b) [])
    (busy : b ∉ free) :
    Ring (memDel L.pBuffer (L.node b) links) L.pBuffer ((free ++ [b]).map L.node) ∧
      ∀ c, c ∉ free ++ [b] → Ring links (L.node c) [] →
        Ring (memDel L.pBuffer (L.node b) links) (L.node c) [] := by
  have outside : L.node b ∉ L.pBuffer :: free.map L.node := fun inside =>
    busy (fits.node_mem.mp inside)
  refine ⟨?_, fun c absent single => ?_⟩
  · rw [List.map_append, List.map_singleton]
    exact ring.attach_head alone outside
  · have away : ∀ y ∈ L.pBuffer :: (free ++ [b]).map L.node, y ∉ [L.node c] := by
      intro y hy same
      obtain rfl := List.mem_singleton.mp same
      exact absent (fits.node_mem.mp hy)
    have last : L.node b ∈ L.pBuffer :: (free ++ [b]).map L.node := fits.node_mem.mpr (by simp)
    have front : L.pBuffer :: free.map L.node ⊆ L.pBuffer :: (free ++ [b]).map L.node := by
      rw [List.map_append]
      exact List.cons_subset_cons _ (List.subset_append_left ..)
    refine single.frame (away _ List.mem_cons_self) (away _ last)
      (away _ (front ring.1.prev_mem)) ?_
    exact (ring_nil.mp alone).2.symm ▸ away _ last

/-- Answers at the same blocks, and the pool again. -/
abbrev Agree (L : Layout) (count : Nat) : Answer × Memory → Answer × Pool → Prop :=
  Matched (fun r q => r = q.at L) (Refines L count)

theorem Refines.memNew_nil (refines : Refines L count mem pool) (none_free : pool.free = []) :
    memNew L.pBuffer mem.links = (none, mem.links) := by
  have ring := refines.ring
  rw [none_free] at ring
  exact if_pos ring.next

theorem Refines.memNew_cons (refines : Refines L count mem pool) (fits : L.Fits) {free : List Nat}
    (first : pool.free = b :: free) :
    memNew L.pBuffer mem.links =
      (some (L.node b), mem.links.connect (L.node b) (mem.links.pNext (L.node b))) := by
  obtain ⟨next, -⟩ := refines.taken fits first
  rw [memNew, next, if_neg (node_ne_head b)]

/-- The block's count is set in both. -/
theorem Refines.count_set (refines : Refines L count mem pool) (fits : L.Fits) (n : Nat) :
    ∀ c < count, Function.update mem.ref_count (L.block b) n (L.block c) =
      Function.update pool.ref_count b n c := by
  intro c below
  rcases eq_or_ne c b with rfl | other
  · rw [Function.update_self, Function.update_self]
  · rw [Function.update_of_ne other, Function.update_of_ne (fits.block_injective.ne other),
      refines.counted c below]

theorem Refines.new (refines : Refines L count mem pool) (fits : L.Fits) :
    Option.Rel (Agree L count) (mem.call L fuel .New) (pool.call .New) := by
  cases first : pool.free with
  | nil =>
    have same : mem.new L = (none, mem) := by rw [Memory.new, refines.memNew_nil first]
    rw [Memory.call, Pool.call, same, new_eq_none.mpr first]
    exact .some ⟨rfl, refines⟩
  | cons b free =>
    obtain ⟨absent, -⟩ := List.nodup_cons.mp (first ▸ refines.nodup)
    obtain ⟨-, ring, alone⟩ := refines.taken fits first
    have taken : mem.new L =
        (some (L.block b), ⟨mem.links.connect (L.node b) (mem.links.pNext (L.node b)),
          Function.update mem.ref_count (L.block b) 1⟩) := by
      rw [Memory.new, refines.memNew_cons fits first]
      simp only [parent_node]
    have drawn : pool.new = some (b, ⟨free, Function.update pool.ref_count b 1⟩) :=
      new_eq_some.mpr ⟨first, rfl⟩
    have freeNow : ∀ c < count, c ∈ free ↔ Function.update pool.ref_count b 1 c = 0 := by
      intro c below
      rcases eq_or_ne c b with rfl | other
      · simp [absent]
      · rw [Function.update_of_ne other, ← refines.unreferenced c below, first, List.mem_cons]
        exact (or_iff_right other).symm
    rw [Memory.call, Pool.call, taken, drawn]
    exact .some ⟨rfl, ring, fun c hc => refines.below c (first ▸ List.mem_cons_of_mem b hc), alone,
      refines.count_set fits 1, freeNow⟩

theorem Refines.shift (refines : Refines L count mem pool) (fits : L.Fits) :
    Option.Rel (Agree L count) (mem.call L fuel .Shift) (pool.call .Shift) := by
  cases first : pool.free with
  | nil =>
    have same : mem.shift L = (none, mem) := by rw [Memory.shift, refines.memNew_nil first]
    rw [Memory.call, Pool.call, same, Pool.shift, first]
    exact .some ⟨rfl, refines⟩
  | cons b free =>
    have below : b < count := refines.below b (first ▸ List.mem_cons_self)
    obtain ⟨absent, -⟩ := List.nodup_cons.mp (first ▸ refines.nodup)
    obtain ⟨-, ring, alone⟩ := refines.taken fits first
    obtain ⟨ring, others⟩ := attached fits ring (alone b below absent) absent
    have taken : mem.shift L =
        (some (L.block b), ⟨memDel L.pBuffer (L.node b)
          (mem.links.connect (L.node b) (mem.links.pNext (L.node b))), mem.ref_count⟩) := by
      rw [Memory.shift, refines.memNew_cons fits first]
      simp only [parent_node]
    have members : ∀ c, c ∈ free ++ [b] ↔ c ∈ pool.free := by simp [first, or_comm]
    rw [Memory.call, Pool.call, taken, Pool.shift, first]
    refine .some ⟨rfl, ring, fun c hc => refines.below c ((members c).mp hc), fun c hc busy => ?_,
      refines.counted, fun c hc => (members c).trans (refines.unreferenced c hc)⟩
    exact others c busy (alone c hc fun inside => busy (List.mem_append_left [b] inside))

theorem Refines.addRef (refines : Refines L count mem pool) (fits : L.Fits) (below : b < count)
    (held : pool.ref_count b ≠ 0) :
    Refines L count (mem.addRef (some (L.block b))) (pool.addRef b) where
  ring := refines.ring
  below := refines.below
  alone := refines.alone
  counted := by
    intro c hc
    simp only [Memory.addRef, Pool.addRef, refines.counted b below]
    exact refines.count_set fits _ c hc
  unreferenced := by
    intro c hc
    rcases eq_or_ne c b with rfl | other
    · simp [Pool.addRef, refines.unreferenced c hc, held]
    · simp only [Pool.addRef, Function.update_of_ne other]
      exact refines.unreferenced c hc

theorem Refines.decRef (refines : Refines L count mem pool) (fits : L.Fits) (below : b < count) :
    Option.Rel (Refines L count) (mem.decRef L (some (L.block b))) (pool.decRef b) := by
  have same := refines.counted b below
  cases refs : pool.ref_count b with
  | zero =>
    rw [Memory.decRef, if_pos (Nat.le_zero.mpr (same.trans refs)), Pool.decRef, refs]
    exact .none
  | succ n =>
    have busy : b ∉ pool.free := by
      rw [refines.unreferenced b below, refs]
      exact Nat.succ_ne_zero n
    have positive : ¬ mem.ref_count (L.block b) ≤ 0 := by omega
    have less : mem.ref_count (L.block b) - 1 = n := by omega
    simp only [Memory.decRef, if_neg positive, Function.update_self, less, Pool.decRef, refs]
    by_cases last : n = 0
    · obtain ⟨ring, others⟩ := attached fits refines.ring (refines.alone b below busy) busy
      rw [if_pos last, if_pos last]
      refine .some ⟨ring, fun c hc => ?_, fun c hc absent => ?_, refines.count_set fits n,
        fun c hc => ?_⟩
      · rcases List.mem_append.mp hc with hc | hc
        · exact refines.below c hc
        · exact List.mem_singleton.mp hc ▸ below
      · exact others c absent
          (refines.alone c hc fun inside => absent (List.mem_append_left [b] inside))
      · rcases eq_or_ne c b with rfl | other
        · simp [last]
        · simp [refines.unreferenced c hc, other]
    · rw [if_neg last, if_neg last]
      refine .some ⟨refines.ring, refines.below, refines.alone, refines.count_set fits n,
        fun c hc => ?_⟩
      rcases eq_or_ne c b with rfl | other
      · simp [busy, last]
      · simp only [Function.update_of_ne other]
        exact refines.unreferenced c hc

theorem Refines.call (refines : Refines L count mem pool) (fits : L.Fits) (enough : count < fuel)
    {c : PoolCall} (fair : pool.Fair count c) :
    Option.Rel (Agree L count) (mem.call L fuel (c.at L)) (pool.call c) := by
  have short : (pool.free.map L.node).length < fuel := by
    rw [List.length_map]
    exact Nat.lt_of_le_of_lt refines.length_le enough
  cases c with
  | New => exact refines.new fits
  | Shift => exact refines.shift fits
  | AddRef pMemory =>
    cases pMemory with
    | none => exact .some ⟨rfl, refines⟩
    | some b => exact .some ⟨rfl, refines.addRef fits fair.1 fair.2⟩
  | DecRef pMemory =>
    cases pMemory with
    | none => exact .some ⟨rfl, refines⟩
    | some b =>
      refine rel_map (refines.decRef fits fair) fun mem' pool' after => ⟨rfl, after⟩
  | GetMemory nIndex =>
    simp only [PoolCall.at, Memory.call, Pool.call, listGetAt_ring refines.ring short,
      Option.map_some]
    refine .some ⟨?_, refines⟩
    simp only [Answer.at]
    split
    · rfl
    · rw [List.getElem?_map, Option.map_map]
      congr 2
      exact funext parent_node
  | GetFreeBlocksNum =>
    simp only [PoolCall.at, Memory.call, Pool.call, listLength_ring refines.ring short,
      Option.map_some, List.length_map]
    exact .some ⟨rfl, refines⟩

end Rovio.Media
