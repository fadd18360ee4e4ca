import Rovio.Firmware.Usi

/-! The serial flash and its cache as one array of bytes. Every operation on the flash works
here. -/
namespace Rovio.Firmware

def always : Nat → Bool := fun _ => true

/-- The cells as the callers see them. -/
def Usi.view (s : Usi) (a : Nat) : Cell :=
  match s.g_uUSICacheAddr with
  | none => s.chip.flash a
  | some block =>
    if block ≤ a ∧ a < block + eraseSec then s.g_uUSI_BUF (a - block) else s.chip.flash a

def bytesAt (m : Nat → Cell) (addr len : Nat) : List UInt8 :=
  (List.range len).map fun i => (m (addr + i)).byte

def usiRead (chip : Chip) (addr len : Nat) : List UInt8 := bytesAt chip.flash addr len

/-- From the cache, if it holds this sector. -/
def usiFetch (s : Usi) (block addr len : Nat) : List UInt8 :=
  if s.g_uUSICacheAddr ≠ some block then usiRead s.chip addr len
  else bytesAt s.g_uUSI_BUF (addr - block) len

/-- Page by page; of a page that the range starts in the middle of, the front is dropped. -/
def usiMyRead (s : Usi) (addr len : Nat) : List UInt8 :=
  if len = 0 then []
  else
    let block := addr - addr % eraseSec
    if addr % 256 = 0 then
      let read_len := min len 256
      usiFetch s block addr read_len ++ usiMyRead s (addr + read_len) (len - read_len)
    else
      let read_len := min (len + addr % 256) 256
      let temp := usiFetch s block (addr - addr % 256) read_len
      let read_len := read_len - addr % 256
      temp.drop (addr % 256) ++ usiMyRead s (addr + read_len) (len - read_len)
  termination_by len

/-- The address of the cached sector is that of a sector. -/
def Usi.Aligned (s : Usi) : Prop :=
  ∀ block, s.g_uUSICacheAddr = some block → block % eraseSec = 0

variable {s : Usi} {addr len : Nat} {buf : List Cell}

theorem bytesAt_append (m : Nat → Cell) (addr k n : Nat) :
    bytesAt m addr k ++ bytesAt m (addr + k) n = bytesAt m addr (k + n) := by
  simp only [bytesAt, List.range_add, List.map_append, List.map_map]
  refine congrArg _ (List.map_congr_left fun i _ => ?_)
  simp only [Function.comp, Nat.add_assoc]

theorem bytesAt_drop (m : Nat → Cell) (addr k n : Nat) :
    (bytesAt m addr (k + n)).drop k = bytesAt m (addr + k) n := by
  rw [← bytesAt_append]
  exact List.drop_left' (by simp [bytesAt])

theorem bytesAt_congr {m m' : Nat → Cell} {addr addr' len : Nat}
    (same : ∀ i < len, m (addr + i) = m' (addr' + i)) : bytesAt m addr len = bytesAt m' addr' len :=
  List.map_congr_left fun i mem => congrArg Cell.byte (same i (List.mem_range.mp mem))

/-- Within one sector, what is fetched is what the callers see. -/
theorem usiFetch_view (aligned : s.Aligned) {block : Nat} (sector : block % eraseSec = 0)
    (low : block ≤ addr) (high : addr + len ≤ block + eraseSec) :
    usiFetch s block addr len = bytesAt s.view addr len := by
  unfold usiFetch
  split
  next missed =>
    refine bytesAt_congr fun i inside => ?_
    unfold Usi.view
    split
    · rfl
    next cached here =>
      have away : block ≠ cached := by
        rintro rfl
        exact missed here
      have other := aligned cached here
      have apart : ¬ (cached ≤ addr + i ∧ addr + i < cached + eraseSec) := by
        unfold eraseSec at *
        omega
      rw [if_neg apart]
  next here =>
    refine bytesAt_congr fun i inside => ?_
    rw [Usi.view, Decidable.not_not.mp here]
    dsimp only
    rw [if_pos (by omega), Nat.sub_add_comm low]

/-- A page, and the sector it is in. -/
theorem page_in_sector (addr : Nat) :
    (addr - addr % eraseSec) % eraseSec = 0 ∧ addr - addr % eraseSec ≤ addr - addr % 256 ∧
      addr - addr % 256 + 256 ≤ addr - addr % eraseSec + eraseSec := by
  unfold eraseSec
  omega

theorem usiMyRead_view (aligned : s.Aligned) (addr len : Nat) :
    usiMyRead s addr len = bytesAt s.view addr len := by
  have inside := page_in_sector
  fun_induction usiMyRead s addr len with
  | case1 => rfl
  | case2 addr len some block page read_len ih =>
    obtain ⟨sector, low, high⟩ := inside addr
    have fetched := @usiFetch_view s addr read_len aligned block sector (by omega) (by omega)
    rw [fetched, ih, bytesAt_append]
    congr 1
    omega
  | case3 addr len some block page read_len temp read_len' ih =>
    obtain ⟨sector, low, high⟩ := inside addr
    have fetched := @usiFetch_view s (addr - addr % 256) read_len aligned block sector low
      (by omega)
    have front : read_len = addr % 256 + read_len' := by omega
    have start : addr - addr % 256 + addr % 256 = addr := by omega
    rw [show temp = bytesAt s.view (addr - addr % 256) read_len from fetched, front, bytesAt_drop,
      start, ih, bytesAt_append]
    congr 1
    omega

/-! ### Writes -/

/-- What is written back is what the callers saw. -/
theorem usiMyFlash_view (s : Usi) (a : Nat) : (usiMyFlash always s).chip.flash a = s.view a := by
  unfold Usi.view
  split
  next none =>
    rw [usiMyFlash, none]
  next block cached =>
    obtain ⟨_, _, flash⟩ := @usiMyFlash_run always s block cached
    rw [flash]
    refine if_congr Iff.rfl ?_ rfl
    simp only [always, if_true, blank_program]

theorem usiMyFlash_empty (works : Nat → Bool) (s : Usi) :
    (usiMyFlash works s).g_uUSICacheAddr = none := by
  cases cached : s.g_uUSICacheAddr with
  | none => rw [usiMyFlash, cached]; exact cached
  | some block => exact (usiMyFlash_run cached).1

theorem view_empty (empty : s.g_uUSICacheAddr = none) : s.view = s.chip.flash := by
  funext a
  rw [Usi.view, empty]

theorem view_inside {block i : Nat} (cached : s.g_uUSICacheAddr = some block)
    (inside : i < eraseSec) : s.view (block + i) = s.g_uUSI_BUF i := by
  rw [Usi.view, cached]
  dsimp only
  rw [if_pos ⟨Nat.le_add_right _ _, Nat.add_lt_add_left inside block⟩, Nat.add_sub_cancel_left]

theorem view_outside {block a : Nat} (cached : s.g_uUSICacheAddr = some block)
    (outside : ¬ (block ≤ a ∧ a < block + eraseSec)) : s.view a = s.chip.flash a := by
  rw [Usi.view, cached]
  exact if_neg outside

theorem usiLoad_cached (works : Nat → Bool) (s : Usi) (block : Nat) :
    (usiLoad works s block).g_uUSICacheAddr = some block := by
  unfold usiLoad
  split
  next here => exact here
  next => rfl

theorem usiLoad_view (s : Usi) (block : Nat) : (usiLoad always s block).view = s.view := by
  unfold usiLoad
  split
  · rfl
  · funext a
    rw [← usiMyFlash_view s]
    by_cases inside : block ≤ a ∧ a < block + eraseSec
    · obtain ⟨i, rfl⟩ := Nat.exists_eq_add_of_le inside.1
      exact view_inside rfl (Nat.lt_of_add_lt_add_left inside.2)
    · exact view_outside rfl inside

theorem overwrite_split (there : Nat → Cell) (addr n : Nat) (bytes : List Cell)
    (some : n ≤ bytes.length) :
    overwrite (overwrite there addr (bytes.take n)) (addr + n) (bytes.drop n) =
      overwrite there addr bytes := by
  funext a
  have front : (bytes.take n).length = n := List.length_take_of_le some
  by_cases behind : addr + n ≤ a
  · have place : a - addr = n + (a - (addr + n)) := by omega
    have old : overwrite there addr (bytes.take n) a = there a :=
      overwrite_outside (.inr (by omega))
    rw [overwrite, if_pos behind, old, overwrite, if_pos (by omega), place, List.getElem?_drop]
  · rw [overwrite, if_neg behind, overwrite, overwrite]
    by_cases low : addr ≤ a
    · rw [if_pos low, if_pos low, List.getElem?_take_of_lt (by omega)]
    · rw [if_neg low, if_neg low]

/-- Bytes put into the cached sector. -/
theorem overwrite_cached {block pos : Nat} (cached : s.g_uUSICacheAddr = some block)
    (bytes : List Cell) (inside : pos + bytes.length ≤ eraseSec) :
    ({ s with g_uUSI_BUF := overwrite s.g_uUSI_BUF pos bytes } : Usi).view =
      overwrite s.view (block + pos) bytes := by
  funext a
  by_cases here : block ≤ a ∧ a < block + eraseSec
  · obtain ⟨i, rfl⟩ := Nat.exists_eq_add_of_le here.1
    have within : i < eraseSec := Nat.lt_of_add_lt_add_left here.2
    refine (@view_inside { s with g_uUSI_BUF := overwrite s.g_uUSI_BUF pos bytes } block i cached
      within).trans ?_
    dsimp only
    by_cases low : pos ≤ i
    · rw [overwrite, if_pos low, overwrite, if_pos (Nat.add_le_add_left low block),
        Nat.add_sub_add_left, view_inside cached within]
    · rw [overwrite, if_neg low, overwrite, if_neg (by omega), view_inside cached within]
  · rw [overwrite_outside (by omega), view_outside cached here]
    exact view_outside cached here

theorem usiMyWrite_view (aligned : s.Aligned) (addr : Nat) (buf : List Cell) :
    (usiMyWrite always s addr buf).Aligned ∧
      (usiMyWrite always s addr buf).view = overwrite s.view addr buf := by
  fun_induction usiMyWrite always s addr buf with
  | case1 s addr =>
    refine ⟨aligned, funext fun a => ?_⟩
    rw [overwrite_outside]
    rw [List.length_nil]
    omega
  | case2 s addr buf some pos s' copy_len ih =>
    have sector : (addr - pos) % eraseSec = 0 := (page_in_sector addr).1
    have start : addr - pos + pos = addr := Nat.sub_add_cancel (Nat.mod_le addr eraseSec)
    have cached : s'.g_uUSICacheAddr = Option.some (addr - pos) := usiLoad_cached always s _
    have within : pos < eraseSec := Nat.mod_lt _ (by decide)
    have length : (buf.take copy_len).length = copy_len :=
      List.length_take_of_le (Nat.min_le_left _ _)
    have chunk := @overwrite_cached s' _ pos cached (buf.take copy_len) (by omega)
    rw [start, show s'.view = s.view from usiLoad_view s _] at chunk
    obtain ⟨aligned', view⟩ := ih fun block here => by
      rw [cached] at here
      cases here
      exact sector
    refine ⟨aligned', ?_⟩
    rw [view, chunk, overwrite_split _ _ _ _ (Nat.min_le_left _ _)]

/-- A write within one sector. -/
theorem usiMyWrite_sector {works : Nat → Bool} (some : buf ≠ [])
    (inside : addr % eraseSec + buf.length ≤ eraseSec) :
    usiMyWrite works s addr buf =
      let s' := usiLoad works s (addr - addr % eraseSec)
      { s' with g_uUSI_BUF := overwrite s'.g_uUSI_BUF (addr % eraseSec) buf } := by
  have all : min buf.length (eraseSec - addr % eraseSec) = buf.length := by omega
  rw [usiMyWrite, if_neg some]
  simp only [all, List.take_length, List.drop_length]
  rw [usiMyWrite, if_pos rfl]

/-- The operations that it takes to get a sector into the cache. -/
def Usi.toLoad (s : Usi) (block : Nat) : Nat :=
  match s.g_uUSICacheAddr with
  | none => 0
  | some cached => if cached = block then 0 else 257

theorem usiLoad_chip {works : Nat → Bool} (aligned : s.Aligned) {block : Nat}
    (sector : block % eraseSec = 0) :
    (usiLoad works s block).chip.ops = s.chip.ops + s.toLoad block ∧
      ∀ a, block ≤ a → a < block + eraseSec →
        (usiLoad works s block).chip.flash a = s.chip.flash a := by
  unfold usiLoad Usi.toLoad
  cases cached : s.g_uUSICacheAddr with
  | none =>
    rw [if_neg (by rintro ⟨⟩)]
    simp only [usiMyFlash, cached]
    exact ⟨rfl, fun _ _ _ => trivial⟩
  | some other =>
    dsimp only
    by_cases here : other = block
    · rw [if_pos (congrArg some here), if_pos here]
      exact ⟨rfl, fun _ _ _ => rfl⟩
    · rw [if_neg (fun same => here (Option.some.inj same)), if_neg here]
      obtain ⟨_, ops, flash⟩ := @usiMyFlash_run works s other cached
      refine ⟨ops, fun a low high => ?_⟩
      have apart : ¬ (other ≤ a ∧ a < other + eraseSec) := by
        have := aligned other cached
        unfold eraseSec at *
        omega
      exact (flash a).trans (if_neg apart)

/-! ### Calls -/

inductive Request
  | usiMyRead (addr len : Nat)
  | usiMyWrite (addr : Nat) (buf : List Cell)
  | usiMyFlash

def Usi.serve (s : Usi) : Request → Usi × List UInt8
  | .usiMyRead addr len => (s, usiMyRead s addr len)
  | .usiMyWrite addr buf => (usiMyWrite always s addr buf, [])
  | .usiMyFlash => (usiMyFlash always s, [])

/-- An array of bytes, some of which are replaced. -/
def replaced (m : Nat → UInt8) (addr : Nat) (bytes : List UInt8) : Nat → UInt8 :=
  fun a => if addr ≤ a then bytes[a - addr]?.getD (m a) else m a

/-- What the calls are for. -/
def flatServe (m : Nat → UInt8) : Request → (Nat → UInt8) × List UInt8
  | .usiMyRead addr len => (m, (List.range len).map fun i => m (addr + i))
  | .usiMyWrite addr buf => (replaced m addr (buf.map Cell.byte), [])
  | .usiMyFlash => (m, [])

/-- What a sequence of calls leaves, and what they return. -/
def serveAll {σ : Type} (step : σ → Request → σ × List UInt8) :
    σ → List Request → σ × List (List UInt8)
  | s, [] => (s, [])
  | s, call :: rest =>
    let (s', answer) := step s call
    let (s'', answers) := serveAll step s' rest
    (s'', answer :: answers)

def Request.Writes (a : Nat) : Request → Prop
  | .usiMyWrite addr buf => addr ≤ a ∧ a < addr + buf.length
  | _ => False

def Usi.bytes (s : Usi) (a : Nat) : UInt8 := (s.view a).byte

/-- The driver after `usiMyInitDevice`. -/
def opened (chip : Chip) (g_uUSI_BUF : Nat → Cell) : Usi := ⟨chip, none, g_uUSI_BUF⟩

theorem overwrite_byte (there : Nat → Cell) (addr : Nat) (buf : List Cell) (a : Nat) :
    (overwrite there addr buf a).byte =
      replaced (fun a => (there a).byte) addr (buf.map Cell.byte) a := by
  unfold overwrite replaced
  split
  · rw [List.getElem?_map]
    cases buf[a - addr]? with
    | none => rfl
    | some cell => rfl
  · rfl

theorem serve_flat (aligned : s.Aligned) (call : Request) :
    (s.serve call).1.Aligned ∧
      (s.serve call).1.bytes = (flatServe s.bytes call).1 ∧
      (s.serve call).2 = (flatServe s.bytes call).2 := by
  cases call with
  | usiMyRead addr len => exact ⟨aligned, rfl, usiMyRead_view aligned addr len⟩
  | usiMyWrite addr buf =>
    obtain ⟨still, view⟩ := usiMyWrite_view aligned addr buf
    refine ⟨still, funext fun a => ?_, rfl⟩
    rw [Usi.bytes, Usi.serve, view]
    exact overwrite_byte s.view addr buf a
  | usiMyFlash =>
    have empty := usiMyFlash_empty always s
    refine ⟨fun block cached => ?_, funext fun a => ?_, rfl⟩
    · rw [Usi.serve, empty] at cached
      cases cached
    · rw [Usi.bytes, Usi.serve, view_empty empty, usiMyFlash_view]
      rfl

theorem serveAll_flat (aligned : s.Aligned) (calls : List Request) :
    (serveAll Usi.serve s calls).1.Aligned ∧
      (serveAll Usi.serve s calls).1.bytes = (serveAll flatServe s.bytes calls).1 ∧
      (serveAll Usi.serve s calls).2 = (serveAll flatServe s.bytes calls).2 := by
  induction calls generalizing s with
  | nil => exact ⟨aligned, rfl, rfl⟩
  | cons call rest ih =>
    obtain ⟨still, bytes, answer⟩ := serve_flat aligned call
    obtain ⟨aligned', bytes', answers⟩ := ih still
    rw [bytes] at bytes' answers
    exact ⟨aligned', bytes', congrArg₂ List.cons answer answers⟩

theorem flat_unwritten {m : Nat → UInt8} {calls : List Request} {a : Nat}
    (none : ∀ call ∈ calls, ¬ call.Writes a) : (serveAll flatServe m calls).1 a = m a := by
  induction calls generalizing m with
  | nil => rfl
  | cons call rest ih =>
    have here := none call List.mem_cons_self
    refine (ih fun call mem => none call (List.mem_cons_of_mem _ mem)).trans ?_
    cases call with
    | usiMyRead addr len => rfl
    | usiMyFlash => rfl
    | usiMyWrite addr buf =>
      change replaced m addr (buf.map Cell.byte) a = m a
      unfold replaced
      split
      next low =>
        rw [List.getElem?_eq_none]
        · rfl
        · rw [List.length_map]
          have beyond : ¬ a < addr + buf.length := fun high => here ⟨low, high⟩
          omega
      · rfl

/-- Of every sequence of calls: a read returns what is in an array of bytes with the writes so far,
and `usiMyFlash` leaves that array in the flash. A byte that no call wrote is as before. -/
theorem usi_refines_array (chip : Chip) (g_uUSI_BUF : Nat → Cell) (calls : List Request) :
    let bytes : Nat → UInt8 := fun a => (chip.flash a).byte
    let run := serveAll Usi.serve (opened chip g_uUSI_BUF) calls
    let flat := serveAll flatServe bytes calls
    run.2 = flat.2 ∧
      (∀ a, ((usiMyFlash always run.1).chip.flash a).byte = flat.1 a) ∧
      (usiMyFlash always run.1).g_uUSICacheAddr = none ∧
      ∀ a, (∀ call ∈ calls, ¬ call.Writes a) →
        ((usiMyFlash always run.1).chip.flash a).byte = bytes a := by
  intro bytes run flat
  have aligned : (opened chip g_uUSI_BUF).Aligned := by
    rintro block ⟨⟩
  obtain ⟨_, array, answers⟩ := serveAll_flat aligned calls
  have flushed (a : Nat) : ((usiMyFlash always run.1).chip.flash a).byte = flat.1 a := by
    rw [usiMyFlash_view]
    exact congrFun array a
  refine ⟨answers, flushed, usiMyFlash_empty always run.1, fun a none => ?_⟩
  rw [flushed]
  exact flat_unwritten none

end Rovio.Firmware
