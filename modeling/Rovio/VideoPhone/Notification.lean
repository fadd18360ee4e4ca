import Mathlib.Data.BitVec

/-! The sound that is mixed into the audio on its way to the speaker. -/
namespace Rovio.VideoPhone

def AUDIO_NOTIFICATION_VOLUME_MAX : Int := 60

/-- A sample of 16 bits in the order of its bytes. -/
def sample (lo hi : UInt8) : Int := (hi.toBitVec ++ lo.toBitVec).toInt

/-- An `int` stored to a `short`. -/
def sampleBytes (v : Int) : List UInt8 :=
  let word := BitVec.ofInt 16 v
  [⟨word.truncate 8⟩, ⟨(word >>> 8).truncate 8⟩]

/-- `memcpy` of a sample at `place`; none when it does not lie in the buffer. -/
def sampleAt (buffer : List UInt8) (place : Nat) : Option Int :=
  match buffer.drop place with
  | lo :: hi :: _ => some (sample lo hi)
  | _ => none

def putSample (buffer : List UInt8) (place : Nat) (v : Int) : List UInt8 :=
  buffer.take place ++ sampleBytes v ++ buffer.drop (place + 2)

/-- The notification's part of `g_vpAudio`, and what has come of it: the samples read from the
notification, the sums before they are stored, the blocks that were played and the calls of
`notificationCallback`. -/
structure Notification where
  pucNotificationBuffer : Option (List UInt8)
  iNotificationBufferLen : Nat
  iNotificationBufferPlayFrom : Nat
  iNotificationVolume : Int
  notificationCallback : Bool
  heard : List Int
  sums : List Int
  blocks : List (List UInt8)
  completed : Nat

/-- The values of `vauInit`. -/
def notificationInit : Notification := ⟨none, 0, 0, 2, false, [], [], [], 0⟩

def Notification.clear (s : Notification) : Notification :=
  { s with
    pucNotificationBuffer := none
    iNotificationBufferLen := 0
    iNotificationBufferPlayFrom := 0
    notificationCallback := false }

/-- The notification is a buffer of `iBufferLen` bytes; `callback` says whether it has one. -/
def vauNotificationPlay (s : Notification) (pucBuffer : List UInt8) (callback : Bool) :
    Notification :=
  if s.iNotificationVolume < AUDIO_NOTIFICATION_VOLUME_MAX then
    { s with
      pucNotificationBuffer := some pucBuffer
      iNotificationBufferLen := pucBuffer.length
      iNotificationBufferPlayFrom := 0
      notificationCallback := callback }
  else s.clear

def vauSetNotificationVolume (volume : Int) : Int :=
  if volume ≤ 1 then 2
  else if volume > AUDIO_NOTIFICATION_VOLUME_MAX then AUDIO_NOTIFICATION_VOLUME_MAX
  else volume

/-- The samples are divided as C divides, toward zero. -/
def mixSum (volume pcm1 pcm2 : Int) : Int := pcm1.tdiv 2 + pcm2.tdiv volume

/-- A block that is being mixed, with the samples and sums so far. -/
structure Mixing where
  pucBuffer : List UInt8
  heard : List Int
  sums : List Int

/-- The loop over the samples; none when it leaves one of the buffers. -/
def mixSamples (volume : Int) (notification : List UInt8) (playFrom copylen i : Nat) (m : Mixing) :
    Option Mixing :=
  if i < copylen then
    match sampleAt m.pucBuffer i, sampleAt notification (playFrom + i) with
    | some pcm1, some pcm2 =>
      mixSamples volume notification playFrom copylen (i + 2)
        ⟨putSample m.pucBuffer i (mixSum volume pcm1 pcm2), m.heard ++ [pcm2],
          m.sums ++ [mixSum volume pcm1 pcm2]⟩
    | _, _ => none
  else some m
termination_by copylen - i

/-- `copylen` for a block of `uiBufferLen` bytes. -/
def Notification.copylen (s : Notification) (uiBufferLen : Nat) : Nat :=
  let datalen := s.iNotificationBufferLen - s.iNotificationBufferPlayFrom
  if datalen > uiBufferLen then uiBufferLen else datalen

/-- What follows the loop. -/
def Notification.mixed (s : Notification) (copylen : Nat) (m : Mixing) : Notification :=
  let s := { s with
    heard := m.heard
    sums := m.sums
    blocks := s.blocks ++ [m.pucBuffer]
    iNotificationBufferPlayFrom := s.iNotificationBufferPlayFrom + copylen }
  if s.iNotificationBufferPlayFrom ≥ s.iNotificationBufferLen then
    let completed := if s.notificationCallback then s.completed + 1 else s.completed
    { s.clear with completed }
  else s

/-- `vauNotificationGet` with the lock. -/
def vauNotificationGet (s : Notification) (pucBuffer : List UInt8) : Option Notification :=
  match s.pucNotificationBuffer with
  | some notification =>
    (mixSamples s.iNotificationVolume notification s.iNotificationBufferPlayFrom
      (s.copylen pucBuffer.length) 0 ⟨pucBuffer, s.heard, s.sums⟩).map
        (s.mixed (s.copylen pucBuffer.length))
  | none => some { s with blocks := s.blocks ++ [pucBuffer] }

/-- A block to be played, with or without the lock, and the volume that is set between them. -/
inductive PlayEvent where
  | setVolume (volume : Int)
  | get (locked : Bool) (pucBuffer : List UInt8)

def playEvent (s : Notification) : PlayEvent → Option Notification
  | .setVolume volume => some { s with iNotificationVolume := vauSetNotificationVolume volume }
  | .get true pucBuffer => vauNotificationGet s pucBuffer
  | .get false pucBuffer => some { s with blocks := s.blocks ++ [pucBuffer] }

/-- The callbacks after the notification was given. -/
def playEvents (notification : List UInt8) (callback : Bool) (events : List PlayEvent) :
    Option Notification :=
  events.foldlM playEvent (vauNotificationPlay notificationInit notification callback)

/-! ### What is to be heard -/

/-- The samples of a sound. -/
def samples : List UInt8 → List Int
  | lo :: hi :: rest => sample lo hi :: samples rest
  | _ => []

/-- The samples of a block, with those of the notification over them. -/
def overlay (volume : Int) : List UInt8 → List UInt8 → List UInt8
  | b0 :: b1 :: block, n0 :: n1 :: rest =>
    sampleBytes (mixSum volume (sample b0 b1) (sample n0 n1)) ++ overlay volume block rest
  | block, _ => block

/-- The blocks as they are to be played when `rest` is what is left of the notification. -/
def overlaid (volume : Int) (rest : List UInt8) : List PlayEvent → List (List UInt8)
  | [] => []
  | .setVolume v :: events => overlaid (vauSetNotificationVolume v) rest events
  | .get false block :: events => block :: overlaid volume rest events
  | .get true block :: events =>
    overlay volume block rest :: overlaid volume (rest.drop block.length) events

/-- The blocks that found the lock. -/
def gets : List PlayEvent → List (List UInt8)
  | [] => []
  | .get true block :: events => block :: gets events
  | _ :: events => gets events

/-- Nothing is read or written outside the buffers; the notification is mixed into the blocks, its
samples once and in their order, with sums of 16 bits; and its end is told once. -/
def MixedOnce (notification : List UInt8) (callback : Bool) (events : List PlayEvent) : Prop :=
  ∃ t, playEvents notification callback events = some t ∧
    t.heard = samples (notification.take (gets events).flatten.length) ∧
    t.blocks = overlaid 2 notification events ∧
    (∀ v ∈ t.sums, -32768 ≤ v ∧ v ≤ 32767) ∧
    t.completed =
      if callback ∧ gets events ≠ [] ∧ notification.length ≤ (gets events).flatten.length then 1
      else 0

/-! ### A block -/

theorem sample_bounds (lo hi : UInt8) : -32768 ≤ sample lo hi ∧ sample lo hi ≤ 32767 := by
  have low := BitVec.le_two_mul_toInt (x := hi.toBitVec ++ lo.toBitVec)
  have high := BitVec.two_mul_toInt_lt (x := hi.toBitVec ++ lo.toBitVec)
  unfold sample
  omega

theorem tdiv_half {a k : Int} (two : 2 ≤ k) (bounds : -32768 ≤ a ∧ a ≤ 32767) :
    -16384 ≤ a.tdiv k ∧ a.tdiv k ≤ 16383 := by
  have size : (a.tdiv k).natAbs ≤ a.natAbs / 2 := by
    rw [Int.natAbs_tdiv]
    exact Nat.div_le_div_left (by omega) (by decide)
  rcases Int.le_total 0 a with plus | minus
  · have sign := Int.tdiv_nonneg plus (show 0 ≤ k by omega)
    have whole : (a.natAbs : Int) = a := Int.natAbs_of_nonneg plus
    omega
  · have turned : a.tdiv k = -(-a).tdiv k := by rw [Int.neg_tdiv, Int.neg_neg]
    have sign : a.tdiv k ≤ 0 := by
      rw [turned]
      exact Int.neg_nonpos_of_nonneg (Int.tdiv_nonneg (by omega) (by omega))
    omega

theorem mixSum_bounds {volume pcm1 pcm2 : Int} (two : 2 ≤ volume)
    (first : -32768 ≤ pcm1 ∧ pcm1 ≤ 32767) (second : -32768 ≤ pcm2 ∧ pcm2 ≤ 32767) :
    -32768 ≤ mixSum volume pcm1 pcm2 ∧ mixSum volume pcm1 pcm2 ≤ 32767 := by
  have half := tdiv_half (Int.le_refl 2) first
  have rest := tdiv_half two second
  unfold mixSum
  omega

theorem sampleAt_append {front rest : List UInt8} {place : Nat} (here : place = front.length) :
    sampleAt (front ++ rest) place = sampleAt rest 0 := by
  unfold sampleAt
  rw [here, List.drop_left, List.drop_zero]

theorem putSample_append {front rest : List UInt8} {place : Nat} (here : place = front.length)
    (b0 b1 : UInt8) (v : Int) :
    putSample (front ++ b0 :: b1 :: rest) place v = (front ++ sampleBytes v) ++ rest := by
  unfold putSample
  rw [here, List.take_left, List.drop_append]
  simp

theorem overlay_nil (volume : Int) (block : List UInt8) : overlay volume block [] = block := by
  apply overlay.eq_2
  intro _ _ _ _ _ _ _ some
  cases some

/-- The loop mixes a part with an even number of bytes. -/
theorem mixSamples_even {volume : Int} {notification : List UInt8} {playFrom copylen i : Nat}
    (two : 2 ≤ volume) (part front rest tail : List UInt8) (heard sums : List Int)
    (even : part.length % 2 = 0) (fits : part.length ≤ rest.length) (here : i = front.length)
    (left : notification.drop (playFrom + i) = part ++ tail) (until_ : copylen = i + part.length)
    (inside : ∀ v ∈ sums, -32768 ≤ v ∧ v ≤ 32767) :
    ∃ m, mixSamples volume notification playFrom copylen i ⟨front ++ rest, heard, sums⟩ = some m ∧
      m.pucBuffer = front ++ overlay volume rest part ∧ m.heard = heard ++ samples part ∧
      ∀ v ∈ m.sums, -32768 ≤ v ∧ v ≤ 32767 := by
  induction part using samples.induct generalizing front rest heard sums i with
  | case1 n0 n1 part ih =>
    obtain ⟨b0, b1, rest, rfl⟩ : ∃ b0 b1 more, rest = b0 :: b1 :: more := by
      match rest, fits with
      | b0 :: b1 :: more, _ => exact ⟨b0, b1, more, rfl⟩
    have more : i < copylen := by
      rw [until_, List.length_cons]
      omega
    have first : sampleAt (front ++ b0 :: b1 :: rest) i = some (sample b0 b1) :=
      sampleAt_append here
    have second : sampleAt notification (playFrom + i) = some (sample n0 n1) := by
      unfold sampleAt
      rw [left]
      rfl
    rw [mixSamples, if_pos more]
    dsimp only
    rw [first, second]
    dsimp only
    rw [putSample_append here]
    obtain ⟨m, run, buffer, heard_, sums_⟩ := @ih (i + 2)
      (front ++ sampleBytes (mixSum volume (sample b0 b1) (sample n0 n1))) rest
      (heard ++ [sample n0 n1]) (sums ++ [mixSum volume (sample b0 b1) (sample n0 n1)])
      (by rw [List.length_cons, List.length_cons] at even; omega)
      (Nat.le_of_succ_le_succ (Nat.le_of_succ_le_succ fits))
      (by rw [List.length_append, here]; rfl)
      (by rw [← Nat.add_assoc, ← List.drop_drop, left]; rfl)
      (by rw [until_, List.length_cons, List.length_cons]; omega)
      (by
        intro v member
        rcases List.mem_append.mp member with old | new
        · exact inside v old
        · rw [List.mem_singleton.mp new]
          exact mixSum_bounds two (sample_bounds b0 b1) (sample_bounds n0 n1))
    refine ⟨m, run, ?_, ?_, sums_⟩
    · rw [buffer, List.append_assoc]
      rfl
    · rw [heard_, List.append_assoc]
      rfl
  | case2 part short =>
    have none : part = [] := by
      match part, even with
      | [], _ => rfl
      | [_], odd => cases odd
      | n0 :: n1 :: more, _ => exact (short n0 n1 more rfl).elim
    have done : ¬ i < copylen := by
      rw [until_, none]
      exact Nat.lt_irrefl i
    rw [mixSamples, if_neg done, none]
    exact ⟨_, rfl, by rw [overlay_nil], (List.append_nil heard).symm, inside⟩

/-- A part with an odd number of bytes ends behind its block or behind the notification. -/
theorem mixSamples_odd {volume : Int} {notification : List UInt8} {playFrom copylen i : Nat}
    (part front rest tail : List UInt8) (heard sums : List Int)
    (odd : part.length % 2 = 1) (here : i = front.length)
    (left : notification.drop (playFrom + i) = part ++ tail) (until_ : copylen = i + part.length)
    (end_ : rest.length = part.length ∨ tail = []) :
    mixSamples volume notification playFrom copylen i ⟨front ++ rest, heard, sums⟩ = none := by
  induction part using samples.induct generalizing front rest heard sums i with
  | case1 n0 n1 part ih =>
    have more : i < copylen := by
      rw [until_, List.length_cons]
      omega
    rw [mixSamples, if_pos more]
    dsimp only
    rw [sampleAt_append here]
    match rest with
    | b0 :: b1 :: rest =>
      have second : sampleAt notification (playFrom + i) = some (sample n0 n1) := by
        unfold sampleAt
        rw [left]
        rfl
      have first : sampleAt (b0 :: b1 :: rest) 0 = some (sample b0 b1) := rfl
      rw [first, second]
      dsimp only
      rw [putSample_append here]
      apply ih
      · rw [List.length_cons, List.length_cons] at odd
        omega
      · rw [List.length_append, here]
        rfl
      · rw [← Nat.add_assoc, ← List.drop_drop, left]
        rfl
      · rw [until_, List.length_cons, List.length_cons]
        omega
      · exact end_.imp_left fun same => Nat.succ.inj (Nat.succ.inj same)
    | [] => rfl
    | [_] => rfl
  | case2 part short =>
    obtain ⟨n0, rfl⟩ : ∃ n0, part = [n0] := by
      match part, odd with
      | [n0], _ => exact ⟨n0, rfl⟩
      | n0 :: n1 :: more, _ => exact (short n0 n1 more rfl).elim
    have more : i < copylen := by
      rw [until_]
      exact Nat.lt_succ_self i
    rw [mixSamples, if_pos more]
    dsimp only
    rw [sampleAt_append here]
    rcases end_ with block | rfl
    · match rest, block with
      | [_], _ => rfl
    · have cut : sampleAt notification (playFrom + i) = none := by
        unfold sampleAt
        rw [left]
        rfl
      rw [cut]
      cases sampleAt rest 0 <;> rfl

/-! ### A callback -/

theorem overlay_take (volume : Int) (block rest : List UInt8) {n : Nat} (all : block.length ≤ n) :
    overlay volume block (rest.take n) = overlay volume block rest := by
  fun_induction overlay volume block rest generalizing n with
  | case1 b0 b1 block n0 n1 rest ih =>
    match n, all with
    | n + 2, all => exact congrArg _ (ih (Nat.le_of_succ_le_succ (Nat.le_of_succ_le_succ all)))
  | case2 block rest none =>
    apply overlay.eq_2
    intro b0 b1 block' n0 n1 rest' same cut
    have two : 2 ≤ rest.length := by
      have length := congrArg List.length cut
      rw [List.length_take, List.length_cons, List.length_cons] at length
      omega
    match rest, two with
    | m0 :: m1 :: more, _ => exact none b0 b1 block' m0 m1 more same rfl

theorem samples_append (xs ys : List UInt8) (even : xs.length % 2 = 0) :
    samples (xs ++ ys) = samples xs ++ samples ys := by
  fun_induction samples xs with
  | case1 lo hi rest ih =>
    have rest_even : rest.length % 2 = 0 := by
      rw [List.length_cons, List.length_cons] at even
      omega
    exact congrArg _ (ih rest_even)
  | case2 xs none =>
    match xs, even with
    | [], _ => rfl
    | lo :: hi :: rest, _ => exact (none lo hi rest rfl).elim

/-- The notification is stored and has been played up to `place`. -/
structure Holding (notification : List UInt8) (callback : Bool) (place : Nat) (s : Notification) :
    Prop where
  buffer : s.pucNotificationBuffer = some notification
  length : s.iNotificationBufferLen = notification.length
  playFrom : s.iNotificationBufferPlayFrom = place
  inside : place ≤ notification.length
  even : place % 2 = 0
  callback : s.notificationCallback = callback

/-- What holds at every time. -/
structure Audible (s : Notification) : Prop where
  volume : 2 ≤ s.iNotificationVolume
  sums : ∀ v ∈ s.sums, -32768 ≤ v ∧ v ≤ 32767

theorem setVolume_two (volume : Int) : 2 ≤ vauSetNotificationVolume volume := by
  unfold vauSetNotificationVolume AUDIO_NOTIFICATION_VOLUME_MAX
  split
  · decide
  · split <;> omega

section Callback
variable {notification : List UInt8} {callback : Bool} {place : Nat} {s : Notification}

theorem Holding.still (holding : Holding notification callback place s) (volume : Int)
    (blocks : List (List UInt8)) : Holding notification callback place
      { s with iNotificationVolume := volume, blocks } :=
  ⟨holding.buffer, holding.length, holding.playFrom, holding.inside, holding.even, holding.callback⟩

theorem Audible.set (sound : Audible s) (volume : Int) :
    Audible { s with iNotificationVolume := vauSetNotificationVolume volume } :=
  ⟨setVolume_two volume, sound.sums⟩

theorem Audible.block (sound : Audible s) (blocks : List (List UInt8)) :
    Audible { s with blocks } :=
  ⟨sound.volume, sound.sums⟩

/-- The part of a stored notification that a callback mixes. -/
theorem get_part (holding : Holding notification callback place s) (block : List UInt8) :
    ∃ part tail, notification.drop (s.iNotificationBufferPlayFrom + 0) = part ++ tail ∧
      part = (notification.drop place).take block.length ∧
      place + part.length = min notification.length (place + block.length) ∧
      s.copylen block.length = 0 + part.length ∧
      (block.length = part.length ∨ tail = []) := by
  have inside := holding.inside
  have length : ((notification.drop place).take block.length).length =
      min block.length (notification.length - place) := by
    rw [List.length_take, List.length_drop]
  refine ⟨_, (notification.drop place).drop block.length, ?_, rfl, ?_, ?_, ?_⟩
  · rw [List.take_append_drop, holding.playFrom, Nat.add_zero]
  · rw [length]
    omega
  · unfold Notification.copylen
    rw [length, holding.length, holding.playFrom]
    dsimp only
    split <;> omega
  · rw [length, List.drop_eq_nil_iff, List.length_drop]
    omega

/-- What has been mixed is stored; at the end of the notification it is cleared. -/
theorem mixed_cases (holding : Holding notification callback place s) (m : Mixing) {copylen : Nat}
    (until_ : place + copylen = min notification.length next) (even : (place + copylen) % 2 = 0) :
    (s.mixed copylen m).iNotificationVolume = s.iNotificationVolume ∧
      (s.mixed copylen m).blocks = s.blocks ++ [m.pucBuffer] ∧
      (s.mixed copylen m).heard = m.heard ∧ (s.mixed copylen m).sums = m.sums ∧
      if next < notification.length then
        Holding notification callback next (s.mixed copylen m) ∧
          (s.mixed copylen m).completed = s.completed
      else (s.mixed copylen m).pucNotificationBuffer = none ∧
        (s.mixed copylen m).completed = s.completed + if callback then 1 else 0 := by
  unfold Notification.mixed
  rw [holding.playFrom, holding.length, holding.callback]
  rcases Nat.lt_or_ge next notification.length with more | last
  · rw [Nat.min_eq_right (Nat.le_of_lt more)] at until_
    rw [until_] at even
    rw [until_, if_neg (Nat.not_le.mpr more), if_pos more]
    exact ⟨rfl, rfl, rfl, rfl, ⟨holding.buffer, rfl, rfl, Nat.le_of_lt more, even, rfl⟩, rfl⟩
  · rw [Nat.min_eq_left last] at until_
    rw [until_, if_pos (Nat.le_refl _), if_neg (Nat.not_lt.mpr last)]
    refine ⟨rfl, rfl, rfl, rfl, rfl, ?_⟩
    cases callback <;> rfl

/-- A callback that mixes whole samples. -/
theorem get_even (holding : Holding notification callback place s) (sound : Audible s)
    (block : List UInt8) (even : min notification.length (place + block.length) % 2 = 0) :
    ∃ t, vauNotificationGet s block = some t ∧ Audible t ∧
      t.iNotificationVolume = s.iNotificationVolume ∧
      t.blocks = s.blocks ++ [overlay s.iNotificationVolume block (notification.drop place)] ∧
      t.heard = s.heard ++ samples ((notification.drop place).take block.length) ∧
      if place + block.length < notification.length then
        Holding notification callback (place + block.length) t ∧ t.completed = s.completed
      else t.pucNotificationBuffer = none ∧
        t.completed = s.completed + if callback then 1 else 0 := by
  obtain ⟨part, tail, left, part_eq, sum, copylen, end_⟩ := get_part holding block
  have size : part.length ≤ block.length := by
    rw [part_eq]
    exact List.length_take_le _ _
  have start := holding.even
  obtain ⟨m, run, buffer, heard, sums⟩ := @mixSamples_even _ _ _ _ 0 sound.volume part [] block tail
    s.heard s.sums (by omega) size rfl left copylen sound.sums
  rw [List.nil_append] at run buffer
  rw [part_eq, overlay_take _ _ _ (Nat.le_refl _)] at buffer
  have until_ : place + s.copylen block.length =
      min notification.length (place + block.length) := by
    rw [copylen, Nat.zero_add, sum]
  obtain ⟨volume, blocks, heard', sums', next⟩ :=
    mixed_cases holding m until_ (by rw [until_, even])
  refine ⟨s.mixed (s.copylen block.length) m, ?_, ⟨?_, ?_⟩, volume, ?_, ?_, next⟩
  · unfold vauNotificationGet
    rw [holding.buffer]
    dsimp only
    rw [run, Option.map_some]
  · rw [volume]
    exact sound.volume
  · rw [sums']
    exact sums
  · rw [blocks, buffer]
  · rw [heard', heard, part_eq]

/-- A callback that ends within a sample. -/
theorem get_odd (holding : Holding notification callback place s) (block : List UInt8)
    (odd : min notification.length (place + block.length) % 2 = 1) :
    vauNotificationGet s block = none := by
  obtain ⟨part, tail, left, part_eq, sum, copylen, end_⟩ := get_part holding block
  have start := holding.even
  have run := @mixSamples_odd s.iNotificationVolume notification s.iNotificationBufferPlayFrom _ 0
    part [] block tail s.heard s.sums (by omega) rfl left copylen end_
  rw [List.nil_append] at run
  unfold vauNotificationGet
  rw [holding.buffer]
  dsimp only
  rw [run]
  rfl

end Callback

/-! ### A run -/

/-- Without a notification the blocks are played as they are. -/
theorem playEvents_idle (events : List PlayEvent) (s : Notification) (sound : Audible s)
    (idle : s.pucNotificationBuffer = none) :
    ∃ t, events.foldlM playEvent s = some t ∧ t.heard = s.heard ∧
      t.blocks = s.blocks ++ overlaid s.iNotificationVolume [] events ∧
      (∀ v ∈ t.sums, -32768 ≤ v ∧ v ≤ 32767) ∧ t.completed = s.completed := by
  induction events generalizing s with
  | nil => exact ⟨s, rfl, rfl, (List.append_nil _).symm, sound.sums, rfl⟩
  | cons e events ih =>
    have as_it_is : ∀ block, playEvent s (.get true block) = playEvent s (.get false block) := by
      intro block
      unfold playEvent vauNotificationGet
      rw [idle]
    match e with
    | .setVolume volume => exact ih _ (sound.set volume) idle
    | .get false block =>
      obtain ⟨t, run, heard, blocks, rest⟩ :=
        ih _ (sound.block (s.blocks ++ [block])) idle
      refine ⟨t, run, heard, ?_, rest⟩
      rw [blocks, List.append_assoc]
      rfl
    | .get true block =>
      obtain ⟨t, run, heard, blocks, rest⟩ :=
        ih _ (sound.block (s.blocks ++ [block])) idle
      rw [List.foldlM_cons, as_it_is]
      refine ⟨t, run, heard, ?_, rest⟩
      rw [blocks, List.append_assoc, overlaid, List.drop_nil, overlay_nil]
      rfl

section Run
variable {notification : List UInt8} {callback : Bool} {place : Nat} {s : Notification}

/-- After each of the callbacks that find the lock a whole number of samples has been mixed. -/
def WholeSamples (n place : Nat) (blocks : List (List UInt8)) : Prop :=
  ∀ k, min n (place + (blocks.take k).flatten.length) % 2 = 0

theorem WholeSamples.first {n : Nat} {block : List UInt8} {blocks : List (List UInt8)}
    (whole : WholeSamples n place (block :: blocks)) : min n (place + block.length) % 2 = 0 := by
  have one := whole 1
  rw [List.take_succ_cons, List.take_zero, List.flatten_singleton] at one
  exact one

theorem WholeSamples.rest {n : Nat} {block : List UInt8} {blocks : List (List UInt8)}
    (whole : WholeSamples n place (block :: blocks)) :
    WholeSamples n (place + block.length) blocks := by
  intro k
  have next := whole (k + 1)
  rw [List.take_succ_cons, List.flatten_cons, List.length_append, ← Nat.add_assoc] at next
  exact next

theorem playEvents_holding (events : List PlayEvent)
    (holding : Holding notification callback place s) (sound : Audible s)
    (whole : WholeSamples notification.length place (gets events)) :
    ∃ t, events.foldlM playEvent s = some t ∧
      t.heard = s.heard ++
        samples ((notification.drop place).take (gets events).flatten.length) ∧
      t.blocks = s.blocks ++ overlaid s.iNotificationVolume (notification.drop place) events ∧
      (∀ v ∈ t.sums, -32768 ≤ v ∧ v ≤ 32767) ∧
      t.completed = s.completed +
        if callback ∧ gets events ≠ [] ∧
          notification.length ≤ place + (gets events).flatten.length then 1 else 0 := by
  induction events generalizing s place with
  | nil =>
    refine ⟨s, rfl, (List.append_nil _).symm, (List.append_nil _).symm, sound.sums, ?_⟩
    rw [if_neg (fun all => all.2.1 rfl), Nat.add_zero]
  | cons e events ih =>
    match e with
    | .setVolume volume => exact ih (holding.still _ s.blocks) (sound.set volume) whole
    | .get false block =>
      obtain ⟨t, run, heard, blocks, rest⟩ :=
        ih (holding.still s.iNotificationVolume _) (sound.block (s.blocks ++ [block])) whole
      refine ⟨t, run, heard, ?_, rest⟩
      rw [blocks, List.append_assoc]
      rfl
    | .get true block =>
      obtain ⟨u, got, sound', volume, blocks, heard, next⟩ :=
        get_even holding sound block whole.first
      have step : playEvent s (.get true block) = some u := got
      have served : (gets (.get true block :: events)).flatten.length =
          block.length + (gets events).flatten.length := by
        rw [gets, List.flatten_cons, List.length_append]
      rw [List.foldlM_cons, step, Option.bind_eq_bind, Option.bind_some, served, ← Nat.add_assoc,
        overlaid, List.drop_drop]
      split at next
      · rename_i more
        obtain ⟨t, run, heard', blocks', sums, completed⟩ := ih next.1 sound' whole.rest
        refine ⟨t, run, ?_, ?_, sums, ?_⟩
        · have even : ((notification.drop place).take block.length).length % 2 = 0 := by
            have start := holding.even
            have end_ := next.1.even
            rw [List.length_take, List.length_drop]
            omega
          rw [heard', heard, List.append_assoc, List.take_add, samples_append _ _ even,
            List.drop_drop]
        · rw [blocks', blocks, volume, List.append_assoc]
          rfl
        · have same : (callback = true ∧ gets events ≠ [] ∧ notification.length ≤
                place + block.length + (gets events).flatten.length) ↔
              (callback = true ∧ gets (.get true block :: events) ≠ [] ∧ notification.length ≤
                place + block.length + (gets events).flatten.length) := by
            refine and_congr_right fun _ => and_congr_left fun reached =>
              ⟨fun _ => List.cons_ne_nil _ _, fun _ none => ?_⟩
            rw [none, List.flatten_nil, List.length_nil, Nat.add_zero] at reached
            exact Nat.not_lt.mpr reached more
          rw [completed, next.2]
          exact congrArg _ (if_congr same rfl rfl)
      · rename_i last
        obtain ⟨t, run, heard', blocks', sums, completed⟩ := playEvents_idle events u sound' next.1
        have all : (notification.drop place).length ≤ block.length := by
          rw [List.length_drop]
          omega
        refine ⟨t, run, ?_, ?_, sums, ?_⟩
        · rw [heard', heard, List.take_of_length_le all,
            List.take_of_length_le (Nat.le_trans all (Nat.le_add_right _ _))]
        · have none : notification.drop (place + block.length) = [] :=
            List.drop_eq_nil_of_le (Nat.not_lt.mp last)
          rw [blocks', blocks, volume, none, List.append_assoc]
          rfl
        · have reached : notification.length ≤
              place + block.length + (gets events).flatten.length :=
            Nat.le_trans (Nat.not_lt.mp last) (Nat.le_add_right _ _)
          rw [completed, next.2]
          refine congrArg _ (if_congr ?_ rfl rfl)
          exact ⟨fun called => ⟨called, List.cons_ne_nil _ _, reached⟩, And.left⟩

/-- A run that stays in the buffers has mixed whole samples. -/
theorem wholeSamples_of_run (events : List PlayEvent)
    (holding : Holding notification callback place s) (sound : Audible s) {t : Notification}
    (run : events.foldlM playEvent s = some t) :
    WholeSamples notification.length place (gets events) := by
  have start : min notification.length place % 2 = 0 := by
    rw [Nat.min_eq_right holding.inside]
    exact holding.even
  induction events generalizing s place with
  | nil =>
    intro k
    rw [gets, List.take_nil, List.flatten_nil, List.length_nil, Nat.add_zero]
    exact start
  | cons e events ih =>
    match e with
    | .setVolume volume =>
      exact ih (holding.still _ s.blocks) (sound.set volume) run start
    | .get false block =>
      exact ih (holding.still s.iNotificationVolume _) (sound.block (s.blocks ++ [block])) run start
    | .get true block =>
      rcases Nat.mod_two_eq_zero_or_one (min notification.length (place + block.length))
        with even | odd
      · obtain ⟨u, got, sound', volume, blocks, heard, next⟩ := get_even holding sound block even
        have step : playEvent s (.get true block) = some u := got
        rw [List.foldlM_cons, step, Option.bind_eq_bind, Option.bind_some] at run
        intro k
        match k with
        | 0 => exact start
        | k + 1 =>
          rw [gets, List.take_succ_cons, List.flatten_cons, List.length_append, ← Nat.add_assoc]
          split at next
          · exact ih next.1 sound' run even k
          · rename_i last
            rw [Nat.min_eq_left (Nat.not_lt.mp last)] at even
            rw [Nat.min_eq_left (Nat.le_trans (Nat.not_lt.mp last) (Nat.le_add_right _ _))]
            exact even
      · have step : playEvent s (.get true block) = none := get_odd holding block odd
        rw [List.foldlM_cons, step] at run
        cases run

end Run

/-- A notification is mixed as it should be exactly when none of the callbacks ends within one of
its samples. -/
theorem notification_mixed_iff (notification : List UInt8) (callback : Bool)
    (events : List PlayEvent) :
    MixedOnce notification callback events ↔
      ∀ k, min notification.length ((gets events).take k).flatten.length % 2 = 0 := by
  have holding : Holding notification callback 0
      (vauNotificationPlay notificationInit notification callback) :=
    ⟨rfl, rfl, rfl, Nat.zero_le _, rfl, rfl⟩
  have sound : Audible (vauNotificationPlay notificationInit notification callback) :=
    ⟨Int.le_refl 2, List.forall_mem_nil _⟩
  constructor
  · rintro ⟨t, run, -⟩ k
    have whole := wholeSamples_of_run events holding sound run k
    rw [Nat.zero_add] at whole
    exact whole
  · intro whole
    have whole' : WholeSamples notification.length 0 (gets events) := by
      intro k
      rw [Nat.zero_add]
      exact whole k
    obtain ⟨t, run, heard, blocks, sums, completed⟩ :=
      playEvents_holding events holding sound whole'
    rw [Nat.zero_add] at completed
    exact ⟨t, run, heard, blocks, sums, completed.trans (Nat.zero_add _)⟩

/-- A notification of three bytes: the loop reads a fourth. -/
theorem fourth_byte_read : ¬ ∀ (notification : List UInt8) (callback : Bool)
    (events : List PlayEvent), MixedOnce notification callback events := by
  intro all
  obtain ⟨t, run, -⟩ := all [1, 0, 2] true [.get true [0, 0, 0, 0]]
  have none : playEvents [1, 0, 2] true [.get true [0, 0, 0, 0]] = none := by decide +kernel
  rw [none] at run
  cases run

end Rovio.VideoPhone
