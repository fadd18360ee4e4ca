import Rovio.Period.LedConditions
import Rovio.Kit.Window
import Mathlib.Data.List.GetD

/-! What the lights show: the pattern that the calls ask for, whatever the order in which the
callers and the task read and write the memory. -/
namespace Rovio.Led
open Kit

/-! ### The lights -/

/-- Whether the red and the green light are on. -/
def lights (REG_GPIOB_DAT : BitVec 32) : Bool × Bool :=
  (field REG_GPIOB_DAT LED_GPIO_RED = 0, field REG_GPIOB_DAT LED_GPIO_GREEN = 0)

def colours (usColor : Nat) : Bool × Bool :=
  if usColor = LED_BLACK then (false, false)
  else if usColor = LED_RED then (true, false)
  else if usColor = LED_GREEN then (false, true)
  else (true, true)

theorem lights_off (word : BitVec 32) :
    lights (word ||| (LED_GPIO_RED ||| LED_GPIO_GREEN)) = (false, false) := by
  have red : LED_GPIO_RED ≠ 0 := by decide
  have green : LED_GPIO_GREEN ≠ 0 := by decide
  rw [lights, or_eq_setField, field_setField_within _ _ (by decide),
    field_setField_within _ _ (by decide)]
  decide

theorem lights_showColor (word : BitVec 32) (usColor : Nat) :
    lights (showColor word usColor) = colours usColor := by
  unfold showColor colours lights
  have red : LED_GPIO_RED ≠ 0#32 := by decide
  have green : LED_GPIO_GREEN ≠ 0#32 := by decide
  split
  · rw [or_eq_setField, or_eq_setField, field_setField,
      field_setField_apart _ _ (by decide), field_setField]
    simp [red, green]
  · split
    · rw [or_eq_setField, and_not_eq_setField, field_setField,
        field_setField_apart _ _ (by decide), field_setField]
      simp [green]
    · split
      · rw [or_eq_setField, and_not_eq_setField, field_setField,
          field_setField_apart _ _ (by decide), field_setField]
        simp [red]
      · rw [and_not_eq_setField, and_not_eq_setField, field_setField,
          field_setField_apart _ _ (by decide), field_setField]
        simp

/-- Another driver leaves the lights. -/
theorem lights_outpw (value word : BitVec 32) :
    lights (setField value (LED_GPIO_RED ||| LED_GPIO_GREEN) word) = lights word := by
  rw [lights, field_setField_within _ _ (by decide), field_setField_within _ _ (by decide), lights]

/-! ### The copy -/

/-- The array begins with the pattern. -/
def Lists (aDescriptor : Nat → LedDes) (p : List LedDes) : Prop :=
  (List.range p.length).map aDescriptor = p

/-- So many short words of the pattern are in the array. -/
def Copied (aDescriptor : Nat → LedDes) (p : List LedDes) (n : Nat) : Prop :=
  ∀ i (inside : i < p.length), (2 * i < n → (aDescriptor i).usColor = p[i].usColor) ∧
    (2 * i + 1 < n → (aDescriptor i).usTime = p[i].usTime)

section
variable {aDescriptor : Nat → LedDes} {p : List LedDes} {n i : Nat}

theorem Lists.entry (lists : Lists aDescriptor p) (inside : i < p.length) :
    aDescriptor i = p[i] := by
  have entries := congrArg (fun des => des[i]?) lists
  simpa [inside] using entries

theorem Lists.mem (lists : Lists aDescriptor p) (inside : i < p.length) : aDescriptor i ∈ p := by
  rw [lists.entry inside]
  exact List.getElem_mem inside

theorem Copied.lists (copied : Copied aDescriptor p n) (all : ¬ n < 2 * p.length) :
    Lists aDescriptor p := by
  apply List.ext_getElem (by simp)
  intro i _ inside
  obtain ⟨color, time⟩ := copied i inside
  simp only [List.getElem_map, List.getElem_range]
  cases entry : aDescriptor i with
  | mk usColor usTime =>
    rw [entry] at color time
    rw [show usColor = _ from color (by omega), show usTime = _ from time (by omega)]

theorem Copied.copyShort (copied : Copied aDescriptor p n) :
    Copied (copyShort aDescriptor p n) p (n + 1) := by
  intro i inside
  obtain ⟨color, time⟩ := copied i inside
  unfold Led.copyShort
  by_cases here : i = n / 2
  · subst here
    rw [Function.update_self, List.getD_eq_getElem _ _ inside]
    split
    · next even => exact ⟨fun _ => rfl, fun odd => by omega⟩
    · next odd => exact ⟨fun _ => color (by omega), fun _ => rfl⟩
  · rw [Function.update_of_ne here]
    exact ⟨fun before => color (by omega), fun before => time (by omega)⟩

/-- The copy leaves the time of an entry, or sets it to one of the pattern's. -/
theorem copyShort_time (aDescriptor : Nat → LedDes) (more : n < 2 * p.length) (i : Nat) :
    (copyShort aDescriptor p n i).usTime = (aDescriptor i).usTime ∨
      i < p.length ∧ ∃ des ∈ p, (copyShort aDescriptor p n i).usTime = des.usTime := by
  unfold copyShort
  by_cases here : i = n / 2
  · subst here
    have inside : n / 2 < p.length := Nat.div_lt_of_lt_mul more
    rw [Function.update_self, List.getD_eq_getElem _ _ inside]
    split
    · exact .inl rfl
    · exact .inr ⟨inside, _, List.getElem_mem inside, rfl⟩
  · rw [Function.update_of_ne here]
    exact .inl rfl

theorem Showable.goes (showable : Showable p) {des : LedDes} (mem : des ∈ p) (more : 1 < p.length) :
    0 < des.usTime := by
  by_contra never
  have one := showable.ends des mem (by omega)
  omega

end

/-! ### Where the threads stand -/

/-- An entry that the task may read: the first, or one from which it goes on in time. -/
def Usable (status : LedTaskStatus) (i : Nat) : Prop :=
  i < 128 ∧ (i = 0 ∨ 0 < (status.aDescriptor i).usTime)

/-- The time until the task is called next: 150 ticks at most, or that of a light that stays. -/
def InTime (tTimeout : Nat) : Prop := tTimeout = 60000 ∨ tTimeout ≤ 150

def Place.Stands (status : LedTaskStatus) : Place → Prop
  | .away | .entered | .lighting _ => Usable status status.ucDesCurrent
  | .found i | .advanced i | .unlisted i | .showing i =>
    Usable status status.ucDesCurrent ∧ Usable status i
  | .timed i tTimeout =>
    Usable status status.ucDesCurrent ∧ Usable status i ∧ InTime tTimeout
  | .loaded i ucDesCurrent =>
    Usable status status.ucDesCurrent ∧ Usable status i ∧ ucDesCurrent < 128
  | .stored i ucDesCurrent =>
    Usable status i ∧ ucDesCurrent ≤ 128 ∧
      (status.ucDesCurrent = ucDesCurrent ∨ status.ucDesCurrent = 0)
  | .wrapping i => Usable status i

/-- What is in the memory where no copy is under way. -/
def Rests (status : LedTaskStatus) : Option (List LedDes) → Prop
  | none => status.ucDesNum = 0 ∧ status.pTask = false
  | some p => Showable p ∧ Lists status.aDescriptor p ∧ status.ucDesNum = p.length ∧
    status.pTask = true

/-- The pattern that is asked for is copied, and then set up step by step. -/
def Holder.Holds (status : LedTaskStatus) (pattern : Option (List LedDes)) : Holder → Prop
  | .none | .suspended => Rests status pattern
  | .copying p n => pattern = some p ∧ Showable p ∧ Copied status.aDescriptor p n
  | .counting p => pattern = some p ∧ Showable p ∧ Lists status.aDescriptor p
  | .rewinding p | .naming p => pattern = some p ∧ Showable p ∧ Lists status.aDescriptor p ∧
    status.ucDesNum = p.length
  | .registering p => pattern = some p ∧ Rests status (some p)

/-- Whether a copy is under way. -/
def Holder.busy : Holder → Bool
  | .none | .suspended => false
  | _ => true

def Holder.rewinds : Holder → Bool
  | .rewinding _ => true
  | _ => false

def Holder.registers : Holder → Bool
  | .registering _ => true
  | _ => false

/-- The task is registered, but for the time in which `prdTask_LED` registers it again. -/
def Leds.Registered (s : Leds) : Prop :=
  match s.g_prdtskUpdateLED with
  | .deleted => s.place.locked = true ∧ s.g_status_LED.pTask = true
  | .prdNothing tTimeout => s.place = .away ∧ tTimeout = 60000 ∧
    lights s.REG_GPIOB_DAT = (false, false) ∧
    (s.g_status_LED.pTask = true → s.holder.registers = true)
  | .prdTask_LED tTimeout => s.place.locked = false ∧ s.g_status_LED.pTask = true ∧ InTime tTimeout

theorem Holder.holds_idle {status : LedTaskStatus} {pattern : Option (List LedDes)}
    {holder : Holder} (idle : holder.busy = false) :
    holder.Holds status pattern ↔ Rests status pattern := by
  cases holder with
  | none | suspended => exact Iff.rfl
  | _ => cases idle

theorem Holder.idle_steps {holder : Holder} (idle : holder.busy = false) :
    holder.rewinds = false ∧ holder.registers = false := by
  cases holder with
  | none | suspended => exact ⟨rfl, rfl⟩
  | _ => cases idle

/-- Where the task is registered for long, it has shown the colour that stays, or is about to. -/
def Leds.Steady (s : Leds) : Prop :=
  let first := s.g_status_LED.aDescriptor 0
  match s.place with
  | .unlisted _ => True
  | .timed i tTimeout => tTimeout = 60000 → i = 0 ∧ first.usTime = 0
  | .showing i => s.g_prdtskUpdateLED = .prdTask_LED 60000 → i = 0 ∧ first.usTime = 0
  | .lighting usColor =>
    s.g_prdtskUpdateLED = .prdTask_LED 60000 → usColor = first.usColor ∧ first.usTime = 0
  | _ => s.g_prdtskUpdateLED = .prdTask_LED 60000 →
    lights s.REG_GPIOB_DAT = colours first.usColor ∧ first.usTime = 0

/-- Between the increment of `ucDesCurrent` and its comparison. -/
def Place.counts : Place → Bool
  | .stored .. | .wrapping _ => true
  | _ => false

structure Sound (s : Leds) : Prop where
  word : Encodes s.g_uLED_STATUS (asked s.calls).conditions
  short : ∀ i, (s.g_status_LED.aDescriptor i).usTime ≤ 150
  count : s.g_status_LED.ucDesNum < 128
  ends : ∀ i, 0 < i → i < s.g_status_LED.ucDesNum → 0 < (s.g_status_LED.aDescriptor i).usTime
  holder : s.holder.Holds s.g_status_LED (asked s.calls).pattern
  place : s.place.Stands s.g_status_LED
  registered : s.Registered
  steady : s.holder.busy = false → s.Steady
  current : s.holder.rewinds = false → s.place.counts = false → 0 < s.g_status_LED.ucDesNum →
    s.g_status_LED.ucDesCurrent < s.g_status_LED.ucDesNum

theorem sound_ledInit (REG_GPIOB_DAT : BitVec 32) : Sound (ledInit REG_GPIOB_DAT) where
  word := encodes_zero
  short := fun _ => Nat.zero_le _
  count := Nat.zero_lt_succ _
  ends := fun i _ below => absurd below (Nat.not_lt_zero i)
  holder := ⟨rfl, rfl⟩
  place := ⟨Nat.zero_lt_succ _, .inl rfl⟩
  registered := ⟨rfl, rfl, lights_off _, nofun⟩
  steady := fun _ => nofun
  current := fun _ _ some => absurd some (Nat.lt_irrefl 0)

/-! ### Steps of the task -/

variable {s t : Leds}

theorem Leds.Registered.running (registered : s.Registered) (inside : s.place ≠ .away)
    (unlocked : s.place.locked = false) :
    ∃ tTimeout, s.g_prdtskUpdateLED = .prdTask_LED tTimeout ∧ s.g_status_LED.pTask = true ∧
      InTime tTimeout := by
  unfold Registered at registered
  split at registered
  · exact absurd (unlocked.symm.trans registered.1) Bool.false_ne_true
  · exact absurd registered.1 inside
  · next tTimeout task => exact ⟨tTimeout, task, registered.2⟩

/-- With the lock of the tasks the task is not registered. -/
theorem Leds.Registered.unlisted (registered : s.Registered) (locked : s.place.locked = true) :
    s.g_prdtskUpdateLED = .deleted ∧ s.g_status_LED.pTask = true := by
  unfold Registered at registered
  split at registered
  · next task => exact ⟨task, registered.2⟩
  · rw [registered.1] at locked
    cases locked
  · exact absurd (registered.1.symm.trans locked) Bool.false_ne_true

/-- An entry from which the task never goes on is the first. -/
theorem Usable.first {status : LedTaskStatus} {i : Nat} (usable : Usable status i)
    (never : (status.aDescriptor i).usTime = 0) :
    i = 0 ∧ (status.aDescriptor 0).usTime = 0 := by
  have zero : i = 0 := usable.2.resolve_right (by omega)
  exact ⟨zero, zero ▸ never⟩

theorem Sound.prdTask_LED (sound : Sound s) (stepped : s.prdTask_LED = some t) : Sound t := by
  obtain ⟨word, short, count, ends, held, stands, registered, steady, current⟩ := sound
  obtain ⟨g_uLED_STATUS, status, task, REG_GPIOB_DAT, holder, place, calls, lit⟩ := s
  have running := registered.running
  have unlisted := registered.unlisted
  cases place with
  | away =>
    cases task with
    | deleted => cases stepped
    | prdNothing tTimeout =>
      cases Option.some.inj stepped
      exact ⟨word, short, count, ends, held, stands, registered, steady, current⟩
    | prdTask_LED tTimeout =>
      cases Option.some.inj stepped
      exact ⟨word, short, count, ends, held, stands, registered, steady, current⟩
  | entered =>
    cases Option.some.inj stepped
    obtain ⟨tTimeout, rfl, registered⟩ := running nofun rfl
    exact ⟨word, short, count, ends, held, ⟨stands, stands⟩, ⟨rfl, registered⟩, steady, current⟩
  | found i =>
    cases Option.some.inj stepped
    obtain ⟨tTimeout, rfl, registered⟩ := running nofun rfl
    obtain ⟨usable, usable_i⟩ := stands
    exact ⟨word, short, count, ends, held, ⟨usable, usable_i, usable.1⟩, ⟨rfl, registered⟩, steady,
      current⟩
  | loaded i ucDesCurrent =>
    cases Option.some.inj stepped
    obtain ⟨tTimeout, rfl, registered⟩ := running nofun rfl
    obtain ⟨-, usable_i, small⟩ := stands
    have next : (ucDesCurrent + 1) % 256 ≤ 128 := by omega
    exact ⟨word, short, count, ends, held, ⟨usable_i, next, .inl rfl⟩, ⟨rfl, registered⟩, steady,
      fun _ => nofun⟩
  | stored i ucDesCurrent =>
    obtain ⟨tTimeout, rfl, registered⟩ := running nofun rfl
    obtain ⟨usable_i, -, stored⟩ := stands
    change status.ucDesCurrent = ucDesCurrent ∨ status.ucDesCurrent = 0 at stored
    simp only [Leds.prdTask_LED] at stepped
    split at stepped
    · cases stepped
      exact ⟨word, short, count, ends, held, usable_i, ⟨rfl, registered⟩, steady, fun _ => nofun⟩
    · next below =>
      cases stepped
      have below' : status.ucDesCurrent < status.ucDesNum := by
        have small : ucDesCurrent < status.ucDesNum := Nat.lt_of_not_le below
        rcases stored with same | zero
        · exact same ▸ small
        · exact zero ▸ Nat.lt_of_le_of_lt (Nat.zero_le _) small
      have usable : Usable status status.ucDesCurrent := by
        refine ⟨Nat.lt_trans below' count, ?_⟩
        rcases Nat.eq_zero_or_pos status.ucDesCurrent with zero | pos
        · exact .inl zero
        · exact .inr (ends _ pos below')
      exact ⟨word, short, count, ends, held, ⟨usable, usable_i⟩, ⟨rfl, registered⟩, steady,
        fun _ _ _ => below'⟩
  | wrapping i =>
    cases Option.some.inj stepped
    obtain ⟨tTimeout, rfl, registered⟩ := running nofun rfl
    have usable : Usable status 0 := ⟨Nat.zero_lt_succ _, .inl rfl⟩
    exact ⟨word, short, count, ends, held, ⟨usable, stands⟩, ⟨rfl, registered⟩, steady,
      fun _ _ some => some⟩
  | advanced i =>
    obtain ⟨tTimeout, rfl, pTask, inTime⟩ := running nofun rfl
    cases Option.some.inj ((if_pos pTask).symm.trans stepped)
    exact ⟨word, short, count, ends, held, stands, ⟨rfl, pTask⟩, fun _ => trivial, current⟩
  | unlisted i =>
    obtain ⟨rfl, pTask⟩ := unlisted rfl
    obtain ⟨usable, usable_i⟩ := stands
    cases Option.some.inj ((if_pos usable_i.1).symm.trans stepped)
    have inTime : InTime
        (if (status.aDescriptor i).usTime ≠ 0 then (status.aDescriptor i).usTime else 60000) := by
      split
      · exact .inr (short i)
      · exact .inl rfl
    refine ⟨word, short, count, ends, held, ⟨usable, usable_i, inTime⟩, ⟨rfl, pTask⟩, ?_, current⟩
    intro _ long
    split at long
    · have := short i
      omega
    · next never => exact usable_i.first (not_not.mp never)
  | timed i tTimeout =>
    cases Option.some.inj stepped
    obtain ⟨rfl, pTask⟩ := unlisted rfl
    obtain ⟨usable, usable_i, inTime⟩ := stands
    refine ⟨word, short, count, ends, held, ⟨usable, usable_i⟩, ⟨rfl, pTask, inTime⟩, ?_, current⟩
    intro idle long
    exact steady idle (LedTask.prdTask_LED.inj long)
  | showing i =>
    obtain ⟨tTimeout, rfl, registered⟩ := running nofun rfl
    obtain ⟨usable, usable_i⟩ := stands
    cases Option.some.inj ((if_pos usable_i.1).symm.trans stepped)
    refine ⟨word, short, count, ends, held, usable, ⟨rfl, registered⟩, ?_, current⟩
    intro idle long
    obtain ⟨rfl, never⟩ := steady idle long
    exact ⟨rfl, never⟩
  | lighting usColor =>
    cases Option.some.inj stepped
    obtain ⟨tTimeout, rfl, registered⟩ := running nofun rfl
    refine ⟨word, short, count, ends, held, stands, ⟨rfl, registered⟩, ?_, current⟩
    intro idle long
    obtain ⟨same, never⟩ := steady idle long
    exact ⟨(lights_showColor ..).trans (congrArg colours same), never⟩

/-! ### Steps of the callers -/

/-- A copy that changes no entry's time to none keeps what the task stands on. -/
theorem Place.Stands.mono {status status' : LedTaskStatus} {place : Place}
    (stands : place.Stands status) (same : status'.ucDesCurrent = status.ucDesCurrent)
    (keeps : ∀ i, Usable status i → Usable status' i) : place.Stands status' := by
  cases place with
  | away | entered | lighting =>
    rw [Stands, same]
    exact keeps _ stands
  | found i | advanced i | unlisted i | showing i =>
    rw [Stands, same]
    exact ⟨keeps _ stands.1, keeps _ stands.2⟩
  | timed i tTimeout =>
    rw [Stands, same]
    exact ⟨keeps _ stands.1, keeps _ stands.2.1, stands.2.2⟩
  | loaded i ucDesCurrent =>
    rw [Stands, same]
    exact ⟨keeps _ stands.1, keeps _ stands.2.1, stands.2.2⟩
  | stored i ucDesCurrent =>
    rw [Stands, same]
    exact ⟨keeps _ stands.1, stands.2⟩
  | wrapping i => exact keeps _ stands

/-- The task may begin again at any of its steps. -/
theorem Place.Stands.rewound {status : LedTaskStatus} {place : Place}
    (stands : place.Stands status) : place.Stands { status with ucDesCurrent := 0 } := by
  have first : Usable { status with ucDesCurrent := 0 } 0 := ⟨Nat.zero_lt_succ _, .inl rfl⟩
  cases place with
  | away | entered | lighting => exact first
  | found i | advanced i | unlisted i | showing i => exact ⟨first, stands.2⟩
  | timed i tTimeout => exact ⟨first, stands.2⟩
  | loaded i ucDesCurrent => exact ⟨first, stands.2⟩
  | stored i ucDesCurrent => exact ⟨stands.1, stands.2.1, .inr rfl⟩
  | wrapping i => exact stands

theorem Sound.resume (sound : Sound s) (stepped : s.resume = some t) : Sound t := by
  obtain ⟨word, short, count, ends, held, stands, registered, -, current⟩ := sound
  obtain ⟨g_uLED_STATUS, status, task, REG_GPIOB_DAT, holder, place, calls, lit⟩ := s
  cases holder with
  | none | suspended => cases stepped
  | copying p n =>
    obtain ⟨asks, showable, copied⟩ := held
    simp only [Leds.resume] at stepped
    split at stepped
    · next more =>
      cases stepped
      have goes : ∀ i, 0 < i → 0 < (status.aDescriptor i).usTime →
          0 < (copyShort status.aDescriptor p n i).usTime := by
        intro i pos time
        rcases copyShort_time status.aDescriptor more i with same | ⟨inside, des, mem, set⟩
        · exact same ▸ time
        · exact set ▸ showable.goes mem (by omega)
      have keeps : ∀ i, Usable status i →
          Usable { status with aDescriptor := copyShort status.aDescriptor p n } i := by
        intro i usable
        refine ⟨usable.1, ?_⟩
        rcases Nat.eq_zero_or_pos i with zero | pos
        · exact .inl zero
        · exact .inr (goes i pos (usable.2.resolve_left (Nat.ne_of_gt pos)))
      refine ⟨word, fun i => ?_, count, fun i pos below => goes i pos (ends i pos below),
        ⟨asks, showable, copied.copyShort⟩, stands.mono rfl keeps, registered, nofun, current⟩
      rcases copyShort_time status.aDescriptor more i with same | ⟨-, des, mem, set⟩
      · exact same ▸ short i
      · exact set ▸ showable.short des mem
    · next all =>
      cases stepped
      exact ⟨word, short, count, ends, ⟨asks, showable, copied.lists all⟩, stands, registered,
        nofun, current⟩
  | counting p =>
    cases Option.some.inj stepped
    obtain ⟨asks, showable, lists⟩ := held
    have few : p.length % 256 = p.length := Nat.mod_eq_of_lt (by have := showable.entries; omega)
    refine ⟨word, short, ?_, fun i pos below => ?_, ⟨asks, showable, lists, few⟩,
      stands.mono rfl fun _ => id, registered, nofun, nofun⟩
    · exact few.symm ▸ showable.entries.2
    · have inside : i < p.length := few ▸ below
      exact showable.goes (lists.mem inside) (by omega)
  | rewinding p =>
    cases Option.some.inj stepped
    exact ⟨word, short, count, ends, held, stands.rewound, registered, nofun, fun _ _ some => some⟩
  | naming p =>
    cases Option.some.inj stepped
    obtain ⟨asks, showable, lists, counted⟩ := held
    refine ⟨word, short, count, ends, ⟨asks, showable, lists, counted, rfl⟩,
      stands.mono rfl fun _ => id, ?_, nofun, current⟩
    cases task with
    | deleted => exact ⟨registered.1, rfl⟩
    | prdNothing tTimeout =>
      obtain ⟨away, long, off, -⟩ := registered
      exact ⟨away, long, off, fun _ => rfl⟩
    | prdTask_LED tTimeout => exact ⟨registered.1, rfl, registered.2.2⟩
  | registering p =>
    obtain ⟨asks, rests⟩ := held
    simp only [Leds.resume] at stepped
    split at stepped
    · cases stepped
    · next unlocked =>
      cases stepped
      have open_ : place.locked = false := by simpa using unlocked
      refine ⟨word, short, count, ends, ?_, stands, ⟨open_, rests.2.2.2, .inr (Nat.zero_le _)⟩, ?_,
        fun _ => current rfl⟩
      · exact asks ▸ rests
      · intro _
        have soon : LedTask.prdTask_LED 0 ≠ .prdTask_LED 60000 := by decide
        cases place with
        | unlisted | timed => cases open_
        | _ => exact fun long => absurd long soon

theorem Sound.ledShowState (sound : Sound s) (idle : s.holder = .none) {c : LedCall}
    {word : BitVec 32} {p : List LedDes}
    (encodes : Encodes word ((asked s.calls).after c).conditions)
    (asks : ((asked s.calls).after c).pattern = some p) (showable : Showable p) :
    Sound { ledShowState { s with g_uLED_STATUS := word } p with calls := s.calls ++ [c] } := by
  obtain ⟨-, short, count, ends, held, stands, registered, steady, current⟩ := sound
  obtain ⟨g_uLED_STATUS, status, task, REG_GPIOB_DAT, holder, place, calls, lit⟩ := s
  subst idle
  have encodes' : Encodes word (asked (calls ++ [c])).conditions := asked_append calls c ▸ encodes
  have asks' : (asked (calls ++ [c])).pattern = some p := asked_append calls c ▸ asks
  have few : p.length % 256 = p.length := Nat.mod_eq_of_lt (by have := showable.entries; omega)
  unfold Led.ledShowState
  split
  · rw [if_pos showable.entries.2]
    have copied : Copied status.aDescriptor p 0 := fun i _ => ⟨nofun, nofun⟩
    refine ⟨encodes', short, count, ends, ⟨asks', showable, copied⟩, stands, ?_, nofun, current⟩
    cases task with
    | deleted => exact registered
    | prdNothing tTimeout =>
      obtain ⟨away, long, off, named⟩ := registered
      exact ⟨away, long, off, fun pTask => nomatch named pTask⟩
    | prdTask_LED tTimeout => exact registered
  · next same =>
    simp only [not_or, not_not, Bool.not_eq_false] at same
    obtain ⟨counted, lists, pTask⟩ := same
    have rests : Rests status (some p) := ⟨showable, lists, few ▸ counted, pTask⟩
    exact ⟨encodes', short, count, ends, asks'.symm ▸ rests, stands, registered, steady, current⟩

/-- Only a copy makes a difference to the task. -/
theorem Sound.hold (sound : Sound s) {holder : Holder} (idle : s.holder.busy = false)
    (idle' : holder.busy = false) : Sound { s with holder } := by
  obtain ⟨word, short, count, ends, held, stands, registered, steady, current⟩ := sound
  obtain ⟨g_uLED_STATUS, status, task, REG_GPIOB_DAT, before, place, calls, lit⟩ := s
  have rests := (Holder.holds_idle idle).mp held
  refine ⟨word, short, count, ends, (Holder.holds_idle idle').mpr rests, stands, ?_,
    fun _ => steady idle, fun _ => current (Holder.idle_steps idle).1⟩
  cases task with
  | deleted | prdTask_LED => exact registered
  | prdNothing tTimeout =>
    obtain ⟨away, long, off, named⟩ := registered
    exact ⟨away, long, off, fun pTask =>
      absurd ((Holder.idle_steps idle).2.symm.trans (named pTask)) Bool.false_ne_true⟩

theorem Sound.outpw (sound : Sound s) {word : BitVec 32}
    (same : lights word = lights s.REG_GPIOB_DAT) : Sound { s with REG_GPIOB_DAT := word } := by
  obtain ⟨encodes, short, count, ends, held, stands, registered, steady, current⟩ := sound
  obtain ⟨g_uLED_STATUS, status, task, REG_GPIOB_DAT, holder, place, calls, lit⟩ := s
  refine ⟨encodes, short, count, ends, held, stands, ?_, fun idle => ?_, current⟩
  · cases task with
    | deleted | prdTask_LED => exact registered
    | prdNothing tTimeout =>
      obtain ⟨away, long, off, named⟩ := registered
      exact ⟨away, long, same.trans off, named⟩
  · cases place with
    | unlisted | timed | showing | lighting => exact steady idle
    | _ =>
      intro long
      obtain ⟨lit, never⟩ := steady idle long
      exact ⟨same.trans lit, never⟩

theorem Sound.step {action : Action} (sound : Sound s) (stepped : s.step action = some t) :
    Sound t := by
  cases action with
  | call c =>
    simp only [Leds.step] at stepped
    split at stepped
    · next idle =>
      cases stepped
      cases call_calls sound.word c with
      | idle same unchanged =>
        obtain ⟨word, short, count, ends, held, stands, registered, steady, current⟩ := sound
        rw [same]
        rw [← unchanged, ← asked_append] at word held
        exact ⟨word, short, count, ends, held, stands, registered, steady, current⟩
      | asks word p encodes pattern showable call =>
        rw [call]
        exact sound.ledShowState idle encodes pattern showable
    · cases stepped
  | resume => exact sound.resume stepped
  | ledSuspend =>
    simp only [Leds.step] at stepped
    split at stepped
    · next idle =>
      cases stepped
      exact sound.hold (idle ▸ rfl) rfl
    · cases stepped
  | ledWakeup =>
    simp only [Leds.step] at stepped
    split at stepped
    · next idle =>
      cases stepped
      exact sound.hold (idle ▸ rfl) rfl
    · cases stepped
  | prdTask_LED => exact sound.prdTask_LED stepped
  | outpw value =>
    cases Option.some.inj stepped
    exact sound.outpw (lights_outpw value s.REG_GPIOB_DAT)

/-! ### Runs -/

section
variable {REG_GPIOB_DAT : BitVec 32} {actions : List Action}

theorem Sound.run (run : Run Steps (ledInit REG_GPIOB_DAT) actions s) : Sound s :=
  run.invariant Sound (fun _ _ _ sound stepped => sound.step stepped) (sound_ledInit REG_GPIOB_DAT)

theorem Sound.rests (sound : Sound s) (idle : s.holder.busy = false) :
    Rests s.g_status_LED (asked s.calls).pattern :=
  (Holder.holds_idle idle).mp sound.holder

/-- The task reads no entry outside the array and finds its pointer, whatever it runs into. -/
theorem Sound.continues (sound : Sound s) : s.prdTask_LED.isSome = true := by
  obtain ⟨-, -, -, -, -, stands, registered, -, -⟩ := sound
  obtain ⟨g_uLED_STATUS, status, task, REG_GPIOB_DAT, holder, place, calls, lit⟩ := s
  have running := registered.running
  cases place with
  | away =>
    cases task with
    | deleted => cases registered.1
    | prdNothing | prdTask_LED => rfl
  | advanced i =>
    obtain ⟨_, _, pTask, _⟩ := running nofun rfl
    exact congrArg Option.isSome (if_pos pTask)
  | unlisted i | showing i => exact congrArg Option.isSome (if_pos stands.2.1)
  | _ => rfl

end

/-! ### In turn -/

/-- The `j`th entry of a pattern that is gone through again and again. -/
def turn (p : List LedDes) (j : Nat) : LedDes := p.getD (j % p.length) ⟨0, 0⟩

def LedDes.ticks (des : LedDes) : Nat := if des.usTime ≠ 0 then des.usTime else 60000

/-- No call begins. -/
def Quiet (_ : Leds) : Action → Prop
  | .call _ => False
  | _ => True

instance : DecidablePred (Quiet s) := fun
  | .call _ => isFalse id
  | .resume | .ledSuspend | .ledWakeup | .prdTask_LED | .outpw _ => isTrue trivial

/-- Where the task stands with the entry `j` of the pattern. -/
def Leds.At (s : Leds) (p : List LedDes) (j : Nat) : Prop :=
  let status := s.g_status_LED
  match s.place with
  | .away | .entered => status.ucDesCurrent = j % p.length
  | .found i => i = j % p.length ∧ status.ucDesCurrent = i
  | .loaded i ucDesCurrent => i = j % p.length ∧ ucDesCurrent = i
  | .stored i ucDesCurrent =>
    i = j % p.length ∧ ucDesCurrent = i + 1 ∧ status.ucDesCurrent = i + 1
  | .wrapping i => i = j % p.length ∧ (j + 1) % p.length = 0
  | .advanced i | .unlisted i => i = j % p.length ∧ status.ucDesCurrent = (j + 1) % p.length
  | .timed i tTimeout => i = j % p.length ∧ status.ucDesCurrent = (j + 1) % p.length ∧
    tTimeout = (turn p j).ticks
  | .showing i => i = j % p.length ∧ status.ucDesCurrent = (j + 1) % p.length ∧
    s.g_prdtskUpdateLED = .prdTask_LED (turn p j).ticks
  | .lighting usColor => usColor = (turn p j).usColor ∧ status.ucDesCurrent = (j + 1) % p.length ∧
    s.g_prdtskUpdateLED = .prdTask_LED (turn p j).ticks

/-- The lights have gone through so many entries of the pattern since they had lit `lit`. -/
structure Turned (p : List LedDes) (k : Nat) (lit : List Nat) (m : Nat) (s : Leds) : Prop where
  idle : s.holder.busy = false
  rests : Rests s.g_status_LED (some p)
  lit : s.lit = lit ++ (List.range m).map fun j => (turn p (k + j)).usColor
  stands : s.At p (k + m)
  last : ∀ j, m = j + 1 → s.place = .away →
    lights s.REG_GPIOB_DAT = colours (turn p (k + j)).usColor ∧
      s.g_prdtskUpdateLED = .prdTask_LED (turn p (k + j)).ticks

section
variable {p : List LedDes} {k m : Nat} {lit : List Nat}

theorem Rests.turn {status : LedTaskStatus} (rests : Rests status (some p)) (j : Nat) :
    status.aDescriptor (j % p.length) = Led.turn p j := by
  obtain ⟨showable, lists, -⟩ := rests
  have inside := Nat.mod_lt j showable.entries.1
  rw [lists.entry inside, Led.turn, List.getD_eq_getElem _ _ inside]

theorem resume_idle (idle : s.holder.busy = false) : s.resume = none := by
  unfold Leds.resume
  cases holder : s.holder with
  | none | suspended => rfl
  | _ => cases holder ▸ idle

theorem Turned.prdTask_LED (turned : Turned p k lit m s) (stepped : s.prdTask_LED = some t) :
    ∃ m, Turned p k lit m t := by
  obtain ⟨idle, rests, shown, stands, last⟩ := turned
  obtain ⟨g_uLED_STATUS, status, task, REG_GPIOB_DAT, holder, place, calls, before⟩ := s
  have entry := rests.turn (k + m)
  have counted : status.ucDesNum = p.length := rests.2.2.1
  have next := nextOne_mod rests.1.entries.1 (k + m)
  unfold nextOne at next
  cases place with
  | away =>
    cases task with
    | deleted => cases stepped
    | prdNothing tTimeout =>
      cases Option.some.inj stepped
      exact ⟨m, idle, rests, shown, stands, last⟩
    | prdTask_LED tTimeout =>
      cases Option.some.inj stepped
      exact ⟨m, idle, rests, shown, stands, fun _ _ => nofun⟩
  | entered =>
    cases Option.some.inj stepped
    exact ⟨m, idle, rests, shown, ⟨stands, rfl⟩, fun _ _ => nofun⟩
  | found i =>
    cases Option.some.inj stepped
    exact ⟨m, idle, rests, shown, stands, fun _ _ => nofun⟩
  | loaded i ucDesCurrent =>
    cases Option.some.inj stepped
    obtain ⟨rfl, rfl⟩ := stands
    have small := Nat.mod_lt (k + m) rests.1.entries.1
    have few := rests.1.entries.2
    have wide : ((k + m) % p.length + 1) % 256 = (k + m) % p.length + 1 :=
      Nat.mod_eq_of_lt (by omega)
    exact ⟨m, idle, rests, shown, ⟨rfl, wide, wide⟩, fun _ _ => nofun⟩
  | stored i ucDesCurrent =>
    obtain ⟨rfl, rfl, current⟩ := stands
    simp only [Leds.prdTask_LED] at stepped
    split at stepped
    · next round =>
      cases stepped
      rw [if_pos (counted ▸ round)] at next
      exact ⟨m, idle, rests, shown, ⟨rfl, next.symm⟩, fun _ _ => nofun⟩
    · next inside =>
      cases stepped
      rw [if_neg (counted ▸ inside)] at next
      exact ⟨m, idle, rests, shown, ⟨rfl, current.trans next⟩, fun _ _ => nofun⟩
  | wrapping i =>
    cases Option.some.inj stepped
    exact ⟨m, idle, rests, shown, ⟨stands.1, stands.2.symm⟩, fun _ _ => nofun⟩
  | advanced i =>
    cases Option.some.inj ((if_pos rests.2.2.2).symm.trans stepped)
    exact ⟨m, idle, rests, shown, stands, fun _ _ => nofun⟩
  | unlisted i =>
    simp only [Leds.prdTask_LED] at stepped
    split at stepped
    · cases stepped
      obtain ⟨rfl, current⟩ := stands
      exact ⟨m, idle, rests, shown, ⟨rfl, current, by rw [entry]; rfl⟩, fun _ _ => nofun⟩
    · cases stepped
  | timed i tTimeout =>
    cases Option.some.inj stepped
    obtain ⟨rfl, current, rfl⟩ := stands
    exact ⟨m, idle, rests, shown, ⟨rfl, current, rfl⟩, fun _ _ => nofun⟩
  | showing i =>
    simp only [Leds.prdTask_LED] at stepped
    split at stepped
    · cases stepped
      obtain ⟨rfl, current, registered⟩ := stands
      exact ⟨m, idle, rests, shown, ⟨congrArg LedDes.usColor entry, current, registered⟩,
        fun _ _ => nofun⟩
    · cases stepped
  | lighting usColor =>
    cases Option.some.inj stepped
    obtain ⟨rfl, current, registered⟩ := stands
    refine ⟨m + 1, idle, rests, ?_, current, ?_⟩
    · change before ++ [_] = _
      rw [show before = _ from shown, List.range_succ, List.map_append, List.append_assoc]
      rfl
    · rintro j same -
      cases Nat.succ.inj same
      exact ⟨lights_showColor .., registered⟩

theorem Turned.step {action : Action} (turned : Turned p k lit m s) (quiet : Quiet s action)
    (stepped : s.step action = some t) : ∃ m, Turned p k lit m t := by
  obtain ⟨idle, rests, shown, stands, last⟩ := turned
  cases action with
  | call c => cases quiet
  | resume =>
    cases (resume_idle idle).symm.trans stepped
  | ledSuspend =>
    simp only [Leds.step] at stepped
    split at stepped
    · cases stepped
      exact ⟨m, rfl, rests, shown, stands, last⟩
    · cases stepped
  | ledWakeup =>
    simp only [Leds.step] at stepped
    split at stepped
    · cases stepped
      exact ⟨m, rfl, rests, shown, stands, last⟩
    · cases stepped
  | prdTask_LED => exact Turned.prdTask_LED ⟨idle, rests, shown, stands, last⟩ stepped
  | outpw value =>
    cases Option.some.inj stepped
    refine ⟨m, idle, rests, shown, stands, fun j same away => ?_⟩
    obtain ⟨on, registered⟩ := last j same away
    exact ⟨(lights_outpw value s.REG_GPIOB_DAT).trans on, registered⟩

end

end Rovio.Led
