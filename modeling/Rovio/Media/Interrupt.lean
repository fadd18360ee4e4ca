import Rovio.Media.Events

/-! Whom `iothread_EventInterrupt` reaches. It leaves as many wake-ups as there are readers that
wait, and whoever comes to the head of the loop takes one. -/
namespace Rovio.Media.Events
open Kit

universe u
variable {B : Type u}

/-- The readers that were waiting at an interrupt and have not had its wake-up are awake and on
their way to take it, and no wake-up has gone to another reader. -/
def System.Reaches (s : System B) : Prop :=
  s.stolen = false ∧ ∀ reader ∈ s.readers, reader.due = true →
    ∃ asks, reader.place = .woken asks ∨ reader.place = .loop asks

/-- No reader comes in while wake-ups are left. -/
def InTime (s : System B) : Action B → Prop
  | .enter _ => s.uEventInterrupt = 0
  | _ => True

/-- Counted in `uEventWaitCount`. -/
def Reader.counted (reader : Reader B) : Nat :=
  match reader.place with
  | .outside | .entering _ => 0
  | _ => 1

/-- Holds `mtIOEvent`. -/
def Reader.holds (reader : Reader B) : Nat :=
  match reader.place with
  | .loop _ | .testing .. | .leaving _ => 1
  | _ => 0

def Reader.owed (reader : Reader B) : Nat := if reader.due then 1 else 0

/-- What a place says: a wake-up is due to readers on their way to the head of the loop only, and
to each that is inside and not behind the loop, where some are left. -/
def Reader.Fits (reader : Reader B) (uEventInterrupt : Nat) : Prop :=
  match reader.place with
  | .woken _ | .loop _ => reader.due = true ∨ uEventInterrupt = 0
  | .testing .. | .blocked _ => reader.due = false ∧ uEventInterrupt = 0
  | .outside | .entering _ | .leaving _ => reader.due = false

structure Exact (s : System B) : Prop where
  count : s.uEventWaitCount = total Reader.counted s.readers
  lock : total Reader.holds s.readers = if s.mtIOEvent then 1 else 0
  left : s.uEventInterrupt = total Reader.owed s.readers
  each : ∀ reader ∈ s.readers, reader.Fits s.uEventInterrupt
  history : s.stolen = false

theorem Exact.reaches {s : System B} (exact_ : Exact s) : s.Reaches := by
  refine ⟨exact_.history, ?_⟩
  rintro ⟨place, due⟩ here owed
  have fits := exact_.each _ here
  obtain rfl : due = true := owed
  cases place with
  | woken asks => exact ⟨asks, .inl rfl⟩
  | loop asks => exact ⟨asks, .inr rfl⟩
  | testing | blocked => cases fits.1
  | outside | entering | leaving => cases fits

section
variable {s s' : System B} {a : Action B} {r n : Nat} {reader reader' : Reader B}

/-- Where one reader moves, the counts change by its parts. -/
theorem Exact.move (exact_ : Exact s) (here : s.readers[r]? = some reader)
    (readers : s'.readers = s.readers.set r reader')
    (count : s'.uEventWaitCount + reader.counted = s.uEventWaitCount + reader'.counted)
    (lock : (if s'.mtIOEvent then 1 else 0) + reader.holds =
      (if s.mtIOEvent then 1 else 0) + reader'.holds)
    (left : s'.uEventInterrupt + reader.owed = s.uEventInterrupt + reader'.owed)
    (others : ∀ other ∈ s.readers, other.Fits s'.uEventInterrupt)
    (own : reader'.Fits s'.uEventInterrupt) (history : s'.stolen = false) : Exact s' := by
  have counted := total_set (f := Reader.counted) (q := reader') here
  have holds := total_set (f := Reader.holds) (q := reader') here
  have owed := total_set (f := Reader.owed) (q := reader') here
  have count_before := exact_.count
  have lock_before := exact_.lock
  have left_before := exact_.left
  exact {
    count := by
      rw [readers]
      omega
    lock := by
      rw [readers]
      omega
    left := by
      rw [readers]
      omega
    each := by
      rw [readers]
      exact forall_set others own
    history }

theorem fits_fewer (fits : reader.Fits (n + 1)) : reader.Fits n := by
  obtain ⟨place, due⟩ := reader
  cases place with
  | woken | loop => exact .inl (fits.resolve_right (Nat.succ_ne_zero n))
  | testing | blocked => exact absurd fits.2 (Nat.succ_ne_zero n)
  | outside | entering | leaving => exact fits

/-- A broadcast moves nobody across what is counted. -/
theorem wake_parts (reader : Reader B) :
    reader.wake.counted = reader.counted ∧ reader.wake.holds = reader.holds ∧
      reader.wake.owed = reader.owed := by
  obtain ⟨place, due⟩ := reader
  cases place <;> exact ⟨rfl, rfl, rfl⟩

theorem wake_fits (fits : reader.Fits n) : reader.wake.Fits n := by
  obtain ⟨place, due⟩ := reader
  cases place with
  | blocked => exact .inr fits.2
  | outside | entering | loop | testing | woken | leaving => exact fits

/-- Where the lock is free, an interrupt is due to each reader that is counted, and to no other. -/
theorem interrupt_parts (fits : reader.Fits n) (unlocked : reader.holds = 0) (m : Nat) :
    reader.interrupt.counted = reader.counted ∧ reader.interrupt.holds = 0 ∧
      reader.interrupt.owed = reader.counted ∧ reader.interrupt.Fits m := by
  obtain ⟨place, due⟩ := reader
  cases place with
  | blocked | woken => exact ⟨rfl, rfl, rfl, .inl rfl⟩
  | loop | testing | leaving => cases unlocked
  | outside | entering =>
    obtain rfl : due = false := fits
    exact ⟨rfl, rfl, rfl, rfl⟩

theorem Exact.interrupt (exact_ : Exact s) (free : s.mtIOEvent = false) :
    Exact { s with
      uEventInterrupt := s.uEventWaitCount
      readers := s.readers.map .interrupt } := by
  have unlocked : ∀ reader ∈ s.readers, reader.holds = 0 := by
    apply total_eq_zero.mp
    rw [exact_.lock, free]
    rfl
  have parts := fun reader here =>
    interrupt_parts (exact_.each reader here) (unlocked reader here) s.uEventWaitCount
  exact {
    count := by
      rw [total_map, total_congr fun reader here => (parts reader here).1]
      exact exact_.count
    lock := by
      rw [total_map, total_congr fun reader here =>
        (parts reader here).2.1.trans (unlocked reader here).symm]
      exact exact_.lock
    left := by
      rw [total_map, total_congr fun reader here => (parts reader here).2.2.1]
      exact exact_.count
    each := by
      intro reader here
      obtain ⟨waiter, among, rfl⟩ := List.mem_map.mp here
      exact (parts waiter among).2.2.2
    history := exact_.history }

theorem Exact.notify (exact_ : Exact s) (producers : List Bool) :
    Exact { s with readers := s.readers.map .wake, producers } where
  count := by
    rw [total_map, total_congr fun reader _ => (wake_parts reader).1]
    exact exact_.count
  lock := by
    rw [total_map, total_congr fun reader _ => (wake_parts reader).2.1]
    exact exact_.lock
  left := by
    rw [total_map, total_congr fun reader _ => (wake_parts reader).2.2]
    exact exact_.left
  each := by
    intro reader here
    obtain ⟨waiter, among, rfl⟩ := List.mem_map.mp here
    exact wake_fits (exact_.each waiter among)
  history := exact_.history

/-- A reader to which a wake-up is due finds one. -/
theorem Exact.owed_left (exact_ : Exact s) (here : s.readers[r]? = some reader) :
    reader.owed ≤ s.uEventInterrupt := by
  rw [exact_.left]
  exact part_le_total here

theorem Exact.locked (exact_ : Exact s) (here : s.readers[r]? = some reader)
    (holds : reader.holds = 1) : s.mtIOEvent = true := by
  have part := part_le_total (f := Reader.holds) here
  rw [exact_.lock, holds] at part
  cases held : s.mtIOEvent with
  | true => rfl
  | false =>
    rw [held] at part
    cases part

/-- The step lemma. -/
theorem Exact.step (exact_ : Exact s) (ok : InTime s a) (step : Step s a s') : Exact s' := by
  cases step with
  | call here some_asked =>
    have fits := exact_.each _ (List.mem_of_getElem? here)
    exact exact_.move here rfl rfl rfl rfl exact_.each fits exact_.history
  | callNothing => exact exact_
  | @enter r asks due here free =>
    have none_left : s.uEventInterrupt = 0 := ok
    have lock : 1 + 0 = (if s.mtIOEvent then 1 else 0) + 1 := by rw [free]; rfl
    exact exact_.move here rfl rfl lock rfl exact_.each (Or.inr none_left) exact_.history
  | @interrupted r n asks due here some_left =>
    have fits := exact_.each _ (List.mem_of_getElem? here)
    obtain rfl : due = true := fits.resolve_right (by omega)
    have others := exact_.each
    rw [some_left] at others
    have history : (s.stolen || !true) = false := by
      rw [exact_.history]
      rfl
    exact exact_.move here rfl rfl rfl some_left.symm
      (fun other among => fits_fewer (others other among)) rfl history
  | @head r asks due here none_left =>
    have owed := exact_.owed_left here
    obtain rfl : due = false := by
      cases due with
      | false => rfl
      | true =>
        rw [none_left] at owed
        cases owed
    exact exact_.move here rfl rfl rfl rfl exact_.each ⟨rfl, none_left⟩ exact_.history
  | look here =>
    have fits := exact_.each _ (List.mem_of_getElem? here)
    exact exact_.move here rfl rfl rfl rfl exact_.each fits exact_.history
  | found here =>
    have fits := exact_.each _ (List.mem_of_getElem? here)
    exact exact_.move here rfl rfl rfl rfl exact_.each fits.1 exact_.history
  | @block r asks got due here =>
    have fits := exact_.each _ (List.mem_of_getElem? here)
    have locked : s.mtIOEvent = true := exact_.locked here rfl
    have lock : 0 + 1 = (if s.mtIOEvent then 1 else 0) + 0 := by rw [locked]; rfl
    exact exact_.move here rfl rfl lock rfl exact_.each fits exact_.history
  | @relock r asks due here free =>
    have fits := exact_.each _ (List.mem_of_getElem? here)
    have lock : 1 + 0 = (if s.mtIOEvent then 1 else 0) + 1 := by rw [free]; rfl
    exact exact_.move here rfl rfl lock rfl exact_.each fits exact_.history
  | @leave r got due here =>
    have fits := exact_.each _ (List.mem_of_getElem? here)
    have locked : s.mtIOEvent = true := exact_.locked here rfl
    have counted : 1 ≤ s.uEventWaitCount := by
      have part := part_le_total (f := Reader.counted) here
      rwa [← exact_.count] at part
    have count : s.uEventWaitCount - 1 + 1 = s.uEventWaitCount + 0 := by omega
    have lock : 0 + 1 = (if s.mtIOEvent then 1 else 0) + 0 := by rw [locked]; rfl
    exact exact_.move here rfl count lock rfl exact_.each fits exact_.history
  | publish | discard | motion =>
    exact ⟨exact_.count, exact_.lock, exact_.left, exact_.each, exact_.history⟩
  | notify here => exact exact_.notify _
  | interrupt free => exact exact_.interrupt free

end

/-- In every run in which no reader comes in while wake-ups are left, each interrupt reaches the
readers that were waiting, and no others. -/
theorem interrupt_reaches {s s' : System B} {as : List (Action B)} (initial : s.Initial)
    (run : Run (Guarded InTime Step) s as s') : s'.Reaches := by
  have empty {f : Reader B → Nat} (nothing : f ⟨.outside, false⟩ = 0) : total f s.readers = 0 := by
    apply total_eq_zero.mpr
    intro reader here
    rw [initial.readers reader here]
    exact nothing
  have exact_ : Exact s := {
    count := initial.count.trans (empty rfl).symm
    lock := by
      rw [initial.free]
      exact empty rfl
    left := initial.none_left.trans (empty rfl).symm
    each := by
      intro reader here
      rw [initial.readers reader here]
      rfl
    history := initial.history }
  exact (run.invariant Exact (fun _ _ _ exact_ step => exact_.step step.1 step.2) exact_).reaches

/-- Two readers and no producer. -/
def readers : System Unit where
  media := ⟨fun _ => [], false, 0⟩
  uEventWaitCount := 0
  uEventInterrupt := 0
  mtIOEvent := false
  readers := [⟨.outside, false⟩, ⟨.outside, false⟩]
  producers := []
  stolen := false

theorem readers_initial : readers.Initial where
  count := rfl
  none_left := rfl
  free := rfl
  readers := by simp [readers]
  producers := by simp [readers]
  history := rfl

def asksAudio : Source → Bool := fun source => source = .buffer .audio

/-- One reader sleeps at the interrupt, and the other one comes in when it has gone. -/
theorem interrupt_reaches_readers :
    ∃ s', Run Step readers [.call 0 asksAudio, .enter 0, .head 0, .look 0, .decide 0,
      .call 1 asksAudio, .interrupt, .relock 0, .head 0, .leave 0, .enter 1] s' ∧ s'.Reaches := by
  have run : Run (Guarded InTime Step) readers [.call 0 asksAudio, .enter 0, .head 0, .look 0,
      .decide 0, .call 1 asksAudio, .interrupt, .relock 0, .head 0, .leave 0, .enter 1] _ :=
    .cons ⟨trivial, .call rfl ⟨.buffer .audio, rfl⟩⟩ (.cons ⟨rfl, .enter rfl rfl⟩
      (.cons ⟨trivial, .head rfl rfl⟩ (.cons ⟨trivial, .look rfl⟩ (.cons ⟨trivial, .block rfl⟩
      (.cons ⟨trivial, .call rfl ⟨.buffer .audio, rfl⟩⟩ (.cons ⟨trivial, .interrupt rfl⟩
      (.cons ⟨trivial, .relock rfl rfl⟩ (.cons ⟨trivial, .interrupted rfl rfl⟩
      (.cons ⟨trivial, .leave rfl⟩ (.cons ⟨rfl, .enter rfl rfl⟩ (.nil _)))))))))))
  exact ⟨_, run.mono (fun _ _ _ step => step.2), interrupt_reaches readers_initial run⟩

/-- The other one comes in before: it takes the wake-up, and the first reader sleeps again. -/
theorem interrupt_stolen :
    ¬ ∀ (s s' : System Unit) (as : List (Action Unit)), s.Initial → Run Step s as s' →
      s'.Reaches := by
  intro claim
  have run : Run Step readers [.call 0 asksAudio, .enter 0, .head 0, .look 0, .decide 0,
      .call 1 asksAudio, .interrupt, .enter 1, .head 1, .leave 1, .relock 0, .head 0, .look 0,
      .decide 0] _ :=
    .cons (.call rfl ⟨.buffer .audio, rfl⟩) (.cons (.enter rfl rfl) (.cons (.head rfl rfl)
      (.cons (.look rfl) (.cons (.block rfl) (.cons (.call rfl ⟨.buffer .audio, rfl⟩)
      (.cons (.interrupt rfl) (.cons (.enter rfl rfl) (.cons (.interrupted rfl rfl)
      (.cons (.leave rfl) (.cons (.relock rfl rfl) (.cons (.head rfl rfl) (.cons (.look rfl)
      (.cons (.block rfl) (.nil _))))))))))))))
  obtain ⟨_, awake⟩ := claim _ _ _ readers_initial run
  obtain ⟨asks, woken | loop⟩ := awake ⟨.blocked asksAudio, true⟩ List.mem_cons_self rfl
  · cases woken
  · cases loop

end Rovio.Media.Events
