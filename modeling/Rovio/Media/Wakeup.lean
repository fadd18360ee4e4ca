import Rovio.Media.Events

/-! What a reader that goes to sleep misses. Producers do not take the lock of the readers, so that
a notification can come between a test and the wait behind it. -/
namespace Rovio.Media.Events
open Kit

universe u
variable {B : Type u}

/-- A notification is on its way. -/
def System.Pending (s : System B) : Prop := ∃ p, s.producers[(p : Nat)]? = some true

/-- No reader sleeps on a kind of buffer that is queued, unless a notification is on its way. -/
def System.NoLostWakeup (s : System B) : Prop :=
  ∀ reader ∈ s.readers, ∀ asks, reader.place = .blocked asks → ∀ k, asks (.buffer k) = true →
    s.media.queue k ≠ [] → s.Pending

/-- The reader has found nothing of this kind and is going to sleep, or sleeps. -/
def Place.Missed : Place B → Kind → Prop
  | .testing asks ahead _ bHaveEvent, k =>
    bHaveEvent = false ∧ asks (.buffer k) = true ∧ .buffer k ∉ ahead
  | .blocked asks, k => asks (.buffer k) = true
  | _, _ => False

/-- A notification does not come while a reader is between its test of a kind that has been queued
since and its wait, unless another one follows. -/
def Timely (s : System B) : Action B → Prop
  | .notify p => ∀ reader ∈ s.readers, ∀ asks ahead got bHaveEvent,
      reader.place = .testing asks ahead got bHaveEvent → ∀ k, reader.place.Missed k →
      s.media.queue k ≠ [] → ∃ q, q ≠ p ∧ s.producers[q]? = some true
  | _ => True

/-- A kind that a reader has missed is not queued, or a notification is on its way. -/
def System.Watched (s : System B) : Prop :=
  ∀ reader ∈ s.readers, ∀ k, reader.place.Missed k → s.media.queue k ≠ [] → s.Pending

theorem System.Watched.noLostWakeup {s : System B} (watched : s.Watched) : s.NoLostWakeup := by
  intro reader here asks blocked k asked queued
  apply watched reader here k _ queued
  rw [blocked]
  exact asked

section
variable {s s' : System B} {a : Action B} {media : Encoded B} {got : Got B} {source : Source}
  {k : Kind} {r : Nat}

/-- A test queues nothing. -/
theorem look_queue (queued : (look media got source).1.queue k ≠ []) : media.queue k ≠ [] := by
  cases source with
  | motion =>
    simp only [look] at queued
    split at queued
    all_goals exact queued
  | buffer j =>
    simp only [look] at queued
    split at queued
    · exact queued
    · rename_i b rest list
      rcases eq_or_ne k j with rfl | other
      · rw [list]
        exact List.cons_ne_nil b rest
      · have kept : Function.update media.queue j rest k ≠ [] := queued
        rwa [Function.update_of_ne other] at kept

/-- A test that is no event has found the queue empty and leaves it so. -/
theorem look_empty (none_found : (look media got (.buffer k)).2.2 = false) :
    (look media got (.buffer k)).1.queue k = [] := by
  cases list : media.queue k with
  | nil => simp only [look, list]
  | cons b rest =>
    simp only [look, list] at none_found
    cases none_found

theorem mem_sources (source : Source) : source ∈ sources := by
  cases source with
  | buffer k => cases k <;> decide
  | motion => decide

/-- A step of one reader that takes nothing from the queues but for itself. -/
theorem System.Watched.put {reader : Reader B} (watched : s.Watched)
    (queues : ∀ k, s'.media.queue k ≠ [] → s.media.queue k ≠ [])
    (pending : s'.producers = s.producers) (readers : s'.readers = s.readers.set r reader)
    (own : ∀ k, reader.place.Missed k → s'.media.queue k ≠ [] → s.Pending) : s'.Watched := by
  have kept : ∀ reader ∈ s'.readers, ∀ k, reader.place.Missed k → s'.media.queue k ≠ [] →
      s.Pending := by
    rw [readers]
    exact forall_set (fun reader here k missed queued => watched reader here k missed (queues k queued))
      own
  intro reader here k missed queued
  unfold System.Pending
  rw [pending]
  exact kept reader here k missed queued

theorem missed_wake {reader : Reader B} (missed : reader.wake.place.Missed k) :
    (∃ asks ahead got bHaveEvent, reader.place = .testing asks ahead got bHaveEvent) ∧
      reader.place.Missed k := by
  obtain ⟨place, due⟩ := reader
  cases place with
  | testing asks ahead got bHaveEvent => exact ⟨⟨asks, ahead, got, bHaveEvent, rfl⟩, missed⟩
  | blocked | outside | entering | loop | woken | leaving => exact missed.elim

theorem missed_interrupt {reader : Reader B} (missed : reader.interrupt.place.Missed k) :
    reader.place.Missed k := by
  obtain ⟨place, due⟩ := reader
  cases place with
  | testing asks ahead got bHaveEvent => exact missed
  | blocked | outside | entering | loop | woken | leaving => exact missed.elim

/-- The step lemma. -/
theorem System.Watched.step (watched : s.Watched) (ok : Timely s a) (step : Step s a s') :
    s'.Watched := by
  cases step with
  | call | enter | interrupted | found | relock | leave =>
    exact watched.put (fun _ queued => queued) rfl rfl (fun _ missed => missed.elim)
  | callNothing => exact watched
  | @head r asks due here none_left =>
    refine watched.put (fun _ queued => queued) rfl rfl ?_
    rintro k ⟨_, asked, untested⟩
    exact absurd (List.mem_filter.mpr ⟨mem_sources _, asked⟩) untested
  | @look r asks source ahead got bHaveEvent due here =>
    refine watched.put (fun _ => look_queue) rfl rfl ?_
    rintro k ⟨no_event, asked, tested⟩ queued
    have no_event : bHaveEvent = false ∧ (look s.media got source).2.2 = false := by
      simpa using no_event
    have other : Source.buffer k ≠ source := by
      rintro rfl
      exact queued (look_empty no_event.2)
    apply watched _ (List.mem_of_getElem? here) k ⟨no_event.1, asked, _⟩ (look_queue queued)
    rw [List.mem_cons, not_or]
    exact ⟨other, tested⟩
  | @block r asks got due here =>
    exact watched.put (fun _ queued => queued) rfl rfl fun k asked =>
      watched _ (List.mem_of_getElem? here) k ⟨rfl, asked, List.not_mem_nil⟩
  | @publish p k b pending here =>
    intro _ _ _ _ _
    obtain ⟨inside, _⟩ := List.getElem?_eq_some_iff.mp here
    exact ⟨p, List.getElem?_set_self inside⟩
  | @discard k i =>
    intro reader here j missed queued
    apply watched reader here j missed
    intro empty
    apply queued
    rcases eq_or_ne j k with rfl | other
    · simp [empty]
    · simpa [Function.update_of_ne other] using empty
  | motion => exact watched
  | @notify p pending here =>
    intro reader mem k missed queued
    obtain ⟨sleeper, among, rfl⟩ := List.mem_map.mp mem
    obtain ⟨⟨asks, ahead, got, bHaveEvent, testing⟩, missed⟩ := missed_wake missed
    obtain ⟨q, other, follows⟩ := ok sleeper among asks ahead got bHaveEvent testing k missed queued
    refine ⟨q, ?_⟩
    change (s.producers.set p false)[q]? = some true
    rw [List.getElem?_set_ne other.symm]
    exact follows
  | interrupt =>
    intro reader mem k missed queued
    obtain ⟨sleeper, among, rfl⟩ := List.mem_map.mp mem
    exact watched sleeper among k (missed_interrupt missed) queued

end

/-- In every run whose notifications all meet the condition, no wake-up is lost. -/
theorem no_lost_wakeup {s s' : System B} {as : List (Action B)} (initial : s.Initial)
    (run : Run (Guarded Timely Step) s as s') : s'.NoLostWakeup := by
  have watched : s.Watched := by
    intro reader here k missed
    rw [initial.readers reader here] at missed
    exact missed.elim
  exact (run.invariant System.Watched (fun _ _ _ watched step => watched.step step.1 step.2)
    watched).noLostWakeup

/-- One reader and one producer. -/
def pair : System Unit where
  media := ⟨fun _ => [], false, 0⟩
  uEventWaitCount := 0
  uEventInterrupt := 0
  mtIOEvent := false
  readers := [⟨.outside, false⟩]
  producers := [false]
  stolen := false

theorem pair_initial : pair.Initial where
  count := rfl
  none_left := rfl
  free := rfl
  readers := by simp [pair]
  producers := by simp [pair]
  history := rfl

/-- The reader asks for JPEG buffers and nothing else. -/
def asksJpeg : Source → Bool := fun source => source = .buffer .jpeg

theorem timely_asleep {s : System B} {p : Nat}
    (asleep : ∀ reader ∈ s.readers, ∃ asks, reader.place = .blocked asks) :
    Timely s (.notify p) := by
  intro reader here asks ahead got bHaveEvent testing
  obtain ⟨asks', blocked⟩ := asleep reader here
  rw [blocked] at testing
  cases testing

/-- The buffer is queued before the reader sleeps, and the notification comes behind that. -/
theorem no_lost_wakeup_pair :
    ∃ s', Run Step pair [.call 0 asksJpeg, .enter 0, .head 0, .look 0, .publish 0 .jpeg (),
      .decide 0, .notify 0, .relock 0] s' ∧ s'.NoLostWakeup := by
  have run : Run (Guarded Timely Step) pair [.call 0 asksJpeg, .enter 0, .head 0, .look 0,
      .publish 0 .jpeg (), .decide 0, .notify 0, .relock 0] _ :=
    .cons ⟨trivial, .call rfl ⟨.buffer .jpeg, rfl⟩⟩ (.cons ⟨trivial, .enter rfl rfl⟩
      (.cons ⟨trivial, .head rfl rfl⟩ (.cons ⟨trivial, .look rfl⟩
      (.cons ⟨trivial, .publish rfl⟩ (.cons ⟨trivial, .block rfl⟩
      (.cons ⟨timely_asleep (by simp [pair, System.put]), .notify rfl⟩
      (.cons ⟨trivial, .relock rfl rfl⟩ (.nil _))))))))
  exact ⟨_, run.mono (fun _ _ _ step => step.2), no_lost_wakeup pair_initial run⟩

/-- The buffer is queued and notified between the test of the reader and its wait. -/
theorem lost_wakeup :
    ¬ ∀ (s s' : System Unit) (as : List (Action Unit)), s.Initial → Run Step s as s' →
      s'.NoLostWakeup := by
  intro claim
  have run : Run Step pair [.call 0 asksJpeg, .enter 0, .head 0, .look 0, .publish 0 .jpeg (),
      .notify 0, .decide 0] _ :=
    .cons (.call rfl ⟨.buffer .jpeg, rfl⟩) (.cons (.enter rfl rfl) (.cons (.head rfl rfl)
      (.cons (.look rfl) (.cons (.publish rfl) (.cons (.notify rfl) (.cons (.block rfl)
      (.nil _)))))))
  obtain ⟨p, pending⟩ := claim _ _ _ pair_initial run ⟨.blocked asksJpeg, false⟩
    (List.mem_singleton_self _) asksJpeg rfl .jpeg rfl (by intro h; cases h)
  match p with
  | 0 => cases pending
  | p + 1 => cases pending

end Rovio.Media.Events
