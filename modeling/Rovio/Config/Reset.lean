import Rovio.Config.Saves

/-! What a factory reset leaves. It counts on `g_ConfigParam` having no checksum of its own until
the restart. -/
namespace Rovio.Config
open Kit

universe u
variable {T : Type u}

/-- The main area is no configuration, so that the next start takes the default area or fails. -/
def System.Sticks (s : System T) : Prop :=
  s.reset = .reported →
    ¬ s.shared.mainArea.Valid ∧
      readFlashMemory s.shared =
        if s.shared.defaultArea.Valid then some s.shared.defaultArea else none

/-- No save stores its checksum behind the one of the reset, no change of settings happens to have
the sum of the reset where it is still to be written, and the reset finds the flash ready. -/
def Unspoiled (s : System T) : Action T → Prop
  | .store _ => s.reset = .waiting ∨ ∃ sum, s.reset = .computed sum
  | .change _ front back =>
    let changed := s.shared.g_ConfigParam.change front back
    match s.reset with
    | .waiting => True
    | .computed sum => getConfigCheckSum changed ≠ sum
    | .stored | .flagged => ¬ changed.Valid
    | .reported => (∃ t, s.saves t = .stored) → ¬ changed.Valid
  | .resetWrite => s.shared.usiIsReady = true
  | _ => True

/-- What the reset has done so far is not undone. -/
structure Spoilt (s : System T) : Prop where
  planned : ∀ sum, s.reset = .computed sum → getConfigCheckSum s.shared.g_ConfigParam ≠ sum
  stored : s.reset = .stored ∨ s.reset = .flagged → ¬ s.shared.g_ConfigParam.Valid
  pending : s.reset = .reported → ∀ t, s.saves t = .stored → ¬ s.shared.g_ConfigParam.Valid
  written : s.reset = .reported → s.shared.usiIsReady = true ∧ ¬ s.shared.mainArea.Valid

theorem Spoilt.sticks {s : System T} (spoilt : Spoilt s) : s.Sticks := by
  intro reported
  obtain ⟨ready, main⟩ := spoilt.written reported
  refine ⟨main, ?_⟩
  simp only [readFlashMemory, ready, if_true, main, if_false]

section
variable [DecidableEq T] {s s' : System T} {a : Action T} {t u : T} {shared : Shared}
  {place : Place}

/-- A save that is at its write after the step was there before, unless the step has brought it. -/
theorem stored_put (at_write : (s.put shared t place).saves u = .stored)
    (elsewhere : place ≠ .stored) : s.saves u = .stored := by
  have moved : Function.update s.saves t place u = .stored := at_write
  rcases eq_or_ne u t with rfl | other
  · rw [Function.update_self] at moved
    exact absurd moved elsewhere
  · rwa [Function.update_of_ne other] at moved

/-- A step of a save that leaves what is shared. -/
theorem Spoilt.put (spoilt : Spoilt s) (elsewhere : place ≠ .stored) :
    Spoilt (s.put s.shared t place) where
  planned := spoilt.planned
  stored := spoilt.stored
  pending := fun reported u at_write =>
    spoilt.pending reported u (stored_put at_write elsewhere)
  written := spoilt.written

theorem Spoilt.change {front back : List UInt8} (spoilt : Spoilt s)
    (ok : Unspoiled s (.change t front back)) :
    Spoilt (s.put { s.shared with g_ConfigParam := s.shared.g_ConfigParam.change front back } t
      .changing) where
  planned := by
    intro sum computed
    have computed : s.reset = .computed sum := computed
    simp only [Unspoiled, computed] at ok
    exact ok
  stored := by
    intro behind
    have behind : s.reset = .stored ∨ s.reset = .flagged := behind
    rcases behind with behind | behind
    all_goals
      simp only [Unspoiled, behind] at ok
      exact ok
  pending := by
    intro reported u at_write
    have reported : s.reset = .reported := reported
    simp only [Unspoiled, reported] at ok
    exact ok ⟨u, stored_put at_write (by intro h; cases h)⟩
  written := spoilt.written

/-- The step lemma. -/
theorem Spoilt.step (spoilt : Spoilt s) (ok : Unspoiled s a) (step : Step s a s') : Spoilt s' := by
  cases step with
  | change here sizes => exact spoilt.change ok
  | call here =>
    apply spoilt.put
    split
    all_goals
      intro h
      cases h
  | compute here =>
    apply spoilt.put
    intro h
    cases h
  | @store t sum here =>
    have early (p : Reset) (late : s.reset = p) (h : p = .stored ∨ p = .flagged ∨ p = .reported) :
        False := by
      rcases ok with waiting | ⟨planned, computed⟩
      · rcases h with rfl | rfl | rfl <;> rw [waiting] at late <;> cases late
      · rcases h with rfl | rfl | rfl <;> rw [computed] at late <;> cases late
    exact {
      planned := spoilt.planned
      stored := fun behind => by
        rcases behind with behind | behind
        · exact (early _ behind (.inl rfl)).elim
        · exact (early _ behind (.inr (.inl rfl))).elim
      pending := fun reported => (early _ reported (.inr (.inr rfl))).elim
      written := fun reported => (early _ reported (.inr (.inr rfl))).elim }
  | @write t here =>
    have config : (s.put (writeArea s.shared false) t .outside).shared.g_ConfigParam =
        s.shared.g_ConfigParam := writeArea_config false
    exact {
      planned := fun sum computed => by
        rw [config]
        exact spoilt.planned sum computed
      stored := fun behind => by
        rw [config]
        exact spoilt.stored behind
      pending := fun reported _ _ => by
        rw [config]
        exact spoilt.pending reported t here
      written := fun reported => by
        obtain ⟨ready, _⟩ := spoilt.written reported
        rw [writeArea_main ready]
        exact ⟨ready, spoilt.pending reported t here⟩ }
  | resetCompute here =>
    exact {
      planned := fun sum computed => by
        cases computed
        exact poisoned _
      stored := fun behind => by rcases behind with h | h <;> cases h
      pending := fun h => by cases h
      written := fun h => by cases h }
  | resetStore here =>
    exact {
      planned := fun sum computed => by cases computed
      stored := fun _ => by
        rw [valid_setCheckSum]
        exact spoilt.planned _ here
      pending := fun h => by cases h
      written := fun h => by cases h }
  | resetFlag here =>
    exact {
      planned := fun sum computed => by cases computed
      stored := fun _ => spoilt.stored (.inl here)
      pending := fun h => by cases h
      written := fun h => by cases h }
  | resetWrite here =>
    have ready : s.shared.usiIsReady = true := ok
    have spoilt := spoilt.stored (.inr here)
    rw [writeArea_main ready]
    exact {
      planned := fun sum computed => by cases computed
      stored := fun behind => by rcases behind with h | h <;> cases h
      pending := fun _ _ _ => spoilt
      written := fun _ => ⟨ready, spoilt⟩ }

end

/-- Before the reset, where saves may stand anywhere. -/
theorem spoilt_waiting {s : System T} (waiting : s.reset = .waiting) : Spoilt s where
  planned := fun sum computed => by
    rw [waiting] at computed
    cases computed
  stored := fun behind => by
    rw [waiting] at behind
    rcases behind with h | h <;> cases h
  pending := fun reported => by
    rw [waiting] at reported
    cases reported
  written := fun reported => by
    rw [waiting] at reported
    cases reported

/-- In every run whose steps all meet the condition, the reset sticks. -/
theorem factoryDefault_sticks [DecidableEq T] {s s' : System T} {as : List (Action T)}
    (waiting : s.reset = .waiting) (run : Run (Guarded Unspoiled Step) s as s') : s'.Sticks :=
  (run.invariant Spoilt (fun _ _ _ spoilt step => spoilt.step step.1 step.2)
    (spoilt_waiting waiting)).sticks

/-- One thread saves settings of two bytes, which are also what the flash holds. -/
def settings : CameraConfigParam := ⟨[0, 7], 14, []⟩

def beforeReset : System Unit where
  shared := ⟨true, settings, false, settings, settings⟩
  saves := fun _ => .outside
  reset := .waiting

/-- The reset comes between the steps of a save. -/
theorem factoryDefault_sticks_overlapping :
    ∃ s' : System Unit,
      Run Step beforeReset [.call (), .compute (), .resetCompute, .store (), .resetStore,
        .resetFlag, .write (), .resetWrite] s' ∧ s'.reset = .reported ∧ s'.Sticks := by
  have run : Run (Guarded Unspoiled Step) beforeReset [.call (), .compute (), .resetCompute,
      .store (), .resetStore, .resetFlag, .write (), .resetWrite] _ :=
    .cons ⟨trivial, .call (.inl rfl)⟩ (.cons ⟨trivial, .compute rfl⟩
      (.cons ⟨trivial, .resetCompute rfl⟩ (.cons ⟨.inr ⟨_, rfl⟩, .store rfl⟩
      (.cons ⟨trivial, .resetStore rfl⟩ (.cons ⟨trivial, .resetFlag rfl⟩
      (.cons ⟨trivial, .write rfl⟩ (.cons ⟨rfl, .resetWrite rfl⟩ (.nil _))))))))
  exact ⟨_, run.mono (fun _ _ _ step => step.2), rfl, factoryDefault_sticks rfl run⟩

/-- A save that has tested the flag before the reset sets it writes the old settings behind the
reset, with a checksum that is theirs. -/
theorem reset_undone :
    ¬ ∀ (s s' : System Unit) (as : List (Action Unit)), s.reset = .waiting →
      (∀ t, s.saves t = .outside) → s.shared.usiIsReady = true → Run Step s as s' →
      s'.Sticks := by
  intro claim
  have run : Run Step beforeReset [.call (), .resetCompute, .resetStore, .resetFlag, .resetWrite,
      .compute (), .store (), .write ()] _ :=
    .cons (.call (.inl rfl)) (.cons (.resetCompute rfl) (.cons (.resetStore rfl)
      (.cons (.resetFlag rfl) (.cons (.resetWrite rfl) (.cons (.compute rfl)
      (.cons (.store rfl) (.cons (.write rfl) (.nil _))))))))
  obtain ⟨lost, _⟩ := claim _ _ _ rfl (fun _ => rfl) rfl run rfl
  apply lost
  decide

end Rovio.Config
