import Rovio.Config.Saves

/-! What saves that overlap leave when all have ended. The checksum that a save stores is that of
the settings at the time it was computed. -/
namespace Rovio.Config
open Kit

universe u
variable {T : Type u}

/-- Where no save is under way, the flash holds what `g_ConfigParam` does, and the checksum is
right. -/
def System.AtRest (s : System T) : Prop :=
  (∀ t, s.saves t = .outside) →
    s.shared.mainArea = s.shared.g_ConfigParam ∧ s.shared.mainArea.Valid

/-- A save that has its checksum still to compute, or has computed it of the settings as they
are. -/
def System.Renews (s : System T) (t : T) : Prop :=
  s.saves t = .changing ∨ s.saves t = .tested ∨
    s.saves t = .computed (getConfigCheckSum s.shared.g_ConfigParam)

/-- There is no reset. A checksum is stored where it is that of the settings as they are, or where
another save has a right one ahead. -/
def Renewed (s : System T) : Action T → Prop
  | .store t =>
    s.saves t = .computed (getConfigCheckSum s.shared.g_ConfigParam) ∨ ∃ u, u ≠ t ∧ s.Renews u
  | .resetCompute | .resetStore | .resetFlag | .resetWrite => False
  | _ => True

structure Saved (s : System T) : Prop where
  ready : s.shared.usiIsReady = true
  clear : s.shared.s_bNotResetCheckSum = false
  written : s.shared.mainArea = s.shared.g_ConfigParam ∨ ∃ t, s.saves t ≠ .outside
  valid : s.shared.g_ConfigParam.Valid ∨ ∃ t, s.Renews t

theorem Saved.atRest {s : System T} (saved : Saved s) : s.AtRest := by
  intro rest
  have same : s.shared.mainArea = s.shared.g_ConfigParam := by
    rcases saved.written with same | ⟨t, busy⟩
    · exact same
    · exact absurd (rest t) busy
  have valid : s.shared.g_ConfigParam.Valid := by
    rcases saved.valid with valid | ⟨t, renews⟩
    · exact valid
    · unfold System.Renews at renews
      rw [rest t] at renews
      rcases renews with h | h | h <;> cases h
  rw [same]
  exact ⟨rfl, valid⟩

section
variable [DecidableEq T] {s s' : System T} {a : Action T} {t u : T} {shared : Shared}
  {place : Place}

theorem put_self : (s.put shared t place).saves t = place := Function.update_self ..

theorem put_other (other : u ≠ t) : (s.put shared t place).saves u = s.saves u :=
  Function.update_of_ne other ..

/-- Some save is under way after a step of one that does not end. -/
theorem busy_put (busy : place ≠ .outside) : ∃ u, (s.put shared t place).saves u ≠ .outside := by
  refine ⟨t, ?_⟩
  rwa [put_self]

/-- A step that leaves the settings and takes a save on to a place where it renews the checksum, if
it did. -/
theorem renews_put (same : getConfigCheckSum shared.g_ConfigParam =
      getConfigCheckSum s.shared.g_ConfigParam)
    (onward : s.Renews t → place = .tested ∨
      place = .computed (getConfigCheckSum s.shared.g_ConfigParam))
    (renews : s.Renews u) : (s.put shared t place).Renews u := by
  have config : getConfigCheckSum (s.put shared t place).shared.g_ConfigParam =
      getConfigCheckSum s.shared.g_ConfigParam := same
  unfold System.Renews
  rw [config]
  rcases eq_or_ne u t with rfl | other
  · rw [put_self]
    exact .inr (onward renews)
  · rw [put_other other]
    exact renews

/-- The step lemma. -/
theorem Saved.step (saved : Saved s) (ok : Renewed s a) (step : Step s a s') : Saved s' := by
  cases step with
  | change here sizes =>
    exact {
      ready := saved.ready
      clear := saved.clear
      written := .inr (busy_put (by intro h; cases h))
      valid := .inr ⟨_, .inl put_self⟩ }
  | @call t here =>
    rw [saved.clear]
    exact {
      ready := saved.ready
      clear := saved.clear
      written := .inr (busy_put (by intro h; cases h))
      valid := saved.valid.imp_right fun ⟨u, renews⟩ =>
        ⟨u, renews_put rfl (fun _ => .inl rfl) renews⟩ }
  | @compute t here =>
    exact {
      ready := saved.ready
      clear := saved.clear
      written := .inr (busy_put (by intro h; cases h))
      valid := saved.valid.imp_right fun ⟨u, renews⟩ =>
        ⟨u, renews_put rfl (fun _ => .inr rfl) renews⟩ }
  | @store t sum here =>
    have valid : (s.put (setCheckSum s.shared sum) t .stored).shared.g_ConfigParam.Valid ∨
        ∃ u, (s.put (setCheckSum s.shared sum) t .stored).Renews u := by
      rcases ok with fresh | ⟨u, other, renews⟩
      · rw [here] at fresh
        cases fresh
        exact .inl (valid_setCheckSum.mpr rfl)
      · refine .inr ⟨u, ?_⟩
        unfold System.Renews
        rw [put_other other]
        exact renews
    exact {
      ready := saved.ready
      clear := saved.clear
      written := .inr (busy_put (by intro h; cases h))
      valid }
  | @write t here =>
    rw [writeArea_main saved.ready]
    exact {
      ready := saved.ready
      clear := saved.clear
      written := .inl rfl
      valid := saved.valid.imp_right fun ⟨u, renews⟩ => by
        refine ⟨u, renews_put rfl (fun renews => ?_) renews⟩
        unfold System.Renews at renews
        rw [here] at renews
        rcases renews with h | h | h <;> cases h }
  | resetCompute here => exact ok.elim
  | resetStore here => exact ok.elim
  | resetFlag here => exact ok.elim
  | resetWrite here => exact ok.elim

end

/-- In every run whose steps all meet the condition, the configuration at rest is valid. -/
theorem saved_at_rest [DecidableEq T] {s s' : System T} {as : List (Action T)}
    (ready : s.shared.usiIsReady = true) (clear : s.shared.s_bNotResetCheckSum = false)
    (same : s.shared.mainArea = s.shared.g_ConfigParam) (valid : s.shared.mainArea.Valid)
    (run : Run (Guarded Renewed Step) s as s') : s'.AtRest := by
  rw [same] at valid
  exact (run.invariant Saved (fun _ _ _ saved step => saved.step step.1 step.2)
    ⟨ready, clear, .inl same, .inl valid⟩).atRest

/-- Two threads, and settings of two bytes in the flash. -/
def twoThreads : System Bool where
  shared := ⟨true, ⟨[0, 7], 14, []⟩, false, ⟨[0, 7], 14, []⟩, ⟨[0, 7], 14, []⟩⟩
  saves := fun _ => .outside
  reset := .waiting

/-- The second save comes while the first is between its change and its checksum. -/
theorem saved_at_rest_two :
    ∃ s' : System Bool,
      Run Step twoThreads [.change false [0, 8] [], .change true [1, 8] [], .call false, .call true,
        .compute false, .store false, .compute true, .write false, .store true, .write true] s' ∧
      s'.AtRest := by
  have run : Run (Guarded Renewed Step) twoThreads [.change false [0, 8] [], .change true [1, 8] [],
      .call false, .call true, .compute false, .store false, .compute true, .write false,
      .store true, .write true] _ :=
    .cons ⟨trivial, .change (.inl rfl) ⟨rfl, rfl⟩⟩ (.cons ⟨trivial, .change (.inl rfl) ⟨rfl, rfl⟩⟩
      (.cons ⟨trivial, .call (.inr rfl)⟩ (.cons ⟨trivial, .call (.inr rfl)⟩
      (.cons ⟨trivial, .compute rfl⟩ (.cons ⟨.inl rfl, .store rfl⟩
      (.cons ⟨trivial, .compute rfl⟩ (.cons ⟨trivial, .write rfl⟩
      (.cons ⟨.inl rfl, .store rfl⟩ (.cons ⟨trivial, .write rfl⟩ (.nil _))))))))))
  exact ⟨_, run.mono (fun _ _ _ step => step.2),
    saved_at_rest rfl rfl rfl (by decide) run⟩

/-- The settings are changed between the checksum of one save and its store, and the other save
stores its own before that. -/
theorem stale_at_rest :
    ¬ ∀ (s s' : System Bool) (as : List (Action Bool)), s.reset = .waiting →
      (∀ t, s.saves t = .outside) → s.shared.usiIsReady = true →
      s.shared.s_bNotResetCheckSum = false → s.shared.mainArea = s.shared.g_ConfigParam →
      s.shared.mainArea.Valid →
      (∀ a ∈ as, a ≠ .resetCompute) → Run Step s as s' → s'.AtRest := by
  intro claim
  have run : Run Step twoThreads [.change false [0, 8] [], .call false, .compute false,
      .change true [0, 9] [], .call true, .compute true, .store true, .write true,
      .store false, .write false] _ :=
    .cons (.change (.inl rfl) ⟨rfl, rfl⟩) (.cons (.call (.inr rfl)) (.cons (.compute rfl)
      (.cons (.change (.inl rfl) ⟨rfl, rfl⟩) (.cons (.call (.inr rfl)) (.cons (.compute rfl)
      (.cons (.store rfl) (.cons (.write rfl) (.cons (.store rfl) (.cons (.write rfl)
      (.nil _))))))))))
  obtain ⟨_, valid⟩ := claim _ _ _ rfl (fun _ => rfl) rfl rfl rfl (by decide) (by simp) run
    (fun t => by cases t <;> rfl)
  revert valid
  decide

end Rovio.Config
