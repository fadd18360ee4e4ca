import Rovio.Kit.Runs
import Rovio.Config.Flash

/-! Saves of the configuration by any number of threads, and one factory reset. A save changes
fields of `g_ConfigParam` and calls `WriteFlashMemory`, where only the write of the flash is under
a lock. -/
namespace Rovio.Config
open Kit

universe u

/-- Where a save stands: not under way, with fields changed, behind the test of
`s_bNotResetCheckSum`, with the checksum computed, and with it stored. -/
inductive Place where
  | outside
  | changing
  | tested
  | computed (ulCheckSum : UInt32)
  | stored

/-- The reset spoils the checksum of `g_ConfigParam` first; then `__WriteFlashMemory` sets the flag
and writes. Its result is not looked at. -/
inductive Reset where
  | waiting
  | computed (ulCheckSum : UInt32)
  | stored
  | flagged
  | reported

structure System (T : Type u) where
  shared : Shared
  saves : T → Place
  reset : Reset

inductive Action (T : Type u) where
  | change (t : T) (front back : List UInt8)
  | call (t : T)
  | compute (t : T)
  | store (t : T)
  | write (t : T)
  | resetCompute
  | resetStore
  | resetFlag
  | resetWrite

def CameraConfigParam.change (c : CameraConfigParam) (front back : List UInt8) :
    CameraConfigParam :=
  { c with front, back }

section
variable {T : Type u} [DecidableEq T]

def System.put (s : System T) (shared : Shared) (t : T) (place : Place) : System T :=
  { s with shared, saves := Function.update s.saves t place }

inductive Step : System T → Action T → System T → Prop where
  | change {s : System T} {t : T} {front back : List UInt8}
      (here : s.saves t = .outside ∨ s.saves t = .changing)
      (sizes : front.length = s.shared.g_ConfigParam.front.length ∧
        back.length = s.shared.g_ConfigParam.back.length) :
      Step s (.change t front back)
        (s.put { s.shared with g_ConfigParam := s.shared.g_ConfigParam.change front back }
          t .changing)
  | call {s : System T} {t : T} (here : s.saves t = .outside ∨ s.saves t = .changing) :
      Step s (.call t)
        (s.put s.shared t (if s.shared.s_bNotResetCheckSum then .outside else .tested))
  | compute {s : System T} {t : T} (here : s.saves t = .tested) :
      Step s (.compute t)
        (s.put s.shared t (.computed (getConfigCheckSum s.shared.g_ConfigParam)))
  | store {s : System T} {t : T} {sum : UInt32} (here : s.saves t = .computed sum) :
      Step s (.store t) (s.put (setCheckSum s.shared sum) t .stored)
  | write {s : System T} {t : T} (here : s.saves t = .stored) :
      Step s (.write t) (s.put (writeArea s.shared false) t .outside)
  | resetCompute {s : System T} (here : s.reset = .waiting) :
      Step s .resetCompute
        { s with reset := .computed (getConfigCheckSum s.shared.g_ConfigParam + 1) }
  | resetStore {s : System T} {sum : UInt32} (here : s.reset = .computed sum) :
      Step s .resetStore { s with shared := setCheckSum s.shared sum, reset := .stored }
  | resetFlag {s : System T} (here : s.reset = .stored) :
      Step s .resetFlag
        { s with shared := { s.shared with s_bNotResetCheckSum := true }, reset := .flagged }
  | resetWrite {s : System T} (here : s.reset = .flagged) :
      Step s .resetWrite { s with shared := writeArea s.shared false, reset := .reported }

end

/-! ### A thread alone runs the function -/

section
variable {T : Type u} [DecidableEq T] {s : System T} {t : T}

theorem writeFlashMemory_steps (clear : s.shared.s_bNotResetCheckSum = false)
    (outside : s.saves t = .outside) :
    Run Step s [.call t, .compute t, .store t, .write t]
      { s with shared := (writeFlashMemory s.shared true false).2 } := by
  have back : s.saves = Function.update s.saves t .outside := by
    rw [← outside, Function.update_eq_self]
  have result : ({ s with shared := (writeFlashMemory s.shared true false).2 } : System T) =
      (((s.put s.shared t .tested).put s.shared t
        (.computed (getConfigCheckSum s.shared.g_ConfigParam))).put
        (setCheckSum s.shared (getConfigCheckSum s.shared.g_ConfigParam)) t .stored).put
        (writeArea (setCheckSum s.shared (getConfigCheckSum s.shared.g_ConfigParam)) false)
        t .outside := by
    simp only [System.put, Function.update_idem, ← back, writeFlashMemory, clear]
    rfl
  rw [result]
  have call := Step.call (s := s) (t := t) (.inl outside)
  rw [clear] at call
  have here (s : System T) (shared : Shared) (place : Place) :
      (s.put shared t place).saves t = place := Function.update_self ..
  exact .cons call (.cons (.compute (here ..)) (.cons (.store (here ..))
    (.cons (.write (here ..)) (.nil _))))

theorem writeFlashMemory_refused (set : s.shared.s_bNotResetCheckSum = true)
    (outside : s.saves t = .outside) :
    Run Step s [.call t] { s with shared := (writeFlashMemory s.shared true false).2 } := by
  have result : ({ s with shared := (writeFlashMemory s.shared true false).2 } : System T) =
      s.put s.shared t .outside := by
    simp [System.put, writeFlashMemory, set, ← outside]
  have call := Step.call (s := s) (t := t) (.inl outside)
  rw [set] at call
  rw [result]
  exact .cons call (.nil _)

theorem reset_steps (waiting : s.reset = .waiting) :
    Run Step s [.resetCompute, .resetStore, .resetFlag, .resetWrite]
      { s with
        shared := (writeFlashMemory
          (setCheckSum s.shared (getConfigCheckSum s.shared.g_ConfigParam + 1)) false false).2
        reset := .reported } :=
  .cons (.resetCompute waiting) (.cons (.resetStore rfl) (.cons (.resetFlag rfl)
    (.cons (.resetWrite rfl) (.nil _))))

end

end Rovio.Config
