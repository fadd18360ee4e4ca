import Mathlib.Logic.Basic

/-! A recursive mutex as one thread sees it: how often the thread holds it,
beside everything else the thread works on. -/
namespace Kit

universe u
variable {S : Type u}

structure Held (S : Type u) where
  count : Int
  rest : S

namespace Held

def lock (w : Held S) : Held S := { w with count := w.count + 1 }

def unlock (w : Held S) : Held S := { w with count := w.count - 1 }

/-- Work that does not touch the mutex. -/
def work (f : S → S) (w : Held S) : Held S := { w with rest := f w.rest }

@[simp] theorem lock_count (w : Held S) : w.lock.count = w.count + 1 := rfl

@[simp] theorem lock_rest (w : Held S) : w.lock.rest = w.rest := rfl

@[simp] theorem unlock_count (w : Held S) : w.unlock.count = w.count - 1 := rfl

@[simp] theorem work_count (f : S → S) (w : Held S) : (w.work f).count = w.count := rfl

/-- A critical section. -/
def locked (body : Held S → Held S) (w : Held S) : Held S := (body w.lock).unlock

end Held

/-- A part of a program that holds the mutex as often after it as before. -/
def Balanced (f : Held S → Held S) : Prop := ∀ w, (f w).count = w.count

namespace Balanced

variable {f g : Held S → Held S}

theorem skip : Balanced (fun w : Held S => w) := fun _ => rfl

theorem work (f : S → S) : Balanced (Held.work f) := Held.work_count f

theorem seq (first : Balanced f) (second : Balanced g) : Balanced (fun w => g (f w)) :=
  fun w => (second (f w)).trans (first w)

theorem branch (c : S → Bool) (yes : Balanced f) (no : Balanced g) :
    Balanced (fun w => if c w.rest then f w else g w) := by
  intro w
  dsimp only
  split
  · exact yes w
  · exact no w

theorem locked (body : Balanced f) : Balanced (Held.locked f) := by
  intro w
  have inside : (f w.lock).count = w.count + 1 := body w.lock
  change (f w.lock).count - 1 = w.count
  omega

end Balanced

end Kit
