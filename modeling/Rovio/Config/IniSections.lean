import Rovio.Config.IniValues

/-! Section by section, what the reader restores: the values that are among the first 1023
characters, and those that are as good as absent. -/
namespace Rovio.Config.Ini
open Rovio.Http Rovio.Settings Kit
open Kit.Ini (Placed Line render fileLines placed placedFile textAfter headerLength entryLines)

section
variable {lib : IniLib} {file : CString} {start : Nat}

/-- What is read for each of the entries of a section. -/
def Reads (lib : IniLib) (file seg : CString) (start : Nat) (entries : Entries) : Prop :=
  ∀ e ∈ placed (Stored.text lib) start entries,
    ∃ t, readDefault lib file seg e.name = some t ∧ Shown lib e.pos e.value t

/-- Each of the entries is kept at its place. -/
def AllKept (lib : IniLib) (start : Nat) (entries : Entries) : Prop :=
  ∀ e ∈ placed (Stored.text lib) start entries, e.value.Kept lib e.pos

@[simp] theorem allKept_nil : AllKept lib start [] := by
  simp [AllKept, placed]

end

end Rovio.Config.Ini
