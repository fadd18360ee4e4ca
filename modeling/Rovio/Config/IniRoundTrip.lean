import Mathlib.Algebra.GroupWithZero.Nat
import Rovio.Config.IniSections

/-! Which configurations survive `WriteCameraINI` and `ReadCameraINI`. -/
namespace Rovio.Config.Ini
open Rovio.Http Rovio.Settings Kit
open Kit.Ini (Placed Line render fileLines placed placedFile textAfter headerLength entryLines)

/-! The whole file. -/

/-- Where the part behind these sections begins. -/
def behind (lib : IniLib) (front : List (Kit.Ini.Section Stored)) : Nat :=
  (render (fileLines (Stored.text lib) front)).length

theorem header_length (name : CString) (ending separated : Bool) (entries : Entries) :
    headerLength (⟨name, ending, entries, separated⟩ : Kit.Ini.Section Stored) =
      name.length + 3 + if ending then 1 else 0 := by
  cases ending <;> simp [headerLength, Line.text, Line.body, Line.ending]

end Rovio.Config.Ini
