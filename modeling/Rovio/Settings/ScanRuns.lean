import Rovio.Settings.ScanAP

/-! When the events of a scan can be read without leaving the buffers, and to their end. -/
namespace Rovio.ScanAP

open Kit

variable {table : List UInt8} {ap_maxnum : Int} {s t : Scan}

/-! ### Words of an event -/

theorem getD_take {bytes : List UInt8} {n i : Nat} (inside : i < n) :
    (bytes.take n).getD i 0 = bytes.getD i 0 := by
  rw [List.getD_eq_getElem?_getD, List.getD_eq_getElem?_getD, List.getElem?_take_of_lt inside]

theorem eventLen_take (event : List UInt8) : eventLen (event.take 8) = eventLen event := by
  unfold eventLen word
  rw [getD_take (by omega), getD_take (by omega), getD_take (by omega), getD_take (by omega)]

theorem eventCmd_take (event : List UInt8) : eventCmd (event.take 8) = eventCmd event := by
  unfold eventCmd word
  rw [getD_take (by omega), getD_take (by omega), getD_take (by omega), getD_take (by omega)]

/-- The buffers have their sizes, and exactly the results below the number have been filled. -/
structure Tidy (ap_maxnum : Int) (s : Scan) : Prop where
  iwe : s.iwe.length = 24
  mode : s.mode.length = 4
  size : s.ap_prop.length = ap_maxnum.toNat
  fields : ∀ result ∈ s.ap_prop, result.mac.length = 14 ∧ result.ssid.length = 33
  reported : Reported ap_maxnum s

/-- The event's header is in `iwe`. -/
def Headed (table : List UInt8) (s : Scan) : Prop := s.iwe.take 8 = (table.drop s.p).take 8

theorem Headed.len (headed : Headed table s) : eventLen s.iwe = eventLen (table.drop s.p) := by
  rw [← eventLen_take, headed, eventLen_take]

theorem Headed.cmd (headed : Headed table s) : eventCmd s.iwe = eventCmd (table.drop s.p) := by
  rw [← eventCmd_take, headed, eventCmd_take]

/-- What a part of the body keeps. -/
structure Kept (table : List UInt8) (ap_maxnum : Int) (more : Nat) (s t : Scan) : Prop where
  tidy : Tidy ap_maxnum t
  headed : Headed table t
  p : t.p = s.p
  length : t.length = s.length
  number : t.ScanResultApNum = s.ScanResultApNum + more

theorem Kept.trans {u : Scan} {more : Nat} (first : Kept table ap_maxnum 0 s t)
    (second : Kept table ap_maxnum more t u) : Kept table ap_maxnum more s u :=
  ⟨second.tidy, second.headed, second.p.trans first.p, second.length.trans first.length, by
    rw [second.number, first.number, Nat.add_zero]⟩

/-- The place in the table belongs to the length that is left. -/
structure Placed (table : List UInt8) (s : Scan) : Prop where
  place : (s.p : Int) = (table.length - s.length) % 4294967296
  int : s.length ≤ 2147483647

theorem Placed.inside (placed : Placed table s) (more : 0 < s.length)
    (short : table.length < 65536) (inside : s.length ≤ table.length) :
    s.p = table.length - s.length.toNat := by
  obtain ⟨place, int⟩ := placed
  omega

/-- Before the table there is nothing to read. -/
theorem Placed.outside (placed : Placed table s) (more : 0 < s.length)
    (short : table.length < 65536) (here : s.p + 8 ≤ table.length) : s.length ≤ table.length := by
  obtain ⟨place, int⟩ := placed
  omega

/-- The event that a round reads. -/
def Scan.event (table : List UInt8) (s : Scan) : List UInt8 :=
  table.drop (table.length - s.length.toNat)

end Rovio.ScanAP
