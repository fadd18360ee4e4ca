import Rovio.Kit.Buffer
import Rovio.Kit.Bytes

/-! The access points a scan has found: the wireless driver's events are read one after another
into a table of results. -/
namespace Rovio.ScanAP

open Kit

structure ApScanResult where
  mac : List UInt8
  ssid : List UInt8
  mode : Int
  freq : Int
  signal : Int
  noise : Int
  encode : Int
  connect : Int

/-- A result as `memset` leaves it: `mac` of 14 and `ssid` of 33 bytes. -/
def cleared : ApScanResult := ⟨List.replicate 14 0, List.replicate 33 0, 0, 0, 0, 0, 0, 0⟩

def word (bytes : List UInt8) (offset : Nat) : BitVec 32 :=
  leWord (bytes.getD offset 0) (bytes.getD (offset + 1) 0) (bytes.getD (offset + 2) 0)
    (bytes.getD (offset + 3) 0)

/-- `len` and `cmd` of the event at the front. -/
def eventLen (event : List UInt8) : Nat := (word event 0).toNat
def eventCmd (event : List UInt8) : Nat := (word event 4).toNat

/-- The variables of the loop. `iwe` has the 24 bytes of a `struct iw_event`, `mode` the four of the
int, `p` is an offset into the table as 32 bits hold it. The last field is a history: the indexes of
the results that have been written to. -/
structure Scan where
  iwe : List UInt8
  mode : List UInt8
  ap_prop : List ApScanResult
  ScanResultApNum : Nat
  p : Nat
  length : Int
  filled : List Nat

/-- Writes to `ap_prop[i]`. -/
def Scan.fill (s : Scan) (i : Nat) (change : ApScanResult → Option ApScanResult) : Option Scan :=
  match s.ap_prop[i]? with
  | none => none
  | some result => (change result).map fun result =>
      { s with ap_prop := s.ap_prop.set i result, filled := i :: s.filled }

/-- `length -= iwe.len; p += iwe.len`. -/
def Scan.advance (s : Scan) : Scan :=
  { s with
    length := Int.bmod (s.length - eventLen s.iwe) 4294967296
    p := (s.p + eventLen s.iwe) % 4294967296 }

/-- Exactly the results below the reported number have been filled. -/
structure Reported (ap_maxnum : Int) (s : Scan) : Prop where
  capacity : s.ScanResultApNum ≤ ap_maxnum.toNat
  filled : ∀ i, i ∈ s.filled ↔ i < s.ScanResultApNum
  others : ∀ i, s.ScanResultApNum ≤ i → i < ap_maxnum.toNat → s.ap_prop[i]? = some cleared

end Rovio.ScanAP
