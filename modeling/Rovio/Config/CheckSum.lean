import Rovio.Config.PowerCut

/-! What the checksum sees of a change of one byte. -/
namespace Rovio.Config
open Kit Firmware

variable {bytes : List UInt8} {front i k : Nat} {v : UInt8}

/-- A byte goes into the sum with its index as weight. -/
theorem weigh_set (inside : i < bytes.length) :
    weigh k (bytes.set i v) + bytes[i].toUInt32 * UInt32.ofNat (k + i) =
      weigh k bytes + v.toUInt32 * UInt32.ofNat (k + i) := by
  induction bytes generalizing i k with
  | nil => cases inside
  | cons b rest ih =>
    cases i with
    | zero =>
      simp only [List.set_cons_zero, List.getElem_cons_zero, weigh, Nat.add_zero]
      ac_rfl
    | succ i =>
      have below : i < rest.length := Nat.lt_of_succ_lt_succ inside
      have next : k + 1 + i = k + (i + 1) := by omega
      have behind := ih (k := k + 1) below
      rw [next] at behind
      simp only [List.set_cons_succ, List.getElem_cons_succ, weigh]
      rw [UInt32.add_assoc, behind, ← UInt32.add_assoc]

theorem weight_toNat (b : UInt8) {n : Nat} (small : n < 2 ^ 24) :
    (b.toUInt32 * UInt32.ofNat n).toNat = b.toNat * n := by
  have byte := b.toNat_lt
  have word : b.toUInt32.toNat = b.toNat := rfl
  have index : (UInt32.ofNat n).toNat = n := by
    rw [UInt32.toNat_ofNat']
    omega
  have product : b.toNat * n < 2 ^ 32 := by
    calc b.toNat * n ≤ 255 * n := Nat.mul_le_mul_right n (by omega)
      _ < 2 ^ 32 := by omega
  rw [UInt32.toNat_mul, word, index, Nat.mod_eq_of_lt product]

/-- Two bytes weigh the same at index zero only. -/
theorem weight_eq {b v : UInt8} (other : v ≠ b) {n : Nat} (small : n < 2 ^ 24) :
    b.toUInt32 * UInt32.ofNat n = v.toUInt32 * UInt32.ofNat n ↔ n = 0 := by
  constructor
  · intro same
    have numbers : b.toNat * n = v.toNat * n := by
      rw [← weight_toNat b small, same, weight_toNat v small]
    rcases Nat.eq_zero_or_pos n with zero | pos
    · exact zero
    · have equal := Nat.eq_of_mul_eq_mul_right pos numbers
      exact absurd (UInt8.toNat_inj.mp equal).symm other
  · rintro rfl
    simp

theorem weigh_set_eq (inside : i < bytes.length) (other : v ≠ bytes[i]) (small : k + i < 2 ^ 24) :
    weigh k (bytes.set i v) = weigh k bytes ↔ k + i = 0 := by
  have changed := weigh_set (k := k) (v := v) inside
  rw [← weight_eq other small]
  constructor
  · intro same
    rw [same] at changed
    exact UInt32.add_right_inj _ |>.mp changed
  · intro same
    rw [same] at changed
    exact UInt32.add_left_inj _ |>.mp changed

/-! ### The structure -/

/-- The checksum of the first `front` bytes, of those behind the field, and of the size. -/
theorem valid_ofBytes (room : front + 4 ≤ bytes.length) :
    (CameraConfigParam.ofBytes front bytes).Valid ↔
      weigh 0 (bytes.take front) + weigh (front + 4) (bytes.drop (front + 4)) +
        UInt32.ofNat bytes.length = checkSumAt (bytes.drop front) := by
  have first : (bytes.take front).length = front := by
    rw [List.length_take]
    omega
  have whole : front + 4 + (bytes.drop (front + 4)).length = bytes.length := by
    rw [List.length_drop]
    omega
  unfold CameraConfigParam.Valid getConfigCheckSum CameraConfigParam.ofBytes
  dsimp only
  rw [first, whole]

theorem checkSumAt_bytes (bytes : List UInt8) (room : 4 ≤ bytes.length) :
    ∃ b0 b1 b2 b3 rest, bytes = b0 :: b1 :: b2 :: b3 :: rest ∧
      checkSumAt bytes = ⟨leWord b0 b1 b2 b3⟩ := by
  match bytes, room with
  | b0 :: b1 :: b2 :: b3 :: rest, _ => exact ⟨b0, b1, b2, b3, rest, rfl, rfl⟩

/-- The field takes another value with each of its bytes. -/
theorem checkSumAt_set (room : 4 ≤ bytes.length) (inside : i < 4) (other : v ≠ bytes[i]) :
    checkSumAt (bytes.set i v) ≠ checkSumAt bytes := by
  obtain ⟨b0, b1, b2, b3, rest, rfl, old⟩ := checkSumAt_bytes _ room
  obtain ⟨c0, c1, c2, c3, rest', set, new⟩ :=
    checkSumAt_bytes ((b0 :: b1 :: b2 :: b3 :: rest).set i v) (by rwa [List.length_set])
  intro same
  rw [old, new] at same
  have words : [c0, c1, c2, c3] = [b0, b1, b2, b3] := by
    rw [← leBytes_leWord, ← leBytes_leWord, UInt32.ofBitVec.inj same]
  have front : ((b0 :: b1 :: b2 :: b3 :: rest).set i v).take 4 = [b0, b1, b2, b3] := by
    rw [set]
    exact words
  have there : (((b0 :: b1 :: b2 :: b3 :: rest).set i v).take 4)[i]? = some v := by
    rw [List.getElem?_take_of_lt inside]
    exact List.getElem?_set_self (Nat.lt_of_lt_of_le inside room)
  rw [front] at there
  have before : (b0 :: b1 :: b2 :: b3 :: rest)[i]? = some v := by
    rw [← there, ← List.getElem?_take_of_lt inside]
    rfl
  rw [List.getElem?_eq_getElem (Nat.lt_of_lt_of_le inside room)] at before
  exact other (Option.some.inj before).symm

/-- A change in front of the field. -/
theorem set_front (room : front + 4 ≤ bytes.length) (inside : i < front) (small : front < 2 ^ 24)
    (valid : (CameraConfigParam.ofBytes front bytes).Valid)
    (other : v ≠ bytes[i]) :
    ¬ (CameraConfigParam.ofBytes front (bytes.set i v)).Valid ↔ i ≠ 0 := by
  have size : (bytes.set i v).length = bytes.length := List.length_set
  rw [valid_ofBytes room] at valid
  have taken : i < (bytes.take front).length := by
    rw [List.length_take]
    omega
  have weighed := weigh_set_eq (k := 0) (v := v) taken (by rwa [List.getElem_take]) (by omega)
  rw [valid_ofBytes (by rwa [size]), size, List.take_set, List.drop_set_of_lt inside,
    List.drop_set_of_lt (by omega), ← valid, UInt32.add_left_inj, UInt32.add_left_inj, weighed,
    Nat.zero_add]

/-- A change of the field. -/
theorem set_field (room : front + 4 ≤ bytes.length) (low : front ≤ i) (high : i < front + 4)
    (valid : (CameraConfigParam.ofBytes front bytes).Valid)
    (other : v ≠ bytes[i]) : ¬ (CameraConfigParam.ofBytes front (bytes.set i v)).Valid := by
  have size : (bytes.set i v).length = bytes.length := List.length_set
  obtain ⟨j, rfl⟩ := Nat.exists_eq_add_of_le low
  rw [valid_ofBytes room] at valid
  rw [valid_ofBytes (by rwa [size]), size, List.take_set_of_le low, List.drop_set_of_lt high, valid,
    List.drop_set, if_neg (by omega), Nat.add_sub_cancel_left]
  intro same
  have field : 4 ≤ (bytes.drop front).length := by
    rw [List.length_drop]
    omega
  exact checkSumAt_set field (by omega) (by rwa [List.getElem_drop]) same.symm

/-- A change behind the field. -/
theorem set_back (room : front + 4 ≤ bytes.length) (low : front + 4 ≤ i) (inside : i < bytes.length)
    (small : bytes.length < 2 ^ 24) (valid : (CameraConfigParam.ofBytes front bytes).Valid)
    (other : v ≠ bytes[i]) : ¬ (CameraConfigParam.ofBytes front (bytes.set i v)).Valid := by
  have size : (bytes.set i v).length = bytes.length := List.length_set
  obtain ⟨j, rfl⟩ := Nat.exists_eq_add_of_le low
  rw [valid_ofBytes room] at valid
  have dropped : j < (bytes.drop (front + 4)).length := by
    rw [List.length_drop]
    omega
  have weighed := weigh_set_eq (k := front + 4) (v := v) dropped (by rwa [List.getElem_drop])
    (by omega)
  have field : checkSumAt ((bytes.set (front + 4 + j) v).drop front) =
      checkSumAt (bytes.drop front) := by
    have rest : 4 ≤ (bytes.drop front).length := by
      rw [List.length_drop]
      omega
    have behind : front + 4 + j - front = j + 4 := by omega
    obtain ⟨b0, b1, b2, b3, rest, parts, value⟩ := checkSumAt_bytes _ rest
    rw [List.drop_set, if_neg (by omega), behind, parts]
    rfl
  rw [valid_ofBytes (by rwa [size]), size, List.take_set_of_le (by omega), List.drop_set,
    if_neg (by omega), Nat.add_sub_cancel_left, field, ← valid, UInt32.add_left_inj,
    UInt32.add_right_inj, weighed]
  omega

/-- A change of one byte is seen unless it is the first of the structure and goes into the sum. -/
theorem one_byte_change (l : Layout) (front : Nat) (bytes : List UInt8)
    (length : bytes.length = l.size) (room : front + 4 ≤ l.size)
    (valid : (CameraConfigParam.ofBytes front bytes).Valid) (i : Nat) (inside : i < bytes.length)
    (v : UInt8) (other : v ≠ bytes[i]) :
    ¬ (CameraConfigParam.ofBytes front (bytes.set i v)).Valid ↔ i ≠ 0 ∨ front = 0 := by
  have sector : l.size ≤ eraseSec := by
    have areas := l.room
    omega
  have small : bytes.length < 2 ^ 24 := by
    have size : eraseSec < 2 ^ 24 := Nat.le_of_ble_eq_true rfl
    omega
  rw [← length] at room
  rcases Nat.lt_or_ge i front with before | from_
  · rw [set_front room before (by omega) valid other]
    omega
  rcases Nat.lt_or_ge i (front + 4) with within | behind
  · exact iff_of_true (set_field room from_ within valid other) (by omega)
  · exact iff_of_true (set_back room behind inside small valid other) (by omega)

/-- A configuration that a board with a flash of one megabyte writes. -/
def freshBytes : List UInt8 := (fresh (fun _ => blank) 0).renewed.bytes

theorem freshBytes_length : freshBytes.length = oneMega.size := Board.length_bytes _

theorem freshBytes_valid : (CameraConfigParam.ofBytes (oneMega.size - 4) freshBytes).Valid := by
  have front : (fresh (fun _ => blank) 0).renewed.front.length = oneMega.size - 4 :=
    Nat.eq_sub_of_add_eq (boardSettings_front 0)
  rw [freshBytes, bytes_ofBytes front]
  exact Board.renewed_valid _

theorem freshBytes_head : ∃ rest, freshBytes = 0 :: rest := ⟨_, rfl⟩

/-- The first byte has weight zero. -/
theorem first_byte_unseen :
    (CameraConfigParam.ofBytes (oneMega.size - 4) freshBytes).Valid ∧
      freshBytes[0]? = some 0 ∧
      (CameraConfigParam.ofBytes (oneMega.size - 4) (freshBytes.set 0 1)).Valid := by
  obtain ⟨rest, head⟩ := freshBytes_head
  have size : oneMega.size = 5748 := rfl
  have length := freshBytes_length
  refine ⟨freshBytes_valid, by rw [head]; rfl, ?_⟩
  have unseen := set_front (v := 1) (by omega) (show 0 < oneMega.size - 4 by omega) (by omega)
    freshBytes_valid (by simp [head])
  by_contra seen
  exact unseen.mp seen rfl

theorem second_byte_seen :
    ¬ (CameraConfigParam.ofBytes (oneMega.size - 4) (freshBytes.set 1 1)).Valid := by
  have size : oneMega.size = 5748 := rfl
  have length := freshBytes_length
  have zero : ∃ a rest, freshBytes = a :: 0 :: rest := ⟨_, _, rfl⟩
  obtain ⟨a, rest, head⟩ := zero
  exact (one_byte_change oneMega (oneMega.size - 4) freshBytes length (by omega) freshBytes_valid
    1 (by omega) 1 (by simp [head])).mpr (.inl Nat.one_ne_zero)

end Rovio.Config
