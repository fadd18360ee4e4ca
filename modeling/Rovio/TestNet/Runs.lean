import Rovio.TestNet.Client

/-! Runs of one slot of the wireless test server, whatever its clients send. -/
namespace Rovio.TestNet

open Kit

variable {c d : Client} {rand : Nat}

/-- Where a slot is; the lengths stay inside of the buffer in each place. -/
inductive Place (c : Client) : Prop
  | closed (closed : c.fd = -1)
  | writing (state : c.state = .CLIENT_WRITE) (low : 4 ≤ c.total_length)
      (high : c.total_length ≤ 4100) (some : (c.io_length : Int) ≤ c.total_length)
  | number (state : c.state = .CLIENT_READ) (low : 4 ≤ c.total_length) (few : c.io_length < 4)
  | digits (state : c.state = .CLIENT_READ) (fits : Acceptable c.number)
      (total : c.total_length = 4 + c.number * 4) (many : 4 ≤ c.io_length)
      (more : (c.io_length : Int) < c.total_length)

structure Held (c : Client) : Prop where
  size : c.buffer.length = 4100
  place : Place c
  safe : c.Safe

/-- The histories that a call leaves as they are. -/
def SameHistories (c d : Client) : Prop :=
  d.counted = c.counted ∧ d.announced = c.announced ∧ d.stored = c.stored

theorem SameHistories.safe (same : SameHistories c d) (safe : c.Safe) : d.Safe := by
  obtain ⟨counted, announced, stored⟩ := same
  constructor
  · rw [counted]
    exact safe.counted
  · rw [announced]
    exact safe.rejected
  · rw [stored]
    exact safe.stored

/-! ### What a call does not forget -/

theorem client_init_for_write_histories (run : c.client_init_for_write rand = some d) :
    SameHistories c d := by
  obtain ⟨buffer, -, run⟩ := Option.bind_eq_some_iff.mp run
  obtain ⟨after, -, rfl⟩ := Option.map_eq_some_iff.mp run
  exact ⟨rfl, rfl, rfl⟩

theorem readFinished_histories (run : c.readFinished rand = some d) : SameHistories c d := by
  unfold Client.readFinished at run
  split at run
  · exact client_init_for_write_histories run
  · cases run
    exact ⟨rfl, rfl, rfl⟩

theorem writeFinished_histories (c : Client) : SameHistories c c.writeFinished := by
  unfold Client.writeFinished
  split <;> exact ⟨rfl, rfl, rfl⟩

theorem do_client_write_histories {answer : Answer Nat} (run : do_client_write c answer = some d) :
    SameHistories c d := by
  unfold do_client_write at run
  split at run
  · cases answer with
    | again =>
      cases run
      exact ⟨rfl, rfl, rfl⟩
    | error =>
      cases run
      exact ⟨rfl, rfl, rfl⟩
    | done offer =>
      dsimp only at run
      split at run
      · cases run
        exact ⟨rfl, rfl, rfl⟩
      · obtain ⟨bytes, -, rfl⟩ := Option.map_eq_some_iff.mp run
        exact writeFinished_histories _
  · cases run
    exact writeFinished_histories c

theorem count_announced (c : Client) (buffer : List UInt8) (length_read : Nat) :
    (c.count buffer length_read).announced = c.announced := by
  unfold Client.count
  dsimp only
  split <;> rfl

/-- What is read is handled, or nothing is announced. -/
theorem receive_announced {length : Nat} {answer : Answer (List UInt8)}
    {next : Client → Option Client} (run : c.receive length answer next = some d)
    (further : ∀ b, b.announced = c.announced → next b = some d → c.announced ⊆ d.announced) :
    c.announced ⊆ d.announced := by
  cases answer with
  | again =>
    cases run
    exact List.Subset.refl _
  | error =>
    cases run
    exact List.Subset.refl _
  | done offer =>
    unfold Client.receive at run
    dsimp only at run
    split at run
    · cases run
      exact List.Subset.refl _
    · obtain ⟨buffer, -, run⟩ := Option.bind_eq_some_iff.mp run
      exact further _ (count_announced c buffer _) run

theorem numberRead_announced (run : c.numberRead rand = some d) : c.announced ⊆ d.announced := by
  unfold Client.numberRead at run
  split at run
  · split at run
    · cases run
      exact List.subset_cons_self _ _
    · rw [(readFinished_histories run).2.1]
      exact List.subset_cons_self _ _
  · rw [(readFinished_histories run).2.1]
    exact List.Subset.refl _

/-- No announcement is forgotten. -/
theorem turn_announced {t : Turn} (run : turn c t = some d) : c.announced ⊆ d.announced := by
  cases t with
  | accepted fd rand =>
    unfold turn at run
    dsimp only at run
    split at run
    · rw [(client_init_for_write_histories run).2.1]
      exact List.Subset.refl _
    · cases run
      exact List.Subset.refl _
  | expired =>
    unfold turn at run
    cases run
    split <;> exact List.Subset.refl _
  | ready reading writing rand =>
    unfold turn at run
    dsimp only at run
    split at run
    · unfold do_client at run
      split at run
      · rw [(do_client_write_histories run).2.1]
        exact List.Subset.refl _
      · unfold do_client_read at run
        split at run
        · refine receive_announced run fun b same further => ?_
          rw [← same]
          exact numberRead_announced further
        · split at run
          · refine receive_announced run fun b same further => ?_
            rw [(readFinished_histories further).2.1, ← same]
            exact List.Subset.refl _
          · rw [(readFinished_histories run).2.1]
            exact List.Subset.refl _
    · cases run
      exact List.Subset.refl _

theorem turns_announced {ts : List Turn} (run : turns c ts = some d) :
    c.announced ⊆ d.announced := by
  induction ts generalizing c with
  | nil =>
    cases run
    exact List.Subset.refl _
  | cons t ts ih =>
    rw [turns, List.foldlM_cons] at run
    obtain ⟨next, first, rest⟩ := Option.bind_eq_some_iff.mp run
    exact fun _ mem => ih rest (turn_announced first mem)

/-! ### What a call keeps -/

theorem client_init_for_write_held (size : c.buffer.length = 4100) (safe : c.Safe) (rand : Nat) :
    ∃ d, c.client_init_for_write rand = some d ∧ Held d := by
  have small : rand % MAX_INT_NUM < 1024 := Nat.mod_lt rand (Nat.succ_pos 1023)
  obtain ⟨first, stored⟩ := @put_isSome UInt8 c.buffer
    (leBytes (BitVec.ofNat 32 (rand % MAX_INT_NUM))) 0 (by rw [length_leBytes]; omega)
  obtain ⟨after, digits, length⟩ := digits_put (List.range (rand % MAX_INT_NUM))
    ((put_length stored).trans size) (fun i mem => by have := List.mem_range.mp mem; omega)
  have total : totalLength ((rand % MAX_INT_NUM : Nat) : Int) =
      4 + ((rand % MAX_INT_NUM : Nat) : Int) * 4 :=
    totalLength_eq ⟨Int.natCast_nonneg _, by
      rw [show ((MAX_INT_NUM : Nat) : Int) = 1024 from rfl]
      omega⟩
  have run : c.client_init_for_write rand = some { c with
      state := .CLIENT_WRITE, total_length := totalLength ((rand % MAX_INT_NUM : Nat) : Int),
      io_length := 0, buffer := after } := by
    unfold Client.client_init_for_write
    dsimp only
    rw [stored, Option.bind_some, digits, Option.map_some]
  have safe := (client_init_for_write_histories run).safe safe
  generalize totalLength ((rand % MAX_INT_NUM : Nat) : Int) = whole at run total safe
  have low : 4 ≤ whole := by omega
  have high : whole ≤ 4100 := by omega
  have start : ((0 : Nat) : Int) ≤ whole := by omega
  exact ⟨_, run, length, .writing rfl low high start, safe⟩

theorem uninit_held (size : c.buffer.length = 4100) (safe : c.Safe) : Held c.client_uninit :=
  ⟨size, .closed rfl, safe.counted, safe.rejected, safe.stored⟩

theorem writeFinished_held (size : c.buffer.length = 4100) (safe : c.Safe)
    (state : c.state = .CLIENT_WRITE) (low : 4 ≤ c.total_length) (high : c.total_length ≤ 4100)
    (some : (c.io_length : Int) ≤ c.total_length) : Held c.writeFinished := by
  have safe := (writeFinished_histories c).safe safe
  unfold Client.writeFinished at safe ⊢
  rcases lt_or_ge (c.io_length : Int) c.total_length with more | all
  · rw [if_neg (not_le.mpr more)] at safe ⊢
    exact ⟨size, .writing state low high some, safe⟩
  · rw [if_pos all] at safe ⊢
    exact ⟨size, .number rfl low (Nat.succ_pos 3), safe⟩

theorem do_client_write_held (held : Held c) (state : c.state = .CLIENT_WRITE)
    (low : 4 ≤ c.total_length) (high : c.total_length ≤ 4100)
    (far : (c.io_length : Int) ≤ c.total_length) (answer : Answer Nat) :
    ∃ d, do_client_write c answer = some d ∧ Held d := by
  obtain ⟨size, place, safe⟩ := held
  unfold do_client_write
  split
  · cases answer with
    | again => exact ⟨c, rfl, size, place, safe⟩
    | error => exact ⟨_, rfl, uninit_held size safe⟩
    | done offer =>
      dsimp only
      generalize written : min offer (min (c.total_length - c.io_length).toNat MAX_IO_SIZE) = n
      have inside : n ≤ (c.total_length - c.io_length).toNat := by omega
      split
      · exact ⟨_, rfl, uninit_held size safe⟩
      · have fetched : fetch c.buffer c.io_length n =
            some ((c.buffer.drop c.io_length).take n) := if_pos (by omega)
        rw [fetched, Option.map_some]
        refine ⟨_, rfl, writeFinished_held size ?_ state low high ?_⟩
        · exact ⟨safe.counted, safe.rejected, safe.stored⟩
        · show ((c.io_length + n : Nat) : Int) ≤ c.total_length
          omega
  · exact ⟨_, rfl, writeFinished_held size safe state low high far⟩

/-- A read is counted, and the rest of the call follows, unless nothing is read. -/
theorem receive_held (held : Held c) {length : Nat} (answer : Answer (List UInt8))
    {next : Client → Option Client} (room : c.io_length + length ≤ 4100)
    (further : ∀ offer buffer, answer = .done offer → offer.take (min length MAX_IO_SIZE) ≠ [] →
      put c.buffer c.io_length (offer.take (min length MAX_IO_SIZE)) = some buffer →
      ∃ d, next (c.count buffer (offer.take (min length MAX_IO_SIZE)).length) = some d ∧ Held d) :
    ∃ d, c.receive length answer next = some d ∧ Held d := by
  cases answer with
  | again => exact ⟨c, rfl, held⟩
  | error => exact ⟨_, rfl, uninit_held held.size held.safe⟩
  | done offer =>
    unfold Client.receive
    dsimp only
    split
    · exact ⟨_, rfl, uninit_held held.size held.safe⟩
    · rename_i nonempty
      have size := held.size
      obtain ⟨buffer, stored⟩ := @put_isSome UInt8 c.buffer (offer.take (min length MAX_IO_SIZE))
        c.io_length (by rw [List.length_take]; omega)
      rw [stored, Option.bind_some]
      exact further offer buffer rfl nonempty stored

/-- Counting keeps what has been counted within what has been announced. -/
theorem count_safe (safe : c.Safe) {buffer : List UInt8} {n : Nat}
    (inside : 4 ≤ c.io_length + n → ((c.io_length + n : Nat) : Int) ≤ 4 + leInt buffer * 4) :
    (c.count buffer n).Safe := by
  unfold Client.count
  dsimp only
  split
  · rename_i many
    refine ⟨?_, safe.rejected, safe.stored⟩
    intro p mem
    rcases List.mem_cons.mp mem with rfl | mem
    · exact inside many
    · exact safe.counted p mem
  · exact ⟨safe.counted, safe.rejected, safe.stored⟩

theorem count_io_length (c : Client) (buffer : List UInt8) (n : Nat) :
    (c.count buffer n).io_length = c.io_length + n := by
  unfold Client.count
  dsimp only
  split <;> rfl

theorem count_buffer (c : Client) (buffer : List UInt8) (n : Nat) :
    (c.count buffer n).buffer = buffer := by
  unfold Client.count
  dsimp only
  split <;> rfl

theorem count_total_length (c : Client) (buffer : List UInt8) (n : Nat) :
    (c.count buffer n).total_length = c.total_length := by
  unfold Client.count
  dsimp only
  split <;> rfl

theorem count_state (c : Client) (buffer : List UInt8) (n : Nat) :
    (c.count buffer n).state = c.state := by
  unfold Client.count
  dsimp only
  split <;> rfl

theorem count_number (c : Client) (buffer : List UInt8) (n : Nat) :
    (c.count buffer n).number = leInt buffer := by
  rw [Client.number, count_buffer]

/-- A read that is not finished leaves the slot where the request's number or its data come in. -/
theorem readFinished_held (size : c.buffer.length = 4100) (safe : c.Safe)
    (place : (c.io_length : Int) < c.total_length → Place c) (rand : Nat) :
    ∃ d, c.readFinished rand = some d ∧ Held d := by
  unfold Client.readFinished
  rcases lt_or_ge (c.io_length : Int) c.total_length with more | all
  · rw [if_neg (not_le.mpr more)]
    exact ⟨c, rfl, size, place more, safe⟩
  · rw [if_pos all]
    exact client_init_for_write_held size safe rand

theorem numberRead_held (size : c.buffer.length = 4100) (safe : c.Safe)
    (state : c.state = .CLIENT_READ) (low : 4 ≤ c.total_length)
    (plain : 4 ≤ c.io_length → 0 ≤ c.number)
    (rand : Nat) : ∃ d, c.numberRead rand = some d ∧ Held d := by
  unfold Client.numberRead
  split
  · rename_i complete
    split
    · rename_i long
      refine ⟨_, rfl, size, .closed rfl, safe.counted, ?_, safe.stored⟩
      intro p mem
      rcases List.mem_cons.mp mem with rfl | mem
      · exact fun _ => rfl
      · exact safe.rejected p mem
    · rename_i short
      have fits : Acceptable c.number := ⟨plain complete, not_lt.mp short⟩
      apply readFinished_held
      · exact size
      · refine ⟨safe.counted, ?_, safe.stored⟩
        intro p mem
        rcases List.mem_cons.mp mem with rfl | mem
        · exact fun unfit => absurd fits unfit
        · exact safe.rejected p mem
      · intro more
        exact .digits state fits (totalLength_eq fits) complete more
  · rename_i few
    exact readFinished_held size safe (fun _ => .number state low (not_le.mp few)) rand

/-- The number that is complete after a read is the one the turn announces. -/
theorem announces_number {offer : List UInt8} {writing : Answer Nat} {buffer : List UInt8}
    (unclosed : c.fd ≠ -1) (state : c.state = .CLIENT_READ) (few : c.io_length < 4)
    (stored : put c.buffer c.io_length (offer.take (4 - c.io_length)) = some buffer)
    (complete : 4 ≤ c.io_length + (offer.take (4 - c.io_length)).length) :
    announces c (.ready (.done offer) writing rand) = some (leInt buffer) := by
  have length : c.io_length + (offer.take (4 - c.io_length)).length = 4 := by
    rw [List.length_take] at complete ⊢
    omega
  have front := put_take stored
  rw [length] at front
  unfold announces
  dsimp only
  rw [if_pos ⟨unclosed, state, few⟩, if_pos length, ← front, leInt_take]

theorem do_client_read_held (held : Held c) (unclosed : c.fd ≠ -1) (state : c.state = .CLIENT_READ)
    (answer : Answer (List UInt8)) (writing : Answer Nat) (rand : Nat)
    (plain : ∀ number, announces c (.ready answer writing rand) = some number → 0 ≤ number) :
    ∃ d, do_client_read c answer rand = some d ∧ Held d := by
  have size := held.size
  have safe := held.safe
  unfold do_client_read
  cases held.place with
  | closed closed => exact absurd closed unclosed
  | writing other =>
    rw [state] at other
    cases other
  | number _ low few =>
    rw [if_pos few]
    refine receive_held held answer (by omega) ?_
    rintro offer buffer rfl some stored
    rw [Nat.min_eq_left (show 4 - c.io_length ≤ MAX_IO_SIZE by unfold MAX_IO_SIZE; omega)]
      at stored ⊢
    have announced := fun complete =>
      plain _ (@announces_number c rand offer writing buffer unclosed state few stored complete)
    apply numberRead_held
    · rw [count_buffer]
      exact (put_length stored).trans size
    · apply count_safe safe
      intro complete
      have := announced complete
      rw [List.length_take]
      omega
    · rw [count_state]
      exact state
    · rw [count_total_length]
      exact low
    · rw [count_io_length, count_number]
      exact announced
  | digits _ fits total many more =>
    rw [if_neg (not_lt.mpr many), if_pos more]
    obtain ⟨low, high⟩ := fits
    rw [show ((MAX_INT_NUM : Nat) : Int) = 1024 from rfl] at high
    refine receive_held held answer (by omega) ?_
    rintro offer buffer rfl some stored
    -- what is stored lies behind the number
    have same : leInt buffer = c.number := by
      rw [← leInt_take buffer, put_take_before stored many, leInt_take, Client.number]
    have inside : ((offer.take (min (c.total_length - c.io_length).toNat MAX_IO_SIZE)).length : Int) ≤
        c.total_length - c.io_length := by
      rw [List.length_take]
      omega
    generalize offer.take (min (c.total_length - c.io_length).toNat MAX_IO_SIZE) = bytes at *
    have counted : (c.count buffer bytes.length).Safe := by
      apply count_safe safe
      intro _
      rw [same]
      omega
    apply readFinished_held
    · show (c.count buffer bytes.length).buffer.length = 4100
      rw [count_buffer]
      exact (put_length stored).trans size
    · refine ⟨counted.counted, counted.rejected, ?_⟩
      intro number mem
      rcases List.mem_cons.mp mem with rfl | mem
      · rw [count_number, same]
        exact ⟨low, high⟩
      · exact counted.stored number mem
    · intro further
      refine .digits ?_ ?_ ?_ ?_ further
      · exact (count_state c buffer bytes.length).trans state
      · show Acceptable (c.count buffer bytes.length).number
        rw [count_number, same]
        exact ⟨low, high⟩
      · show (c.count buffer bytes.length).total_length =
          4 + (c.count buffer bytes.length).number * 4
        rw [count_number, count_total_length, same]
        exact total
      · show 4 ≤ (c.count buffer bytes.length).io_length
        rw [count_io_length]
        omega

theorem turn_held (held : Held c) (t : Turn)
    (plain : ∀ number, announces c t = some number → 0 ≤ number) :
    ∃ d, turn c t = some d ∧ Held d := by
  have size := held.size
  have safe := held.safe
  unfold turn
  cases t with
  | accepted fd rand =>
    dsimp only
    split
    · apply client_init_for_write_held
      · exact size
      · exact ⟨safe.counted, safe.rejected, safe.stored⟩
    · exact ⟨c, rfl, held⟩
  | expired =>
    refine ⟨_, rfl, ?_⟩
    split
    · exact uninit_held size safe
    · exact held
  | ready reading writing rand =>
    dsimp only
    split
    · rename_i unclosed
      unfold do_client
      cases held.place with
      | closed closed => exact absurd closed unclosed
      | writing state low high far =>
        rw [state]
        exact do_client_write_held held state low high far writing
      | number state =>
        rw [state]
        exact do_client_read_held held unclosed state reading writing rand plain
      | digits state =>
        rw [state]
        exact do_client_read_held held unclosed state reading writing rand plain
    · exact ⟨c, rfl, held⟩

theorem turns_held (held : Held c) (ts : List Turn) (plain : NoneNegative c ts) :
    ∃ d, turns c ts = some d ∧ Held d := by
  induction ts generalizing c with
  | nil => exact ⟨c, rfl, held⟩
  | cons t ts ih =>
    obtain ⟨next, first, held⟩ := turn_held held t plain.1
    rw [turns, List.foldlM_cons, first]
    exact ih held (plain.2 next first)

/-- A negative number is let pass. -/
theorem negative_announced (size : c.buffer.length = 4100) {t : Turn} {number : Int}
    (announced : announces c t = some number) (negative : number < 0) (run : turn c t = some d) :
    (number, false) ∈ d.announced := by
  unfold announces at announced
  split at announced
  · rename_i offer writing rand
    split at announced
    · rename_i here
      obtain ⟨unclosed, state, few⟩ := here
      dsimp only at announced
      split at announced
      · rename_i length
        cases announced
        obtain ⟨buffer, stored⟩ := @put_isSome UInt8 c.buffer (offer.take (4 - c.io_length))
          c.io_length (by omega)
        have nonempty : offer.take (4 - c.io_length) ≠ [] := by
          intro nil
          rw [nil, List.length_nil] at length
          omega
        have front := put_take stored
        rw [length] at front
        rw [← front, leInt_take] at negative ⊢
        unfold turn do_client do_client_read Client.receive at run
        dsimp only at run
        rw [if_pos unclosed, state] at run
        dsimp only at run
        rw [if_pos few, Nat.min_eq_left (show 4 - c.io_length ≤ MAX_IO_SIZE by
          unfold MAX_IO_SIZE; omega), if_neg nonempty, stored, Option.bind_some,
          Client.numberRead, count_io_length, count_number, if_pos (by omega), if_neg (by omega)]
          at run
        rw [(readFinished_histories run).2.1]
        exact List.mem_cons_self ..
      · cases announced
    · cases announced
  · cases announced

theorem safe_plain (held : Held c) (ts : List Turn) (run : turns c ts = some d) (safe : d.Safe) :
    NoneNegative c ts := by
  induction ts generalizing c with
  | nil => trivial
  | cons t ts ih =>
    rw [turns, List.foldlM_cons] at run
    obtain ⟨next, first, rest⟩ := Option.bind_eq_some_iff.mp run
    have plain : ∀ number, announces c t = some number → 0 ≤ number := by
      intro number announced
      apply Int.not_lt.mp
      intro negative
      have passed := turns_announced rest
        (negative_announced held.size announced negative first)
      have closed := safe.rejected _ passed (fun fits => absurd fits.1 (not_le.mpr negative))
      cases closed
    refine ⟨plain, ?_⟩
    rintro other same
    rw [first] at same
    cases same
    obtain ⟨now, same, held⟩ := turn_held held t plain
    rw [first] at same
    cases same
    exact ih held rest

/-- Whatever is sent and however it is split, all accesses stay inside of the buffer, no more is
counted than was announced and what is not acceptable is rejected at once, just in case no client
announces a negative number. -/
theorem client_safe_iff (state : ClientState) (total_length : Int) (io_length : Nat)
    (buffer : { bytes : List UInt8 // bytes.length = 4100 }) (ts : List Turn) :
    (∃ d, turns (freeSlot state total_length io_length buffer.val) ts = some d ∧ d.Safe) ↔
      NoneNegative (freeSlot state total_length io_length buffer.val) ts := by
  have start : Held (freeSlot state total_length io_length buffer.val) := by
    refine ⟨buffer.property, .closed rfl, ?_, ?_, ?_⟩ <;> exact fun _ mem => by cases mem
  constructor
  · rintro ⟨d, run, safe⟩
    exact safe_plain start ts run safe
  · intro plain
    obtain ⟨d, run, held⟩ := turns_held start ts plain
    exact ⟨d, run, held.safe⟩

/-- A number of -2147482623 announces 4104 bytes as an int, four more than there is room for. -/
theorem negative_overruns : ¬ ∃ d, turns (freeSlot .CLIENT_READ 0 0 (List.replicate 4100 0))
    [.accepted 5 0, .ready .again (.done 4) 0, .ready (.done [1, 4, 0, 128]) .again 0,
      .ready (.done (List.replicate 4100 0)) .again 0] = some d ∧ d.Safe := by
  rintro ⟨d, run, -⟩
  have none : turns (freeSlot .CLIENT_READ 0 0 (List.replicate 4100 0))
      [.accepted 5 0, .ready .again (.done 4) 0, .ready (.done [1, 4, 0, 128]) .again 0,
        .ready (.done (List.replicate 4100 0)) .again 0] = none :=
    Option.isNone_iff_eq_none.mp (by decide +kernel)
  rw [none] at run
  cases run

end Rovio.TestNet
