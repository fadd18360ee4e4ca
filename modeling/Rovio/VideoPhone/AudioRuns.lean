import Rovio.VideoPhone.Audio

/-! The runs of the audio threads: what comes to the decoder, and when the writer is left waiting. -/
namespace Rovio.VideoPhone

open Kit

theorem szMaxLength_value : szMaxLength = 1056 := by decide

section Sizes
variable {eDecodeFormat : AudioFormat} {iLAWSize : Nat}

theorem constant_frameSize (n : Nat) :
    FrameSize fun l : List UInt8 => if l.length ≥ n then n else 0 where
  within l := by
    split
    · assumption
    · exact Nat.zero_le _
  stable l more some := by
    split at some
    · rename_i enough
      rw [if_pos enough, if_pos]
      rw [List.length_append]
      omega
    · exact absurd some (Nat.lt_irrefl 0)

theorem amr_frameSize (n : Nat) : FrameSize (auSplitter_GetFrame .amr n) where
  within l := by
    unfold auSplitter_GetFrame
    cases l with
    | nil => exact Nat.le_refl 0
    | cons first rest =>
      dsimp only
      split
      · exact Nat.zero_le _
      · rename_i enough
        exact Nat.le_of_not_lt enough
  stable l more some := by
    cases l with
    | nil => exact absurd some (Nat.lt_irrefl 0)
    | cons first rest =>
      unfold auSplitter_GetFrame at some ⊢
      dsimp only [List.cons_append] at some ⊢
      split at some
      · exact absurd some (Nat.lt_irrefl 0)
      · rename_i enough
        rw [if_neg enough, if_neg]
        rw [List.length_cons, List.length_append]
        rw [List.length_cons] at enough
        omega

theorem audio_frameSize (eDecodeFormat : AudioFormat) (iLAWSize : Nat) :
    FrameSize (auSplitter_GetFrame eDecodeFormat iLAWSize) := by
  cases eDecodeFormat with
  | amr => exact amr_frameSize iLAWSize
  | pcm => exact constant_frameSize OPT_AUDIO_BUFFER_SIZE
  | imaAdpcm => exact ⟨fun l => Nat.zero_le _, fun l more some => absurd some (Nat.lt_irrefl 0)⟩
  | alaw => exact constant_frameSize iLAWSize
  | ulaw => exact constant_frameSize iLAWSize

/-- The formats in which the splitter finds frames that leave room for a piece. -/
def Usable (eDecodeFormat : AudioFormat) (iLAWSize : Nat) : Prop :=
  match eDecodeFormat with
  | .amr | .pcm => True
  | .imaAdpcm => False
  | .alaw | .ulaw => 0 < iLAWSize ∧ iLAWSize ≤ 529

theorem aszLength_le (ucMode : UInt8) : aszLength ucMode ≤ 32 := by
  unfold aszLength
  rw [List.getD_eq_getElem?_getD]
  by_cases inside : ucMode.toNat < 8
  · generalize ucMode.toNat = i at inside
    match i, inside with
    | 0, _ | 1, _ | 2, _ | 3, _ | 4, _ | 5, _ | 6, _ | 7, _ => decide
  · rw [List.getElem?_eq_none (by simpa using inside)]
    exact Nat.zero_le 32

theorem aszLength_positive (first : UInt8) : 0 < aszLength ((first >>> 3) &&& 0x07) := by
  have small : ((first >>> 3) &&& 0x07).toNat < 8 := by
    rw [UInt8.toNat_and]
    exact Nat.and_lt_two_pow _ (by decide : (0x07 : UInt8).toNat < 2 ^ 3)
  unfold aszLength
  generalize ((first >>> 3) &&& 0x07).toNat = i at small
  match i, small with
  | 0, _ | 1, _ | 2, _ | 3, _ | 4, _ | 5, _ | 6, _ | 7, _ => decide

/-- What is left with no complete frame leaves room for a piece. -/
theorem usable_room (usable : Usable eDecodeFormat iLAWSize) {aucBuffer : List UInt8}
    (none : auSplitter_GetFrame eDecodeFormat iLAWSize aucBuffer = 0) :
    aucBuffer.length ≤ 528 := by
  have constant : ∀ n, 0 < n → n ≤ 529 → (if aucBuffer.length ≥ n then n else 0) = 0 →
      aucBuffer.length ≤ 528 := by
    intro n some bound short
    split at short <;> omega
  cases eDecodeFormat with
  | amr =>
    cases aucBuffer with
    | nil => exact Nat.zero_le _
    | cons first rest =>
      have positive := aszLength_positive first
      have bound := aszLength_le ((first >>> 3) &&& 0x07)
      change (if (first :: rest).length < aszLength ((first >>> 3) &&& 0x07) then 0
        else aszLength ((first >>> 3) &&& 0x07)) = 0 at none
      split at none <;> omega
  | pcm => exact constant OPT_AUDIO_BUFFER_SIZE (by decide) (by decide) none
  | imaAdpcm => exact absurd usable id
  | alaw => exact constant iLAWSize usable.1 usable.2 none
  | ulaw => exact constant iLAWSize usable.1 usable.2 none

/-- In the other formats no frame is found in 529 bytes. -/
theorem unusable_none (unusable : ¬ Usable eDecodeFormat iLAWSize) {aucBuffer : List UInt8}
    (few : aucBuffer.length ≤ 529) :
    auSplitter_GetFrame eDecodeFormat iLAWSize aucBuffer = 0 := by
  have constant : ¬ (0 < iLAWSize ∧ iLAWSize ≤ 529) →
      (if aucBuffer.length ≥ iLAWSize then iLAWSize else 0) = 0 := by
    intro other
    split <;> omega
  cases eDecodeFormat with
  | amr => exact absurd trivial unusable
  | pcm => exact absurd trivial unusable
  | imaAdpcm => rfl
  | alaw => exact constant unusable
  | ulaw => exact constant unusable

end Sizes

theorem pieceLength_le (data : List UInt8) :
    pieceLength data ≤ 528 ∧ pieceLength data ≤ data.length := by
  unfold pieceLength
  rw [szMaxLength_value]
  split <;> omega

theorem pieceLength_positive {data : List UInt8} (some : 0 < data.length) :
    0 < pieceLength data := by
  unfold pieceLength
  rw [szMaxLength_value]
  split <;> omega

theorem addData_fits {aucBuffer piece : List UInt8} (room : aucBuffer.length ≤ szMaxLength)
    (space : piece.length ≤ auSplitter_FreeSize aucBuffer) :
    auSplitter_AddData aucBuffer piece = aucBuffer ++ piece := by
  unfold auSplitter_FreeSize at space
  unfold auSplitter_AddData
  rw [if_neg (by omega)]
  dsimp only
  rw [if_neg (by omega)]

theorem delData_drop {aucBuffer : List UInt8} {n : Nat} (within : n ≤ aucBuffer.length) :
    auSplitter_DelData aucBuffer n = aucBuffer.drop n := by
  unfold auSplitter_DelData
  dsimp only
  rw [if_neg (Nat.not_lt.mpr within)]

/-! ### One step -/

section Steps
variable (eDecodeFormat : AudioFormat) (iLAWSize : Nat)

/-- What a player that has a frame knows of the buffer. -/
def Player.Sound (size : Nat) (length : Nat) : Player → Prop
  | .waiting | .looping => True
  | .chosen szLen => szLen = size ∧ 0 < szLen
  | .decoded szLen => 0 < szLen ∧ szLen ≤ length

/-- What holds in every state of a run for a stream. -/
structure AudioInv (stream : List UInt8) (s : AudioState) : Prop where
  whole : s.accepted ++ s.calls.flatten = stream
  handed : Handed (auSplitter_GetFrame eDecodeFormat iLAWSize) s.accepted s.handed s.kept
  room : s.aucBuffer.length ≤ szMaxLength
  player : s.player.Sound (auSplitter_GetFrame eDecodeFormat iLAWSize s.aucBuffer)
    s.aucBuffer.length
  awake : 0 < auSplitter_GetFrame eDecodeFormat iLAWSize s.aucBuffer →
    s.player ≠ .waiting ∨ 0 < s.messages ∨ s.adding = true

variable {eDecodeFormat : AudioFormat} {iLAWSize : Nat} {stream : List UInt8} {s t : AudioState}

theorem audioStart_inv (calls : List (List UInt8)) :
    AudioInv eDecodeFormat iLAWSize calls.flatten (audioStart calls) where
  whole := rfl
  handed := Handed.start _
  room := Nat.zero_le _
  player := trivial
  awake complete := by
    have within := (audio_frameSize eDecodeFormat iLAWSize).within []
    exact absurd complete (Nat.not_lt.mpr within)

theorem add_inv {data : List UInt8} {calls : List (List UInt8)}
    (inv : AudioInv eDecodeFormat iLAWSize stream s) (here : s.calls = data :: calls)
    (space : pieceLength data ≤ auSplitter_FreeSize s.aucBuffer) :
    AudioInv eDecodeFormat iLAWSize stream { s with
      calls := data.drop (pieceLength data) :: calls
      adding := true
      aucBuffer := auSplitter_AddData s.aucBuffer (data.take (pieceLength data))
      accepted := s.accepted ++ data.take (pieceLength data) } := by
  have framed := audio_frameSize eDecodeFormat iLAWSize
  have length : (data.take (pieceLength data)).length = pieceLength data := by
    rw [List.length_take, Nat.min_eq_left (pieceLength_le data).2]
  have added := addData_fits inv.room (by rw [length]; exact space)
  have whole := inv.whole
  have handed := inv.handed.add framed (data.take (pieceLength data))
  have player := inv.player
  rw [here, List.flatten_cons] at whole
  rw [added]
  constructor
  · dsimp only
    rw [List.flatten_cons, List.append_assoc, ← List.append_assoc (data.take _),
      List.take_append_drop, whole]
  · -- a frame that the decoder has been given stands before the new bytes
    have kept : ({ s with
        calls := data.drop (pieceLength data) :: calls
        adding := true
        aucBuffer := s.aucBuffer ++ data.take (pieceLength data)
        accepted := s.accepted ++ data.take (pieceLength data) } : AudioState).kept =
          s.kept ++ data.take (pieceLength data) := by
      unfold AudioState.kept
      cases place : s.player with
      | decoded szLen =>
        rw [place] at player
        exact List.drop_append_of_le_length player.2
      | waiting | looping | chosen => rfl
    rw [kept]
    exact handed
  · have space := space
    unfold auSplitter_FreeSize at space
    have room := inv.room
    dsimp only
    rw [List.length_append, length]
    omega
  · dsimp only
    cases place : s.player with
    | waiting | looping => trivial
    | chosen szLen =>
      rw [place] at player
      obtain ⟨chosen, some⟩ := player
      refine ⟨?_, some⟩
      rw [framed.stable _ _ (by rw [← chosen]; exact some)]
      exact chosen
    | decoded szLen =>
      rw [place] at player
      refine ⟨player.1, ?_⟩
      rw [List.length_append]
      exact Nat.le_add_right_of_le player.2
  · intro _
    exact .inr (.inr rfl)

theorem step_inv {a : AudioAction} (inv : AudioInv eDecodeFormat iLAWSize stream s)
    (step : AudioStep eDecodeFormat iLAWSize s a t) :
    AudioInv eDecodeFormat iLAWSize stream t := by
  have framed := audio_frameSize eDecodeFormat iLAWSize
  have whole := inv.whole
  have handed := inv.handed
  have player := inv.player
  have awake := inv.awake
  cases step with
  | add here idle some space => exact add_inv inv here space
  | send here =>
    refine ⟨whole, handed, inv.room, player, ?_⟩
    intro _
    right
    left
    unfold AUDIO_DEC_MSG_NUM
    dsimp only
    split <;> omega
  | finish here idle =>
    rw [here, List.flatten_cons, List.nil_append] at whole
    exact ⟨whole, handed, inv.room, player, awake⟩
  | receive here some =>
    have kept : s.kept = s.aucBuffer := by rw [AudioState.kept, here]
    rw [kept] at handed
    exact ⟨whole, handed, inv.room, trivial, fun _ => .inl (by rintro ⟨⟩)⟩
  | noFrame here none =>
    have kept : s.kept = s.aucBuffer := by rw [AudioState.kept, here]
    rw [kept] at handed
    exact ⟨whole, handed, inv.room, trivial, fun complete => by dsimp only at complete; omega⟩
  | frame here some =>
    have kept : s.kept = s.aucBuffer := by rw [AudioState.kept, here]
    rw [kept] at handed
    exact ⟨whole, handed, inv.room, ⟨rfl, some⟩, fun _ => .inl (by rintro ⟨⟩)⟩
  | @decode szLen here =>
    have kept : s.kept = s.aucBuffer := by rw [AudioState.kept, here]
    rw [here] at player
    obtain ⟨chosen, some⟩ := player
    rw [kept] at handed
    have next := handed.next framed (by rw [← chosen]; exact some)
    rw [← chosen] at next
    refine ⟨whole, next, inv.room, ⟨some, ?_⟩, fun _ => .inl (by rintro ⟨⟩)⟩
    rw [chosen]
    exact framed.within s.aucBuffer
  | @delData szLen here =>
    have kept : s.kept = s.aucBuffer.drop szLen := by rw [AudioState.kept, here]
    rw [here] at player
    rw [kept] at handed
    have dropped := delData_drop player.2
    refine ⟨whole, ?_, ?_, trivial, fun _ => .inl (by rintro ⟨⟩)⟩
    · change Handed _ _ _ (auSplitter_DelData s.aucBuffer szLen)
      rw [dropped]
      exact handed
    · have room := inv.room
      dsimp only
      rw [dropped, List.length_drop]
      omega

/-! ### The end -/

/-- The steps of the player that a place stands for. -/
def Player.ahead : Player → Nat
  | .waiting => 0
  | .looping => 3
  | .chosen _ => 2
  | .decoded _ => 1

/-- No step makes it larger. -/
def AudioState.ahead (s : AudioState) : Nat :=
  9 * s.calls.flatten.length + s.calls.length + 5 * s.adding.toNat + 4 * s.messages +
    3 * s.aucBuffer.length + s.player.ahead

theorem step_ahead {a : AudioAction} (inv : AudioInv eDecodeFormat iLAWSize stream s)
    (step : AudioStep eDecodeFormat iLAWSize s a t) : t.ahead < s.ahead := by
  have player := inv.player
  unfold AudioState.ahead
  cases step with
  | @add data calls here idle some space =>
    have length : (data.take (pieceLength data)).length = pieceLength data := by
      rw [List.length_take, Nat.min_eq_left (pieceLength_le data).2]
    have within := (pieceLength_le data).2
    have positive := pieceLength_positive some
    rw [addData_fits inv.room (by rw [length]; exact space), here, idle, List.flatten_cons,
      List.flatten_cons, List.length_append, List.length_append, List.length_append, length,
      List.length_drop, List.length_cons, List.length_cons]
    simp only [Bool.toNat_true, Bool.toNat_false]
    omega
  | send here =>
    dsimp only
    rw [here]
    simp only [Bool.toNat_true, Bool.toNat_false]
    split <;> omega
  | finish here idle =>
    rw [here, List.flatten_cons, List.nil_append, List.length_cons]
    dsimp only
    omega
  | receive here some =>
    rw [here]
    dsimp only [Player.ahead]
    omega
  | noFrame here none =>
    rw [here]
    dsimp only [Player.ahead]
    omega
  | frame here some =>
    rw [here]
    dsimp only [Player.ahead]
    omega
  | decode here =>
    rw [here]
    dsimp only [Player.ahead]
    omega
  | delData here =>
    rw [here] at player ⊢
    obtain ⟨some, within⟩ := player
    rw [delData_drop within, List.length_drop]
    dsimp only [Player.ahead]
    omega

/-- While there is data to bring or a frame to hand on, a thread can take a step. -/
theorem goes_on (usable : Usable eDecodeFormat iLAWSize)
    (inv : AudioInv eDecodeFormat iLAWSize stream s) :
    (∃ a t, AudioStep eDecodeFormat iLAWSize s a t) ∨
      s.calls = [] ∧ auSplitter_GetFrame eDecodeFormat iLAWSize s.aucBuffer = 0 ∧
        s.player = .waiting := by
  cases place : s.player with
  | looping =>
    left
    by_cases none : auSplitter_GetFrame eDecodeFormat iLAWSize s.aucBuffer = 0
    · exact ⟨_, _, .noFrame place none⟩
    · exact ⟨_, _, .frame place (Nat.pos_of_ne_zero none)⟩
  | chosen szLen => exact .inl ⟨_, _, .decode place⟩
  | decoded szLen => exact .inl ⟨_, _, .delData place⟩
  | waiting =>
    by_cases adding : s.adding = true
    · exact .inl ⟨_, _, .send adding⟩
    by_cases some : 0 < s.messages
    · exact .inl ⟨_, _, .receive place some⟩
    -- nobody is awake, so there is no frame in the buffer, and room
    have none : auSplitter_GetFrame eDecodeFormat iLAWSize s.aucBuffer = 0 := by
      by_contra complete
      rcases inv.awake (Nat.pos_of_ne_zero complete) with other | sent | busy
      · exact other place
      · exact some sent
      · exact adding busy
    have idle : s.adding = false := Bool.not_eq_true _ ▸ adding
    have room := usable_room usable none
    cases calls : s.calls with
    | nil => exact .inr ⟨rfl, none, rfl⟩
    | cons data calls' =>
      left
      cases data with
      | nil => exact ⟨_, _, .finish calls idle⟩
      | cons b rest =>
        refine ⟨_, _, .add calls idle (Nat.succ_pos _) ?_⟩
        have piece := (pieceLength_le (b :: rest)).1
        unfold auSplitter_FreeSize
        rw [szMaxLength_value]
        omega

theorem run_inv {is : List AudioAction} (inv : AudioInv eDecodeFormat iLAWSize stream s)
    (run : Run (AudioStep eDecodeFormat iLAWSize) s is t) :
    AudioInv eDecodeFormat iLAWSize stream t :=
  run.invariant _ (fun _ _ _ inv step => step_inv inv step) inv

theorem run_ahead {is : List AudioAction} (inv : AudioInv eDecodeFormat iLAWSize stream s)
    (run : Run (AudioStep eDecodeFormat iLAWSize) s is t) : is.length + t.ahead ≤ s.ahead := by
  induction run with
  | nil => exact Nat.le_of_eq (Nat.zero_add _)
  | cons step rest ih =>
    have less := step_ahead inv step
    have later := ih (step_inv inv step)
    rw [List.length_cons]
    omega

theorem run_delivered {calls : List (List UInt8)} {is : List AudioAction}
    (usable : Usable eDecodeFormat iLAWSize)
    (run : Run (AudioStep eDecodeFormat iLAWSize) (audioStart calls) is s) :
    Delivered eDecodeFormat iLAWSize calls s is.length := by
  have framed := audio_frameSize eDecodeFormat iLAWSize
  have start := @audioStart_inv eDecodeFormat iLAWSize calls
  have inv := run_inv start run
  have ahead := run_ahead start run
  have whole := inv.whole
  constructor
  · have frames := inv.handed.frames
    unfold audioFrames
    rw [← whole, cutFrames_append framed, ← frames, List.append_assoc]
    exact List.prefix_append _ _
  · exact ⟨inv.handed.bytes, ⟨s.calls.flatten, whole⟩⟩
  · rcases goes_on usable inv with step | ⟨done, none, waiting⟩
    · exact .inl step
    · right
      have kept : s.kept = s.aucBuffer := by rw [AudioState.kept, waiting]
      rw [done, List.flatten_nil, List.append_nil] at whole
      refine ⟨done, ?_⟩
      rw [← whole]
      exact inv.handed.all (by rw [kept]; exact none)
  · have first : (audioStart calls).ahead = mostSteps calls := rfl
    omega

/-! ### A writer that waits for ever -/

theorem pieceLength_short {data : List UInt8} (short : data.length ≤ 528) :
    pieceLength data = data.length := by
  unfold pieceLength
  rw [szMaxLength_value]
  split <;> omega

/-- A call whose data is no frame, with the player back at its queue. -/
theorem bring {data aucBuffer accepted : List UInt8} {calls : List (List UInt8)}
    (none : ∀ l : List UInt8, l.length ≤ 529 →
      auSplitter_GetFrame eDecodeFormat iLAWSize l = 0)
    (some : 0 < data.length) (short : data.length ≤ 528)
    (few : (aucBuffer ++ data).length ≤ 529) :
    Run (AudioStep eDecodeFormat iLAWSize)
      ⟨data :: calls, false, 0, .waiting, aucBuffer, accepted, []⟩
      [.add, .send, .finish, .receive, .getFrame]
      ⟨calls, false, 0, .waiting, aucBuffer ++ data, accepted ++ data, []⟩ := by
  have piece := pieceLength_short short
  have size := few
  rw [List.length_append] at size
  have room : aucBuffer.length ≤ szMaxLength := by
    rw [szMaxLength_value]
    omega
  have space : data.length ≤ auSplitter_FreeSize aucBuffer := by
    unfold auSplitter_FreeSize
    rw [szMaxLength_value]
    omega
  have add : AudioStep eDecodeFormat iLAWSize
      ⟨data :: calls, false, 0, .waiting, aucBuffer, accepted, []⟩ .add
      ⟨[] :: calls, true, 0, .waiting, aucBuffer ++ data, accepted ++ data, []⟩ := by
    have step := @AudioStep.add eDecodeFormat iLAWSize
      ⟨data :: calls, false, 0, .waiting, aucBuffer, accepted, []⟩ data calls rfl rfl some
      (by rw [piece]; exact space)
    rw [piece, List.drop_length, List.take_length, addData_fits room space] at step
    exact step
  exact .cons add (.cons (.send rfl) (.cons (.finish rfl rfl) (.cons (.receive rfl Nat.one_pos)
    (.cons (.noFrame rfl (none _ few)) (.nil _)))))

/-- The last call finds no room and nobody to make it. -/
theorem left_waiting (none : ∀ l : List UInt8, l.length ≤ 529 →
      auSplitter_GetFrame eDecodeFormat iLAWSize l = 0) :
    ∃ is s, Run (AudioStep eDecodeFormat iLAWSize)
      (audioStart [List.replicate 528 0, [0], List.replicate 528 0]) is s ∧
      (¬ ∃ a t, AudioStep eDecodeFormat iLAWSize s a t) ∧ s.calls ≠ [] := by
  have size : (List.replicate 528 (0 : UInt8)).length = 528 := List.length_replicate
  have first := @bring eDecodeFormat iLAWSize (List.replicate 528 0) [] []
    [[0], List.replicate 528 0] none (by rw [size]; decide) (Nat.le_of_eq size)
    (by rw [List.nil_append, size]; decide)
  have second := @bring eDecodeFormat iLAWSize [0] ([] ++ List.replicate 528 0)
    ([] ++ List.replicate 528 0) [List.replicate 528 0] none (by decide) (by decide)
    (by rw [List.nil_append, List.length_append, size]; decide)
  refine ⟨_, _, first.append second, ?_, by rintro ⟨⟩⟩
  rintro ⟨a, t, step⟩
  cases step with
  | add here idle some space =>
    cases here
    rw [pieceLength_short (Nat.le_of_eq size)] at space
    unfold auSplitter_FreeSize at space
    dsimp only at space
    rw [szMaxLength_value, List.nil_append, List.length_append, size] at space
    exact absurd space (by decide)
  | send here => cases here
  | finish here idle => cases here
  | receive here some => exact absurd some (Nat.lt_irrefl 0)
  | noFrame here none => cases here
  | frame here some => cases here
  | decode here => cases here
  | delData here => cases here

end Steps

/-- However a stream is cut into calls, and however the two threads take turns, its frames come to
the decoder in order, no byte is dropped and the writer does not wait for ever, just when the
splitter finds the frames of the format and they leave room in its buffer. -/
theorem audio_delivered_iff (eDecodeFormat : AudioFormat) (iLAWSize : Nat) :
    (∀ calls is s, Run (AudioStep eDecodeFormat iLAWSize) (audioStart calls) is s →
      Delivered eDecodeFormat iLAWSize calls s is.length) ↔ Usable eDecodeFormat iLAWSize := by
  constructor
  · intro delivered
    by_contra unusable
    obtain ⟨is, s, run, stuck, left⟩ := left_waiting fun _ few => unusable_none unusable few
    rcases (delivered _ is s run).goesOn with step | ⟨done, -⟩
    · exact stuck step
    · exact left done
  · intro usable calls is s run
    exact run_delivered usable run

theorem alaw_none (aucBuffer : List UInt8) : auSplitter_GetFrame .alaw 0 aucBuffer = 0 := by
  unfold auSplitter_GetFrame
  exact ite_self 0

/-- A-law with nothing recorded yet: 1057 bytes are too much. -/
theorem alaw_writer_waits :
    ∃ is s, Run (AudioStep .alaw 0)
      (audioStart [List.replicate 528 0, [0], List.replicate 528 0]) is s ∧
      (¬ ∃ a t, AudioStep .alaw 0 s a t) ∧ s.calls ≠ [] :=
  left_waiting fun l _ => alaw_none l

end Rovio.VideoPhone
