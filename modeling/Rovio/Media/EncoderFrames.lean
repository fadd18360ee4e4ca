import Rovio.Media.EncoderBuffers

/-! The buffers of the encoder over a whole run, and the order in which its frames come to the
readers. -/
namespace Rovio.Media.Encoder
open Kit

section
variable {s s' : System} {a : Action} {b c count : Nat} {pool : Pool}

/-! ### What is told -/

theorem System.Told.moved (told : s.Told)
    (index : ∀ b f, (s'.buffers b).frame = some f → (s'.buffers b).nIndex = f.nIndex)
    (read : ∀ x ∈ s'.delivered, ∀ f, x.frame = some f → x.nIndex = f.nIndex)
    (frames : s'.deliveredFrames ++ s'.ahead = s.deliveredFrames ++ s.ahead)
    (history : s'.encoded = s.encoded ∧ s'.cleared = s.cleared ∧ s'.evicted = s.evicted)
    (counter : s'.session = s.session ∧ s'.nEncodeIndex = s.nEncodeIndex) : s'.Told := by
  obtain ⟨encoded, cleared, evicted⟩ := history
  obtain ⟨session, nEncodeIndex⟩ := counter
  exact {
    index
    delivered := read
    order := by
      rw [frames, encoded]
      exact told.order
    once := by
      rw [frames, encoded, cleared, evicted]
      exact told.once
    current := by
      rw [encoded, session, nEncodeIndex]
      exact told.current
    past := by
      rw [encoded]
      exact told.past
    later := by
      rw [encoded, session]
      exact told.later }

/-- Nothing that is told changes. -/
theorem System.Told.same (told : s.Told) (buffers : s'.buffers = s.buffers)
    (list : s'.listBitstream = s.listBitstream) (previous : s'.previous1 = s.previous1)
    (delivered : s'.delivered = s.delivered)
    (history : s'.encoded = s.encoded ∧ s'.cleared = s.cleared ∧ s'.evicted = s.evicted)
    (counter : s'.session = s.session ∧ s'.nEncodeIndex = s.nEncodeIndex) : s'.Told := by
  apply told.moved _ _ _ history counter
  · rw [buffers]
    exact told.index
  · rw [delivered]
    exact told.delivered
  · unfold System.deliveredFrames System.ahead
    rw [delivered, buffers, list, previous]

theorem index_update {buffers : Nat → Bitstream} {x : Bitstream}
    (index : ∀ b f, (buffers b).frame = some f → (buffers b).nIndex = f.nIndex)
    (own : ∀ f, x.frame = some f → x.nIndex = f.nIndex) :
    ∀ c f, (Function.update buffers b x c).frame = some f →
      (Function.update buffers b x c).nIndex = f.nIndex := by
  intro c f
  rcases eq_or_ne c b with rfl | other
  · rw [Function.update_self]
    exact own f
  · rw [Function.update_of_ne other]
    exact index c f

/-- A buffer that is neither queued nor held back is taken, or given up. -/
theorem System.Told.elsewhere (told : s.Told) {x : Bitstream} (off : b ∉ s.listBitstream)
    (off_previous : b ∉ s.previous1.toList) (own : ∀ f, x.frame = some f → x.nIndex = f.nIndex) :
    System.Told { s with buffers := Function.update s.buffers b x } := by
  have frames : s.deliveredFrames ++ (framesOf (Function.update s.buffers b x) s.listBitstream ++
      framesOf (Function.update s.buffers b x) s.previous1.toList) =
      s.deliveredFrames ++ s.ahead := by
    rw [framesOf_elsewhere off, framesOf_elsewhere off_previous]
    rfl
  exact told.moved (index_update told.index own) told.delivered frames ⟨rfl, rfl, rfl⟩ ⟨rfl, rfl⟩

/-- The encoder starts again. -/
theorem System.Told.restart (told : s.Told) {nRefCount_Encoder : Nat} :
    System.Told { s with nRefCount_Encoder, nEncodeIndex := 0, session := s.session + 1 } where
  index := told.index
  delivered := told.delivered
  order := told.order
  once := told.once
  current := told.later _ (Nat.lt_succ_self _)
  past := told.past
  later := fun session after => told.later session (Nat.lt_of_succ_lt after)

/-- Queued and held-back frames are dropped, from where on ever. -/
theorem System.Told.drop (told : s.Told) {list : List Nat} {previous1 : Option Nat}
    {cleared evicted gone : List Frame}
    (order : (framesOf s.buffers list ++ framesOf s.buffers previous1.toList).Sublist s.ahead)
    (parts : s.ahead.Perm
      (framesOf s.buffers list ++ framesOf s.buffers previous1.toList ++ gone))
    (dropped : (cleared ++ evicted).Perm (gone ++ (s.cleared ++ s.evicted))) :
    System.Told { s with listBitstream := list, previous1, cleared, evicted } where
  index := told.index
  delivered := told.delivered
  order := ((List.Sublist.refl s.deliveredFrames).append order).trans told.order
  once := by
    have moved := told.once.trans ((parts.append_left s.deliveredFrames).append_right
      (s.cleared ++ s.evicted))
    have rest := dropped.symm.append_left (s.deliveredFrames ++
      (framesOf s.buffers list ++ framesOf s.buffers previous1.toList))
    simp only [List.append_assoc] at moved rest
    have all : s.encoded.Perm (s.deliveredFrames ++ (framesOf s.buffers list ++
        framesOf s.buffers previous1.toList) ++ (cleared ++ evicted)) := by
      simpa only [List.append_assoc] using moved.trans rest
    exact all
  current := told.current
  past := told.past
  later := told.later

theorem indexes_append (encoded : List Frame) (f : Frame) (session : Nat) :
    indexes (encoded ++ [f]) session =
      indexes encoded session ++ if f.session = session then [f.nIndex] else [] := by
  unfold indexes
  rw [List.filter_append, List.map_append]
  congr 1
  split
  · rename_i same
    rw [List.filter_cons_of_pos (by simpa using same)]
    rfl
  · rename_i other
    rw [List.filter_cons_of_neg (by simpa using other)]
    rfl

theorem framesOf_single {buffers : Nat → Bitstream} {f : Frame}
    (here : (buffers b).frame = some f) : framesOf buffers [b] = [f] := by
  simp only [framesOf, List.filterMap_cons, here, List.filterMap_nil]

theorem number_ahead (s : System) (uLength : UInt32) (off : b ∉ s.listBitstream)
    (off_previous : b ∉ s.previous1.toList) : (number s b uLength).ahead = s.ahead := by
  unfold System.ahead number
  dsimp only
  rw [framesOf_elsewhere off, framesOf_elsewhere off_previous]

/-- The previous buffer moves to the end of the queue. -/
theorem queuePrevious_ahead (s : System) :
    framesOf (queuePrevious s).buffers (queuePrevious s).listBitstream = s.ahead := by
  unfold queuePrevious System.ahead
  cases s.previous1 with
  | none => exact (List.append_nil _).symm
  | some c =>
    dsimp only
    rw [framesOf_keeps (by rfl), framesOf_append]
    rfl

theorem queuePrevious_frame (s : System) (b : Nat) :
    ((queuePrevious s).buffers b).frame = (s.buffers b).frame ∧
      ((queuePrevious s).buffers b).nIndex = (s.buffers b).nIndex := by
  unfold queuePrevious
  cases s.previous1 with
  | none => exact ⟨rfl, rfl⟩
  | some c =>
    dsimp only
    rcases eq_or_ne b c with rfl | other
    · rw [Function.update_self]
      exact ⟨rfl, rfl⟩
    · rw [Function.update_of_ne other]
      exact ⟨rfl, rfl⟩

theorem queuePrevious_rest (s : System) :
    (queuePrevious s).delivered = s.delivered ∧ (queuePrevious s).encoded = s.encoded ∧
      (queuePrevious s).cleared = s.cleared ∧ (queuePrevious s).evicted = s.evicted ∧
      (queuePrevious s).session = s.session ∧ (queuePrevious s).nEncodeIndex = s.nEncodeIndex := by
  unfold queuePrevious
  cases s.previous1 with
  | none => exact ⟨rfl, rfl, rfl, rfl, rfl, rfl⟩
  | some c => exact ⟨rfl, rfl, rfl, rfl, rfl, rfl⟩

theorem indexes_later {encoded : List Frame} {f : Frame} {session : Nat}
    (other : f.session ≠ session) :
    indexes (encoded ++ [f]) session = indexes encoded session := by
  rw [indexes_append, if_neg other, List.append_nil]

/-- The new frame is behind the others, and the previous one is queued. -/
theorem System.Told.shift (told : s.Told) {uLength : UInt32} (off : b ∉ s.listBitstream)
    (off_previous : b ∉ s.previous1.toList) : (shift s b uLength).Told := by
  have same := number_ahead s uLength off off_previous
  obtain ⟨delivered, encoded, cleared, evicted, session, nEncodeIndex⟩ :=
    queuePrevious_rest (number s b uLength)
  have own : ((queuePrevious (number s b uLength)).buffers b).frame =
      some ⟨s.session, s.nEncodeIndex⟩ := by
    rw [(queuePrevious_frame _ b).1]
    simp only [number, Function.update_self]
  have ahead : (Encoder.shift s b uLength).ahead =
      s.ahead ++ [⟨s.session, s.nEncodeIndex⟩] := by
    change framesOf (queuePrevious (number s b uLength)).buffers
      (queuePrevious (number s b uLength)).listBitstream ++
      framesOf (queuePrevious (number s b uLength)).buffers [b] = _
    rw [framesOf_single own, queuePrevious_ahead, same]
  have frames : (Encoder.shift s b uLength).deliveredFrames ++ (Encoder.shift s b uLength).ahead =
      s.deliveredFrames ++ s.ahead ++ [⟨s.session, s.nEncodeIndex⟩] := by
    rw [ahead, ← List.append_assoc]
    exact congrArg (List.filterMap _ · ++ s.ahead ++ _) delivered
  have numbered : (Encoder.shift s b uLength).encoded =
      s.encoded ++ [⟨s.session, s.nEncodeIndex⟩] := encoded
  have now : (Encoder.shift s b uLength).session = s.session := session
  have next : (Encoder.shift s b uLength).nEncodeIndex = s.nEncodeIndex + 1 := nEncodeIndex
  have current : indexes (s.encoded ++ [⟨s.session, s.nEncodeIndex⟩]) s.session =
      List.range (s.nEncodeIndex + 1) := by
    rw [indexes_append, if_pos rfl, told.current, List.range_succ]
  exact {
    index := by
      intro c f
      change ((queuePrevious (number s b uLength)).buffers c).frame = some f →
        ((queuePrevious (number s b uLength)).buffers c).nIndex = f.nIndex
      rw [(queuePrevious_frame _ c).1, (queuePrevious_frame _ c).2]
      exact index_update told.index (fun f here => congrArg Frame.nIndex (Option.some.inj here)) c f
    delivered := by
      change ∀ x ∈ (queuePrevious (number s b uLength)).delivered, _
      rw [delivered]
      exact told.delivered
    order := by
      rw [frames, numbered]
      exact told.order.append (List.Sublist.refl _)
    once := by
      have dropped : (Encoder.shift s b uLength).cleared ++ (Encoder.shift s b uLength).evicted =
          s.cleared ++ s.evicted := congrArg₂ (· ++ ·) cleared evicted
      rw [frames, numbered, dropped]
      have moved := told.once.append_right [⟨s.session, s.nEncodeIndex⟩]
      rw [List.append_assoc] at moved ⊢
      exact moved.trans (List.perm_append_comm.append_left _)
    current := by
      rw [numbered, now, next]
      exact current
    past := by
      intro session'
      rw [numbered]
      rcases eq_or_ne s.session session' with rfl | other
      · exact ⟨_, current⟩
      · rw [indexes_later other]
        exact told.past session'
    later := by
      intro session' after
      rw [now] at after
      rw [numbered, indexes_later (Nat.ne_of_lt after)]
      exact told.later session' after }

/-! ### What a step does -/

/-- A buffer in no place but that of the free list or in the hand of the caller. -/
theorem off_places (unplaced : s.places b = 0) :
    b ∉ s.listBitstream ∧ b ∉ s.previous1.toList := by
  unfold System.places at unplaced
  constructor
  · apply List.count_eq_zero.mp
    omega
  · apply toList_off
    omega

/-- The buffer that is encoded into is nowhere else. -/
theorem Sound.off_encoding (sound : Sound count s) (here : s.encoding0 = some b) :
    b ∉ s.listBitstream ∧ b ∉ s.previous1.toList := by
  have bound := sound.blocks.le_one b
  unfold System.places at bound
  rw [here, slot_self] at bound
  constructor
  · apply List.count_eq_zero.mp
    omega
  · apply toList_off
    omega

theorem framesOf_tail_sublist (buffers : Nat → Bitstream) (list : List Nat) (c : Nat)
    (rest : List Frame) :
    (framesOf buffers list ++ rest).Sublist (framesOf buffers (list ++ [c]) ++ rest) := by
  rw [framesOf_append, List.append_assoc]
  exact (List.Sublist.refl _).append (List.sublist_append_right _ _)

theorem reserve_sound (blocks : s.pool.Counts count s.places s.refs) (told : s.Told)
    (reserve : Reserve s b s') :
    s'.pool.Counts count (fun c => s'.places c + slot (some b) c)
        (fun c => s'.refs c + slot (some b) c) ∧
      s'.Told ∧ s'.encoding0 = s.encoding0 ∧ s'.pcEncFlag = s.pcEncFlag ∧
      s'.encoding = s.encoding ∧ s'.vmp4Lock = s.vmp4Lock := by
  cases reserve with
  | free new =>
    exact ⟨counts_taken blocks new, told.same rfl rfl rfl rfl ⟨rfl, rfl, rfl⟩ ⟨rfl, rfl⟩, rfl, rfl,
      rfl, rfl⟩
  | @tail c list mid pool new tail decRef again =>
    have shorter : System.Told { s with
        listBitstream := list, evicted := s.evicted ++ framesOf s.buffers [c] } := by
      have ahead : s.ahead = framesOf s.buffers (list ++ [c]) ++
          framesOf s.buffers s.previous1.toList := by
        unfold System.ahead
        rw [tail]
      apply told.drop
      · rw [ahead]
        exact framesOf_tail_sublist _ _ _ _
      · rw [ahead, framesOf_append, List.append_assoc, List.append_assoc]
        exact List.perm_append_comm.append_left _
      · rw [← List.append_assoc]
        exact List.perm_append_comm
    let dropped : System := { s with
      pool
      listBitstream := list
      evicted := s.evicted ++ framesOf s.buffers [c] }
    have places : s.places = fun x => dropped.places x + slot (some c) x := by
      funext x
      unfold System.places
      rw [tail, count_concat]
      dsimp only [dropped]
      omega
    have refs : s.refs = fun x => dropped.refs x + slot (some c) x := by
      funext x
      unfold System.refs
      rw [tail, count_concat]
      dsimp only [dropped]
      omega
    rw [places, refs] at blocks
    have released := counts_released blocks (places_refs dropped) decRef
    exact ⟨counts_taken released again,
      shorter.same rfl rfl rfl rfl ⟨rfl, rfl, rfl⟩ ⟨rfl, rfl⟩, rfl, rfl, rfl, rfl⟩

theorem header_sound {uHeadBitstreamLength : UInt32} {now : Nat}
    (blocks : s.pool.Counts count (fun c => s.places c + slot (some b) c)
      (fun c => s.refs c + slot (some b) c)) (told : s.Told)
    (header : Header s b uHeadBitstreamLength now s') :
    s'.pool.Counts count s'.places s'.refs ∧ s'.Told ∧ s'.encoding0 = s.encoding0 ∧
      s'.pcEncFlag = s.pcEncFlag ∧ s'.encoding = s.encoding ∧ s'.vmp4Lock = s.vmp4Lock := by
  have bound := blocks.le_one b
  have own : slot (some b) b = 1 := slot_self
  obtain ⟨off, off_previous⟩ := off_places (s := s) (b := b) (by omega)
  cases header with
  | queue some_length =>
    let header : Bitstream := { s.buffers b with
      uLength := uHeadBitstreamLength + (extraHeader + appendSize) + timeStamp
      tTimeStamp := now
      frame := none }
    have elsewhere := told.elsewhere (x := header) off off_previous (by intro f h; cases h)
    have none_of_header : framesOf (Function.update s.buffers b header) [b] = [] := by
      simp only [framesOf, List.filterMap_cons, Function.update_self, header, List.filterMap_nil]
    have frames : s.deliveredFrames ++
        (framesOf (Function.update s.buffers b header) (s.listBitstream ++ [b]) ++
          framesOf (Function.update s.buffers b header) s.previous1.toList) =
        s.deliveredFrames ++ (framesOf (Function.update s.buffers b header) s.listBitstream ++
          framesOf (Function.update s.buffers b header) s.previous1.toList) := by
      rw [framesOf_append, none_of_header, List.append_nil]
    refine ⟨?_, elsewhere.moved elsewhere.index elsewhere.delivered frames ⟨rfl, rfl, rfl⟩
      ⟨rfl, rfl⟩, rfl, rfl, rfl, rfl⟩
    have places : (fun c => s.places c + slot (some b) c) = System.places
        { s with
          buffers := Function.update s.buffers b header
          listBitstream := s.listBitstream ++ [b] } := by
      funext c
      unfold System.places
      rw [count_concat]
      dsimp only
      omega
    have refs : (fun c => s.refs c + slot (some b) c) = System.refs
        { s with
          buffers := Function.update s.buffers b header
          listBitstream := s.listBitstream ++ [b] } := by
      funext c
      unfold System.refs
      rw [count_concat]
      dsimp only
      omega
    rw [places, refs] at blocks
    exact blocks
  | drop no_length decRef =>
    have elsewhere := told.elsewhere (x := { s.buffers b with uLength := uHeadBitstreamLength }) off
      off_previous (told.index b)
    exact ⟨counts_released blocks (places_refs s) decRef,
      elsewhere.same rfl rfl rfl rfl ⟨rfl, rfl, rfl⟩ ⟨rfl, rfl⟩, rfl, rfl, rfl, rfl⟩

theorem count_toList (o : Option Nat) (b : Nat) : o.toList.count b = slot o b := by
  cases o with
  | none => rfl
  | some c =>
    rw [Option.toList_some, List.count_singleton]
    simp only [slot, beq_iff_eq, Option.some.injEq]

theorem shift_parts (s : System) (b : Nat) (uLength : UInt32) :
    (shift s b uLength).listBitstream = s.listBitstream ++ s.previous1.toList ∧
      (shift s b uLength).pool = s.pool ∧ (shift s b uLength).held = s.held ∧
      (shift s b uLength).pcEncFlag = s.pcEncFlag ∧ (shift s b uLength).vmp4Lock = s.vmp4Lock := by
  unfold shift queuePrevious number
  dsimp only
  cases s.previous1 with
  | none => exact ⟨(List.append_nil _).symm, rfl, rfl, rfl, rfl⟩
  | some c => exact ⟨rfl, rfl, rfl, rfl, rfl⟩

/-- Where a buffer is encoded into, a thread waits for it. -/
theorem System.Stage.busy (stage : s.Stage) (here : s.encoding0 = some b) :
    s.vmp4Lock = some .waiting ∧ s.pcEncFlag = ⟨0, 1⟩ := by
  unfold System.Stage at stage
  split at stage
  · exact absurd (here.symm.trans stage.1) (by intro h; cases h)
  · exact absurd (here.symm.trans stage.1) (by intro h; cases h)
  · rename_i waiting
    rcases stage with ⟨empty, _⟩ | ⟨_, _, token⟩
    · exact absurd (here.symm.trans empty) (by intro h; cases h)
    · exact ⟨waiting, token⟩
  · exact absurd (here.symm.trans stage.1) (by intro h; cases h)

theorem System.Stage.encoding (stage : s.Stage) (busy : s.encoding = true) :
    s.vmp4Lock = some .waiting ∧ ∃ b, s.encoding0 = some b ∧ s.pcEncFlag = ⟨0, 1⟩ := by
  cases here : s.encoding0 with
  | some b =>
    obtain ⟨waiting, flag⟩ := stage.busy here
    exact ⟨waiting, b, rfl, flag⟩
  | none =>
    unfold System.Stage at stage
    split at stage
    · exact absurd (busy.symm.trans stage.2.2) (by decide)
    · exact absurd (busy.symm.trans stage.2.2) (by decide)
    · rcases stage with ⟨_, _, still⟩ | ⟨b, there, _⟩
      · exact absurd (busy.symm.trans still) (by decide)
      · exact absurd (here.symm.trans there) (by intro h; cases h)
    · exact absurd (busy.symm.trans stage.2.2) (by decide)

theorem System.Stage.locked (stage : s.Stage) (here : s.vmp4Lock = some .locked) :
    s.encoding0 = none ∧ s.pcEncFlag = ⟨1, 0⟩ ∧ s.encoding = false := by
  unfold System.Stage at stage
  rw [here] at stage
  exact stage

/-- Behind a callback the token is there again, and the thread that waits may go on. -/
theorem endEncoding_stage {eEncState : EncState} (waiting : s.vmp4Lock = some .waiting)
    (token : s.pcEncFlag = ⟨0, 1⟩) : (s.endEncoding eEncState).Stage := by
  unfold System.Stage System.endEncoding
  dsimp only
  rw [waiting, token]
  exact .inl ⟨rfl, rfl, rfl⟩

/-- A callback that frees the buffer. -/
theorem Sound.release (sound : Sound count s) {eEncState : EncState} {uLength : UInt32}
    (here : s.encoding0 = some b) (decRef : s.pool.decRef b = some pool) :
    Sound count ((s.release pool b uLength).endEncoding eEncState) := by
  obtain ⟨off, off_previous⟩ := sound.off_encoding here
  obtain ⟨waiting, token⟩ := sound.stage.busy here
  have places : s.places = fun c =>
      ((s.release pool b uLength).endEncoding eEncState).places c + slot (some b) c := by
    funext c
    unfold System.places System.endEncoding System.release
    dsimp only
    rw [here, slot_none]
    omega
  have refs : s.refs = fun c =>
      ((s.release pool b uLength).endEncoding eEncState).refs c + slot (some b) c := by
    funext c
    unfold System.refs System.endEncoding System.release
    dsimp only
    rw [here, slot_none]
    omega
  have blocks := sound.blocks
  rw [places, refs] at blocks
  have elsewhere := sound.told.elsewhere (x := { s.buffers b with uLength }) off off_previous
    (sound.told.index b)
  exact {
    blocks := counts_released blocks (places_refs _) decRef
    stage := endEncoding_stage (s := s.release pool b uLength) waiting token
    told := elsewhere.same rfl rfl rfl rfl ⟨rfl, rfl, rfl⟩ ⟨rfl, rfl⟩ }

theorem Sound.done (sound : Sound count s) {uLength : UInt32} (here : s.encoding0 = some b) :
    Sound count ((shift s b uLength).endEncoding .ok) := by
  obtain ⟨off, off_previous⟩ := sound.off_encoding here
  obtain ⟨waiting, token⟩ := sound.stage.busy here
  obtain ⟨list, pool, held, flag, lock⟩ := shift_parts s b uLength
  have places : ((shift s b uLength).endEncoding .ok).places = s.places := by
    funext c
    unfold System.places
    change slot none c + slot (some b) c + (shift s b uLength).listBitstream.count c +
      readers ((shift s b uLength).held c) = _
    rw [list, held, here, List.count_append, count_toList, slot_none]
    omega
  have refs : ((shift s b uLength).endEncoding .ok).refs = s.refs := by
    funext c
    unfold System.refs
    change slot none c + slot (some b) c + (shift s b uLength).listBitstream.count c +
      (shift s b uLength).held c = _
    rw [list, held, here, List.count_append, count_toList, slot_none]
    omega
  exact {
    blocks := by
      rw [places, refs]
      change (shift s b uLength).pool.Counts count s.places s.refs
      rw [pool]
      exact sound.blocks
    stage := endEncoding_stage (lock.trans waiting) (flag.trans token)
    told := (sound.told.shift off off_previous).same rfl rfl rfl rfl ⟨rfl, rfl, rfl⟩ ⟨rfl, rfl⟩ }

theorem Sound.get (sound : Sound count s) {rest : List Nat} (list : s.listBitstream = b :: rest) :
    Sound count
      { s with
        listBitstream := rest
        held := Function.update s.held b (s.held b + 1)
        delivered := s.delivered ++ [s.buffers b] } := by
  let got : System := { s with
    listBitstream := rest
    held := Function.update s.held b (s.held b + 1)
    delivered := s.delivered ++ [s.buffers b] }
  have bound := sound.blocks.le_one b
  unfold System.places at bound
  rw [list, List.count_cons_self] at bound
  have unheld : s.held b = 0 := by
    cases held : s.held b with
    | zero => rfl
    | succ n =>
      rw [held, readers_succ] at bound
      omega
  have places : got.places = s.places := by
    funext c
    unfold System.places
    dsimp only [got]
    rw [list, List.count_cons]
    rcases eq_or_ne c b with rfl | other
    · rw [Function.update_self, unheld, readers_succ, readers_zero]
      simp only [beq_self_eq_true, if_true]
      omega
    · rw [Function.update_of_ne other]
      simp only [beq_iff_eq, other.symm, if_false]
      omega
  have refs : got.refs = s.refs := by
    funext c
    unfold System.refs
    dsimp only [got]
    rw [list, List.count_cons]
    rcases eq_or_ne c b with rfl | other
    · rw [Function.update_self]
      simp only [beq_self_eq_true, if_true]
      omega
    · rw [Function.update_of_ne other]
      simp only [beq_iff_eq, other.symm, if_false]
      omega
  have frames : got.deliveredFrames ++ got.ahead = s.deliveredFrames ++ s.ahead := by
    unfold System.deliveredFrames System.ahead framesOf
    dsimp only [got]
    rw [list, List.filterMap_append, List.append_assoc, List.filterMap_cons, List.filterMap_cons]
    cases (s.buffers b).frame with
    | none => rfl
    | some f => rfl
  have read : ∀ x ∈ got.delivered, ∀ f, x.frame = some f → x.nIndex = f.nIndex := by
    intro x mem
    rcases List.mem_append.mp mem with before | now
    · exact sound.told.delivered x before
    · rw [List.mem_singleton.mp now]
      exact sound.told.index b
  exact {
    blocks := by
      change s.pool.Counts count got.places got.refs
      rw [places, refs]
      exact sound.blocks
    stage := sound.stage
    told := sound.told.moved sound.told.index read frames ⟨rfl, rfl, rfl⟩ ⟨rfl, rfl⟩ }

/-- A reader with a reference takes another one. -/
theorem Sound.addRef (sound : Sound count s) {n : Nat} (reader : s.held b = n + 1) :
    Sound count
      { s with pool := s.pool.addRef b, held := Function.update s.held b (n + 2) } := by
  let more : System :=
    { s with pool := s.pool.addRef b, held := Function.update s.held b (n + 2) }
  have places : more.places = s.places := by
    funext c
    unfold System.places
    dsimp only [more]
    rcases eq_or_ne c b with rfl | other
    · rw [Function.update_self, reader, readers_succ, readers_succ]
    · rw [Function.update_of_ne other]
  have own : more.refs b = s.refs b + 1 := by
    unfold System.refs
    dsimp only [more]
    rw [Function.update_self, reader]
    omega
  have others : ∀ c, c ≠ b → more.refs c = s.refs c := by
    intro c other
    unfold System.refs
    dsimp only [more]
    rw [Function.update_of_ne other]
  have held : s.refs b ≠ 0 := by
    unfold System.refs
    omega
  exact {
    blocks := by
      change (s.pool.addRef b).Counts count more.places more.refs
      rw [places]
      exact sound.blocks.addRef held own others
    stage := sound.stage
    told := sound.told.same rfl rfl rfl rfl ⟨rfl, rfl, rfl⟩ ⟨rfl, rfl⟩ }

/-- A reader gives a reference up; the last one takes the buffer back to the pool. -/
theorem Sound.decRef (sound : Sound count s) {n : Nat} (reader : s.held b = n + 1)
    (decRef : s.pool.decRef b = some pool) :
    Sound count { s with pool, held := Function.update s.held b n } := by
  let fewer : System := { s with pool, held := Function.update s.held b n }
  have others : ∀ c, c ≠ b → fewer.places c = s.places c ∧ fewer.refs c = s.refs c := by
    intro c other
    unfold System.places System.refs
    dsimp only [fewer]
    rw [Function.update_of_ne other]
    exact ⟨rfl, rfl⟩
  have ref : s.refs b = fewer.refs b + 1 := by
    unfold System.refs
    dsimp only [fewer]
    rw [Function.update_self, reader]
    omega
  have blocks : pool.Counts count fewer.places fewer.refs := by
    cases n with
    | zero =>
      have place : s.places b = fewer.places b + 1 := by
        unfold System.places
        dsimp only [fewer]
        rw [Function.update_self, reader, readers_succ, readers_zero]
      have places : s.places = fun c => fewer.places c + slot (some b) c := by
        funext c
        rcases eq_or_ne c b with rfl | other
        · rw [slot_self, place]
        · rw [slot_other other, (others c other).1]
          rfl
      have refs : s.refs = fun c => fewer.refs c + slot (some b) c := by
        funext c
        rcases eq_or_ne c b with rfl | other
        · rw [slot_self, ref]
        · rw [slot_other other, (others c other).2]
          rfl
      have blocks := sound.blocks
      rw [places, refs] at blocks
      exact counts_released blocks (places_refs fewer) decRef
    | succ n =>
      have places : fewer.places = s.places := by
        funext c
        rcases eq_or_ne c b with rfl | other
        · unfold System.places
          dsimp only [fewer]
          rw [Function.update_self, reader, readers_succ, readers_succ]
        · exact (others c other).1
      have held : fewer.refs b ≠ 0 := by
        unfold System.refs
        dsimp only [fewer]
        rw [Function.update_self]
        omega
      obtain ⟨pool', decRef', blocks⟩ :=
        sound.blocks.decRef_held ref held (fun c other => (others c other).2)
      rw [decRef] at decRef'
      cases decRef'
      rw [places]
      exact blocks
  exact {
    blocks
    stage := sound.stage
    told := sound.told.same rfl rfl rfl rfl ⟨rfl, rfl, rfl⟩ ⟨rfl, rfl⟩ }

theorem Sound.clear (sound : Sound count s) (here : s.vmp4Lock = some .locked)
    (decRef : decRefAll s.pool (s.listBitstream ++ (s.encoding0.toList ++ s.previous1.toList)) =
      some pool) :
    Sound count
      { s with
        pool
        cleared := s.cleared ++
          framesOf s.buffers (s.listBitstream ++ (s.encoding0.toList ++ s.previous1.toList))
        listBitstream := []
        encoding0 := none
        previous1 := none } := by
  obtain ⟨empty, token, still⟩ := sound.stage.locked here
  rw [empty, Option.toList_none, List.nil_append] at decRef ⊢
  let cleared : System := { s with
    pool
    cleared := s.cleared ++ framesOf s.buffers (s.listBitstream ++ s.previous1.toList)
    listBitstream := []
    encoding0 := none
    previous1 := none }
  have places : s.places = fun c =>
      cleared.places c + (s.listBitstream ++ s.previous1.toList).count c := by
    funext c
    unfold System.places
    dsimp only [cleared]
    rw [empty, List.count_append, count_toList, List.count_nil, slot_none]
    omega
  have refs : s.refs = fun c =>
      cleared.refs c + (s.listBitstream ++ s.previous1.toList).count c := by
    funext c
    unfold System.refs
    dsimp only [cleared]
    rw [empty, List.count_append, count_toList, List.count_nil, slot_none]
    omega
  have blocks := sound.blocks
  rw [places, refs] at blocks
  have nothing : (framesOf s.buffers [] ++ framesOf s.buffers (none : Option Nat).toList).Sublist
      s.ahead := List.nil_sublist _
  have all : s.ahead = framesOf s.buffers (s.listBitstream ++ s.previous1.toList) :=
    (framesOf_append _ _ _).symm
  have gone : s.ahead.Perm (framesOf s.buffers [] ++ framesOf s.buffers (none : Option Nat).toList ++
      framesOf s.buffers (s.listBitstream ++ s.previous1.toList)) := by
    rw [all]
    exact List.Perm.refl _
  have dropped : (s.cleared ++ framesOf s.buffers (s.listBitstream ++ s.previous1.toList) ++
      s.evicted).Perm (framesOf s.buffers (s.listBitstream ++ s.previous1.toList) ++
        (s.cleared ++ s.evicted)) := by
    rw [List.append_assoc]
    exact List.perm_append_comm_assoc _ _ _
  have told := sound.told.drop nothing gone dropped
  exact {
    blocks := counts_released_all blocks (places_refs cleared) decRef
    stage := by
      unfold System.Stage
      dsimp only
      rw [here]
      exact ⟨rfl, token, still⟩
    told := told.same rfl rfl rfl rfl ⟨rfl, rfl, rfl⟩ ⟨rfl, rfl⟩ }

theorem Sound.start (sound : Sound count s) {tTimeStamp : Nat} {pcEncFlag : TtPc}
    (here : s.vmp4Lock = some .locked) (new : s.pool.new = some (b, pool))
    (produce : ttPcTryProduce s.pcEncFlag = some pcEncFlag) :
    Sound count
      { s with
        pool
        pcEncFlag
        buffers := Function.update s.buffers b { s.buffers b with tTimeStamp, frame := none }
        encoding0 := some b
        encoding := true
        vmp4Lock := some .waiting } := by
  obtain ⟨empty, token, _⟩ := sound.stage.locked here
  rw [token] at produce
  cases produce
  have taken := counts_taken sound.blocks new
  have bound := taken.le_one b
  have own : slot (some b) b = 1 := slot_self
  obtain ⟨off, off_previous⟩ := off_places (s := s) (b := b) (by omega)
  have elsewhere := sound.told.elsewhere (x := { s.buffers b with tTimeStamp, frame := none }) off
    off_previous (by intro f h; cases h)
  have places (buffers : Nat → Bitstream) (pcEncFlag : TtPc) (encoding : Bool)
      (vmp4Lock : Option Place) : (fun c => s.places c + slot (some b) c) =
      System.places
        { s with pool, pcEncFlag, buffers, encoding0 := some b, encoding, vmp4Lock } := by
    funext c
    unfold System.places
    dsimp only
    rw [empty, slot_none]
    omega
  have refs (buffers : Nat → Bitstream) (pcEncFlag : TtPc) (encoding : Bool)
      (vmp4Lock : Option Place) : (fun c => s.refs c + slot (some b) c) =
      System.refs
        { s with pool, pcEncFlag, buffers, encoding0 := some b, encoding, vmp4Lock } := by
    funext c
    unfold System.refs
    dsimp only
    rw [empty, slot_none]
    omega
  rw [places, refs] at taken
  exact {
    blocks := taken
    stage := .inr ⟨b, rfl, rfl⟩
    told := elsewhere.same rfl rfl rfl rfl ⟨rfl, rfl, rfl⟩ ⟨rfl, rfl⟩ }

theorem Sound.encAddRef (sound : Sound count s) {s₁ s₂ : System} {uHeadBitstreamLength : UInt32}
    {now : Nat} (here : s.vmp4Lock = some .locked)
    (reserve : Reserve { s with
      nRefCount_Encoder := 1, nEncodeIndex := 0, session := s.session + 1 } b s₁)
    (header : Header s₁ b uHeadBitstreamLength now s₂) :
    Sound count { s₂ with installed := true } := by
  have restarted : System.Told { s with
      nRefCount_Encoder := 1, nEncodeIndex := 0, session := s.session + 1 } := sound.told.restart
  obtain ⟨blocks₁, told₁, encoding0₁, flag₁, encoding₁, lock₁⟩ :=
    reserve_sound (s := { s with
      nRefCount_Encoder := 1, nEncodeIndex := 0, session := s.session + 1 }) sound.blocks restarted
      reserve
  obtain ⟨blocks₂, told₂, encoding0₂, flag₂, encoding₂, lock₂⟩ :=
    header_sound blocks₁ told₁ header
  obtain ⟨empty, token, still⟩ := sound.stage.locked here
  exact {
    blocks := blocks₂
    stage := by
      unfold System.Stage
      dsimp only
      rw [lock₂, lock₁, encoding0₂, encoding0₁, flag₂, flag₁, encoding₂, encoding₁, here]
      exact ⟨empty, token, still⟩
    told := told₂.same rfl rfl rfl rfl ⟨rfl, rfl, rfl⟩ ⟨rfl, rfl⟩ }

/-- A step that moves no buffer and tells nothing. -/
theorem Sound.stays (sound : Sound count s) (stage : s'.Stage) (pool : s'.pool = s.pool)
    (places : s'.places = s.places) (refs : s'.refs = s.refs) (told : s'.Told) :
    Sound count s' where
  blocks := by
    rw [pool, places, refs]
    exact sound.blocks
  stage
  told

/-- The step lemma. -/
theorem Sound.step (sound : Sound count s) (step : Step s a s') : Sound count s' := by
  have same {vmp4Lock : Option Place} {pcEncFlag : TtPc} {encoding installed : Bool}
      {nRefCount_Encoder : Nat}
      (stage : System.Stage
        { s with vmp4Lock, pcEncFlag, encoding, installed, nRefCount_Encoder }) :
      Sound count { s with vmp4Lock, pcEncFlag, encoding, installed, nRefCount_Encoder } :=
    sound.stays stage rfl rfl rfl (sound.told.same rfl rfl rfl rfl ⟨rfl, rfl, rfl⟩ ⟨rfl, rfl⟩)
  have stage := sound.stage
  cases step with
  | lock free =>
    apply same
    unfold System.Stage at stage ⊢
    rw [free] at stage
    exact stage
  | unlock here =>
    apply same
    exact stage.locked here
  | encAddRef here first reserve header => exact sound.encAddRef here reserve header
  | encAddRefAgain here again =>
    apply same
    exact stage
  | encDecRef here some_ref =>
    apply same
    exact stage
  | encStart here new produce => exact sound.start here new produce
  | noBuffer here new => exact sound
  | noToken here new produce decRef =>
    rw [(stage.locked here).2.1] at produce
    cases produce
  | wait here token =>
    apply same
    unfold System.Stage at stage
    rw [here] at stage
    rcases stage with ⟨empty, flag, still⟩ | ⟨b, _, flag⟩
    · rw [flag] at token ⊢
      cases token
      exact ⟨empty, rfl, still⟩
    · rw [flag] at token
      cases token
  | post here =>
    apply same
    unfold System.Stage at stage
    rw [here] at stage
    obtain ⟨empty, flag, still⟩ := stage
    rw [flag]
    exact ⟨empty, rfl, still⟩
  | clearBuffer here decRef => exact sound.clear here decRef
  | done busy installed here some_length => exact sound.done here
  | doneEmpty busy installed here no_length decRef => exact sound.release here decRef
  | @error b pool busy installed here decRef =>
    have released : Sound count ((s.release pool b (s.buffers b).uLength).endEncoding .error) :=
      sound.release here decRef
    unfold System.release at released
    rwa [Function.update_eq_self] at released
  | nullDone busy removed =>
    apply same
    obtain ⟨waiting, b, here, flag⟩ := stage.encoding busy
    unfold System.Stage
    rw [waiting]
    exact .inr ⟨b, here, flag⟩
  | nullError busy removed =>
    apply same
    obtain ⟨waiting, b, here, flag⟩ := stage.encoding busy
    unfold System.Stage
    rw [waiting]
    exact .inr ⟨b, here, flag⟩
  | get list => exact sound.get list
  | getNothing list => exact sound
  | addRef reader => exact sound.addRef reader
  | decRef reader decRef => exact sound.decRef reader decRef

end

/-! ### Over a run -/

/-- Each buffer is free, encoded into, held back, queued or with readers, and in one of these places
only. The readers get the frames in their order and with their indexes; each frame is delivered,
ahead, or has been dropped by a clear or by a start of the encoder; the indexes of each session
count up from 0. -/
structure System.Kept (count : Nat) (s : System) : Prop where
  place : ∀ b < count, s.pool.free.count b + (slot s.encoding0 b + slot s.previous1 b +
    s.listBitstream.count b + readers (s.held b)) = 1
  encoding : s.encoding = true → ∃ b, s.encoding0 = some b
  index : ∀ x ∈ s.delivered, ∀ f, x.frame = some f → x.nIndex = f.nIndex
  order : s.deliveredFrames.Sublist s.encoded
  once : s.encoded.Perm (s.deliveredFrames ++ s.ahead ++ (s.cleared ++ s.evicted))
  consecutive : ∀ session, ∃ n, indexes s.encoded session = List.range n

theorem System.Initial.sound {count : Nat} {s : System} (initial : s.Initial count) :
    Sound count s := by
  obtain ⟨encoded, delivered, cleared, evicted⟩ := initial.history
  have places : s.places = fun _ => 0 := by
    funext b
    unfold System.places
    rw [initial.slots.1, initial.slots.2, initial.list, initial.held b]
    rfl
  have refs : s.refs = fun _ => 0 := by
    funext b
    unfold System.refs
    rw [initial.slots.1, initial.slots.2, initial.list, initial.held b]
    rfl
  have nothing : s.deliveredFrames ++ s.ahead = [] := by
    unfold System.deliveredFrames System.ahead
    rw [delivered, initial.list, initial.slots.2]
    rfl
  exact {
    blocks := by
      rw [initial.pool, places, refs]
      exact counts_init count
    stage := by
      unfold System.Stage
      rw [initial.free]
      exact ⟨initial.slots.1, initial.token, initial.still⟩
    told := {
      index := by
        intro b f here
        rw [initial.blank b] at here
        cases here
      delivered := by
        rw [delivered]
        exact fun x mem => absurd mem List.not_mem_nil
      order := by
        rw [nothing, encoded]
      once := by
        rw [nothing, encoded, cleared, evicted]
        exact List.Perm.refl []
      current := by
        rw [encoded, initial.index]
        rfl
      past := by
        rw [encoded]
        exact fun _ => ⟨0, rfl⟩
      later := by
        rw [encoded]
        exact fun _ _ => rfl } }

theorem Sound.kept {count : Nat} {s : System} (sound : Sound count s) : s.Kept count where
  place := by
    intro b inside
    have once := sound.blocks.once b
    rwa [if_pos inside] at once
  encoding := by
    intro busy
    obtain ⟨_, b, here, _⟩ := sound.stage.encoding busy
    exact ⟨b, here⟩
  index := sound.told.delivered
  order := (List.sublist_append_left _ _).trans sound.told.order
  once := sound.told.once
  consecutive := sound.told.past

/-- In every state reached, with any number of buffers. -/
theorem bitstream_buffers {count : Nat} {s s' : System} {as : List Action}
    (initial : s.Initial count) (run : Run Step s as s') : s'.Kept count :=
  (run.invariant (Sound count) (fun _ _ _ sound step => sound.step step)
    initial.sound).kept

/-- Only a clear drops a frame, and the indexes never start again. -/
structure System.KeptStrictly (s : System) : Prop where
  once : s.encoded.Perm (s.deliveredFrames ++ s.ahead ++ s.cleared)
  consecutive : ∃ n, s.encoded.map Frame.nIndex = List.range n

/-- Three buffers, as the board has. -/
def threeBuffers : System where
  pool := initMemoryPool 3
  buffers := fun _ => ⟨0, 0, 0, none⟩
  encoding0 := none
  previous1 := none
  listBitstream := []
  pcEncFlag := ttPcInit 1
  eEncState := .ok
  nEncodeIndex := 0
  nRefCount_Encoder := 0
  installed := false
  encoding := false
  vmp4Lock := none
  held := fun _ => 0
  session := 0
  encoded := []
  delivered := []
  cleared := []
  evicted := []

theorem threeBuffers_initial : threeBuffers.Initial 3 :=
  ⟨rfl, ⟨rfl, rfl⟩, rfl, rfl, rfl, rfl, fun _ => rfl, rfl, ⟨rfl, rfl, rfl, rfl⟩, fun _ => rfl⟩

/-- A header and a frame come to a reader, and a clear drops what is left. -/
theorem bitstream_buffers_clear :
    ∃ s', Run Step threeBuffers [.lock, .encAddRef 4 0, .encStart 1, .done 90, .wait, .post,
      .encStart 2, .get, .done 91, .wait, .post, .get, .addRef 1, .decRef 1, .decRef 1,
      .clearBuffer, .unlock] s' ∧ s'.Kept 3 := by
  have run : Run Step threeBuffers [.lock, .encAddRef 4 0, .encStart 1, .done 90, .wait, .post,
      .encStart 2, .get, .done 91, .wait, .post, .get, .addRef 1, .decRef 1, .decRef 1,
      .clearBuffer, .unlock] _ :=
    .cons (.lock rfl) (.cons (.encAddRef rfl rfl (.free rfl) (.queue (by decide)))
      (.cons (.encStart rfl rfl rfl) (.cons (.done rfl rfl rfl (by decide))
      (.cons (.wait rfl rfl) (.cons (.post rfl) (.cons (.encStart rfl rfl rfl)
      (.cons (.get rfl) (.cons (.done rfl rfl rfl (by decide)) (.cons (.wait rfl rfl)
      (.cons (.post rfl) (.cons (.get rfl) (.cons (.addRef rfl) (.cons (.decRef rfl rfl)
      (.cons (.decRef rfl rfl) (.cons (.clearBuffer rfl rfl) (.cons (.unlock rfl)
      (.nil _)))))))))))))))))
  exact ⟨_, run, bitstream_buffers threeBuffers_initial run⟩

/-- The encoder starts again while the pool is empty: the frame at the tail of the queue makes room
for the header, without a clear. -/
theorem frame_evicted :
    ¬ ∀ (s s' : System) (as : List Action), s.Initial 3 → Run Step s as s' → s'.KeptStrictly := by
  intro claim
  have run : Run Step threeBuffers [.lock, .encAddRef 4 0, .encStart 1, .done 90, .wait, .post,
      .encStart 2, .done 91, .wait, .post, .encDecRef, .encAddRef 4 3, .unlock] _ :=
    .cons (.lock rfl) (.cons (.encAddRef rfl rfl (.free rfl) (.queue (by decide)))
      (.cons (.encStart rfl rfl rfl) (.cons (.done rfl rfl rfl (by decide))
      (.cons (.wait rfl rfl) (.cons (.post rfl) (.cons (.encStart rfl rfl rfl)
      (.cons (.done rfl rfl rfl (by decide)) (.cons (.wait rfl rfl) (.cons (.post rfl)
      (.cons (.encDecRef rfl rfl)
      (.cons (.encAddRef rfl rfl (@Reserve.tail _ _ 1 [0] _ _ rfl rfl rfl rfl)
        (.queue (by decide))) (.cons (.unlock rfl) (.nil _)))))))))))))
  have once := (claim _ _ _ threeBuffers_initial run).once.length_eq
  revert once
  decide

end Rovio.Media.Encoder
