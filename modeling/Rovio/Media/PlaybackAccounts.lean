import Rovio.Media.Playback

/-! The three records of the remote audio agree: the tokens, the blocks and the ready list. -/
namespace Rovio.Media.Playback
open Kit

universe u
variable {α : Type u}

/-- Has the producer's token and no block yet. -/
def Decoder.token : Decoder → Nat
  | .produced => 1
  | _ => 0

def Decoder.owns (b : Nat) : Decoder → Nat
  | .holding pRemotePCM | .decoded pRemotePCM => if pRemotePCM = b then 1 else 0
  | _ => 0

def Decoder.block : Decoder → Nat
  | .holding _ | .decoded _ => 1
  | _ => 0

/-- Has queued a block that the consumer's semaphore does not count yet. -/
def Decoder.queued : Decoder → Nat
  | .attached => 1
  | _ => 0

/-- Has the consumer's token and its block still on the list. -/
def Player.token : Player → Nat
  | .consumed => 1
  | _ => 0

def Player.owns (b : Nat) : Player → Nat
  | .detached pPCM | .copied pPCM => if pPCM = b then 1 else 0
  | _ => 0

def Player.block : Player → Nat
  | .detached _ | .copied _ => 1
  | _ => 0

/-- Has the consumer's token and has not given its block back. -/
def Player.givesBack : Player → Bool
  | .consumed | .detached _ | .copied _ => true
  | _ => false

/-- What has left the list and is still to be played. -/
def Player.pending : Player → List Nat
  | .detached pPCM => [pPCM]
  | _ => []

/-- In the endless loops. -/
def Decoder.stuck : Decoder → Bool
  | .noBuffer => true
  | _ => false

def Player.stuck : Player → Bool
  | .noBuffer | .deleted => true
  | _ => false

/-- How many places a block is in, besides the free list. -/
def System.used (s : System α) (b : Nat) : Nat :=
  total (Decoder.owns b) s.decoders + s.listPCM_Remote.count b + s.player.owns b

structure Accounts (count : Nat) (s : System α) : Prop where
  tokens : s.pcRemotePCM.producer + total Decoder.token s.decoders +
    total Decoder.block s.decoders +
    total Decoder.queued s.decoders + s.pcRemotePCM.consumer = count
  blocks : s.pool.free.length + total Decoder.block s.decoders + s.listPCM_Remote.length +
    s.player.block = count
  ready : s.listPCM_Remote.length =
    s.pcRemotePCM.consumer + total Decoder.queued s.decoders + s.player.token
  refs : s.pool.Counts count s.used s.used
  order : s.decoded = s.played ++ (s.player.pending ++ s.listPCM_Remote).map s.aucPCM
  lock : s.mtLock = false → s.player = .outside
  decoding : ∀ d ∈ s.decoders, d.stuck = false
  playing : s.player.stuck = false

section
variable {s s' : System α} {a : Action α} {count d b : Nat} {old : Decoder}

theorem set_parts (here : s.decoders[d]? = some old) (new : Decoder) :
    (total Decoder.token (s.decoders.set d new) + old.token =
        total Decoder.token s.decoders + new.token) ∧
      (total Decoder.block (s.decoders.set d new) + old.block =
        total Decoder.block s.decoders + new.block) ∧
      (total Decoder.queued (s.decoders.set d new) + old.queued =
        total Decoder.queued s.decoders + new.queued) ∧
      ∀ b, total (Decoder.owns b) (s.decoders.set d new) + old.owns b =
        total (Decoder.owns b) s.decoders + new.owns b :=
  ⟨total_set here, total_set here, total_set here, fun _ => total_set here⟩

theorem givesBack_parts (player : Player) (nothing : player.givesBack = false) :
    player.token = 0 ∧ player.block = 0 := by
  cases player with
  | consumed | detached | copied => cases nothing
  | outside | locked | released | noBuffer | deleted => exact ⟨rfl, rfl⟩

/-- A decoder with its token has a free block: the blocks that are not free are fewer than the
tokens that are taken, but for the one that the callback is about to give back. -/
theorem Accounts.free (accounts : Accounts count s) (here : .produced ∈ s.decoders) :
    s.pool.free ≠ [] ∨ s.player.givesBack = true := by
  obtain ⟨d, inside, at_d⟩ := List.mem_iff_getElem.mp here
  have token : 1 ≤ total Decoder.token s.decoders := by
    have part := part_le_total (f := Decoder.token) (List.getElem?_eq_some_iff.mpr ⟨inside, at_d⟩)
    exact part
  have tokens := accounts.tokens
  have blocks := accounts.blocks
  have ready := accounts.ready
  cases gives : s.player.givesBack with
  | true => exact .inr rfl
  | false =>
    obtain ⟨no_token, no_block⟩ := givesBack_parts _ gives
    refine .inl fun empty => ?_
    rw [empty] at blocks
    simp only [List.length_nil] at blocks
    omega

theorem Accounts.free_ne_nil (accounts : Accounts count s) (here : .produced ∈ s.decoders)
    (free : s.mtLock = false) : s.pool.free ≠ [] := by
  rcases accounts.free here with some_free | gives
  · exact some_free
  · rw [accounts.lock free] at gives
    cases gives

/-- The callback finds the list not empty when it has its token. -/
theorem Accounts.list_ne_nil (accounts : Accounts count s) (here : s.player = .consumed) :
    s.listPCM_Remote ≠ [] := by
  intro empty
  have ready := accounts.ready
  rw [here, empty] at ready
  simp only [List.length_nil, Player.token] at ready
  omega

/-- A block that a decoder has is nowhere else. -/
theorem Accounts.own (accounts : Accounts count s) (here : s.decoders[d]? = some old)
    (owns : old.owns b = 1) : b ∉ s.player.pending ++ s.listPCM_Remote := by
  have part := part_le_total (f := Decoder.owns b) here
  have once := accounts.refs.le_one b
  unfold System.used at once
  rw [List.mem_append, not_or]
  constructor
  · intro pending
    have held : s.player.owns b = 1 := by
      cases at_player : s.player with
      | detached pPCM =>
        rw [at_player] at pending
        obtain rfl := List.mem_singleton.mp pending
        exact if_pos rfl
      | outside | locked | consumed | copied | released | noBuffer | deleted =>
        rw [at_player] at pending
        cases pending
    omega
  · intro listed
    have counted := List.count_pos_iff.mpr listed
    omega

theorem Accounts.decode (accounts : Accounts count s)
    (here : s.decoders[d]? = some (.holding b)) (pcm : α) :
    Accounts count
      { s.put d (.decoded b) with aucPCM := Function.update s.aucPCM b pcm } := by
  obtain ⟨token, block, queued, owns⟩ := set_parts here (.decoded b)
  have own := accounts.own here (if_pos rfl)
  have used : System.used
      { s.put d (.decoded b) with aucPCM := Function.update s.aucPCM b pcm } = s.used := by
    funext c
    exact congrArg (· + _ + _) (Nat.add_right_cancel (owns c))
  have same : (s.player.pending ++ s.listPCM_Remote).map (Function.update s.aucPCM b pcm) =
      (s.player.pending ++ s.listPCM_Remote).map s.aucPCM := by
    apply List.map_congr_left
    intro c mem
    apply Function.update_of_ne
    rintro rfl
    exact own mem
  have tokens := accounts.tokens
  have blocks := accounts.blocks
  have ready := accounts.ready
  simp only [Decoder.token, Decoder.block, Decoder.queued] at token block queued
  exact {
    tokens := by
      dsimp only [System.put]
      omega
    blocks := by
      dsimp only [System.put]
      omega
    ready := by
      dsimp only [System.put]
      omega
    refs := by
      rw [used]
      exact accounts.refs
    order := accounts.order.trans (congrArg _ same.symm)
    lock := accounts.lock
    decoding := forall_set accounts.decoding rfl
    playing := accounts.playing }

theorem Accounts.produce (accounts : Accounts count s) {producer : Nat}
    (here : s.decoders[d]? = some .outside) (taken : s.pcRemotePCM.producer = producer + 1) :
    Accounts count
      { s.put d .produced with pcRemotePCM := { s.pcRemotePCM with producer } } := by
  obtain ⟨token, block, queued, owns⟩ := set_parts here .produced
  have used : System.used
      { s.put d .produced with pcRemotePCM := { s.pcRemotePCM with producer } } = s.used := by
    funext c
    exact congrArg (· + _ + _) (owns c)
  have tokens := accounts.tokens
  have blocks := accounts.blocks
  have ready := accounts.ready
  simp only [Decoder.token, Decoder.block, Decoder.queued] at token block queued
  exact {
    tokens := by
      dsimp only [System.put]
      omega
    blocks := by
      dsimp only [System.put]
      omega
    ready := by
      dsimp only [System.put]
      omega
    refs := by
      rw [used]
      exact accounts.refs
    order := accounts.order
    lock := accounts.lock
    decoding := forall_set accounts.decoding rfl
    playing := accounts.playing }

theorem Accounts.new (accounts : Accounts count s) {pool : Pool}
    (here : s.decoders[d]? = some .produced) (new : s.pool.new = some (b, pool)) :
    Accounts count { s.put d (.holding b) with pool } := by
  obtain ⟨token, block, queued, owns⟩ := set_parts here (.holding b)
  have own : System.used { s.put d (.holding b) with pool } b = s.used b + 1 := by
    have more := owns b
    simp only [Decoder.owns, if_true] at more
    unfold System.used
    dsimp only [System.put]
    omega
  have others : ∀ c, c ≠ b → System.used { s.put d (.holding b) with pool } c = s.used c := by
    intro c other
    have same := owns c
    simp only [Decoder.owns, other.symm, if_false] at same
    exact congrArg (· + _ + _) same
  have taken := congrArg List.length (new_eq_some.mp new).1
  rw [List.length_cons] at taken
  have tokens := accounts.tokens
  have blocks := accounts.blocks
  have ready := accounts.ready
  simp only [Decoder.token, Decoder.block, Decoder.queued] at token block queued
  exact {
    tokens := by
      dsimp only [System.put]
      omega
    blocks := by
      dsimp only [System.put]
      omega
    ready := by
      dsimp only [System.put]
      omega
    refs := accounts.refs.new new own own (fun c other => ⟨others c other, others c other⟩)
    order := accounts.order
    lock := accounts.lock
    decoding := forall_set accounts.decoding rfl
    playing := accounts.playing }

theorem Accounts.attach (accounts : Accounts count s)
    (here : s.decoders[d]? = some (.decoded b)) :
    Accounts count
      { s.put d .attached with
        listPCM_Remote := s.listPCM_Remote ++ [b]
        decoded := s.decoded ++ [s.aucPCM b] } := by
  obtain ⟨token, block, queued, owns⟩ := set_parts here .attached
  have used : System.used
      { s.put d .attached with
        listPCM_Remote := s.listPCM_Remote ++ [b]
        decoded := s.decoded ++ [s.aucPCM b] } = s.used := by
    funext c
    have moved := owns c
    have counted : (s.listPCM_Remote ++ [b]).count c =
        s.listPCM_Remote.count c + if b = c then 1 else 0 := by
      rw [List.count_append, List.count_singleton]
      simp only [beq_iff_eq]
    simp only [Decoder.owns] at moved
    unfold System.used
    dsimp only [System.put]
    omega
  have longer : (s.listPCM_Remote ++ [b]).length = s.listPCM_Remote.length + 1 :=
    List.length_append
  have tokens := accounts.tokens
  have blocks := accounts.blocks
  have ready := accounts.ready
  simp only [Decoder.token, Decoder.block, Decoder.queued] at token block queued
  exact {
    tokens := by
      dsimp only [System.put]
      omega
    blocks := by
      dsimp only [System.put]
      omega
    ready := by
      dsimp only [System.put]
      omega
    refs := by
      rw [used]
      exact accounts.refs
    order := by
      dsimp only [System.put]
      simp only [accounts.order, List.map_append, List.append_assoc, List.map_cons, List.map_nil]
    lock := accounts.lock
    decoding := forall_set accounts.decoding rfl
    playing := accounts.playing }

theorem Accounts.post (accounts : Accounts count s) (here : s.decoders[d]? = some .attached) :
    Accounts count
      { s.put d .outside with pcRemotePCM :=
          { s.pcRemotePCM with consumer := s.pcRemotePCM.consumer + 1 } } := by
  obtain ⟨token, block, queued, owns⟩ := set_parts here .outside
  have used : System.used
      { s.put d .outside with pcRemotePCM :=
          { s.pcRemotePCM with consumer := s.pcRemotePCM.consumer + 1 } } = s.used := by
    funext c
    exact congrArg (· + _ + _) (owns c)
  have tokens := accounts.tokens
  have blocks := accounts.blocks
  have ready := accounts.ready
  simp only [Decoder.token, Decoder.block, Decoder.queued] at token block queued
  exact {
    tokens := by
      dsimp only [System.put]
      omega
    blocks := by
      dsimp only [System.put]
      omega
    ready := by
      dsimp only [System.put]
      omega
    refs := by
      rw [used]
      exact accounts.refs
    order := accounts.order
    lock := accounts.lock
    decoding := forall_set accounts.decoding rfl
    playing := accounts.playing }

/-- The callback keeps the lock. -/
theorem Accounts.inside (accounts : Accounts count s) {at_player player : Player}
    (here : s.player = at_player) (inside : at_player ≠ .outside) :
    s.mtLock = false → player = .outside := by
  intro free
  exact absurd (here.symm.trans (accounts.lock free)) inside

/-- A step of the callback that leaves the blocks where they are. -/
theorem Accounts.play (accounts : Accounts count s) {at_player player : Player}
    {pcRemotePCM : TtPc} {mtLock : Bool} {played : List α} (here : s.player = at_player)
    (tokens : pcRemotePCM.producer + pcRemotePCM.consumer =
      s.pcRemotePCM.producer + s.pcRemotePCM.consumer)
    (ready : pcRemotePCM.consumer + player.token = s.pcRemotePCM.consumer + at_player.token)
    (block : player.block = at_player.block) (owns : ∀ b, player.owns b = at_player.owns b)
    (order : played ++ player.pending.map s.aucPCM = s.played ++ at_player.pending.map s.aucPCM)
    (lock : mtLock = false → player = .outside) (playing : player.stuck = false) :
    Accounts count { s with player, pcRemotePCM, mtLock, played } := by
  subst here
  have used : System.used { s with player, pcRemotePCM, mtLock, played } = s.used := by
    funext c
    exact congrArg (_ + _ + ·) (owns c)
  have tokens_before := accounts.tokens
  have ready_before := accounts.ready
  exact {
    tokens := by
      dsimp only
      omega
    blocks := block ▸ accounts.blocks
    ready := by
      dsimp only
      omega
    refs := by
      rw [used]
      exact accounts.refs
    order := by
      have before := accounts.order
      rw [List.map_append, ← List.append_assoc, ← order, List.append_assoc, ← List.map_append]
        at before
      exact before
    lock
    decoding := accounts.decoding
    playing }

theorem Accounts.detach (accounts : Accounts count s) {rest : List Nat}
    (here : s.player = .consumed) (list : s.listPCM_Remote = b :: rest) :
    Accounts count { s with listPCM_Remote := rest, player := .detached b } := by
  have used : System.used { s with listPCM_Remote := rest, player := .detached b } = s.used := by
    funext c
    unfold System.used
    rw [list, here, List.count_cons]
    simp only [Player.owns, beq_iff_eq]
    omega
  have tokens := accounts.tokens
  have blocks := accounts.blocks
  have ready := accounts.ready
  have order := accounts.order
  rw [here, list] at blocks ready order
  simp only [List.length_cons, Player.block, Player.token] at blocks ready
  exact {
    tokens
    blocks := by
      dsimp only [Player.block]
      omega
    ready := by
      dsimp only [Player.token]
      omega
    refs := by
      rw [used]
      exact accounts.refs
    order
    lock := accounts.inside here (by intro h; cases h)
    decoding := accounts.decoding
    playing := rfl }

/-- The callback has the block alone, so that it goes back to the pool. -/
theorem Accounts.decRef (accounts : Accounts count s) (here : s.player = .copied b) :
    ∃ pool, s.pool.decRef b = some pool ∧ Accounts count { s with pool, player := .released } := by
  have once := accounts.refs.le_one b
  have owned : s.player.owns b = 1 := by
    rw [here]
    exact if_pos rfl
  have held : s.used b = 1 := by
    unfold System.used at once ⊢
    omega
  have gone : System.used { s with player := .released } b = 0 := by
    unfold System.used at held ⊢
    dsimp only [Player.owns]
    omega
  have others : ∀ c, c ≠ b → System.used { s with player := .released } c = s.used c := by
    intro c other
    unfold System.used
    rw [here]
    simp only [Player.owns, other.symm, if_false]
  obtain ⟨pool, decRef, free, refs⟩ := accounts.refs.decRef held (by rw [held, gone]) gone
    (fun c other => ⟨others c other, others c other⟩)
  have blocks := accounts.blocks
  have ready := accounts.ready
  have order := accounts.order
  have longer : pool.free.length = s.pool.free.length + 1 := by
    rw [free, List.length_append]
    rfl
  rw [here] at blocks ready order
  simp only [Player.block, Player.token] at blocks ready
  exact ⟨pool, decRef, {
    tokens := accounts.tokens
    blocks := by
      dsimp only [Player.block]
      omega
    ready := by
      dsimp only [Player.token]
      omega
    refs
    order
    lock := accounts.inside here (by intro h; cases h)
    decoding := accounts.decoding
    playing := rfl }⟩

/-- The step lemma. -/
theorem Accounts.step (accounts : Accounts count s) (step : Step s a s') : Accounts count s' := by
  cases step with
  | produce here token => exact accounts.produce here token
  | new here free new => exact accounts.new here new
  | noDecodeBuffer here free new =>
    exact absurd (new_eq_none.mp new) (accounts.free_ne_nil (List.mem_of_getElem? here) free)
  | decode here => exact accounts.decode here _
  | attach here free => exact accounts.attach here
  | post here => exact accounts.post here
  | callback here free =>
    exact accounts.play here rfl rfl rfl (fun _ => rfl) rfl (by intro h; cases h) rfl
  | silence here => exact accounts
  | consume here consume =>
    obtain ⟨consumer, producer⟩ := ttPcTryConsume_eq_some.mp consume
    exact accounts.play here (by omega) consumer.symm rfl (fun _ => rfl) rfl
      (accounts.inside here (by intro h; cases h)) rfl
  | nothing here consume =>
    exact accounts.play here rfl rfl rfl (fun _ => rfl) rfl
      (accounts.inside here (by intro h; cases h)) rfl
  | detach here list => exact accounts.detach here list
  | noPlayBuffer here list => exact absurd list (accounts.list_ne_nil here)
  | copy here =>
    exact accounts.play here rfl rfl rfl (fun _ => rfl) (List.append_nil _)
      (accounts.inside here (by intro h; cases h)) rfl
  | decRef here decRef =>
    obtain ⟨pool, decRef', accounts⟩ := accounts.decRef here
    rw [decRef] at decRef'
    cases decRef'
    exact accounts
  | deleted here decRef =>
    obtain ⟨pool, decRef', _⟩ := accounts.decRef here
    rw [decRef] at decRef'
    cases decRef'
  | unlock here =>
    exact accounts.play here rfl rfl rfl (fun _ => rfl) rfl (fun _ => rfl) rfl
  | startPlay | stopPlay | record | clearBuffer =>
    exact ⟨accounts.tokens, accounts.blocks, accounts.ready, accounts.refs, accounts.order,
      accounts.lock, accounts.decoding, accounts.playing⟩

theorem System.Initial.accounts (initial : s.Initial count) : Accounts count s := by
  have empty {f : Decoder → Nat} (nothing : f .outside = 0) : total f s.decoders = 0 := by
    apply total_eq_zero.mpr
    intro d here
    rw [initial.decoders d here]
    exact nothing
  have unused : s.used = fun _ => 0 := by
    funext b
    unfold System.used
    rw [initial.list, initial.player, empty rfl]
    rfl
  exact {
    tokens := by
      rw [initial.tokens, empty rfl, empty rfl, empty rfl]
      rfl
    blocks := by
      rw [initial.pool, initial.list, initial.player, empty rfl]
      exact List.length_range
    ready := by
      rw [initial.tokens, initial.list, initial.player, empty rfl]
      rfl
    refs := by
      rw [initial.pool, unused]
      exact counts_init count
    order := by
      rw [initial.history.1, initial.history.2, initial.player, initial.list]
      rfl
    lock := fun _ => initial.player
    decoding := by
      intro d here
      rw [initial.decoders d here]
      rfl
    playing := by
      rw [initial.player]
      rfl }

end

/-- The endless loops are not reached. A decoder with its token has a free block, but where the
callback, which has the lock then, is giving one back; the callback with its token has a block on
the list; the blocks are played as they were decoded, in that order. -/
structure System.Accounted (s : System α) : Prop where
  decoding : .noBuffer ∉ s.decoders
  playing : s.player ≠ .noBuffer ∧ s.player ≠ .deleted
  free : .produced ∈ s.decoders →
    s.pool.free ≠ [] ∨ s.mtLock = true ∧ s.player.givesBack = true
  ready : s.player = .consumed → s.listPCM_Remote ≠ []
  order : s.played <+: s.decoded

/-- In every state reached, with a pool of any size and any number of decoders. -/
theorem remote_audio_accounted {s s' : System α} {as : List (Action α)} {count : Nat}
    (initial : s.Initial count) (run : Run Step s as s') : s'.Accounted := by
  have accounts : Accounts count s' :=
    run.invariant (Accounts count) (fun _ _ _ accounts step => accounts.step step) initial.accounts
  have playing := accounts.playing
  exact {
    decoding := by
      intro stuck
      cases accounts.decoding _ stuck
    playing := by
      constructor
      all_goals
        intro stuck
        rw [stuck] at playing
        cases playing
    free := by
      intro here
      cases locked : s'.mtLock with
      | false => exact .inl (accounts.free_ne_nil here locked)
      | true => exact (accounts.free here).imp_right fun gives => ⟨rfl, gives⟩
    ready := accounts.list_ne_nil
    order := ⟨_, accounts.order.symm⟩ }

/-- One decoder, one block, and frames that are numbers. -/
def single : System Nat where
  pool := initMemoryPool 1
  pcRemotePCM := ttPcInit 1
  listPCM_Remote := []
  aucPCM := fun _ => 0
  mtLock := false
  bPlayEnabled := false
  listEncodedAudio_Local := []
  decoders := [.outside]
  player := .outside
  decoded := []
  played := []

/-- The block is played and decoded again. -/
theorem remote_audio_single :
    ∃ s', Run Step single [.startPlay, .produce 0, .new 0, .decode 0 7, .attach 0, .post 0,
      .callback, .consume, .produce 0, .detach, .copy, .decRef, .unlock, .new 0] s' ∧
      s'.Accounted := by
  have run : Run Step single [.startPlay, .produce 0, .new 0, .decode 0 7, .attach 0, .post 0,
      .callback, .consume, .produce 0, .detach, .copy, .decRef, .unlock, .new 0] _ :=
    .cons (.startPlay rfl) (.cons (.produce rfl rfl) (.cons (.new rfl rfl rfl)
      (.cons (.decode rfl) (.cons (.attach rfl rfl) (.cons (.post rfl)
      (.cons (.callback rfl rfl) (.cons (.consume rfl rfl) (.cons (.produce rfl rfl)
      (.cons (.detach rfl rfl) (.cons (.copy rfl) (.cons (.decRef rfl rfl)
      (.cons (.unlock rfl) (.cons (.new rfl rfl rfl) (.nil _))))))))))))))
  have initial : single.Initial 1 := ⟨rfl, rfl, rfl, rfl, by simp [single], rfl, rfl, rfl⟩
  exact ⟨_, run, remote_audio_accounted initial run⟩

end Rovio.Media.Playback
