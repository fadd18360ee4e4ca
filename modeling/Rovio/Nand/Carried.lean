import Rovio.Nand.ReadBack

/-! What every block update of a write keeps, the write keeps; and what an update without failures
does to the table and the free list. -/
namespace Rovio.Nand

open Kit

variable {card : Card} {cells : Cells} {w w' : World} {block sector secCount : Nat}
  {buff : Nat → Sector}

/-! ### One update -/

/-- The block at the head of the list takes the place of the old one, or it goes back. -/
inductive Moved (block : Nat) (w w' : World) : Prop
  | rebuilt (node : Node) (rest : List Node) (free : w.free = node :: rest)
      (table : w'.l2p = Function.update w.l2p block (some node.block))
      (listed : w'.free = rest ++ ((w.l2p block).toList.map fun p => ⟨p, false⟩))
  | filled (node : Node) (rest : List Node) (free : w.free = node :: rest)
      (table : w'.l2p = w.l2p) (listed : w'.free = rest ++ [⟨node.block, false⟩])

theorem retire_lists (sound : card.FaultFree) (memory : ∀ n, card.malloc n = true)
    {old : Option Nat} {minds : Bool} {s : Status} {v : World}
    (run : retire card old minds v = some (s, w')) :
    w'.free = v.free ++ (old.toList.map fun p => ⟨p, false⟩) := by
  cases old with
  | none =>
    cases run
    exact (List.append_nil _).symm
  | some p =>
    rw [retire_run] at run
    have fine : verdict (v.attempts card [.erase p]) = .noErr := by
      rw [verdict_one, sound]
      rfl
    simp only [fine, ne_eq, not_true_eq_false, and_false, if_false] at run
    rw [smAddFreeBlock_run, memory, if_pos rfl] at run
    cases run
    rfl

theorem update_moved (scanned : w.smZone.isScan)
    (apart : ∀ node ∈ w.free, w.l2p block ≠ some node.block) (sound : card.FaultFree)
    (memory : ∀ n, card.malloc n = true) (small : block < l2pTableSize) (some : secCount ≠ 0)
    (fits : sector + secCount ≤ card.uSectorPerBlock) {status : Status}
    (run : updateBlock card 0 block sector secCount buff w = Option.some (status, w')) :
    Moved block w w' := by
  cases out : takeFree card w.log.length w.free with
  | none =>
    rw [updateBlock_crash scanned small sector secCount buff out] at run
    cases run
  | some found =>
    obtain ⟨es, fb, rest⟩ := found
    obtain ⟨node, free, rfl, -⟩ := takeFree_sound sound out
    obtain ⟨_, _, run', updated⟩ := updateBlock_run scanned small buff some fits out
      (apart node (by simp [free]))
    rw [run] at run'
    cases run'
    have ok : ∀ n op, (card.report n op).isOk := fun n op => by
      rw [sound n op]
      rfl
    generalize plan card ((w.push card es).setFree rest).flash block node.block (w.l2p block) sector
      secCount buff = chosen at updated
    cases updated with
    | built clean retired =>
      obtain ⟨_, -, -, table, -⟩ := retire_world retired
      exact .rebuilt node rest free table (retire_lists sound memory retired)
    | givenUp failed =>
      rw [firstFailure_sound ok] at failed
      cases failed
    | regained failed =>
      rw [firstFailure_sound ok] at failed
      cases failed
    | filled clean freed =>
      rw [smAddFreeBlock_run, memory, if_pos rfl] at freed
      cases freed
      exact .filled node rest free rfl rfl
    | spilled bad =>
      obtain ⟨e, mem, failed⟩ := bad
      rw [sound.attempts mem] at failed
      exact absurd rfl failed

/-- Whatever fails, an update unmaps no block. -/
theorem Updated.mapped {fb : Nat} {chosen : Plan} {old : Option Nat} {status : Status}
    (updated : Updated card w block fb old chosen status w') {l : Nat} (here : w.l2p l ≠ none) :
    w'.l2p l ≠ none := by
  have moved : ∀ v : World, v.l2p = w.l2p → (v.setL2P block (some fb)).l2p l ≠ none := by
    intro v same
    change Function.update v.l2p block (some fb) l ≠ none
    by_cases this : l = block
    · rw [this, Function.update_self]
      rintro ⟨⟩
    · rw [Function.update_of_ne this, same]
      exact here
  cases updated with
  | built clean retired =>
    obtain ⟨es, -, -, table, -⟩ := retire_world retired
    rw [table]
    exact moved _ rfl
  | givenUp failed lost onNew bad error left =>
    rcases left with rfl | rfl
    · exact here
    · exact here
  | regained failed regains erased onNew bad retired =>
    obtain ⟨es, -, -, table, -⟩ := retire_world retired
    rw [table]
    exact moved _ rfl
  | filled clean freed =>
    rw [smAddFreeBlock_run] at freed
    split at freed
    · cases freed
      exact here
    · cases freed
      exact here
  | spilled bad => exact here

theorem Keeps.update_mapped (keeps : Keeps card cells w) (sound : card.FaultFree)
    (small : block < l2pTableSize) (some : secCount ≠ 0)
    (fits : sector + secCount ≤ card.uSectorPerBlock) {status : Status}
    (run : updateBlock card 0 block sector secCount buff w = Option.some (status, w')) {l : Nat}
    (here : w.l2p l ≠ none) : w'.l2p l ≠ none := by
  cases out : takeFree card w.log.length w.free with
  | none =>
    rw [updateBlock_crash keeps.scanned small sector secCount buff out] at run
    cases run
  | some found =>
    obtain ⟨es, fb, rest⟩ := found
    have took := keeps.took sound out
    obtain ⟨_, _, run', updated⟩ := updateBlock_run keeps.scanned small buff some fits out
      (took.unmapped block)
    rw [run] at run'
    cases run'
    exact updated.mapped here

/-! ### A write -/

section
variable {I : World → Prop} {T : World → World → Prop} {ok : World → Request → Prop}
  (refl : ∀ v, T v v) (trans : ∀ {u v v' : World}, T u v → T v v' → T u v')
  (step : ∀ {v v' : World} {r : Request} {buff : Nat → Sector} {status : Status}, I v →
    r.block < l2pTableSize → r.count ≠ 0 → r.sector + r.count ≤ card.uSectorPerBlock → ok v r →
      updateBlock card 0 r.block r.sector r.count buff v = some (status, v') → I v' ∧ T v v')
include refl trans step

/-- An invariant and a relation of the block updates are an invariant and a relation of a write. -/
theorem writeRequests_relates {stop pageCount count fuel offset : Nat}
    (fits : Fits card stop 0 block sector pageCount count) (within : stop ≤ card.capacity)
    (enough : count < fuel) {retries : Nat} (start : I w)
    (safe : ∀ t ∈ updateTurns card buff
      (requestsFrom card fuel 0 block sector pageCount count offset) retries w, ok t.2 t.1)
    {status : Status} (run : writeRequests (updateBlock card) buff
      (requestsFrom card fuel 0 block sector pageCount count offset) retries w =
        some (status, w')) : I w' ∧ T w w' := by
  induction fuel generalizing block sector pageCount count offset retries w with
  | zero => omega
  | succ fuel ih =>
    have positive := fits.positive
    rw [requestsFrom] at run safe
    dsimp only at run safe
    rw [writeRequests, bind_some] at run
    obtain ⟨⟨answer, left⟩, v, made, rest⟩ := run
    rw [updateTurns, turns] at safe
    obtain ⟨kept, related⟩ : I v ∧ T w v := by
      refine @attempt_after w v _ _ _ (fun u => I u ∧ T w u) (fun u => I u ∧ T w u) _ _ _
        (.inl ⟨start, refl w⟩) ?_ made
      intro u mem held b u' called
      have harmless := safe _ (List.mem_append_left _ (List.mem_map_of_mem mem))
      obtain ⟨held, before⟩ : I u ∧ T w u := held.elim id id
      obtain ⟨next, after⟩ := step held fits.block_lt (by dsimp only; omega) fits.within harmless
        called
      exact ⟨next, trans before after⟩
    dsimp only at rest
    rw [ite_run] at rest
    split at rest
    case isTrue failed =>
      cases rest
      exact ⟨kept, related⟩
    case isFalse fine =>
      by_cases more : count - pageCount = 0
      · rw [if_pos more] at rest
        cases rest
        exact ⟨kept, related⟩
      · have next := fits.next_block within more
        have behind := fits.next more next (Nat.add_assoc _ _ _).symm
        rw [if_neg more, if_neg (Nat.not_le_of_lt next)] at rest safe
        rw [made] at safe
        obtain ⟨last, related'⟩ := ih behind (by omega) kept (fun t mem => safe t (by
          refine List.mem_append_right _ ?_
          dsimp only
          rw [if_neg (by simpa using fine)]
          exact mem)) rest
        exact ⟨last, trans related related'⟩

theorem fmiSMWrite_relates {uSector uBufcnt : Nat} (some : 0 < uBufcnt)
    (within : uSector + uBufcnt ≤ card.capacity) (start : I w)
    (safe : ∀ t ∈ (Entry.write uSector uBufcnt buff).turns card w, ok t.2 t.1) {status : Status}
    (run : fmiSMWrite card uSector uBufcnt buff w = Option.some (status, w')) : I w' ∧ T w w' := by
  obtain ⟨zone, fits, -⟩ := fits_zone some within
  rw [Entry.turns, requests, zone] at safe
  rw [fmiSMWrite, fmiSMWriteWith, requests, zone] at run
  exact writeRequests_relates refl trans step fits within (Nat.lt_succ_self uBufcnt) start safe run

end

end Rovio.Nand
