import Rovio.Nand.Recorded

/-! A card that is switched off between two calls and scanned again goes on as if nothing had
happened. -/
namespace Rovio.Nand

open Kit

variable {card : Card} {cells : Cells} {w w' : World} {block sector secCount : Nat}
  {buff : Nat → Sector}

/-- The first page of a block. -/
def Card.first (card : Card) (flash : Flash) (p : Nat) : Page := flash (p * card.uPagePerBlock)

theorem address_first {flash : Flash} {i : Nat} (some : i ≠ 0) :
    address card flash i = (card.first flash i).addressed := by
  rw [address_page some, Card.first, Nat.mul_comm]

/-! ### One update -/

/-- A move of blocks, with what it makes of the first pages. -/
inductive Renamed (card : Card) (block : Nat) (w w' : World) : Prop
  | rebuilt (node : Node) (rest : List Node) (free : w.free = node :: rest)
      (table : w'.l2p = Function.update w.l2p block (some node.block))
      (listed : w'.free = rest ++ ((w.l2p block).toList.map fun p => ⟨p, false⟩))
      (named : (card.first w'.flash node.block).Names block)
      (erased : ∀ p, w.l2p block = some p → card.first w'.flash p = .erased)
      (same : ∀ q, q ≠ node.block → w.l2p block ≠ some q →
        card.first w'.flash q = card.first w.flash q)
  | filled (node : Node) (rest : List Node) (p : Nat) (free : w.free = node :: rest)
      (mapped : w.l2p block = some p) (table : w'.l2p = w.l2p)
      (listed : w'.free = rest ++ [⟨node.block, false⟩])
      (named : (card.first w'.flash p).Names block)
      (blank : (card.first w'.flash node.block).blockAddr = 0xffff#16)
      (same : ∀ q, q ≠ node.block → q ≠ p → card.first w'.flash q = card.first w.flash q)

theorem Keeps.old_pages (keeps : Keeps card cells w) {flash : Flash} {fb : Nat} {rest : List Node}
    (took : Took card w flash fb rest) (some : secCount ≠ 0)
    (fits : sector + secCount ≤ card.uSectorPerBlock)
    (safe : ¬ Loses card w block sector secCount) :
    (∀ b, plan card flash block fb (w.l2p block) sector secCount buff = .build b →
        Fresh card fb b) ∧
      ∀ ops, plan card flash block fb (w.l2p block) sector secCount buff = .fill ops →
        ∃ p, w.l2p block = Option.some p ∧ Topped card flash p ops := by
  have old : ∀ p, w.l2p block = Option.some p → ∀ i < card.uPagePerBlock,
      flash (p * card.uPagePerBlock + i) = w.flash (p * card.uPagePerBlock + i) := by
    intro p mapped i inside
    refine took.same _ fun same => ?_
    rw [block_of_page inside] at same
    exact took.unmapped block (same ▸ mapped)
  have honest : ∀ p, w.l2p block = Option.some p → ∀ i < card.uPagePerBlock,
      (flash (p * card.uPagePerBlock + i)).Honest card := by
    intro p mapped i inside
    rw [old p mapped i inside]
    exact keeps.honest block p mapped i inside
  have harmless : ∀ p, w.l2p block = Option.some p → card.u2KPageSize = true →
      secCount ≠ card.uSectorPerBlock →
      pagesUsed2K flash (p * card.uPagePerBlock + sector / 4) (pageRuns (sector % 4) secCount) →
      ¬ PartlyNew card flash p sector secCount := by
    rintro p mapped big whole used ⟨s, t, page, covered, left, free⟩
    have size : card.uSectorPerBlock = 4 * card.uPagePerBlock := if_pos big
    refine safe ⟨big, whole, p, mapped, ?_, s, t, page, covered, left, ?_⟩
    · rw [← used]
      refine pagesUsed2K_congr fun j within => ?_
      have length := (@rounds_of sector _ some).length
      rw [Nat.add_assoc]
      exact (old p mapped _ (by omega)).symm
    · rw [← old p mapped _ (by omega)]
      exact free
  have pages := @plan_pages card flash block fb sector secCount buff (w.l2p block) some honest
    harmless
  constructor
  · intro b made
    rw [made] at pages
    exact pages
  · intro ops made
    rw [made] at pages
    exact pages

section
variable {flash : Flash} {node : Node} {rest : List Node} {status : Status} (v : World)
  (took : Took card w flash node.block rest) (sound : card.FaultFree)
  (memory : ∀ n, card.malloc n = true) (free : w.free = node :: rest) (some : secCount ≠ 0)
  (fits : sector + secCount ≤ card.uSectorPerBlock) (before : v.flash = flash)
  (table : v.l2p = w.l2p) (left : v.free = rest)
include took sound memory free some fits before table left

theorem Took.rebuilds {b : Build} (fresh : Fresh card node.block b)
    (blank : (card.first flash node.block).blockAddr = 0xffff#16)
    (planned : Planned card flash block node.block (w.l2p block) sector secCount buff (.build b))
    (retired : retire card (w.l2p block) b.minds (v.afterScript card b block node.block) =
      Option.some (status, w')) : Renamed card block w w' := by
  have pos : 0 < card.uPagePerBlock := by
    unfold Card.uSectorPerBlock at fits
    split at fits <;> omega
  have front : ∀ q, q * card.uPagePerBlock / card.uPagePerBlock = q :=
    fun q => Nat.mul_div_cancel q pos
  have other := took.unmapped block
  have fine : ∀ e ∈ v.attempts card (b.steps.map Step.op), e.out.isOk := by
    intro e mem
    rw [sound.attempts mem]
    rfl
  obtain ⟨_, -, -, page⟩ := retire_sound sound retired
  obtain ⟨_, -, -, table', -⟩ := retire_world retired
  have lists := retire_lists sound memory retired
  have script : card.first (v.afterScript card b block node.block).flash node.block =
      (contents (node.block * card.uPagePerBlock) (b.steps.map Step.op)).foldl Page.program
        (card.first flash node.block) := by
    rw [← before]
    exact push_ok fine fun _ mem => (planned.onNew some fits mem).1
  have quiet : ∀ q, q ≠ node.block →
      card.first (v.afterScript card b block node.block).flash q = card.first w.flash q := by
    intro q apart
    refine Eq.trans (replay_other fun e mem => ?_) ?_
    · rw [(planned.onNew some fits (mem_attempts mem)).2, front]
      exact Ne.symm apart
    · rw [before]
      exact took.same _ (by rwa [front])
  refine .rebuilt node rest free ?_ ?_ ?_ ?_ ?_
  · rw [← table]
    exact table'
  · rw [← left]
    exact lists
  · rw [Card.first, page, front, if_neg other]
    change (card.first _ node.block).Names block
    rw [script]
    exact planned.built_names fresh some fits (took.clear 0 pos) blank
  · intro p old
    rw [Card.first, page, front, if_pos old]
  · intro q apart unmapped
    rw [Card.first, page, front, if_neg unmapped]
    exact quiet q apart

theorem Took.fills {ops : List Op} {p : Nat} (topped : Topped card flash p ops)
    (mapped : w.l2p block = Option.some p)
    (blank : (card.first flash node.block).blockAddr = 0xffff#16)
    (named : (card.first w.flash p).Names block)
    (planned : Planned card flash block node.block (w.l2p block) sector secCount buff (.fill ops))
    (freed : smAddFreeBlock card 0 node.block false (v.push card (v.attempts card ops)) =
      Option.some (status, w')) : Renamed card block w w' := by
  have pos : 0 < card.uPagePerBlock := by
    unfold Card.uSectorPerBlock at fits
    split at fits <;> omega
  have front : ∀ q, q * card.uPagePerBlock / card.uPagePerBlock = q :=
    fun q => Nat.mul_div_cancel q pos
  have other : p ≠ node.block := fun same => took.unmapped block (same ▸ mapped)
  obtain ⟨q, mapped', fills⟩ := planned.fills some fits
  obtain rfl : p = q := Option.some.inj (mapped.symm.trans mapped')
  have fine : ∀ e ∈ v.attempts card ops, e.out.isOk := by
    intro e mem
    rw [sound.attempts mem]
    rfl
  rw [smAddFreeBlock_run, memory, if_pos rfl] at freed
  cases freed
  have away : ∀ r, r ≠ node.block → card.first flash r = card.first w.flash r :=
    fun r apart => took.same _ (by rwa [front])
  have script : card.first (v.push card (v.attempts card ops)).flash p =
      (contents (p * card.uPagePerBlock) ops).foldl Page.program (card.first flash p) := by
    rw [← before]
    exact push_ok fine fun _ mem => (fills.onOld _ mem).1
  have quiet : ∀ r, r ≠ p →
      card.first (v.push card (v.attempts card ops)).flash r = card.first flash r := by
    intro r apart
    rw [← before]
    refine replay_other fun e mem => ?_
    rw [(fills.onOld _ (mem_attempts mem)).2, front]
    exact Ne.symm apart
  refine .filled node rest p free mapped table ?_ ?_ ?_ ?_
  · rw [← left]
    rfl
  · change (card.first (World.push card _ _).flash p).Names block
    rw [script]
    refine planned.filled_names topped some pos ?_
    change (card.first flash p).Names block
    rw [away p other]
    exact named
  · change (card.first (World.push card _ _).flash node.block).blockAddr = _
    rw [quiet _ (Ne.symm other)]
    exact blank
  · intro r apart apart'
    exact (quiet r apart').trans (away r apart)

end

theorem Keeps.renamed (keeps : Keeps card cells w) (sound : card.FaultFree)
    (memory : ∀ n, card.malloc n = true) (small : block < l2pTableSize) (some : secCount ≠ 0)
    (fits : sector + secCount ≤ card.uSectorPerBlock) (safe : ¬ Loses card w block sector secCount)
    (blank : ∀ node ∈ w.free, node.status = false →
      (card.first w.flash node.block).blockAddr = 0xffff#16)
    (named : ∀ p, w.l2p block = Option.some p → (card.first w.flash p).Names block)
    {status : Status}
    (run : updateBlock card 0 block sector secCount buff w = Option.some (status, w')) :
    Renamed card block w w' := by
  cases out : takeFree card w.log.length w.free with
  | none =>
    rw [updateBlock_crash keeps.scanned small sector secCount buff out] at run
    cases run
  | some found =>
    obtain ⟨es, fb, rest⟩ := found
    have took := keeps.took sound out
    obtain ⟨node, free, rfl, taken⟩ := takeFree_sound sound out
    obtain ⟨_, _, run', updated⟩ := updateBlock_run keeps.scanned small buff some fits out
      (took.unmapped block)
    rw [run] at run'
    cases run'
    have planned := @plan_planned card ((w.push card es).setFree rest).flash block node.block
      (w.l2p block) sector secCount buff fits
    have pages := @Keeps.old_pages card cells w block sector secCount buff keeps _ _ _ took some
      fits safe
    have fresh : (card.first ((w.push card es).setFree rest).flash node.block).blockAddr =
        0xffff#16 := by
      rcases taken with ⟨rfl, clean⟩ | rfl
      · exact blank node (free ▸ List.mem_cons_self) clean
      · have pos : 0 < card.uPagePerBlock := by
          unfold Card.uSectorPerBlock at fits
          split at fits <;> omega
        rw [Card.first, setFree_flash, push_flash, replay_cons, replay_nil, Event.apply]
        dsimp only
        rw [if_pos (Nat.mul_div_cancel node.block pos)]
        rfl
    generalize made : plan card ((w.push card es).setFree rest).flash block node.block
      (w.l2p block) sector secCount buff = chosen at planned updated
    have ok : ∀ n op, (card.report n op).isOk := fun n op => by
      rw [sound n op]
      rfl
    cases updated with
    | built clean retired =>
      exact took.rebuilds ((w.push card es).setFree rest) sound memory free some fits rfl rfl rfl
        (pages.1 _ made) fresh planned retired
    | givenUp failed =>
      rw [firstFailure_sound ok] at failed
      cases failed
    | regained failed =>
      rw [firstFailure_sound ok] at failed
      cases failed
    | filled clean freed =>
      obtain ⟨p, mapped, topped⟩ := pages.2 _ made
      exact took.fills ((w.push card es).setFree rest) sound memory free some fits rfl rfl rfl
        topped mapped fresh (named p mapped) planned freed
    | spilled bad =>
      obtain ⟨e, mem, failed⟩ := bad
      rw [sound.attempts mem] at failed
      exact absurd rfl failed

/-! ### What the first pages record -/

/-- The table and the list can be read off the first pages. -/
structure Recorded (card : Card) (w : World) : Prop where
  small : ∀ l p, w.l2p l = some p → l < l2pTableSize
  named : ∀ l p, w.l2p l = some p → p ≠ 0 ∧ (card.first w.flash p).Names l
  listed : ∀ node ∈ w.free, node.block ≠ 0 ∧ (card.first w.flash node.block).addressed =
    if node.status then 0xfcfc#16 else 0xffff#16
  placed : ∀ i, HasPlace w i ↔ i < card.eblock 0 ∧ Intact card w.flash i

theorem intact_of_places
    (small : ∀ l p, w.l2p l = some p → l < l2pTableSize)
    (named : ∀ l p, w.l2p l = some p → p ≠ 0 ∧ (card.first w.flash p).Names l)
    (listed : ∀ node ∈ w.free, node.block ≠ 0 ∧ (card.first w.flash node.block).addressed =
      if node.status then 0xfcfc#16 else 0xffff#16) {i : Nat} (place : HasPlace w i) :
    Intact card w.flash i := by
  rcases place with ⟨l, here⟩ | mem
  · obtain ⟨some, names⟩ := named l i here
    obtain ⟨⟨-, bad, zero, -⟩, -⟩ := blockAddr_used (small l i here)
    rw [Intact, address_first some, names.addressed]
    exact ⟨bad, zero⟩
  · obtain ⟨node, inside, rfl⟩ := List.mem_map.mp mem
    obtain ⟨some, addressed⟩ := listed node inside
    rw [Intact, address_first some, addressed]
    split
    · decide
    · decide

/-- Blocks that have no place keep their first page. -/
theorem Recorded.of_kept (recorded : Recorded card w) (kept : Kept w w')
    (small : ∀ l p, w'.l2p l = some p → l < l2pTableSize)
    (named : ∀ l p, w'.l2p l = some p → p ≠ 0 ∧ (card.first w'.flash p).Names l)
    (listed : ∀ node ∈ w'.free, node.block ≠ 0 ∧ (card.first w'.flash node.block).addressed =
      if node.status then 0xfcfc#16 else 0xffff#16)
    (same : ∀ i, ¬ HasPlace w i → card.first w'.flash i = card.first w.flash i) :
    Recorded card w' := by
  refine ⟨small, named, listed, fun i => ?_⟩
  by_cases place : HasPlace w i
  · have place' := (kept.same i).mpr place
    exact iff_of_true place' ⟨((recorded.placed i).mp place).1,
      intact_of_places small named listed place'⟩
  · have intact : Intact card w'.flash i ↔ Intact card w.flash i := by
      have pages := same i place
      rw [Card.first, Card.first, Nat.mul_comm] at pages
      rw [Intact, Intact, address_congr pages]
    rw [intact, kept.same]
    exact recorded.placed i

theorem Recorded.update (recorded : Recorded card w) (keeps : Keeps card cells w)
    (sound : card.FaultFree) (memory : ∀ n, card.malloc n = true) (small : block < l2pTableSize)
    (some : secCount ≠ 0) (fits : sector + secCount ≤ card.uSectorPerBlock)
    (safe : ¬ Loses card w block sector secCount) {status : Status}
    (run : updateBlock card 0 block sector secCount buff w = Option.some (status, w')) :
    Recorded card w' := by
  have kept := keeps.toConsistent.partition.update sound memory small some fits run
  have renamed := keeps.renamed sound memory small some fits safe (fun node mem clean => by
    have addressed := (recorded.listed node mem).2
    rw [clean, if_neg Bool.false_ne_true] at addressed
    exact Page.unaddressed addressed) (fun p mapped => (recorded.named block p mapped).2) run
  have placed : ∀ {node : Node} {rest : List Node}, w.free = node :: rest →
      node ∈ w.free ∧ ∀ other ∈ rest, other ∈ w.free ∧ other.block ≠ node.block := by
    intro node rest free
    have nodup := keeps.nodup
    rw [free, List.map_cons, List.nodup_cons] at nodup
    rw [free]
    exact ⟨List.mem_cons_self, fun other mem => ⟨List.mem_cons_of_mem _ mem,
      fun same => nodup.1 (same ▸ List.mem_map_of_mem mem)⟩⟩
  cases renamed with
  | rebuilt node rest free table listed named erased same =>
    obtain ⟨head, others⟩ := placed free
    have new : ∀ l p, w'.l2p l = Option.some p → l = block ∧ p = node.block ∨
        l ≠ block ∧ w.l2p l = Option.some p := by
      intro l p here
      rw [table] at here
      by_cases this : l = block
      · rw [this, Function.update_self] at here
        exact .inl ⟨this, (Option.some.inj here).symm⟩
      · rw [Function.update_of_ne this] at here
        exact .inr ⟨this, here⟩
    refine recorded.of_kept kept (fun l p here => ?_) (fun l p here => ?_) (fun other mem => ?_)
      fun i nowhere => ?_
    · rcases new l p here with ⟨rfl, -⟩ | ⟨-, here⟩
      · exact small
      · exact recorded.small l p here
    · rcases new l p here with ⟨rfl, rfl⟩ | ⟨apart, here⟩
      · exact ⟨(recorded.listed node head).1, named⟩
      · rw [same p (fun this => keeps.apart l node head (this ▸ here))
          fun old => apart (keeps.alone l block p here old)]
        exact recorded.named l p here
    · rw [listed, List.mem_append, List.mem_map] at mem
      rcases mem with inside | ⟨p, old, rfl⟩
      · obtain ⟨before, apart⟩ := others other inside
        rw [same other.block apart (keeps.apart block other before)]
        exact recorded.listed other before
      · have old := Option.mem_toList.mp old
        dsimp only
        rw [erased p old]
        exact ⟨(recorded.named block p old).1, rfl⟩
    · refine same i (fun this => nowhere (.inr ?_)) fun old => nowhere (.inl ⟨block, old⟩)
      exact this ▸ List.mem_map_of_mem head
  | filled node rest p free mapped table listed named blank same =>
    obtain ⟨head, others⟩ := placed free
    have other : p ≠ node.block := fun this => keeps.apart block node head (this ▸ mapped)
    refine recorded.of_kept kept (table ▸ recorded.small) (fun l q here => ?_)
      (fun node' mem => ?_) fun i nowhere => ?_
    · rw [table] at here
      by_cases this : l = block
      · obtain rfl : p = q := Option.some.inj (mapped.symm.trans (this ▸ here))
        exact ⟨(recorded.named l p here).1, this ▸ named⟩
      · rw [same q (fun eq => keeps.apart l node head (eq ▸ here))
          fun eq => this (keeps.alone l block q here (eq ▸ mapped))]
        exact recorded.named l q here
    · rw [listed, List.mem_append, List.mem_singleton] at mem
      rcases mem with inside | rfl
      · obtain ⟨before, apart⟩ := others node' inside
        rw [same node'.block apart fun eq => keeps.apart block node' before (eq ▸ mapped)]
        exact recorded.listed node' before
      · refine ⟨(recorded.listed node head).1, ?_⟩
        dsimp only
        rw [Page.addressed, if_neg (fun both => both.1 blank), if_neg Bool.false_ne_true]
        exact blank
    · refine same i (fun this => nowhere (.inr ?_)) fun this => nowhere (.inl ⟨block, ?_⟩)
      · exact this ▸ List.mem_map_of_mem head
      · exact this ▸ mapped

/-! ### Deletions -/

/-- The first page of a block gets marked that stays mapped: a scan would list it as free. -/
def Unnames (card : Card) (w : World) (block sector secCount : Nat) : Prop :=
  secCount ≠ card.uSectorPerBlock ∧ card.pageOf sector = 0 ∧
    (pagesToMark card sector secCount)[0]? = some true ∧ ∃ p, w.l2p block = some p ∧
      w.counted p + (pagesToMark card sector secCount).count true ≠ card.uPagePerBlock

theorem Recorded.freed (recorded : Recorded card w) (partition : Partition w)
    (sound : card.FaultFree) (small : block < l2pTableSize) (pos : 0 < card.uPagePerBlock) {p : Nat}
    (mapped : w.l2p block = some p) {v : World} (zone : v.smZone = w.smZone)
    (same : ∀ q, q ≠ p → card.first v.flash q = card.first w.flash q) {status : Status}
    (run : deleteBlock card 0 block p v = some (status, w')) (kept : Kept w w') :
    Recorded card w' := by
  obtain ⟨_, _, run', table, -, free, page, -⟩ := deleteBlock_sound sound small p v
  rw [run] at run'
  cases run'
  have table : w'.l2p = Function.update w.l2p block none := by
    rw [table]
    exact congrArg (Function.update · block none) (congrArg Zone.l2pTable zone)
  have old : v.free = w.free := congrArg Zone.freeBlockList zone
  have front : ∀ q, q * card.uPagePerBlock / card.uPagePerBlock = q :=
    fun q => Nat.mul_div_cancel q pos
  have away : ∀ q, q ≠ p → card.first w'.flash q = card.first w.flash q := by
    intro q apart
    rw [Card.first, page, front, if_neg apart]
    exact same q apart
  have left : ∀ l q, w'.l2p l = some q → q ≠ p ∧ w.l2p l = some q := by
    intro l q here
    rw [table] at here
    by_cases this : l = block
    · rw [this, Function.update_self] at here
      cases here
    · rw [Function.update_of_ne this] at here
      exact ⟨fun eq => this (partition.alone l block q here (eq ▸ mapped)), here⟩
  refine recorded.of_kept kept (fun l q here => recorded.small l q (left l q here).2)
    (fun l q here => ?_) (fun node mem => ?_) fun i nowhere => ?_
  · rw [away q (left l q here).1]
    exact recorded.named l q (left l q here).2
  · have listed : node ∈ w.free ∨ node = ⟨p, false⟩ := by
      rw [old] at free
      rcases free with free | free
      · exact .inl (free ▸ mem)
      · rw [free, List.mem_append, List.mem_singleton] at mem
        exact mem
    rcases listed with before | rfl
    · rw [away node.block fun eq => partition.apart block node before (eq ▸ mapped)]
      exact recorded.listed node before
    · refine ⟨(recorded.named block p mapped).1, ?_⟩
      dsimp only
      rw [Card.first, page, front, if_pos rfl]
      rfl
  · exact away i fun eq => nowhere (.inl ⟨block, eq ▸ mapped⟩)

/-- The first pages of other blocks are not marked, nor that of a block whose marks lie behind. -/
theorem Marked.first {p : Nat} (some : 0 < secCount)
    (fits : sector + secCount ≤ card.uSectorPerBlock)
    (marked : Marked (p * card.uPagePerBlock + card.pageOf sector)
      (pagesToMark card sector secCount) (w.selected p) w') (q : Nat)
    (quiet : q ≠ p ∨ ¬ (card.pageOf sector = 0 ∧
      (pagesToMark card sector secCount)[0]? = Option.some true)) :
    card.first w'.flash q = card.first w.flash q := by
  rw [Card.first, marked.page, selected_flash, if_neg]
  · rfl
  · rintro ⟨behind, whole⟩
    have inside := (pagesToMark_covers some whole).page_lt fits
    have place : card.pageOf sector +
        (q * card.uPagePerBlock - (p * card.uPagePerBlock + card.pageOf sector)) =
          q * card.uPagePerBlock - p * card.uPagePerBlock := by omega
    rw [place, ← Nat.sub_mul] at inside
    have here : q - p = 0 := by
      by_contra later
      have := Nat.le_mul_of_pos_left card.uPagePerBlock (Nat.pos_of_ne_zero later)
      omega
    have same : q * card.uPagePerBlock ≤ p * card.uPagePerBlock :=
      Nat.mul_le_mul_right _ (by omega)
    have zero : card.pageOf sector = 0 := by omega
    have first : q * card.uPagePerBlock - (p * card.uPagePerBlock + card.pageOf sector) = 0 := by
      omega
    rw [first] at whole
    rcases quiet with apart | quiet
    · have pos : 0 < card.uPagePerBlock := by omega
      exact apart (Nat.eq_of_mul_eq_mul_right pos (by omega))
    · exact quiet ⟨zero, whole⟩

theorem Recorded.mark (recorded : Recorded card w) (partition : Partition w)
    (sound : card.FaultFree) (memory : ∀ n, card.malloc n = true) (small : block < l2pTableSize)
    (some : 0 < secCount) (fits : sector + secCount ≤ card.uSectorPerBlock)
    (once : ¬ Doubles card w block secCount) (names : ¬ Unnames card w block sector secCount)
    {status : Status}
    (run : markBlockData card 0 block sector secCount w = Option.some (status, w')) :
    Recorded card w' := by
  have pos : 0 < card.uPagePerBlock := by
    unfold Card.uSectorPerBlock at fits
    split at fits <;> omega
  obtain ⟨_, _, run', kept⟩ := @Partition.mark _ _ _ sector _ partition sound memory small once
  rw [run] at run'
  cases run'
  have lookUp : ∀ f : Option Nat → Drive Status, (ensureScanned card 0 >>= fun _ =>
      getL2P 0 block >>= f) w = f (w.l2p block) w := by
    intro f
    rw [bind_of_run (ensureScanned_run partition.scanned), bind_of_run (getL2P_run small w)]
  rw [markBlockData, lookUp] at run
  cases mapped : w.l2p block with
  | none =>
    rw [mapped] at run
    cases run
    exact recorded
  | some p =>
    rw [mapped] at run
    dsimp only at run
    rw [ite_run] at run
    by_cases whole : secCount = card.uSectorPerBlock
    · obtain ⟨v, gone, -, count⟩ := partition.freed sound memory small mapped
      rw [if_pos whole, bind_of_run gone, ite_run, if_neg (not_not.mpr rfl)] at run
      unfold mergeDeleted at run
      rw [if_neg fun full => once ⟨whole, by rw [mapped]; rintro ⟨⟩, count ▸ full⟩] at run
      cases run
      exact recorded.freed partition sound small pos mapped rfl (fun _ _ => rfl) gone kept
    · obtain ⟨w₁, marks, marked⟩ := markSectors_sound sound p sector secCount w
      have zone : w₁.smZone = w.smZone := marked.zone.trans (selected_smZone w p)
      have counted := marked.counted
      rw [if_neg whole, bind_of_run marks] at run
      unfold mergeDeleted at run
      by_cases full : w₁.uDelPageOfBlock = card.uPagePerBlock
      · rw [if_pos full, counted.1] at run
        exact recorded.freed partition sound small pos mapped zone
          (fun q apart => marked.first some fits q (.inl apart)) run kept
      · rw [if_neg full] at run
        cases run
        have pages : ∀ q, card.first w'.flash q = card.first w.flash q := fun q =>
          marked.first some fits q (.inr fun first => names ⟨whole, first.1, first.2, p, mapped,
            counted.2 ▸ full⟩)
        have table : w'.l2p = w.l2p := congrArg Zone.l2pTable zone
        have free : w'.free = w.free := congrArg Zone.freeBlockList zone
        refine recorded.of_kept kept (table ▸ recorded.small) (fun l q here => ?_)
          (fun node mem => ?_) fun i _ => pages i
        · rw [pages]
          exact recorded.named l q (table ▸ here)
        · rw [pages]
          exact recorded.listed node (free ▸ mem)

/-! ### A scan after power-up -/

theorem Found.scan_round {flash : Flash} {been : List Nat} (found : Found card flash been w)
    (memory : ∀ n, card.malloc n = true) {i : Nat} (new : i ∉ been)
    (single : ∀ j ∈ been, usedAddress (address card flash j) → usedAddress (address card flash i) →
      numberOf (address card flash j) = numberOf (address card flash i) → j = i)
    (fits : usedAddress (address card flash i) →
      numberOf (address card flash i) < l2pTableSize) :
    ∃ w', scanBlock card 0 i w = some (.noErr, w') := by
  have add : ∀ flag, ∃ w', smAddFreeBlock card 0 i flag w = some (.noErr, w') := fun flag =>
    ⟨_, by rw [smAddFreeBlock_run, memory, if_pos rfl]⟩
  unfold scanBlock
  rw [bind_of_run (address_run card i w), found.kept]
  by_cases empty : address card flash i = 0xffff#16
  · rw [if_pos empty]
    exact add false
  by_cases bad : address card flash i = 0xffee#16 ∨ address card flash i = 0x0000#16
  · rw [if_neg empty, if_pos bad]
    exact ⟨w, rfl⟩
  by_cases dirty : address card flash i = 0xfcfc#16
  · rw [if_neg empty, if_neg bad, if_pos dirty]
    exact add true
  rw [if_neg empty, if_neg bad, if_neg dirty]
  simp only [← numberOf_eq]
  have used : usedAddress (address card flash i) :=
    ⟨empty, fun h => bad (.inl h), fun h => bad (.inr h), dirty⟩
  rw [bind_of_run (getL2P_run (fits used) w)]
  cases there : w.l2p (numberOf (address card flash i)) with
  | some kept =>
    obtain ⟨mem, used', number⟩ := found.mapped _ kept there
    exact absurd (single kept mem used' used number ▸ mem) new
  | none =>
    dsimp only
    rw [bind_of_run (setL2P_run (fits used) _ w)]
    exact ⟨_, rfl⟩

theorem Found.scans {flash : Flash} {been blocks : List Nat} (found : Found card flash been w)
    (memory : ∀ n, card.malloc n = true) (once : (been ++ blocks).Nodup)
    (single : ∀ i ∈ been ++ blocks, ∀ j ∈ been ++ blocks, usedAddress (address card flash i) →
      usedAddress (address card flash j) →
      numberOf (address card flash i) = numberOf (address card flash j) → i = j)
    (fits : ∀ i ∈ blocks, usedAddress (address card flash i) →
      numberOf (address card flash i) < l2pTableSize) :
    ∃ w', scanBlocks card 0 blocks w = some (.noErr, w') := by
  induction blocks generalizing been w with
  | nil => exact ⟨w, rfl⟩
  | cons i rest ih =>
    have here : i ∈ been ++ i :: rest := List.mem_append_right _ List.mem_cons_self
    have new : i ∉ been := fun mem =>
      (List.nodup_append.mp once).2.2 i mem i List.mem_cons_self rfl
    have alone : ∀ j ∈ been, usedAddress (address card flash j) →
        usedAddress (address card flash i) →
        numberOf (address card flash j) = numberOf (address card flash i) → j = i :=
      fun j mem used used' number =>
        single j (List.mem_append_left _ mem) i here used used' number
    obtain ⟨v, first⟩ := found.scan_round memory new alone (fits i List.mem_cons_self)
    have next := found.round alone new (scanBlock_round card first)
    have assoc : been ++ i :: rest = been ++ [i] ++ rest := by simp
    rw [assoc] at once single
    obtain ⟨w', scanned⟩ := ih next once single fun j mem => fits j (List.mem_cons_of_mem _ mem)
    exact ⟨w', by rw [scanBlocks_cons 0 first, scanned]⟩

theorem Formatted.scans {flash : Flash} (formatted : Formatted card flash)
    (memory : ∀ n, card.malloc n = true)
    (fits : ∀ i < card.eblock 0, usedAddress (address card flash i) →
      numberOf (address card flash i) < l2pTableSize) :
    ∃ w', fmiSML2PTableInit card 0 (powerUp flash) = some (.noErr, w') := by
  have range : ∀ {i : Nat}, i ∈ List.range' 0 (card.eblock 0) → i < card.eblock 0 := by
    intro i mem
    rw [List.mem_range'_1] at mem
    omega
  have clear : clearZones (powerUp flash) = some ((), scanStart flash) := rfl
  have start : Found card flash [] (scanStart flash) := found_start flash
  obtain ⟨w', scanned⟩ := start.scans memory
    (by simpa using List.nodup_range' ..)
    (fun i mem j mem' => formatted.single i (range mem) j (range mem'))
    fun i mem => fits i (range mem)
  unfold fmiSML2PTableInit
  rw [bind_of_run clear]
  simp only [Nat.zero_mul, Nat.sub_zero]
  rw [bind_of_run scanned]
  exact ⟨_, rfl⟩

/-- A used block is mapped under its number. -/
theorem Recorded.used (recorded : Recorded card w) {i : Nat} (small : i < card.eblock 0)
    (used : usedAddress (address card w.flash i)) :
    w.l2p (numberOf (address card w.flash i)) = some i := by
  rcases (recorded.placed i).mpr ⟨small, used.2.1, used.2.2.1⟩ with ⟨l, here⟩ | mem
  · obtain ⟨some, names⟩ := recorded.named l i here
    rw [address_first some, names.addressed, (blockAddr_used (recorded.small l i here)).2]
    exact here
  · obtain ⟨node, inside, rfl⟩ := List.mem_map.mp mem
    obtain ⟨some, addressed⟩ := recorded.listed node inside
    rw [address_first some, addressed] at used
    split at used
    · exact absurd rfl used.2.2.2
    · exact absurd rfl used.1

theorem Recorded.address_mapped (recorded : Recorded card w) {l p : Nat}
    (mapped : w.l2p l = some p) : p < card.eblock 0 ∧ usedAddress (address card w.flash p) ∧
      numberOf (address card w.flash p) = l := by
  obtain ⟨some, names⟩ := recorded.named l p mapped
  refine ⟨((recorded.placed p).mp (.inl ⟨l, mapped⟩)).1, ?_⟩
  rw [address_first some, names.addressed]
  exact blockAddr_used (recorded.small l p mapped)

theorem Recorded.formatted (recorded : Recorded card w) (keeps : Keeps card cells w) :
    Formatted card w.flash where
  single i small j small' used used' number := by
    have here := recorded.used small used
    rw [number, recorded.used small' used'] at here
    exact (Option.some.inj here).symm
  erased i small empty := by
    have intact : Intact card w.flash i := by
      rw [Intact, empty]
      decide
    rcases (recorded.placed i).mpr ⟨small, intact⟩ with ⟨l, here⟩ | mem
    · exact absurd empty (recorded.address_mapped here).2.1.1
    · obtain ⟨node, inside, rfl⟩ := List.mem_map.mp mem
      obtain ⟨some, addressed⟩ := recorded.listed node inside
      rw [address_first some, addressed] at empty
      refine keeps.clear node inside (Bool.eq_false_iff.mpr fun dirty => ?_)
      rw [dirty, if_pos rfl] at empty
      cases empty
  honest i small used := keeps.honest _ i (recorded.used small used)

/-- A call that the scan after the next power-up can do without: it deletes no block that the
counter does not, and marks no first page of a block that stays. -/
def Action.Lasts (card : Card) (w : World) (a : Action) : Prop :=
  match a with
  | .entry e => e.Safe card w
  | .delete pDiskSM pDiskSMP ptPDisk uSector uSecCount =>
    ptPDisk = pDiskSM ∧ ptPDisk = pDiskSMP →
      ∀ t ∈ deleteTurns card (requests card (uSector + card.uReservedBaseSector) uSecCount) w,
        ¬ Overcounts card t.2 t.1.block t.1.sector t.1.count ∧
          ¬ Unnames card t.2 t.1.block t.1.sector t.1.count

theorem Action.Lasts.safe {a : Action} (lasts : a.Lasts card w) : a.Safe card w := by
  cases a with
  | entry e => exact lasts
  | delete pDiskSM pDiskSMP ptPDisk uSector uSecCount =>
    exact fun handled t mem => (lasts handled t mem).1

theorem not_doubles (safe : ¬ Overcounts card w block sector secCount) :
    ¬ Doubles card w block secCount := by
  rintro ⟨whole, mapped, full⟩
  obtain ⟨p, here⟩ := Option.ne_none_iff_exists'.mp mapped
  exact safe ⟨p, here, by rwa [if_pos whole]⟩

theorem Recorded.action (recorded : Recorded card w) (keeps : Keeps card cells w)
    (sound : card.FaultFree) (memory : ∀ n, card.malloc n = true) {a : Action}
    (lasts : a.Lasts card w) (step : a.Succeeds card w w') : Recorded card w' := by
  cases a with
  | entry e =>
    cases e with
    | init => cases step
    | read uSector uBufcnt buff =>
      obtain ⟨some, within, data, run⟩ := step
      rw [fmiSMRead_run keeps.scanned some within] at run
      cases run
      exact recorded
    | write uSector uBufcnt buff =>
      obtain ⟨some, within, run⟩ := step
      have update : ∀ {v v' : World} {r : Request} {buff : Nat → Sector} {status : Status},
          (∃ cells, Keeps card cells v) ∧ Recorded card v → r.block < l2pTableSize → r.count ≠ 0 →
            r.sector + r.count ≤ card.uSectorPerBlock → ¬ Loses card v r.block r.sector r.count →
            updateBlock card 0 r.block r.sector r.count buff v = Option.some (status, v') →
            ((∃ cells, Keeps card cells v') ∧ Recorded card v') ∧ True := by
        rintro v v' r buff status ⟨⟨cells, held⟩, names⟩ small count fits harmless called
        exact ⟨⟨⟨_, held.update sound small count fits harmless called⟩,
          names.update held sound memory small count fits harmless called⟩, trivial⟩
      exact (@fmiSMWrite_relates card w w' buff (fun v => (∃ cells, Keeps card cells v) ∧
        Recorded card v) (fun _ _ => True) (fun v r => ¬ Loses card v r.block r.sector r.count)
        (fun _ => trivial) (fun _ _ => trivial) update uSector uBufcnt some within
        ⟨⟨cells, keeps⟩, recorded⟩ lasts _ run).1.2
  | delete pDiskSM pDiskSMP ptPDisk uSector uSecCount =>
    obtain ⟨some, within, run⟩ := step
    have mark : ∀ {v : World} {r : Request}, Partition v ∧ Recorded card v →
        r.block < l2pTableSize → 0 < r.count → r.sector + r.count ≤ card.uSectorPerBlock →
        ¬ Overcounts card v r.block r.sector r.count ∧ ¬ Unnames card v r.block r.sector r.count →
        ∃ status v', markBlockData card 0 r.block r.sector r.count v = Option.some (status, v') ∧
          Partition v' ∧ Recorded card v' := by
      rintro v r ⟨partition, names⟩ small count fits ⟨safe, named⟩
      obtain ⟨status, v', made, kept⟩ :=
        @Partition.mark card v r.block r.sector r.count partition sound memory small
          (not_doubles safe)
      exact ⟨status, v', made, kept.toPartition, names.mark partition sound memory small count fits
        (not_doubles safe) named made⟩
    exact (@fmiSMDelete_relates card w w' (fun v => Partition v ∧ Recorded card v)
      (fun v r => ¬ Overcounts card v r.block r.sector r.count ∧
        ¬ Unnames card v r.block r.sector r.count) mark pDiskSM pDiskSMP ptPDisk uSector uSecCount
      some within ⟨keeps.toConsistent.partition, recorded⟩ lasts run).2

/-- A call, or the end of one power cycle and the scan at the start of the next. -/
inductive Life
  | call (a : Action)
  | powerCycle

def Life.Lasts (card : Card) (w : World) (x : Life) : Prop :=
  match x with
  | .call a => a.Lasts card w
  | .powerCycle => True

def Life.leaves (card : Card) (cells : Cells) (x : Life) : Cells :=
  match x with
  | .call a => a.leaves card cells
  | .powerCycle => cells

/-- The first page of the block says that the block is to be erased. -/
theorem Marked.unnames (keeps : Keeps card cells w) (recorded : Recorded card w)
    (big : card.u2KPageSize = true) {p : Nat} (mapped : w.l2p block = some p)
    (zero : card.pageOf sector = 0)
    (whole : (pagesToMark card sector secCount)[0]? = some true)
    (pos : 0 < card.uPagePerBlock)
    (marked : Marked (p * card.uPagePerBlock + card.pageOf sector)
      (pagesToMark card sector secCount) (w.selected p) w') :
    address card w'.flash p = 0xfcfc#16 := by
  obtain ⟨some, names⟩ := recorded.named block p mapped
  have page : card.first w'.flash p = (card.first w.flash p).flagged := by
    rw [Card.first, marked.page, selected_flash, zero, Nat.add_zero, Nat.sub_self, if_pos]
    · rfl
    · exact ⟨Nat.le_refl _, whole⟩
  have flag : flagBytes (card.first w'.flash p).mark = 0xfcfc00#32 := by
    rw [page, Page.flagged_flag]
    rcases (keeps.honest block p mapped 0 pos).flag big with unused | used | gone
    · have unused : flagBytes (card.first w.flash p).mark = 0xffff00#32 := unused
      rw [unused]
      decide
    · have used : flagBytes (card.first w.flash p).mark = 0xfefe00#32 := used
      rw [used]
      decide
    · exact absurd gone names.flag
  have addr : (card.first w'.flash p).blockAddr = fmiSMGetBlockAddr block := by
    rw [page, Page.flagged, program_blockAddr, spare_blockAddr, names.addr]
    exact BitVec.and_allOnes
  have dirty : (card.first w'.flash p).blockAddr ≠ 0xffff#16 :=
    addr ▸ (blockAddr_used (recorded.small block p mapped)).1.1
  rw [address_first some, Page.addressed, if_pos ⟨dirty, .inl flag⟩]

theorem Recorded.unnamed (recorded : Recorded card w) (keeps : Keeps card cells w)
    (sound : card.FaultFree) (big : card.u2KPageSize = true) (small : block < l2pTableSize)
    (some : 0 < secCount) (fits : sector + secCount ≤ card.uSectorPerBlock)
    (safe : ¬ Overcounts card w block sector secCount)
    (unnames : Unnames card w block sector secCount) {status : Status}
    (memory : ∀ n, card.malloc n = true)
    (run : markBlockData card 0 block sector secCount w = Option.some (status, w')) :
    ∃ w'', fmiSML2PTableInit card 0 (powerUp w'.flash) = Option.some (.noErr, w'') ∧
      w''.smZone.isScan ∧ w''.l2p block = none ∧
        ∃ p, w'.l2p block = Option.some p ∧ p ∈ w''.free.map Node.block := by
  have pos : 0 < card.uPagePerBlock := by
    unfold Card.uSectorPerBlock at fits
    split at fits <;> omega
  obtain ⟨part, zero, whole, p, mapped, left⟩ := unnames
  obtain ⟨_, _, run', keeps', -⟩ := keeps.mark sound small some fits safe
  rw [run] at run'
  cases run'
  obtain ⟨w₁, marks, marked⟩ := markSectors_sound sound p sector secCount w
  have same : w₁ = w' := by
    have lookUp : ∀ f : Option Nat → Drive Status, (ensureScanned card 0 >>= fun _ =>
        getL2P 0 block >>= f) w = f (w.l2p block) w := by
      intro f
      rw [bind_of_run (ensureScanned_run keeps.scanned), bind_of_run (getL2P_run small w)]
    rw [markBlockData, lookUp, mapped] at run
    dsimp only at run
    rw [ite_run, if_neg part, bind_of_run marks] at run
    unfold mergeDeleted at run
    rw [if_neg fun full => left (marked.counted.2 ▸ full)] at run
    cases run
    rfl
  subst same
  have zone : w₁.smZone = w.smZone := marked.zone.trans (selected_smZone w p)
  have table : w₁.l2p = w.l2p := congrArg Zone.l2pTable zone
  have free : w₁.free = w.free := congrArg Zone.freeBlockList zone
  have gone := marked.unnames keeps recorded big mapped zero whole pos
  have away : ∀ i, i ≠ p → address card w₁.flash i = address card w.flash i := by
    intro i apart
    have pages := marked.first some fits i (.inl apart)
    rw [Card.first, Card.first, Nat.mul_comm] at pages
    exact address_congr pages
  have usedBefore : ∀ i, usedAddress (address card w₁.flash i) → i ≠ p ∧
      usedAddress (address card w.flash i) := by
    intro i used
    have apart : i ≠ p := fun eq => used.2.2.2 (eq ▸ gone)
    exact ⟨apart, away i apart ▸ used⟩
  have formatted : Formatted card w₁.flash := by
    refine ⟨fun i small j small' used used' number => ?_, fun i small empty => ?_,
      fun i small used => ?_⟩
    · obtain ⟨apart, before⟩ := usedBefore i used
      obtain ⟨apart', before'⟩ := usedBefore j used'
      rw [away i apart, away j apart'] at number
      exact (recorded.formatted keeps).single i small j small' before before' number
    · have apart : i ≠ p := by
        rintro rfl
        rw [gone] at empty
        cases empty
      rw [away i apart] at empty
      have intact : Intact card w.flash i := by
        rw [Intact, empty]
        decide
      rcases (recorded.placed i).mpr ⟨small, intact⟩ with ⟨l, here⟩ | mem
      · exact absurd empty (recorded.address_mapped here).2.1.1
      · obtain ⟨node, inside, rfl⟩ := List.mem_map.mp mem
        obtain ⟨some, addressed⟩ := recorded.listed node inside
        rw [address_first some, addressed] at empty
        refine keeps'.clear node (free ▸ inside) (Bool.eq_false_iff.mpr fun dirty => ?_)
        rw [dirty, if_pos rfl] at empty
        cases empty
    · obtain ⟨apart, before⟩ := usedBefore i used
      exact keeps'.honest _ i (table ▸ recorded.used small before)
  obtain ⟨w'', scan⟩ := formatted.scans memory fun i small used => by
    obtain ⟨apart, before⟩ := usedBefore i used
    rw [away i apart]
    exact recorded.small _ i (recorded.used small before)
  have found := formatted.found scan
  have unmapped : ∀ l, w''.l2p l ≠ Option.some p := fun l here =>
    (found.mapped l p here).2.1.2.2.2 gone
  refine ⟨w'', scan, (formatted.consistent scan).1.scanned, ?_, p, table ▸ mapped, ?_⟩
  · cases there : w''.l2p block with
    | none => rfl
    | some q =>
      obtain ⟨mem, used, number⟩ := found.mapped block q there
      obtain ⟨apart, before⟩ := usedBefore q used
      rw [List.mem_range'_1] at mem
      have old := recorded.used (by omega) before
      rw [← away q apart, number, mapped] at old
      exact absurd (Option.some.inj old).symm apart
  · have place : HasPlace w'' p := by
      refine (found.placed p).mpr ⟨?_, ?_⟩
      · have := (recorded.address_mapped mapped).1
        rw [List.mem_range'_1]
        omega
      · rw [Intact, gone]
        decide
    rcases place with ⟨l, here⟩ | mem
    · exact absurd here (unmapped l)
    · exact mem
end Rovio.Nand
