import Rovio.Nand.Conserved

/-! The first page of a block says which logical block it is for. What the driver has in memory of
a card whose operations do not fail can be read off these pages again, so that a power cycle between
two calls changes nothing. -/
namespace Rovio.Nand

open Kit

variable {card : Card} {cells : Cells} {flash : Flash} {w w' : World}
  {block fb sector secCount : Nat} {old : Option Nat} {buff : Nat → Sector} {b : Build}
  {ops : List Op}

/-! ### Addresses -/

theorem blockAddr_used {l : Nat} (small : l < l2pTableSize) :
    usedAddress (fmiSMGetBlockAddr l) ∧ numberOf (fmiSMGetBlockAddr l) = l := by
  have all : ∀ l < l2pTableSize, (fmiSMGetBlockAddr l ≠ 0xffff#16 ∧
      fmiSMGetBlockAddr l ≠ 0xffee#16 ∧ fmiSMGetBlockAddr l ≠ 0x0000#16 ∧
      fmiSMGetBlockAddr l ≠ 0xfcfc#16) ∧ numberOf (fmiSMGetBlockAddr l) = l := by
    decide +kernel
  exact all l small

/-- What `get_block_address` makes of the first page. -/
def Page.addressed (page : Page) : BitVec 16 :=
  if page.blockAddr ≠ 0xffff#16 ∧ (flagBytes page.mark = 0xfcfc00#32 ∨
      page.mark &&& 0xc0000000#32 = 0x40000000#32 ∨
      page.mark &&& 0xc0000000#32 = 0x80000000#32) then
    0xfcfc#16
  else page.blockAddr

theorem address_page {i : Nat} (some : i ≠ 0) :
    address card flash i = (flash (card.uPagePerBlock * i)).addressed := by
  unfold address spareOf getBlockAddress
  simp only [some, if_false, bind_run, readPage, powerUp]
  rfl

/-- The page names the logical block, and no byte of it says that the block is to be erased. -/
structure Page.Names (page : Page) (l : Nat) : Prop where
  addr : page.blockAddr = fmiSMGetBlockAddr l
  flag : flagBytes page.mark ≠ 0xfcfc00#32
  low : page.mark &&& 0xc0000000#32 ≠ 0x40000000#32
  high : page.mark &&& 0xc0000000#32 ≠ 0x80000000#32

theorem Page.Names.addressed {page : Page} {l : Nat} (names : page.Names l) :
    page.addressed = fmiSMGetBlockAddr l := by
  rw [Page.addressed, if_neg, names.addr]
  rintro ⟨-, flag | low | high⟩
  · exact names.flag flag
  · exact names.low low
  · exact names.high high

theorem Page.unaddressed {page : Page} (here : page.addressed = 0xffff#16) :
    page.blockAddr = 0xffff#16 := by
  unfold Page.addressed at here
  split at here
  · cases here
  · exact here

/-! ### What the plans put into the first page -/

def Op.blockAddr : Op → BitVec 16
  | .page _ content => content.blockAddr
  | .spare _ _ blockAddr => blockAddr
  | .erase _ => 0xffff#16

/-- The logical address, or nothing. -/
def Names (addr : BitVec 16) (op : Op) : Prop := op.blockAddr = addr ∨ op.blockAddr = 0xffff#16

theorem contents_op {n : Nat} {c : Page} (mem : c ∈ contents n ops) :
    ∃ op ∈ ops, c.blockAddr = op.blockAddr := by
  obtain ⟨op, inside, content⟩ := List.mem_filterMap.mp mem
  refine ⟨op, inside, ?_⟩
  cases op with
  | page m page =>
    rw [Op.content] at content
    split at content
    · cases content
      rfl
    · cases content
  | spare m mark blockAddr =>
    rw [Op.content] at content
    split at content
    · rw [← Option.some.inj content]
      exact spare_blockAddr mark blockAddr
    · cases content
  | erase b => cases content

section
variable {addr : BitVec 16} {raMark set mark : BitVec 32}

theorem updateContent_addr {spage : Option Nat} {column count : Nat} :
    (updateContent flash addr raMark spage column count buff).blockAddr = addr := by
  unfold updateContent
  split
  · rfl
  · rfl

theorem updateOps_addr {runs : List (Nat × Nat)} {spage : Option Nat} {dpage : Nat} {op : Op}
    (mem : op ∈ updateOps flash addr raMark spage dpage runs buff) : op.blockAddr = addr := by
  induction runs generalizing spage dpage buff with
  | nil => cases mem
  | cons run rest ih =>
    rcases List.mem_cons.mp mem with rfl | later
    · rw [updateOp_content]
      exact updateContent_addr
    · exact ih later

theorem moveOps_addr {s d count : Nat} {op : Op}
    (mem : op ∈ moveOps flash addr raMark set s d count) : op.blockAddr = addr := by
  induction count generalizing s d with
  | zero => cases mem
  | succ count ih =>
    rw [moveOps] at mem
    split at mem
    · rcases List.mem_cons.mp mem with rfl | later
      · rfl
      · exact ih later
    · exact ih mem

theorem programs512_addr {page count : Nat} {op : Op}
    (mem : op ∈ programs512 addr page count buff mark) : op.blockAddr = addr := by
  obtain ⟨i, small, rfl⟩ := mem_programs512 mem
  rfl

theorem pageZero_addr {d : Nat} {op : Op} (mem : op ∈ pageZero card addr d mark sector) :
    op.blockAddr = addr := by
  unfold pageZero at mem
  split at mem
  · rw [List.mem_singleton.mp mem]
    rfl
  · cases mem

theorem pages2K_addr {d : Nat} {op : Op} (mem : op ∈ pages2K card block mark d buff) :
    op.blockAddr = fmiSMGetBlockAddr block := by
  obtain ⟨i, -, rfl⟩ := List.mem_map.mp mem
  rfl

theorem framed_addr {d : Nat} {steps : List (Step Op)}
    (within : ∀ op ∈ steps.map Step.op, op.blockAddr = addr) {op : Op}
    (mem : op ∈ (framed d steps).map Step.op) : Names addr op := by
  simp only [framed, List.map_append, map_op_may, List.mem_append, List.mem_singleton] at mem
  rcases mem with rfl | inner | rfl
  · exact .inr rfl
  · exact .inl (within op inner)
  · exact .inr rfl

end

theorem Planned.names (planned : Planned card flash block fb old sector secCount buff (.build b))
    {op : Op} (mem : op ∈ b.steps.map Step.op) : Names (fmiSMGetBlockAddr block) op := by
  cases planned with
  | full512 size =>
    refine framed_addr (fun op inner => ?_) mem
    rw [map_op_must] at inner
    exact programs512_addr inner
  | new512 size =>
    refine framed_addr (fun op inner => ?_) mem
    rw [List.map_append, map_op_must, map_op_may, List.mem_append] at inner
    exact inner.elim programs512_addr pageZero_addr
  | move512 size =>
    refine framed_addr (fun op inner => ?_) mem
    rw [List.map_append, map_op_must, map_op_may, List.mem_append] at inner
    exact inner.elim programs512_addr pageZero_addr
  | full2K size =>
    refine framed_addr (fun op inner => ?_) mem
    rw [map_op_must] at inner
    exact pages2K_addr inner
  | new2K size =>
    refine framed_addr (fun op inner => ?_) mem
    rw [List.map_append, map_op_must, map_op_may, List.mem_append] at inner
    exact inner.elim pageZero_addr updateOps_addr
  | move2K size =>
    refine framed_addr (fun op inner => ?_) mem
    simp only [List.map_append, map_op_must, map_op_may, List.mem_append] at inner
    rcases inner with front | zero | written | back
    · exact moveOps_addr front
    · exact pageZero_addr zero
    · exact updateOps_addr written
    · exact moveOps_addr back

/-- An operation of the script puts the address into the first page. -/
def Signs (card : Card) (addr : BitVec 16) (fb : Nat) (steps : List (Step Op)) : Prop :=
  ∃ c ∈ contents (fb * card.uPagePerBlock) (steps.map Step.op), c.blockAddr = addr

theorem Signs.framed {addr : BitVec 16} {steps : List (Step Op)}
    (signs : Signs card addr fb steps) :
    Signs card addr fb (framed (fb * card.uPagePerBlock) steps) := by
  obtain ⟨c, mem, here⟩ := signs
  refine ⟨c, ?_, here⟩
  simp only [Nand.framed, List.map_append, contents_append, List.mem_append]
  exact .inr (.inl mem)

theorem pageZero_signs {addr : BitVec 16} {mark : BitVec 32} {d : Nat} (later : sector ≠ 0) :
    ∃ c ∈ contents d (pageZero card addr d mark sector), c.blockAddr = addr := by
  rw [pageZero, if_pos later, contents_spare, if_pos rfl]
  exact ⟨_, List.mem_singleton_self _, rfl⟩

theorem programs512_signs {addr : BitVec 16} {mark : BitVec 32} {d count : Nat} (some : 0 < count) :
    ∃ c ∈ contents d (programs512 addr d count buff mark), c.blockAddr = addr := by
  rw [contents_programs512, if_pos (by omega)]
  exact ⟨_, List.mem_singleton_self _, rfl⟩

theorem updateOps_signs {addr : BitVec 16} {raMark : BitVec 32} {spage : Option Nat} {d : Nat}
    (some : secCount ≠ 0) : ∃ c ∈ contents d (updateOps flash addr raMark spage d
      (pageRuns (sector % 4) secCount) buff), c.blockAddr = addr := by
  have rounds := @rounds_of sector _ some
  have length := rounds.length
  rw [rounds.contents, if_pos (by omega)]
  exact ⟨_, List.mem_singleton_self _, updateContent_addr⟩

theorem Planned.signs (planned : Planned card flash block fb old sector secCount buff (.build b))
    (some : secCount ≠ 0) (fits : sector + secCount ≤ card.uSectorPerBlock) :
    Signs card (fmiSMGetBlockAddr block) fb b.steps := by
  have pos : 0 < card.uPagePerBlock := by
    unfold Card.uSectorPerBlock at fits
    split at fits <;> omega
  cases planned with
  | full512 size =>
    refine Signs.framed ?_
    rw [Signs, map_op_must]
    exact programs512_signs (Nat.pos_of_ne_zero some)
  | new512 size =>
    refine Signs.framed ?_
    rw [Signs, List.map_append, map_op_must, map_op_may, contents_append]
    by_cases first : sector = 0
    · subst first
      obtain ⟨c, mem, here⟩ := @programs512_signs buff (fmiSMGetBlockAddr block) 0xc0fefeff#32
        (fb * card.uPagePerBlock) _ (Nat.pos_of_ne_zero some)
      exact ⟨c, List.mem_append_left _ mem, here⟩
    · obtain ⟨c, mem, here⟩ := pageZero_signs first
      exact ⟨c, List.mem_append_right _ mem, here⟩
  | move512 size =>
    refine Signs.framed ?_
    rw [Signs, List.map_append, map_op_must, map_op_may, contents_append]
    obtain ⟨c, mem, here⟩ := programs512_signs pos
    exact ⟨c, List.mem_append_left _ mem, here⟩
  | full2K size =>
    refine Signs.framed ?_
    rw [Signs, map_op_must, contents_pages2K, if_pos (by omega)]
    exact ⟨_, List.mem_singleton_self _, rfl⟩
  | new2K size =>
    refine Signs.framed ?_
    rw [Signs, List.map_append, map_op_must, map_op_may, contents_append]
    by_cases first : sector / 4 = 0
    · rw [first, Nat.add_zero]
      obtain ⟨c, mem, here⟩ := updateOps_signs some
      exact ⟨c, List.mem_append_right _ mem, here⟩
    · obtain ⟨c, mem, here⟩ := pageZero_signs first
      exact ⟨c, List.mem_append_left _ mem, here⟩
  | move2K size =>
    refine Signs.framed ?_
    simp only [Signs, List.map_append, map_op_must, map_op_may, contents_append]
    by_cases first : sector / 4 = 0
    · obtain ⟨c, mem, here⟩ := @updateOps_signs flash sector secCount buff (fmiSMGetBlockAddr block)
        _ _ (fb * card.uPagePerBlock) some
      refine ⟨c, List.mem_append_right _ (List.mem_append_right _ (List.mem_append_left _ ?_)),
        here⟩
      rw [first, Nat.add_zero, Nat.add_zero]
      exact mem
    · obtain ⟨c, mem, here⟩ := pageZero_signs first
      exact ⟨c, List.mem_append_right _ (List.mem_append_left _ mem), here⟩

/-! ### The first page of a new block -/

/-- The bits of the mark that tell a written block. -/
def top (page : Page) : BitVec 32 := page.mark &&& 0xc0000000#32

theorem foldl_addr {addr : BitVec 16} {ps : List Page} {page : Page}
    (names : ∀ c ∈ ps, c.blockAddr = addr ∨ c.blockAddr = 0xffff#16)
    (first : page.blockAddr = addr ∨ page.blockAddr = 0xffff#16)
    (signs : page.blockAddr = addr ∨ ∃ c ∈ ps, c.blockAddr = addr) :
    (ps.foldl Page.program page).blockAddr = addr := by
  have ones : ∀ x : BitVec 16, x &&& 0xffff#16 = x := fun x => BitVec.and_allOnes
  have ones' : ∀ x : BitVec 16, 0xffff#16 &&& x = x := fun x => BitVec.allOnes_and
  induction ps generalizing page with
  | nil => simpa using signs
  | cons c ps ih =>
    have here := names c List.mem_cons_self
    refine ih (fun d mem => names d (List.mem_cons_of_mem c mem)) ?_ ?_
    · rw [program_blockAddr]
      rcases first with old | old
      · rcases here with new | new
        · rw [old, new, BitVec.and_self]
          exact .inl rfl
        · rw [old, new, ones]
          exact .inl rfl
      · rw [old, ones']
        exact here
    · rw [program_blockAddr]
      rcases signs with old | ⟨d, mem, new⟩
      · rcases here with new | new
        · rw [old, new, BitVec.and_self]
          exact .inl rfl
        · rw [old, new, ones]
          exact .inl rfl
      · rcases List.mem_cons.mp mem with rfl | later
        · rcases first with old | old
          · rw [old, new, BitVec.and_self]
            exact .inl rfl
          · rw [old, new, ones']
            exact .inl rfl
        · exact .inr ⟨d, later, new⟩

/-- The second status byte clears both bits. -/
theorem framed_top (d : Nat) (steps : List (Step Op)) (page : Page) :
    top ((contents d ((framed d steps).map Step.op)).foldl Page.program page) = 0#32 := by
  have cleared : ∀ x : BitVec 32, x &&& (0x3f#8 ++ 0xffffff#24) &&& 0xc0000000#32 = 0#32 := by
    intro x
    rw [BitVec.and_assoc]
    exact BitVec.and_zero
  simp only [framed, List.map_append, map_op_may, contents_append, contents_spare, if_pos,
    List.foldl_append, List.foldl_cons, List.foldl_nil, top, program_mark, spare_mark]
  exact cleared _

theorem Planned.framed (planned : Planned card flash block fb old sector secCount buff (.build b)) :
    ∃ steps, b.steps = Nand.framed (fb * card.uPagePerBlock) steps := by
  cases planned with
  | full512 size => exact ⟨_, rfl⟩
  | new512 size => exact ⟨_, rfl⟩
  | move512 size => exact ⟨_, rfl⟩
  | full2K size => exact ⟨_, rfl⟩
  | new2K size => exact ⟨_, rfl⟩
  | move2K size => exact ⟨_, rfl⟩

/-- A build makes the first page name the block. -/
theorem Planned.built_names
    (planned : Planned card flash block fb old sector secCount buff (.build b))
    (fresh : Fresh card fb b) (some : secCount ≠ 0)
    (fits : sector + secCount ≤ card.uSectorPerBlock) {page : Page} (clear : page.Clear card)
    (blank : page.blockAddr = 0xffff#16) :
    ((contents (fb * card.uPagePerBlock) (b.steps.map Step.op)).foldl Page.program page).Names
      block := by
  have pos : 0 < card.uPagePerBlock := by
    unfold Card.uSectorPerBlock at fits
    split at fits <;> omega
  obtain ⟨content, takes, used⟩ := fresh 0 pos
  obtain ⟨steps, frame⟩ := planned.framed
  have zero : top ((contents (fb * card.uPagePerBlock) (b.steps.map Step.op)).foldl Page.program
      page) = 0#32 := frame ▸ framed_top _ steps page
  refine ⟨foldl_addr (fun c mem => ?_) (.inr blank) (.inr (planned.signs some fits)),
    (takes.live clear used).live, fun low => ?_, fun high => ?_⟩
  · obtain ⟨op, inside, same⟩ := contents_op mem
    rw [same]
    exact planned.names inside
  · exact absurd (zero.symm.trans low) (by decide)
  · exact absurd (zero.symm.trans high) (by decide)

/-! ### The first page of a block that is filled -/

theorem foldl_top {ps : List Page} {page : Page} (kept : ∀ c ∈ ps, top c = 0xc0000000#32) :
    top (ps.foldl Page.program page) = top page := by
  induction ps generalizing page with
  | nil => rfl
  | cons c ps ih =>
    rw [List.foldl_cons, ih fun d mem => kept d (List.mem_cons_of_mem c mem)]
    have here := kept c List.mem_cons_self
    unfold top at here ⊢
    rw [program_mark, BitVec.and_assoc, here]

theorem top_or {x y : BitVec 32} (set : y &&& 0xc0000000#32 = 0xc0000000#32) :
    (x ||| y) &&& 0xc0000000#32 = 0xc0000000#32 := by
  apply BitVec.eq_of_getLsbD_eq
  intro i _
  have same := congrArg (fun z => z.getLsbD i) set
  simp only [BitVec.getLsbD_and] at same
  rw [BitVec.getLsbD_and, BitVec.getLsbD_or]
  cases bit : (0xc0000000#32).getLsbD i with
  | false => simp
  | true =>
    rw [bit, Bool.and_true] at same
    rw [same, Bool.or_true, Bool.and_true]

theorem partMark_top {reg raMark : BitVec 32} {column count : Nat} (inside : column + count ≤ 4)
    (set : reg &&& 0xc0000000#32 = 0xc0000000#32) :
    partMark reg raMark column count &&& 0xc0000000#32 = 0xc0000000#32 := by
  rw [partMark, BitVec.or_comm]
  refine top_or (BitVec.eq_of_getLsbD_eq fun i small => ?_)
  cases bit : (0xc0000000#32).getLsbD i with
  | false => rw [BitVec.getLsbD_and, bit, Bool.and_false]
  | true =>
    have here : i = 30 ∨ i = 31 := by
      revert bit
      revert i
      decide
    have set' : reg.getLsbD i = true := by
      have same := congrArg (fun x => x.getLsbD i) set
      simpa [bit] using same
    have away : (columnBits column count).getLsbD (i - 24) = false := by
      rw [columnBits_bit inside]
      exact decide_eq_false (by omega)
    have masks : (0xcfffffff#32).getLsbD i = true := by
      rcases here with rfl | rfl
      · rfl
      · rfl
    have word : ¬ i < 24 ∧ i - 24 < 32 := by omega
    simp only [BitVec.getLsbD_and, BitVec.getLsbD_or, BitVec.getLsbD_shiftLeft, BitVec.getLsbD_not,
      bit, set', away, masks]
    simp [word, small]

theorem updateContent_top {addr : BitVec 16} {raMark : BitVec 32} {column count : Nat}
    (inside : column + count ≤ 4) :
    top (updateContent flash addr raMark none column count buff) = 0xc0000000#32 := by
  unfold updateContent top
  split
  · exact top_or (by decide)
  · exact partMark_top inside (show 0xfffefeff#32 &&& 0xc0000000#32 = 0xc0000000#32 by decide)

theorem roundContent_top {addr : BitVec 16} {raMark : BitVec 32} {r count j : Nat} (front : r < 4) :
    top (roundContent flash addr raMark none r count buff j) = 0xc0000000#32 := by
  refine updateContent_top ?_
  split <;> omega

theorem Planned.tops (planned : Planned card flash block fb old sector secCount buff (.fill ops))
    (some : secCount ≠ 0) {n : Nat} {c : Page} (mem : c ∈ contents n ops) :
    c.blockAddr = fmiSMGetBlockAddr block ∧ top c = 0xc0000000#32 := by
  cases planned with
  | fill512 size free =>
    rw [Nand.fill512, contents_programs512] at mem
    split at mem
    · rw [List.mem_singleton.mp mem]
      exact ⟨rfl, top_or rfl⟩
    · cases mem
  | fill2K size free =>
    have rounds := @rounds_of sector _ some
    rw [Nand.fill2K, rounds.contents] at mem
    split at mem
    · rw [List.mem_singleton.mp mem]
      exact ⟨updateContent_addr, roundContent_top (Nat.mod_lt _ (by decide))⟩
    · cases mem

theorem Planned.filled_names {p : Nat}
    (planned : Planned card flash block fb old sector secCount buff (.fill ops))
    (topped : Topped card flash p ops) (some : secCount ≠ 0) (pos : 0 < card.uPagePerBlock)
    (names : (flash (p * card.uPagePerBlock)).Names block) :
    ((contents (p * card.uPagePerBlock) ops).foldl Page.program
      (flash (p * card.uPagePerBlock))).Names block := by
  rcases topped 0 pos with nothing | used
  · have nothing : contents (p * card.uPagePerBlock) ops = [] := nothing
    rw [nothing]
    exact names
  · have used : flagBytes ((contents (p * card.uPagePerBlock) ops).foldl Page.program
        (flash (p * card.uPagePerBlock))).mark = 0xfefe00#32 := used.used
    have same := @foldl_top _ (flash (p * card.uPagePerBlock)) fun c mem =>
      (planned.tops some (n := p * card.uPagePerBlock) mem).2
    refine ⟨foldl_addr (fun c mem => .inl (planned.tops some mem).1) (.inl names.addr)
      (.inl names.addr), ?_, fun low => ?_, fun high => ?_⟩
    · rw [used]
      decide
    · exact names.low (same.symm.trans low)
    · exact names.high (same.symm.trans high)

end Rovio.Nand
