import Rovio.Kit.Bytes

/-! Checking that the indexes of the frames of a stream follow one another. -/
namespace Rovio.VideoPhone

/-! ### Searching a token -/

/-- The result of a search, and whether it has examined a byte behind the data. -/
structure TokenFound where
  pos : Option Nat
  beyond : Bool
  deriving DecidableEq

/-- The loop over the token at a place of the buffer. -/
def compareAt (buf : Nat → UInt8) (buflen : Int) : Nat → List UInt8 → Bool × Bool
  | _, [] => (true, false)
  | i, c :: token =>
    let out := decide (buflen ≤ i)
    if buf i ≠ c then (false, out)
    else
      let (same, later) := compareAt buf buflen (i + 1) token
      (same, out || later)

def findFrom (buf : Nat → UInt8) (buflen : Int) (token : List UInt8) : Nat → Nat → TokenFound
  | 0, _ => ⟨none, false⟩
  | rounds + 1, i =>
    let (same, out) := compareAt buf buflen i token
    if same then ⟨some i, out⟩
    else
      let r := findFrom buf buflen token rounds (i + 1)
      ⟨r.pos, out || r.beyond⟩

def find_token (buf : Nat → UInt8) (buflen : Int) (token : List UInt8) : TokenFound :=
  if buflen ≤ 0 ∨ token.length ≤ 0 ∨ buflen < token.length then ⟨none, false⟩
  else findFrom buf buflen token buflen.toNat 0

/-- "=======[" -/
def MP4ADDATIONBEGIN : List UInt8 := [61, 61, 61, 61, 61, 61, 61, 91]

/-- "=======]" -/
def MP4ADDATIONEND : List UInt8 := [61, 61, 61, 61, 61, 61, 61, 93]

/-- The buffer from a place on. -/
def shift (buf : Nat → UInt8) (n : Nat) : Nat → UInt8 := fun i => buf (n + i)

theorem compareAt_bound {buf : Nat → UInt8} {buflen : Int} {token : List UInt8} {rounds i n : Nat}
    (found : (findFrom buf buflen token rounds i).pos = some n) : n < i + rounds := by
  induction rounds generalizing i with
  | zero => cases found
  | succ rounds ih =>
    unfold findFrom at found
    split at found
    dsimp only at found
    split at found
    · cases found
      omega
    · have bound := ih found
      omega

/-- What is found begins before the end. -/
theorem find_token_some {buf : Nat → UInt8} {buflen : Int} {token : List UInt8} {n : Nat}
    (found : (find_token buf buflen token).pos = some n) :
    (token.length : Int) ≤ buflen ∧ (n : Int) < buflen := by
  unfold find_token at found
  split at found
  · cases found
  · have bound := compareAt_bound found
    omega

/-! ### The checker -/

/-- `MP4_CHECK_INDEX_LEVEL` -/
inductive IndexLevel where
  | level1 | level2
  deriving DecidableEq

/-- `MP4_CHECK_INDEX`, and what has been seen: the indexes taken, the indexes printed, and whether
a byte behind the data has been examined. -/
structure IndexChecker where
  pcmp4buf : Nat → UInt8
  imp4buflen : Int
  imp4bufdatalen : Int
  bcontinuecheck : Bool
  checklevel : IndexLevel
  lastmp4index : Int
  lastmp4indexprintcount : Int
  lastmp4indexprint : Bool
  indexes : List Int
  printed : List Int
  beyond : Bool

/-- `memmove` of the data from a place on to the start of the buffer. A negative length is a huge
one, and so goes behind the data. -/
def IndexChecker.keepFrom (c : IndexChecker) (start : Nat) (framebuflen : Int) : IndexChecker :=
  { c with
    pcmp4buf := fun i => if (i : Int) < framebuflen then c.pcmp4buf (start + i) else c.pcmp4buf i
    imp4bufdatalen := framebuflen
    beyond := c.beyond || decide (framebuflen < 0) }

/-- The loop over the end tokens when there is no start token. -/
def lostEnds (framebuf : Nat → UInt8) (checkfrom : Nat) (framebuflen : Int) (beyond : Bool) :
    Nat × Int × Bool :=
  let pend := find_token (shift framebuf checkfrom) framebuflen MP4ADDATIONEND
  match _h : pend.pos with
  | none => (checkfrom, framebuflen, beyond || pend.beyond)
  | some i =>
    lostEnds framebuf (checkfrom + i + 8) (framebuflen - (checkfrom + i + 8 : Nat))
      (beyond || pend.beyond)
termination_by framebuflen.toNat
decreasing_by
  have enough : (8 : Int) ≤ framebuflen := (find_token_some _h).1
  omega

/-- The place after the last end token and the number of them after the start token. -/
structure Ends where
  checkfrom : Nat
  endcount : Nat
  beyond : Bool

/-- The end token that ends at a place, if it is after the start token, counts. -/
def countEnd (pbegin endcount after : Nat) : Nat :=
  if after < pbegin then endcount else endcount + 1

/-- The loop over the end tokens before `checkdatalen`. -/
def frameEnds (framebuf : Nat → UInt8) (pbegin : Nat) (checkdatalen : Int) (e : Ends) : Ends :=
  let pend := find_token (shift framebuf e.checkfrom) (checkdatalen - e.checkfrom) MP4ADDATIONEND
  match h : pend.pos with
  | none => { e with beyond := e.beyond || pend.beyond }
  | some i =>
    let after := e.checkfrom + i + 8
    frameEnds framebuf pbegin checkdatalen
      ⟨after, countEnd pbegin e.endcount after, e.beyond || pend.beyond⟩
termination_by (checkdatalen - e.checkfrom).toNat
decreasing_by
  have enough : (8 : Int) ≤ checkdatalen - e.checkfrom := (find_token_some h).1
  omega

theorem frameEnds_grows (framebuf : Nat → UInt8) (pbegin : Nat) (checkdatalen : Int) (e : Ends) :
    let r := frameEnds framebuf pbegin checkdatalen e
    e.checkfrom ≤ r.checkfrom ∧ (r.endcount = e.endcount ∨ e.checkfrom < r.checkfrom) := by
  fun_induction frameEnds framebuf pbegin checkdatalen e with
  | case1 e pend none => exact ⟨Nat.le_refl _, .inl rfl⟩
  | case2 e pend i found after ih =>
    have grows := ih.1
    dsimp only at grows ⊢
    exact ⟨by omega, .inr (by omega)⟩

/-- `memcpy (&index, ..)` of four bytes. -/
def indexAt (framebuf : Nat → UInt8) (i : Nat) : Int :=
  (Kit.leWord (framebuf i) (framebuf (i + 1)) (framebuf (i + 2)) (framebuf (i + 3))).toInt

/-- The index of a frame against the one before it. -/
def IndexChecker.take (c : IndexChecker) (index : Int) : IndexChecker :=
  let c :=
    if c.lastmp4index + 1 ≠ index then
      { c with lastmp4indexprint := true, lastmp4indexprintcount := 0 }
    else c
  let c :=
    if c.lastmp4indexprint = true ∧ c.lastmp4indexprintcount < 10 then
      { c with
        printed := c.printed ++ [index]
        lastmp4indexprintcount := c.lastmp4indexprintcount + 1 }
    else c
  let c :=
    if c.lastmp4indexprint = true ∧ c.lastmp4indexprintcount = 10 then
      { c with lastmp4indexprint := false, lastmp4indexprintcount := 0 }
    else c
  { c with lastmp4index := index, indexes := c.indexes ++ [index] }

/-- A search in the data, noted. -/
def IndexChecker.searched (c : IndexChecker) (r : TokenFound) : IndexChecker :=
  { c with beyond := c.beyond || r.beyond }

/-- No start token has been found. -/
def IndexChecker.noStart (c : IndexChecker) : IndexChecker :=
  if c.checklevel = .level2 then
    if c.bcontinuecheck = false then { c with imp4bufdatalen := 0 } else c
  else
    let (checkfrom, framebuflen, beyond) := lostEnds c.pcmp4buf 0 c.imp4bufdatalen c.beyond
    let c := { c with beyond }
    if c.bcontinuecheck then c.keepFrom checkfrom framebuflen
    else { c with imp4bufdatalen := 0 }

/-- The end tokens of the frame whose start token ends at `pbegin`. -/
def IndexChecker.ends (c : IndexChecker) (pbegin : Nat) (next : TokenFound) : Ends :=
  let checkdatalen : Int := match next.pos with
    | some n => (pbegin + n : Nat)
    | none => c.imp4bufdatalen
  frameEnds c.pcmp4buf pbegin checkdatalen ⟨0, 0, c.beyond⟩

/-- No end token has been found: whether the loop goes on. -/
def IndexChecker.noEnd (c : IndexChecker) (pbegin : Nat) (next : TokenFound) :
    Bool × IndexChecker :=
  if c.bcontinuecheck then
    match next.pos with
    | some n => (true, c.keepFrom (pbegin + n) (c.imp4bufdatalen - (pbegin + n : Nat)))
    | none => (false, c)
  else (true, { c with imp4bufdatalen := 0 })

/-- The frame that ends before `checkfrom`. -/
def IndexChecker.frame (c : IndexChecker) (pbegin checkfrom : Nat) : IndexChecker :=
  let index := indexAt c.pcmp4buf (pbegin + 4)
  let c := { c with beyond := c.beyond || decide (c.imp4bufdatalen < (pbegin + 8 : Nat)) }
  let c :=
    if c.bcontinuecheck then c.keepFrom checkfrom (c.imp4bufdatalen - checkfrom)
    else { c with imp4bufdatalen := 0 }
  c.take index

/-- The start token that ends at `pbegin` has been found. -/
def IndexChecker.started (c : IndexChecker) (pbegin : Nat) : Bool × IndexChecker :=
  let next := find_token (shift c.pcmp4buf pbegin) (c.imp4bufdatalen - pbegin) MP4ADDATIONBEGIN
  let c := c.searched next
  let ends := c.ends pbegin next
  let c := { c with beyond := ends.beyond }
  if ends.endcount = 0 then c.noEnd pbegin next
  else (true, c.frame pbegin ends.checkfrom)

/-- A round of the loop of `mp4_check_index`, with `imp4bufdatalen` as `framebuflen`; whether the
loop goes on. -/
def IndexChecker.round (c : IndexChecker) : Bool × IndexChecker :=
  let start := find_token c.pcmp4buf c.imp4bufdatalen MP4ADDATIONBEGIN
  let c := c.searched start
  match start.pos with
  | none => (false, c.noStart)
  | some i => c.started (i + 8)

theorem take_length (c : IndexChecker) (index : Int) :
    (c.take index).imp4bufdatalen = c.imp4bufdatalen := by
  unfold IndexChecker.take
  dsimp only
  split <;> split <;> split <;> rfl

theorem ends_positive {c : IndexChecker} {pbegin : Nat} {next : TokenFound}
    (counted : ¬ (c.ends pbegin next).endcount = 0) : 0 < (c.ends pbegin next).checkfrom := by
  obtain ⟨-, none | grown⟩ := frameEnds_grows c.pcmp4buf pbegin
    (match next.pos with | some n => (pbegin + n : Nat) | none => c.imp4bufdatalen) ⟨0, 0, c.beyond⟩
  · exact absurd none counted
  · exact grown

section Rounds
variable {c : IndexChecker} {pbegin checkfrom : Nat} {next : TokenFound}

theorem noEnd_shorter (left : 0 < c.imp4bufdatalen) (after : 0 < pbegin)
    (more : (c.noEnd pbegin next).1 = true) :
    (c.noEnd pbegin next).2.imp4bufdatalen < c.imp4bufdatalen := by
  unfold IndexChecker.noEnd at more ⊢
  by_cases continued : c.bcontinuecheck = true
  · rw [if_pos continued] at more ⊢
    cases last : next.pos with
    | none =>
      rw [last] at more
      cases more
    | some n =>
      change c.imp4bufdatalen - (pbegin + n : Nat) < c.imp4bufdatalen
      omega
  · rw [if_neg continued]
    exact left

theorem frame_shorter (left : 0 < c.imp4bufdatalen) (after : 0 < checkfrom) :
    (c.frame pbegin checkfrom).imp4bufdatalen < c.imp4bufdatalen := by
  unfold IndexChecker.frame
  dsimp only
  rw [take_length]
  split
  · change c.imp4bufdatalen - checkfrom < c.imp4bufdatalen
    omega
  · exact left

theorem started_shorter (left : 0 < c.imp4bufdatalen) (after : 0 < pbegin)
    (more : (c.started pbegin).1 = true) :
    (c.started pbegin).2.imp4bufdatalen < c.imp4bufdatalen := by
  unfold IndexChecker.started at more ⊢
  dsimp only at more ⊢
  split
  · rename_i none
    rw [if_pos none] at more
    exact noEnd_shorter left after more
  · rename_i counted
    exact frame_shorter left (ends_positive counted)

/-- A round takes some of the data. -/
theorem round_shorter (left : 0 < c.imp4bufdatalen) (more : c.round.1 = true) :
    c.round.2.imp4bufdatalen < c.imp4bufdatalen := by
  unfold IndexChecker.round at more ⊢
  cases found : (find_token c.pcmp4buf c.imp4bufdatalen MP4ADDATIONBEGIN).pos with
  | none =>
    simp only [found] at more
    cases more
  | some i =>
    simp only [found] at more ⊢
    exact @started_shorter (c.searched _) (i + 8) left (Nat.succ_pos _) more

end Rounds

/-- The loop of `mp4_check_index`. -/
def IndexChecker.loop (c : IndexChecker) : IndexChecker :=
  if _left : 0 < c.imp4bufdatalen then
    if _more : c.round.1 = true then c.round.2.loop else c.round.2
  else c
termination_by c.imp4bufdatalen.toNat
decreasing_by
  have shorter := round_shorter _left _more
  omega

def mp4_check_index (pmp4checkindex : IndexChecker) : IndexChecker := pmp4checkindex.loop

/-- Too much data for the buffer is refused. -/
def mp4_check_index_adddata (framebuf : List UInt8) (c : IndexChecker) : Bool × IndexChecker :=
  let datalen := c.imp4bufdatalen
  if datalen + framebuf.length > c.imp4buflen then (false, c)
  else
    (true, { c with
      pcmp4buf := fun i =>
        if datalen ≤ i ∧ i < datalen + framebuf.length then framebuf.getD (i - datalen).toNat 0
        else c.pcmp4buf i
      imp4bufdatalen := datalen + framebuf.length })

/-- A stream in buffers: each is added, then the data checked. -/
def checkBuffers (c : IndexChecker) (buffers : List (List UInt8)) : IndexChecker :=
  buffers.foldl (fun c framebuf => mp4_check_index (mp4_check_index_adddata framebuf c).2) c

/-! ### The frames of a stream -/

end Rovio.VideoPhone
