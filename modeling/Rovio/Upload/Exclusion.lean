import Rovio.Kit.Runs
import Rovio.Http.Accounts
import Rovio.Upload.Update

/-! Uploads that overlap. The server calls `Http_Post_FMUpload` for the pieces of all
requests, one call at a time; a connection may end before its last piece, of which the
module is not told. -/
namespace Rovio.Upload
open Kit

inductive PostState where
  | init | ok | error | noMem | noPrivilege | shareFlashing | shareUploading | errorFile
  deriving DecidableEq

inductive FlashUpdateState where
  | stop | uploading | flashing | formatError
  deriving DecidableEq

/-- The variables that the library keeps for a request. -/
structure Post where
  piPostState : PostState
  ppcPostBuf : Option ProcessMultipart

/-- What the library says of the connection, the boundary in its content type, and whether
malloc finds memory. -/
structure Connection where
  privilege : Int
  contentLength : Int
  boundary : Option (List UInt8)
  memory : Bool

structure Device where
  iFlashUpdateState : FlashUpdateState
  flash : Nat → UInt8

inductive Reply where
  | authRequired
  | text (pcResponseText : String)

/-- `FIRMWARE_UPDATE_LIMIT_SIZE`. -/
def firmwareUpdateLimitSize : Int := (1024 + 512) * 1024

section
variable (N : PartName)

def update (device : Device) (pMPart : ProcessMultipart) (pcFillData : List UInt8) :
    Device × ProcessMultipart :=
  let pMPart := processUpdate mpBufLen N { pMPart with flash := device.flash } pcFillData
  ({ device with flash := pMPart.flash }, pMPart)

/-- The case `POST_INIT`. -/
def postInit (connection : Connection) (device : Device) (pcFillData : List UInt8) :
    Device × Post :=
  if connection.privilege < Http.authAdmin then (device, ⟨.noPrivilege, none⟩)
  else
    let iPostBufLen := connection.contentLength + 8
    if device.iFlashUpdateState = .uploading then (device, ⟨.shareUploading, none⟩)
    else if device.iFlashUpdateState = .flashing then (device, ⟨.shareFlashing, none⟩)
    else if iPostBufLen < 256 ∨ iPostBufLen ≥ firmwareUpdateLimitSize then
      (device, ⟨.errorFile, none⟩)
    else
      match connection.boundary with
      | none => (device, ⟨.error, none⟩)
      | some pcBoundary =>
        if connection.memory then
          let device := { device with iFlashUpdateState := .uploading }
          let (device, pMPart) :=
            update N device (mpStart (pcBoundary.take 127) device.flash) pcFillData
          (device, ⟨.ok, some pMPart⟩)
        else (device, ⟨.noMem, none⟩)

def postData (connection : Connection) (device : Device) (post : Post) (pcFillData : List UInt8) :
    Device × Post :=
  match post.piPostState with
  | .init => postInit N connection device pcFillData
  | .ok =>
    match post.ppcPostBuf with
    | some pMPart =>
      let (device, pMPart) := update N device pMPart pcFillData
      (device, { post with ppcPostBuf := some pMPart })
    | none => (device, post)
  | _ => (device, post)

/-- The image's header, with the length in the machine's byte order. -/
def header (uploadlen : Nat) : List UInt8 :=
  [87, 66, 0x5A, 0xA5] ++ (List.range 4).map fun i => UInt8.ofNat (uploadlen / 256 ^ i)

/-- What follows the last piece. -/
def postOver (device : Device) (post : Post) : Device × Reply :=
  let device :=
    if post.piPostState = .ok ∨ post.piPostState = .error ∨ post.piPostState = .noMem then
      { device with iFlashUpdateState := .stop }
    else device
  let reply : Reply := match post.piPostState with
    | .ok => .text "OK"
    | .error => .text "Error"
    | .noMem => .text "Low Memory"
    | .shareFlashing => .text "Firmware Writing"
    | .shareUploading => .text "Firmware Uploading"
    | .errorFile => .text "File Error"
    | .noPrivilege => .authRequired
    | .init => .text ""
  match post.ppcPostBuf with
  | some pMPart =>
    ({ device with flash := usiMyWrite device.flash 0 (header pMPart.pfFlashTmpFile) }, reply)
  | none => (device, reply)

def httpPostFMUpload (connection : Connection) (device : Device) (post : Post)
    (pcFillData : List UInt8) (iIsMoreData : Bool) : Device × Post × Option Reply :=
  let (device, post) := postData N connection device post pcFillData
  if iIsMoreData then (device, post, none)
  else
    let (device, reply) := postOver device post
    (device, post, some reply)

end

/-! ### What a call does to the flag -/

section
variable {N : PartName} {connection : Connection} {device : Device} {post : Post}
  {pcFillData : List UInt8}

theorem postInit_cases :
    let r := postInit N connection device pcFillData
    (r.2.piPostState = .ok ∧ r.1.iFlashUpdateState = .uploading ∧
        device.iFlashUpdateState ≠ .uploading) ∨
      (r.2.piPostState ≠ .ok ∧ r.1 = device ∧ r.2.ppcPostBuf = none ∧
        (device.iFlashUpdateState = .uploading →
          r.2.piPostState ≠ .error ∧ r.2.piPostState ≠ .noMem)) := by
  unfold postInit
  split
  · exact .inr ⟨by simp, rfl, rfl, by simp⟩
  · simp only
    split
    · exact .inr ⟨by simp, rfl, rfl, by simp⟩
    · rename_i free
      split
      · exact .inr ⟨by simp, rfl, rfl, by simp⟩
      · split
        · exact .inr ⟨by simp, rfl, rfl, by simp⟩
        · cases connection.boundary with
          | none => exact .inr ⟨by simp, rfl, rfl, fun busy => absurd busy free⟩
          | some pcBoundary =>
            simp only
            split
            · exact .inl ⟨rfl, rfl, free⟩
            · exact .inr ⟨by simp, rfl, rfl, fun busy => absurd busy free⟩

/-- A piece that is not the first one leaves the state of the request and the flag. -/
theorem postData_started (started : post.piPostState ≠ .init) :
    let r := postData N connection device post pcFillData
    r.2.piPostState = post.piPostState ∧ r.1.iFlashUpdateState = device.iFlashUpdateState := by
  obtain ⟨state, buf⟩ := post
  cases state with
  | init => exact absurd rfl started
  | ok => cases buf <;> exact ⟨rfl, rfl⟩
  | _ => exact ⟨rfl, rfl⟩

theorem postOver_flag :
    (postOver device post).1.iFlashUpdateState =
      if post.piPostState = .ok ∨ post.piPostState = .error ∨ post.piPostState = .noMem then .stop
      else device.iFlashUpdateState := by
  unfold postOver
  cases post.ppcPostBuf <;> simp only <;> split <;> rfl

end

/-! ### The requests together -/

variable {C : Type} [DecidableEq C]

structure Server (C : Type) where
  posts : C → Option Post
  device : Device

inductive Event (C : Type) where
  | begins (c : C)
  | piece (c : C) (connection : Connection) (pcFillData : List UInt8) (iIsMoreData : Bool)
  | ends (c : C)

/-- Without a flash (USI_IS_READY) every call returns 0, which closes the request. -/
def step (N : PartName) (usiReady : Bool) (s : Server C) : Event C → Option (Server C)
  | .begins c =>
    match s.posts c with
    | none => some { s with posts := Function.update s.posts c (some ⟨.init, none⟩) }
    | some _ => none
  | .piece c connection pcFillData iIsMoreData =>
    match s.posts c with
    | none => none
    | some post =>
      if usiReady then
        let (device, post, _) :=
          httpPostFMUpload N connection s.device post pcFillData iIsMoreData
        some ⟨Function.update s.posts c (if iIsMoreData then some post else none), device⟩
      else some { s with posts := Function.update s.posts c none }
  | .ends c =>
    match s.posts c with
    | none => none
    | some _ => some { s with posts := Function.update s.posts c none }

def Server.writing (s : Server C) (c : C) : Prop :=
  ∃ post, s.posts c = some post ∧ post.piPostState = .ok

def idle (flash : Nat → UInt8) : Server C := ⟨fun _ => none, ⟨.stop, flash⟩⟩

/-- At most one request writes firmware, and where none does a new one is accepted. -/
structure Exclusive (s : Server C) : Prop where
  atMostOne : ∀ c d, s.writing c → s.writing d → c = d
  accepts : (∀ c, ¬ s.writing c) → s.device.iFlashUpdateState ≠ .uploading

/-- The flag is up exactly while a request writes. -/
structure Flagged (usiReady : Bool) (s : Server C) : Prop where
  atMostOne : ∀ c d, s.writing c → s.writing d → c = d
  flag : s.device.iFlashUpdateState = .uploading ↔ ∃ c, s.writing c
  ready : ∀ c, s.writing c → usiReady = true

omit [DecidableEq C] in
theorem Flagged.exclusive {usiReady : Bool} {s : Server C} (h : Flagged usiReady s) : Exclusive s :=
  ⟨h.atMostOne, fun none flag => (h.flag.mp flag).elim none⟩

omit [DecidableEq C] in
/-- The same requests write, and the flag is the same. -/
theorem Flagged.same {usiReady : Bool} {s t : Server C} (h : Flagged usiReady s)
    (writing : ∀ c, t.writing c ↔ s.writing c)
    (flag : t.device.iFlashUpdateState = s.device.iFlashUpdateState) : Flagged usiReady t where
  atMostOne c d hc hd := h.atMostOne c d ((writing c).mp hc) ((writing d).mp hd)
  flag := by simp only [flag, h.flag, writing]
  ready c hc := h.ready c ((writing c).mp hc)

omit [DecidableEq C] in
/-- No request writes, and the flag is down. -/
theorem Flagged.free {usiReady : Bool} {t : Server C} (none : ∀ c, ¬ t.writing c)
    (flag : t.device.iFlashUpdateState ≠ .uploading) : Flagged usiReady t where
  atMostOne c _ hc := absurd hc (none c)
  flag := ⟨fun up => absurd up flag, fun ⟨c, hc⟩ => absurd hc (none c)⟩
  ready c hc := absurd hc (none c)

/-- A request that was rejected with `POST_ERROR` or `POST_NO_MEM` does not get its last piece
while another one writes, and a request that writes does not end without its last piece. -/
def Orderly (s : Server C) : Event C → Prop
  | .begins _ => True
  | .piece c _ _ iIsMoreData =>
    iIsMoreData = false → (∃ post, s.posts c = some post ∧
      (post.piPostState = .error ∨ post.piPostState = .noMem)) → ∀ d, ¬ s.writing d
  | .ends c => ¬ s.writing c

theorem writing_update {s : Server C} {c d : C} {post : Option Post} {device : Device} :
    (Server.mk (Function.update s.posts c post) device).writing d ↔
      if d = c then ∃ p, post = some p ∧ p.piPostState = .ok else s.writing d := by
  unfold Server.writing
  by_cases same : d = c
  · subst same
    simp
  · simp [same]

/-- A piece that is not the last one. -/
theorem flagged_piece {N : PartName} {s : Server C} {c : C} {post : Post}
    {connection : Connection} {pcFillData : List UInt8} (h : Flagged true s)
    (here : s.posts c = some post) :
    let r := postData N connection s.device post pcFillData
    Flagged true (Server.mk (Function.update s.posts c (some r.2)) r.1) := by
  have mine : s.writing c ↔ post.piPostState = .ok := by simp [Server.writing, here]
  intro r
  have writing : ∀ d, (Server.mk (Function.update s.posts c (some r.2)) r.1).writing d ↔
      if d = c then r.2.piPostState = .ok else s.writing d := by
    intro d
    rw [writing_update]
    simp
  by_cases started : post.piPostState = .init
  · have same : r = postInit N connection s.device pcFillData := by
      simp only [r, postData, started]
    rcases @postInit_cases N connection s.device pcFillData with ⟨ok, up, free⟩ | ⟨other,
      device, -, -⟩
    · rw [← same] at ok up
      have none : ∀ d, ¬ s.writing d := fun d hd => free (h.flag.mpr ⟨d, hd⟩)
      have only : ∀ d, (Server.mk (Function.update s.posts c (some r.2)) r.1).writing d →
        d = c := by
        intro d hd
        by_contra other
        rw [writing, if_neg other] at hd
        exact none d hd
      refine ⟨fun d e hd he => (only d hd).trans (only e he).symm, ?_, fun _ _ => rfl⟩
      exact ⟨fun _ => ⟨c, by rw [writing, if_pos rfl]; exact ok⟩, fun _ => up⟩
    · rw [← same] at other device
      refine h.same (fun d => ?_) (by rw [device])
      rw [writing]
      split
      · rename_i same
        rw [same, mine, started]
        exact ⟨fun ok => absurd ok other, nofun⟩
      · exact Iff.rfl
  · obtain ⟨state, flag⟩ := @postData_started N connection s.device post pcFillData started
    refine h.same (fun d => ?_) flag
    rw [writing]
    split
    · rename_i same
      rw [same, mine, state]
    · exact Iff.rfl

/-- The last piece: the same piece, and what follows it. -/
theorem flagged_last {s : Server C} {c : C} {post : Post} (h : Flagged true s)
    (here : s.posts c = some post)
    (orderly : post.piPostState = .error ∨ post.piPostState = .noMem → ∀ d, ¬ s.writing d) :
    Flagged true (Server.mk (Function.update s.posts c none) (postOver s.device post).1) := by
  have mine : s.writing c ↔ post.piPostState = .ok := by simp [Server.writing, here]
  have writing : ∀ d, (Server.mk (Function.update s.posts c none) (postOver s.device post).1).writing d ↔
      d ≠ c ∧ s.writing d := by
    intro d
    rw [writing_update]
    split <;> simp [*]
  by_cases clears : post.piPostState = .ok ∨ post.piPostState = .error ∨ post.piPostState = .noMem
  · refine .free (fun d hd => ?_) (by rw [postOver_flag, if_pos clears]; simp)
    obtain ⟨other, writes⟩ := (writing d).mp hd
    rcases clears with ok | rejected
    · exact other (h.atMostOne d c writes (mine.mpr ok))
    · exact orderly rejected d writes
  · refine h.same (fun d => ?_) (by rw [postOver_flag, if_neg clears])
    rw [writing]
    refine ⟨fun hd => hd.2, fun hd => ⟨fun same => ?_, hd⟩⟩
    exact clears (.inl (mine.mp (same ▸ hd)))

omit [DecidableEq C] in
/-- Where a request is rejected, or has been and its last piece is in order, the flag is down. -/
theorem rejected_free {N : PartName} {s : Server C} {post : Post} {connection : Connection}
    {pcFillData : List UInt8} (h : Flagged true s)
    (orderly : post.piPostState = .error ∨ post.piPostState = .noMem → ∀ d, ¬ s.writing d)
    (rejected : (postData N connection s.device post pcFillData).2.piPostState = .error ∨
      (postData N connection s.device post pcFillData).2.piPostState = .noMem) :
    (postData N connection s.device post pcFillData).1.iFlashUpdateState ≠ .uploading := by
  by_cases started : post.piPostState = .init
  · have same : postData N connection s.device post pcFillData =
        postInit N connection s.device pcFillData := by
      simp only [postData, started]
    rw [same] at rejected ⊢
    rcases @postInit_cases N connection s.device pcFillData with ⟨ok, -, -⟩ | ⟨-, device, -, busy⟩
    · rw [ok] at rejected
      rcases rejected with error | noMem
      · cases error
      · cases noMem
    · rw [device]
      intro up
      exact rejected.elim (busy up).1 (busy up).2
  · obtain ⟨state, flag⟩ := @postData_started N connection s.device post pcFillData started
    rw [state] at rejected
    rw [flag]
    exact h.exclusive.accepts (orderly rejected)

theorem flagged_step {N : PartName} {usiReady : Bool} {s t : Server C} {e : Event C}
    (h : Flagged usiReady s) (orderly : Orderly s e) (stepped : step N usiReady s e = some t) :
    Flagged usiReady t := by
  cases e with
  | begins c =>
    simp only [step] at stepped
    cases here : s.posts c with
    | some post => rw [here] at stepped; cases stepped
    | none =>
      rw [here] at stepped
      cases stepped
      refine h.same (fun d => ?_) rfl
      rw [writing_update]
      split
      · rename_i same
        simp [Server.writing, same, here]
      · exact Iff.rfl
  | ends c =>
    simp only [step] at stepped
    cases here : s.posts c with
    | none => rw [here] at stepped; cases stepped
    | some post =>
      rw [here] at stepped
      cases stepped
      refine h.same (fun d => ?_) rfl
      rw [writing_update]
      split
      · rename_i same
        constructor
        · rintro ⟨p, none, -⟩
          cases none
        · intro hd
          exact absurd (same ▸ hd) orderly
      · exact Iff.rfl
  | piece c connection pcFillData iIsMoreData =>
    simp only [step] at stepped
    cases here : s.posts c with
    | none => rw [here] at stepped; cases stepped
    | some post =>
      rw [here] at stepped
      cases usiReady with
      | false =>
        cases stepped
        have none : ∀ d, ¬ s.writing d := fun d hd => by cases h.ready d hd
        refine .free (fun d => ?_) (h.exclusive.accepts none)
        rw [writing_update]
        split
        · rintro ⟨p, none, -⟩
          cases none
        · exact none d
      | true =>
        have piece := @flagged_piece C _ N s c post connection pcFillData h here
        cases iIsMoreData with
        | true =>
          cases stepped
          exact piece
        | false =>
          cases stepped
          have last := flagged_last piece (Function.update_self c _ s.posts) fun rejected d hd => by
            refine rejected_free h (fun refused => orderly rfl ⟨post, here, refused⟩) rejected ?_
            exact piece.flag.mpr ⟨d, hd⟩
          rwa [Function.update_idem] at last

/-- In every run whose steps are in order, in every state one request at most writes, and a
new one is accepted where none does. -/
theorem upload_exclusive (N : PartName) (usiReady : Bool) (flash : Nat → UInt8)
    {events : List (Event C)} {s : Server C}
    (run : Run (Guarded Orderly fun s e t => step N usiReady s e = some t) (idle flash) events s) :
    Exclusive s := by
  have start : Flagged usiReady (idle flash : Server C) := by
    refine .free (fun c hc => ?_) (by simp [idle])
    obtain ⟨post, none, -⟩ := hc
    cases none
  refine (run.invariant (Flagged usiReady) ?_ start).exclusive
  rintro s e t h ⟨orderly, stepped⟩
  exact flagged_step h orderly stepped

/-- An administrator's request, with a boundary and without. -/
def uploads : Connection := ⟨1, 1000, some [65], true⟩

def noBoundary : Connection := ⟨1, 1000, none, true⟩

def noPart : PartName := fun _ => none

theorem upload_exclusive_two : ∃ s : Server Nat,
    Run (Guarded Orderly fun s e t => step noPart true s e = some t) (idle fun _ => 0)
      [.begins 0, .begins 1, .piece 0 uploads [] true, .piece 1 uploads [] true] s ∧
      Exclusive s := by
  have run : Run (Guarded Orderly fun s e t => step noPart true s e = some t)
      (idle fun _ => 0 : Server Nat)
      [.begins 0, .begins 1, .piece 0 uploads [] true, .piece 1 uploads [] true] _ :=
    .cons ⟨trivial, rfl⟩ <| .cons ⟨trivial, rfl⟩ <| .cons ⟨nofun, rfl⟩ <| .cons ⟨nofun, rfl⟩ <|
      .nil _
  exact ⟨_, run, upload_exclusive noPart true (fun _ => 0) run⟩

/-- The last piece of a request without a boundary lets a third one in beside the second. -/
theorem uploads_overlap : ¬ ∀ (events : List (Event Nat)) (s : Server Nat),
    Run (fun s e t => step noPart true s e = some t) (idle fun _ => 0) events s → Exclusive s := by
  intro exclusive
  have run : Run (fun s e t => step noPart true s e = some t) (idle fun _ => 0 : Server Nat)
      [.begins 0, .piece 0 noBoundary [] true, .begins 1, .piece 1 uploads [] true,
        .piece 0 noBoundary [] false, .begins 2, .piece 2 uploads [] true] _ :=
    .cons rfl <| .cons rfl <| .cons rfl <| .cons rfl <| .cons rfl <| .cons rfl <| .cons rfl <|
      .nil _
  have same := (exclusive _ _ run).atMostOne 1 2 ⟨_, rfl, rfl⟩ ⟨_, rfl, rfl⟩
  cases same

end Rovio.Upload
