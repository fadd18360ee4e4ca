import Rovio.Firmware.Image

/-! The firmware request of the web server. The automaton hands the file to the flash as it takes it
from the body, and the header follows when the request is over. -/
namespace Rovio.Firmware
open Upload

/-- What the automaton writes at a character. -/
def written (iBufLen : Nat) (m : ProcessMultipart) (ch : UInt8) : List UInt8 :=
  let r := mpAddChar iBufLen m.toRing ch
  match m.iState with
  | .bodyFile =>
    match mpTestBoundary r m.acBoundary with
    | some pc => (List.range (stripLineEnd r pc)).map r.acBuf
    | none =>
      if r.pcBufDataEnd + 1 = iBufLen then
        (List.range ((r.pcBufDataEnd - r.pcBufDataHeader - m.acBoundary.length - 2) / 4 * 4)).map r.acBuf
      else []
  | _ => []

def chunks (iBufLen : Nat) (N : PartName) (m : ProcessMultipart) : List UInt8 → List (List UInt8)
  | [] => []
  | ch :: rest => written iBufLen m ch :: chunks iBufLen N (processChar iBufLen N m ch) rest

variable {n : Nat} {N : PartName}

/-- These are the writes that the automaton makes. -/
theorem processChar_written (m : ProcessMultipart) (ch : UInt8) :
    (processChar n N m ch).pfFlashTmpFile = m.pfFlashTmpFile + (written n m ch).length ∧
      (processChar n N m ch).flash =
        Upload.usiMyWrite m.flash m.pfFlashTmpFile (written n m ch) := by
  have nil : Upload.usiMyWrite m.flash m.pfFlashTmpFile [] = m.flash := by
    funext a
    simp [Upload.usiMyWrite]
  by_cases state : m.iState = .bodyFile
  · simp only [processChar, written, state, bodyFile]
    cases mpTestBoundary (mpAddChar n m.toRing ch) m.acBoundary with
    | some pc => simp
    | none =>
      simp only [mpTestWriteFlash]
      split
      · simp
      · exact ⟨rfl, nil.symm⟩
  · have quiet := @processChar_sameFlash n N m state ch
    have empty : written n m ch = [] := by
      unfold written
      split
      · contradiction
      · rfl
    rw [empty, nil]
    exact ⟨quiet.address, quiet.flash⟩

theorem processUpdate_chunks (m : ProcessMultipart) (data : List UInt8) :
    (processUpdate n N m data).pfFlashTmpFile =
      m.pfFlashTmpFile + (chunks n N m data).flatten.length := by
  induction data generalizing m with
  | nil => rfl
  | cons ch rest ih =>
    have rest := ih (processChar n N m ch)
    rw [(processChar_written m ch).1, Nat.add_assoc, ← List.length_append] at rest
    exact rest

theorem chunks_append (m : ProcessMultipart) (left right : List UInt8) :
    chunks n N m (left ++ right) =
    chunks n N m left ++ chunks n N (processUpdate n N m left) right := by
  induction left generalizing m with
  | nil => rfl
  | cons ch rest ih =>
    have rest := ih (processChar n N m ch)
    exact congrArg (written n m ch :: ·) rest

/-! ### The calls of a request -/

/-- The calls of ProcessUpdate. -/
def updateCalls (N : PartName) (m : ProcessMultipart) (data : List UInt8) : List Call :=
  consecutive m.pfFlashTmpFile ((chunks mpBufLen N m data).map ofTransfer)

/-- What `postOver` does to the flash. -/
def overCalls (post : Post) : List Call :=
  match post.ppcPostBuf with
  | some m => [.usiMyWrite 0 (ofTransfer (header m.pfFlashTmpFile)), .usiMyFlash]
  | none => []

/-- The calls of Http_Post_FMUpload. -/
def postCalls (N : PartName) (connection : Connection) (device : Device) (post : Post)
    (pcFillData : List UInt8) (iIsMoreData : Bool) : List Call :=
  let after := (postData N connection device post pcFillData).2
  (match post.piPostState with
    | .init =>
      if after.piPostState = .ok then
        updateCalls N (mpStart ((connection.boundary.getD []).take 127) device.flash) pcFillData
      else []
    | .ok =>
      match post.ppcPostBuf with
      | some m => updateCalls N { m with flash := device.flash } pcFillData
      | none => []
    | _ => []) ++ if iIsMoreData then [] else overCalls after

/-- The pieces of a request one after another, the last of them the last one of the request where
it is `finished`. -/
def requestCalls (N : PartName) (connection : Connection) (finished : Bool) :
    Device → Post → List (List UInt8) → List Call
  | _, _, [] => []
  | device, post, piece :: rest =>
    let iIsMoreData := !(finished && rest.isEmpty)
    postCalls N connection device post piece iIsMoreData ++
      requestCalls N connection finished (postData N connection device post piece).1
        (postData N connection device post piece).2 rest

/-- The boundary of a request that is accepted. -/
def accepts (connection : Connection) (iFlashUpdateState : FlashUpdateState) :
    Option (List UInt8) :=
  if connection.privilege < Http.authAdmin then none
  else if iFlashUpdateState = .uploading ∨ iFlashUpdateState = .flashing then none
  else if connection.contentLength + 8 < 256 ∨
    connection.contentLength + 8 ≥ firmwareUpdateLimitSize then none
  else if connection.memory then connection.boundary.map (·.take 127) else none

variable {connection : Connection} {device : Device} {piece : List UInt8}

theorem postInit_rejects (rejected : accepts connection device.iFlashUpdateState = none) :
    let r := postInit N connection device piece
    r.2.piPostState ≠ .init ∧ r.2.piPostState ≠ .ok ∧ r.2.ppcPostBuf = none := by
  unfold postInit accepts at *
  grind

theorem postInit_accepts {boundary : List UInt8}
    (accepted : accepts connection device.iFlashUpdateState = some boundary) :
    boundary = (connection.boundary.getD []).take 127 ∧
    postInit N connection device piece =
      let m := processUpdate mpBufLen N (mpStart boundary device.flash) piece
      (⟨.uploading, m.flash⟩, ⟨.ok, some m⟩) := by
  unfold postInit accepts at *
  grind [update, mpStart]

theorem updateCalls_append (m : ProcessMultipart) (left right : List UInt8) :
    updateCalls N m (left ++ right) =
      updateCalls N m left ++ updateCalls N (processUpdate mpBufLen N m left) right := by
  unfold updateCalls
  rw [chunks_append, List.map_append, consecutive_append, flatten_ofTransfer, length_ofTransfer,
    processUpdate_chunks]

/-- A request that has been accepted, with its pieces still to come. -/
theorem requestCalls_accepted {finished : Bool} {m : ProcessMultipart} {pieces : List (List UInt8)}
    (same : m.flash = device.flash) :
    requestCalls N connection finished device ⟨.ok, some m⟩ pieces =
      updateCalls N m pieces.flatten ++
        if finished && !pieces.isEmpty then
          overCalls ⟨.ok, some (processUpdate mpBufLen N m pieces.flatten)⟩
        else [] := by
  induction pieces generalizing m device with
  | nil => cases finished <;> rfl
  | cons piece rest ih =>
    have here : { m with flash := device.flash } = m := by rw [← same]
    have next : postData N connection device ⟨.ok, some m⟩ piece =
        ({ device with flash := (processUpdate mpBufLen N m piece).flash },
          ⟨.ok, some (processUpdate mpBufLen N m piece)⟩) := by
      simp only [postData, update, here]
    have others := @ih { device with flash := (processUpdate mpBufLen N m piece).flash }
      (processUpdate mpBufLen N m piece) rfl
    rw [requestCalls, next, others, List.flatten_cons, updateCalls_append, processUpdate_append]
    unfold postCalls
    simp only [next, here]
    cases rest with
    | nil => cases finished <;> simp [updateCalls, chunks, processUpdate, consecutive]
    | cons second rest => cases finished <;> simp

theorem requestCalls_rejected {finished : Bool} {post : Post} {pieces : List (List UInt8)}
    (started : post.piPostState ≠ .init) (rejected : post.piPostState ≠ .ok)
    (empty : post.ppcPostBuf = none) :
    requestCalls N connection finished device post pieces = [] := by
  obtain ⟨state, buf⟩ := post
  cases empty
  induction pieces generalizing device with
  | nil => rfl
  | cons piece rest ih =>
    have next : postData N connection device ⟨state, none⟩ piece = (device, ⟨state, none⟩) := by
      cases state <;> first | rfl | contradiction
    have none : ∀ more, postCalls N connection device ⟨state, none⟩ piece more = [] := by
      intro more
      unfold postCalls
      rw [next]
      cases state <;> cases more <;> rfl
    rw [requestCalls, none, next, ih]
    rfl

/-- A request from its first piece on. -/
theorem requestCalls_init {finished : Bool} {pieces : List (List UInt8)} :
    requestCalls N connection finished device ⟨.init, none⟩ pieces =
      match accepts connection device.iFlashUpdateState with
      | some boundary =>
        updateCalls N (mpStart boundary device.flash) pieces.flatten ++
          if finished && !pieces.isEmpty then
            overCalls ⟨.ok, some (processUpdate mpBufLen N (mpStart boundary device.flash) pieces.flatten)⟩
          else []
      | none => [] := by
  cases pieces with
  | nil => cases accepts connection device.iFlashUpdateState <;> cases finished <;> rfl
  | cons piece rest =>
    have first : postData N connection device ⟨.init, none⟩ piece =
      postInit N connection device piece := rfl
    cases accepted : accepts connection device.iFlashUpdateState with
    | none =>
      obtain ⟨started, rejected, empty⟩ := @postInit_rejects N connection device piece accepted
      have none : ∀ more, postCalls N connection device ⟨.init, none⟩ piece more = [] := by
        intro more
        unfold postCalls
        simp only [first, if_neg rejected, overCalls, empty]
        cases more <;> rfl
      rw [requestCalls, none, first, requestCalls_rejected started rejected empty]
      rfl
    | some boundary =>
      obtain ⟨start, init⟩ := @postInit_accepts N connection device piece boundary accepted
      rw [requestCalls, first, init, requestCalls_accepted rfl]
      unfold postCalls
      simp only [first, init, if_true]
      rw [← start, List.flatten_cons, updateCalls_append, processUpdate_append]
      cases rest with
      | nil => cases finished <;> simp [updateCalls, chunks, processUpdate, consecutive]
      | cons second rest => cases finished <;> simp

end Rovio.Firmware
