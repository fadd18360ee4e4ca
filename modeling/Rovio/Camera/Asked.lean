import Rovio.Kit.Writes
import Rovio.Camera.Agreement

/-! Runs of the camera thread among requests. The drivers stay set as noted, and once the messages
are told the camera has what the configuration says, unless a request and the start have crossed. -/
namespace Rovio.Controls
open Kit

/-! ### Steps -/

/-- A setting that the driver can be told: the table of bit rates has no entry below 0. -/
def Fair (setting : Setting) (value : BitVec 32) : Prop := setting = .quality → 0 ≤ value.toInt

/-- The messages that set nothing. -/
def CameraMsg.plain : CameraMsg → Bool
  | .set _ _ => false
  | .other | .quit => true

section
variable {h263 : Bool} {s t : CameraControl} {action : Action}

/-- What a step does. -/
inductive Effect (h263 : Bool) (s : CameraControl) : Action → CameraControl → Prop where
  | same {action : Action} : Effect h263 s action s
  | asked {privilege : Int} {setting : Setting} {value : BitVec 32} {bPush : Bool}
      (idle : s.request = none) (fair : Fair setting value) :
      Effect h263 s (.ictlSet privilege setting value bPush)
        { s.SendCameraMsg (.set setting value) bPush with request := some (setting, value) }
  | stored {setting : Setting} {value : BitVec 32} (pending : s.request = some (setting, value)) :
      Effect h263 s .store
        { s with
          g_ConfigParam := Function.update s.g_ConfigParam setting value
          request := none }
  | bitrate {uEncBitRate : BitVec 32} :
      Effect h263 s (.vmp4encSetBitrate uEncBitRate)
        { s with drivers := { s.drivers with uEncBitRate } }
  | sent {msg : CameraMsg} {bPush : Bool} (plain : msg.plain = true) :
      Effect h263 s (.SendCameraMsg msg bPush) (s.SendCameraMsg msg bPush)
  | opened {rt bPush : Bool} (here : s.place = .closed) :
      Effect h263 s (.CameraThread rt bPush)
        { s with drivers := W99702_OpenCamera s.drivers, place := .initial 0 }
  | dropped {rt bPush : Bool} {msg : CameraMsg} {rest : List CameraMsg} {place : Place}
      (here : s.place = .closed) (head : s.g_pMsgCamera = msg :: rest)
      (next : place = .closed ∨ place = .ended) :
      Effect h263 s (.CameraThread rt bPush) { s with g_pMsgCamera := rest, place }
  | initial {rt bPush : Bool} {n : Nat} {setting : Setting} (here : s.place = .initial n)
      (next : SetCameraInitState[n]? = some (some setting)) :
      Effect h263 s (.CameraThread rt bPush)
        { s.SendCameraMsg (.set setting (s.g_ConfigParam setting)) bPush with
          place := .initial (n + 1) }
  | initialOther {rt bPush : Bool} {n : Nat} (here : s.place = .initial n)
      (next : SetCameraInitState[n]? = some none) :
      Effect h263 s (.CameraThread rt bPush)
        { s.SendCameraMsg .other bPush with place := .initial (n + 1) }
  | started {rt bPush : Bool} {n : Nat} (here : s.place = .initial n)
      (next : SetCameraInitState[n]? = none) :
      Effect h263 s (.CameraThread rt bPush) { s with place := .running }
  | passed {rt bPush : Bool} {msg : CameraMsg} {rest : List CameraMsg} {place : Place}
      (here : s.place = .running) (head : s.g_pMsgCamera = msg :: rest) (plain : msg.plain = true)
      (next : place = .running ∨ place = .ended) :
      Effect h263 s (.CameraThread rt bPush) { s with g_pMsgCamera := rest, place }
  | told {rt bPush : Bool} {setting : Setting} {lData : BitVec 32} {rest : List CameraMsg}
      {done : Drivers × WebCamState} (here : s.place = .running)
      (head : s.g_pMsgCamera = .set setting lData :: rest)
      (set : setSetting h263 s.drivers s.g_WebCamState lData rt setting = some done) :
      Effect h263 s (.CameraThread rt bPush)
        { s with
          g_pMsgCamera := rest
          drivers := done.1
          g_WebCamState := done.2
          told := s.told ++ [(setting, lData)]
          refused := Function.update s.refused setting (!rt) }

theorem fair_answer {privilege : Int} {setting : Setting} {value : BitVec 32}
    (answer : ictlSetAnswer privilege setting value = .ICTL_OK) : Fair setting value := by
  rintro rfl
  by_contra negative
  unfold ictlSetAnswer at answer
  split_ifs at answer with unauthorised outside
  exact outside ⟨rfl, .inl (by omega)⟩

theorem cameraThread_effect {rt bPush : Bool} (step : s.CameraThread h263 rt bPush = some t) :
    Effect h263 s (.CameraThread rt bPush) t := by
  obtain ⟨g_ConfigParam, g_pMsgCamera, request, place, drivers, g_WebCamState, told, refused⟩ := s
  cases place with
  | closed =>
    cases g_pMsgCamera with
    | nil =>
      cases step
      exact .opened rfl
    | cons msg rest =>
      cases msg with
      | quit =>
        cases step
        exact .dropped rfl rfl (.inr rfl)
      | set | other =>
        cases step
        exact .dropped rfl rfl (.inl rfl)
  | initial n =>
    simp only [CameraControl.CameraThread] at step
    split at step
    · next setting next =>
      cases step
      exact .initial rfl next
    · next next =>
      cases step
      exact .initialOther rfl next
    · next next =>
      cases step
      exact .started rfl next
  | running =>
    cases g_pMsgCamera with
    | nil =>
      cases step
      exact .same
    | cons msg rest =>
      cases msg with
      | quit =>
        cases step
        exact .passed rfl rfl rfl (.inr rfl)
      | other =>
        cases step
        exact .passed rfl rfl rfl (.inl rfl)
      | set setting lData =>
        obtain ⟨done, set, rfl⟩ := Option.map_eq_some_iff.mp step
        exact .told rfl rfl set
  | ended => cases step

theorem effect_of_step (step : Steps h263 s action t) : Effect h263 s action t := by
  unfold Steps at step
  cases action with
  | ictlSet privilege setting value bPush =>
    simp only [CameraControl.step] at step
    split_ifs at step with answer idle
    · cases step
      exact .asked idle (fair_answer answer)
    · cases step
      exact .same
  | store =>
    obtain ⟨request, pending, rfl⟩ := Option.map_eq_some_iff.mp step
    exact .stored pending
  | CameraThread rt bPush => exact cameraThread_effect step
  | vmp4encSetBitrate uEncBitRate =>
    cases step
    exact .bitrate
  | SendCameraMsg msg bPush =>
    cases msg with
    | set => cases step
    | other | quit =>
      cases step
      exact .sent rfl

end

/-! ### The drivers -/

def Place.isOpen : Place → Bool
  | .initial _ | .running => true
  | .closed | .ended => false

/-- The drivers agree with the notes while the camera is open, and it can be told all there is to
tell. -/
structure Sound (s : CameraControl) : Prop where
  noted : Noted s.g_WebCamState
  agree : s.place.isOpen = true → Agree s.drivers s.g_WebCamState
  closed : s.place = .closed → s.g_WebCamState = (fun _ => 0) ∧ s.drivers.nJPEGQua = 2
  config : ∀ setting, Fair setting (s.g_ConfigParam setting)
  request : ∀ setting value, s.request = some (setting, value) → Fair setting value
  queue : ∀ setting value, .set setting value ∈ s.g_pMsgCamera → Fair setting value

section
variable {h263 : Bool} {config : Setting → BitVec 32} {sPlanarSize : Nat × Nat}
  {s t : CameraControl} {action : Action} {actions : List Action}

theorem sound_init (fair : Fair .quality (config .quality)) :
    Sound (ResetCameraParam config sPlanarSize) where
  noted := ⟨Nat.zero_le _, Nat.zero_le _, fun _ => Nat.zero_lt_succ 255⟩
  agree := nofun
  closed := fun _ => ⟨rfl, rfl⟩
  config := by
    rintro setting rfl
    exact fair rfl
  request := nofun
  queue := nofun

theorem openCamera (d : Drivers) : ∃ uEncBitRate, W99702_OpenCamera d =
    { d with sPlanarSize := (176, 144), uEncBitRate } := by
  obtain ⟨uEncBitRate, set⟩ := setVideoBitRate d (.ofNat 32 (32 * 1024))
  refine ⟨uEncBitRate, ?_⟩
  rw [W99702_OpenCamera, set]
  exact setWindow _ 0

theorem mem_send {msg msg' : CameraMsg} {bPush : Bool}
    (mem : msg ∈ (s.SendCameraMsg msg' bPush).g_pMsgCamera) :
    msg ∈ s.g_pMsgCamera ∨ msg = msg' := by
  cases bPush with
  | false => exact .inl (by simpa [CameraControl.SendCameraMsg] using mem)
  | true => simpa [CameraControl.SendCameraMsg] using mem

theorem Sound.send (sound : Sound s) {msg : CameraMsg} {bPush : Bool}
    (fair : ∀ setting value, msg = .set setting value → Fair setting value) (setting : Setting)
    (value : BitVec 32) (mem : .set setting value ∈ (s.SendCameraMsg msg bPush).g_pMsgCamera) :
    Fair setting value := by
  rcases mem_send mem with mem | new
  · exact sound.queue setting value mem
  · exact fair setting value new.symm

theorem Sound.rest (sound : Sound s) {msg : CameraMsg} {rest : List CameraMsg}
    (head : s.g_pMsgCamera = msg :: rest) (setting : Setting) (value : BitVec 32)
    (mem : .set setting value ∈ rest) : Fair setting value :=
  sound.queue setting value (head ▸ List.mem_cons_of_mem _ mem)

theorem Sound.step (sound : Sound s) (step : Steps h263 s action t) : Sound t := by
  cases effect_of_step step with
  | same => exact sound
  | asked idle fair =>
    refine ⟨sound.noted, sound.agree, sound.closed, sound.config, ?_, sound.send ?_⟩
    · rintro setting value ⟨⟩
      exact fair
    · rintro setting value ⟨⟩
      exact fair
  | @stored stored _ pending =>
    refine ⟨sound.noted, sound.agree, sound.closed, ?_, nofun, sound.queue⟩
    intro setting
    dsimp only
    rcases eq_or_ne setting stored with rfl | other
    · rw [Function.update_self]
      exact sound.request _ _ pending
    · rw [Function.update_of_ne other]
      exact sound.config setting
  | bitrate =>
    refine ⟨sound.noted, fun isOpen => ?_, sound.closed, sound.config, sound.request, sound.queue⟩
    exact ⟨(sound.agree isOpen).size, (sound.agree isOpen).jpeg, (sound.agree isOpen).rate⟩
  | sent plain =>
    refine ⟨sound.noted, sound.agree, sound.closed, sound.config, sound.request, sound.send ?_⟩
    rintro setting value rfl
    cases plain
  | opened here =>
    obtain ⟨zero, jpeg⟩ := sound.closed here
    obtain ⟨uEncBitRate, set⟩ := openCamera s.drivers
    refine ⟨sound.noted, fun _ => ?_, nofun, sound.config, sound.request, sound.queue⟩
    rw [set, zero]
    exact ⟨rfl, .inr ⟨rfl, jpeg⟩, .inl rfl⟩
  | dropped here head next =>
    refine ⟨sound.noted, ?_, fun _ => sound.closed here, sound.config, sound.request,
      sound.rest head⟩
    rcases next with rfl | rfl <;> exact nofun
  | initial here next =>
    refine ⟨sound.noted, fun _ => sound.agree (by rw [here]; rfl), nofun, sound.config,
      sound.request, sound.send ?_⟩
    rintro setting value ⟨⟩
    exact sound.config _
  | initialOther here next =>
    exact ⟨sound.noted, fun _ => sound.agree (by rw [here]; rfl), nofun, sound.config,
      sound.request, sound.send nofun⟩
  | started here next =>
    exact ⟨sound.noted, fun _ => sound.agree (by rw [here]; rfl), nofun, sound.config,
      sound.request, sound.queue⟩
  | passed here head plain next =>
    refine ⟨sound.noted, fun _ => sound.agree (by rw [here]; rfl), ?_, sound.config,
      sound.request, sound.rest head⟩
    rcases next with rfl | rfl <;> exact nofun
  | @told rt bPush setting lData rest done here head set =>
    have fair : Fair setting lData := sound.queue setting lData (head ▸ List.mem_cons_self)
    obtain ⟨done', set', sets⟩ := setTo h263 rt sound.noted
      (sound.agree (by rw [here]; rfl)) fair
    cases set.symm.trans set'
    refine ⟨sets.noted, fun _ => sets.agree, ?_, sound.config, sound.request, sound.rest head⟩
    intro closed
    rw [here] at closed
    cases closed

theorem Sound.run (fair : Fair .quality (config .quality))
    (run : Run (Steps h263) (ResetCameraParam config sPlanarSize) actions s) : Sound s :=
  run.invariant Sound (fun _ _ _ sound step => sound.step step) (sound_init fair)

theorem Sound.continues (sound : Sound s) (more : s.place ≠ .ended) (rt bPush : Bool) :
    (s.CameraThread h263 rt bPush).isSome = true := by
  cases here : s.place with
  | closed =>
    cases head : s.g_pMsgCamera with
    | nil => simp [CameraControl.CameraThread, here, head]
    | cons msg rest => cases msg <;> simp [CameraControl.CameraThread, here, head]
  | initial n =>
    simp only [CameraControl.CameraThread, here]
    split <;> rfl
  | running =>
    cases head : s.g_pMsgCamera with
    | nil => simp [CameraControl.CameraThread, here, head]
    | cons msg rest =>
      cases msg with
      | quit | other => simp [CameraControl.CameraThread, here, head]
      | set setting lData =>
        obtain ⟨done, set, -⟩ := setTo h263 rt sound.noted
          (sound.agree (by rw [here]; rfl))
          (sound.queue setting lData (head ▸ List.mem_cons_self))
        simp [CameraControl.CameraThread, here, head, set]
  | ended => exact absurd here more

/-- Whatever requests come between its passes, the thread never reads the table of bit rates
outside, nor a resolution that is not known; and while the camera is open the drivers are set to
the resolution, the quality and the frame rate that `g_WebCamState` says. -/
theorem drivers_agree (fair : 0 ≤ (config .quality).toInt)
    (run : Run (Steps h263) (ResetCameraParam config sPlanarSize) actions s) :
    (s.place ≠ .ended → ∀ rt bPush, (s.CameraThread h263 rt bPush).isSome = true) ∧
    (s.place.isOpen = true → Noted s.g_WebCamState ∧ Agree s.drivers s.g_WebCamState) := by
  have sound := Sound.run (fun _ => fair) run
  exact ⟨sound.continues, fun isOpen => ⟨sound.noted, sound.agree isOpen⟩⟩

theorem drivers_agree_resized : ∃ s, Run (Steps false) (ResetCameraParam (fun _ => 0) (0, 0))
    (.replicate 10 (.CameraThread true true) ++ [.ictlSet 1 .resolution 3 true] ++
      .replicate 9 (.CameraThread true true)) s ∧ s.drivers.sPlanarSize = (640, 480) := by
  obtain ⟨s, fold, isOpen, resolution⟩ : ∃ s, (.replicate 10 (.CameraThread true true) ++
      [.ictlSet 1 .resolution 3 true] ++ .replicate 9 (.CameraThread true true)).foldlM
        (CameraControl.step false) (ResetCameraParam (fun _ => 0) (0, 0)) = some s ∧
      s.place.isOpen = true ∧ s.g_WebCamState .resolution = 3 := ⟨_, rfl, rfl, rfl⟩
  have run : Run (Steps false) _ _ s := Run.of_foldlM (fun _ _ _ => id) fold
  have size := ((drivers_agree (by decide) run).2 isOpen).2.size
  rw [resolution] at size
  exact ⟨s, run, size⟩

end

/-! ### The settings asked for -/

/-- The setting that a message writes. -/
def CameraMsg.write : CameraMsg → Option (Setting × BitVec 32)
  | .set setting lData => some (setting, lData)
  | .other | .quit => none

/-- The settings told to the open camera, and those on their way. -/
def CameraControl.writes (s : CameraControl) : List (Setting × BitVec 32) :=
  s.told ++ s.g_pMsgCamera.filterMap CameraMsg.write

/-- What the configuration says when the request that is under way has stored its setting. -/
def CameraControl.asked (s : CameraControl) (setting : Setting) : BitVec 32 :=
  match s.request with
  | some request => if request.1 = setting then request.2 else s.g_ConfigParam setting
  | none => s.g_ConfigParam setting

/-- `SetCameraInitState` has sent the setting. -/
def Place.sent (setting : Setting) : Place → Prop
  | .initial n => some setting ∈ SetCameraInitState.take n
  | .running => True
  | .closed | .ended => False

/-- The setting that `SetCameraInitState` sends next. -/
def Place.sending : Place → Option Setting
  | .initial n => (SetCameraInitState[n]?).join
  | .closed | .running | .ended => none

/-- There is memory for the messages, and `SetCameraInitState` does not send a setting between the
message and the store of a request for it. -/
def InTurn (s : CameraControl) : Action → Prop
  | .ictlSet _ _ _ bPush => bPush = true
  | .CameraThread _ bPush =>
    bPush = true ∧ (s.place.sending = none ∨ s.request.map Prod.fst ≠ s.place.sending)
  | .store | .vmp4encSetBitrate _ | .SendCameraMsg _ _ => True

instance (s : CameraControl) (action : Action) : Decidable (InTurn s action) := by
  cases action with
  | ictlSet _ _ _ bPush => exact inferInstanceAs (Decidable (bPush = true))
  | CameraThread _ bPush =>
    exact inferInstanceAs (Decidable
      (bPush = true ∧ (s.place.sending = none ∨ s.request.map Prod.fst ≠ s.place.sending)))
  | store | vmp4encSetBitrate | SendCameraMsg => exact inferInstanceAs (Decidable True)

/-- The last message about a setting says what was asked for, and what the camera was told last it
has taken, if it can be taken. -/
structure Follows (h263 : Bool) (s : CameraControl) : Prop where
  last : ∀ setting, s.place.sent setting → lastWrite setting s.writes = some (s.asked setting)
  has : ∀ setting value u, lastWrite setting s.told = some value →
    (setting.audio = true → s.refused setting = false) → taken h263 value setting = some u →
      s.g_WebCamState setting = u

section
variable {h263 : Bool} {config : Setting → BitVec 32} {sPlanarSize : Nat × Nat}
  {s t : CameraControl} {action : Action} {actions : List Action} {setting other : Setting}
  {value : BitVec 32}

theorem follows_init : Follows h263 (ResetCameraParam config sPlanarSize) :=
  ⟨fun _ => False.elim, nofun⟩

theorem sent_next {n : Nat} {next : Option Setting} (here : SetCameraInitState[n]? = some next)
    (sent : (Place.initial (n + 1)).sent setting) :
    (Place.initial n).sent setting ∨ next = some setting := by
  change some setting ∈ SetCameraInitState.take (n + 1) at sent
  rw [List.take_add_one, here, List.mem_append] at sent
  exact sent.imp_right fun last => (by simpa using last : some setting = next).symm

theorem sent_all {n : Nat} (here : SetCameraInitState[n]? = none) (setting : Setting) :
    (Place.initial n).sent setting := by
  change some setting ∈ SetCameraInitState.take n
  rw [List.take_of_length_le (List.getElem?_eq_none_iff.mp here)]
  cases setting <;> decide

variable (s setting value) in
theorem writes_send_set : (s.SendCameraMsg (.set setting value) true).writes =
    s.writes ++ [(setting, value)] := by
  simp [CameraControl.writes, CameraControl.SendCameraMsg, CameraMsg.write]

variable (s) in
theorem writes_send_plain {msg : CameraMsg} (bPush : Bool) (plain : msg.plain = true) :
    (s.SendCameraMsg msg bPush).writes = s.writes := by
  cases msg <;> cases bPush <;>
    simp_all [CameraControl.writes, CameraControl.SendCameraMsg, CameraMsg.write, CameraMsg.plain]

theorem asked_idle (idle : s.request = none) : s.asked setting = s.g_ConfigParam setting := by
  rw [CameraControl.asked, idle]

theorem asked_other (others : ∀ value, s.request ≠ some (setting, value)) :
    s.asked setting = s.g_ConfigParam setting := by
  unfold CameraControl.asked
  split
  · next request pending =>
    refine if_neg fun same => ?_
    exact others request.2 (by rw [pending, ← same])
  · rfl

theorem Follows.ask (follows : Follows h263 s) (idle : s.request = none) : Follows h263
    { s.SendCameraMsg (.set setting value) true with request := some (setting, value) } := by
  refine ⟨fun other sent => ?_, follows.has⟩
  refine (congrArg (lastWrite other) (writes_send_set s setting value)).trans ?_
  rw [lastWrite_append]
  unfold CameraControl.asked
  by_cases same : setting = other
  · simp [same]
  · rw [if_neg same, follows.last other sent, asked_idle idle]
    exact congrArg some (if_neg same).symm

theorem Follows.store (follows : Follows h263 s) (pending : s.request = some (setting, value)) :
    Follows h263 { s with
      g_ConfigParam := Function.update s.g_ConfigParam setting value
      request := none } := by
  refine ⟨fun other sent => (follows.last other sent).trans ?_, follows.has⟩
  unfold CameraControl.asked
  rw [pending]
  by_cases same : setting = other
  · simp [same]
  · simp [same, Ne.symm same]

theorem Follows.start (follows : Follows h263 s) {n : Nat} (here : s.place = .initial n)
    (next : SetCameraInitState[n]? = some (some setting))
    (others : ∀ value, s.request ≠ some (setting, value)) : Follows h263
      { s.SendCameraMsg (.set setting (s.g_ConfigParam setting)) true with
        place := .initial (n + 1) } := by
  refine ⟨fun other sent => ?_, follows.has⟩
  refine (congrArg (lastWrite other) (writes_send_set s setting _)).trans ?_
  rw [lastWrite_append]
  change _ = some (s.asked other)
  split
  · next same =>
    rw [← same, asked_other others]
  · next different =>
    rcases sent_next next sent with before | new
    · exact follows.last other (here ▸ before)
    · cases new
      exact absurd rfl different

theorem Follows.tell (follows : Follows h263 s) {rt : Bool} {rest : List CameraMsg}
    {done : Drivers × WebCamState} (here : s.place = .running)
    (head : s.g_pMsgCamera = .set setting value :: rest)
    (sets : SetTo h263 s.g_WebCamState setting value rt done) : Follows h263
      { s with
        g_pMsgCamera := rest
        drivers := done.1
        g_WebCamState := done.2
        told := s.told ++ [(setting, value)]
        refused := Function.update s.refused setting (!rt) } := by
  constructor
  · intro other sent
    refine Eq.trans (congrArg (lastWrite other) ?_) (follows.last other (by rw [here]; trivial))
    simp [CameraControl.writes, head, CameraMsg.write]
  · intro other lData u last heard takes
    dsimp only at last heard ⊢
    rcases eq_or_ne other setting with rfl | different
    · rw [lastWrite_self] at last
      cases last
      rw [Function.update_self] at heard
      exact sets.takes u (fun audio => by simpa using heard audio) takes
    · rw [lastWrite_other different.symm] at last
      rw [Function.update_of_ne different] at heard
      rw [sets.others other different]
      exact follows.has other lData u last heard takes

theorem Follows.step (follows : Follows h263 s) (sound : Sound s)
    (step : Guarded InTurn (Steps h263) s action t) : Follows h263 t := by
  obtain ⟨inTurn, step⟩ := step
  cases effect_of_step step with
  | same => exact follows
  | asked idle fair =>
    cases inTurn
    exact follows.ask idle
  | stored pending => exact follows.store pending
  | bitrate => exact ⟨follows.last, follows.has⟩
  | sent plain =>
    refine ⟨fun setting sent => ?_, follows.has⟩
    rw [writes_send_plain s _ plain]
    exact follows.last setting sent
  | opened => exact ⟨fun setting sent => absurd sent (List.not_mem_nil), follows.has⟩
  | dropped here head next =>
    refine ⟨fun setting sent => ?_, follows.has⟩
    rcases next with rfl | rfl <;> exact sent.elim
  | @initial _ _ _ setting here next =>
    obtain ⟨rfl, others⟩ := inTurn
    have sending : s.place.sending = some setting := by
      rw [here, Place.sending, next]
      rfl
    rw [sending] at others
    refine follows.start here next fun value pending => ?_
    exact others.resolve_left (Option.some_ne_none _) (congrArg (Option.map Prod.fst) pending)
  | initialOther here next =>
    refine ⟨fun setting sent => ?_, follows.has⟩
    refine (congrArg (lastWrite setting) (writes_send_plain s _ rfl)).trans ?_
    rcases sent_next next sent with before | new
    · exact follows.last setting (here ▸ before)
    · cases new
  | started here next =>
    exact ⟨fun setting _ => follows.last setting (here ▸ sent_all next setting), follows.has⟩
  | @passed _ _ msg rest _ here head plain next =>
    refine ⟨fun setting sent => ?_, follows.has⟩
    have same : (msg :: rest).filterMap CameraMsg.write = rest.filterMap CameraMsg.write := by
      cases msg <;> first | rfl | cases plain
    refine Eq.trans (congrArg (lastWrite setting) ?_)
      (follows.last setting (by rw [here]; trivial))
    rw [CameraControl.writes, CameraControl.writes, head, same]
  | @told _ _ setting lData rest done here head set =>
    obtain ⟨done', set', sets⟩ := setTo h263 _ sound.noted (sound.agree (by rw [here]; rfl))
      (sound.queue setting lData (head ▸ List.mem_cons_self))
    cases set.symm.trans set'
    exact follows.tell here head sets

/-- In turn, and with memory for the messages: when the camera has started and all is told, it has
each setting of the configuration that it can take and that the audio device has not refused. -/
theorem settings_agree (fair : 0 ≤ (config .quality).toInt)
    (run : Run (Guarded InTurn (Steps h263)) (ResetCameraParam config sPlanarSize) actions s)
    (here : s.place = .running) (empty : s.g_pMsgCamera = []) (idle : s.request = none) {u : Nat}
    (takes : taken h263 (s.g_ConfigParam setting) setting = some u)
    (heard : setting.audio = true → s.refused setting = false) : s.g_WebCamState setting = u := by
  obtain ⟨-, follows⟩ := run.invariant (fun s => Sound s ∧ Follows h263 s)
    (fun _ _ _ both step => ⟨both.1.step step.2, both.2.step both.1 step⟩)
    ⟨sound_init fun _ => fair, follows_init⟩
  have last := follows.last setting (by rw [here]; trivial)
  rw [CameraControl.writes, empty, List.filterMap_nil, List.append_nil, asked_idle idle] at last
  exact follows.has setting _ u last heard takes

theorem settings_agree_brightness : ∃ s, Run (Guarded InTurn (Steps false))
    (ResetCameraParam (fun _ => 2) (0, 0))
    (.replicate 10 (.CameraThread true true) ++ [.ictlSet 1 .brightness 5 true, .store] ++
      .replicate 9 (.CameraThread true true)) s ∧ s.g_WebCamState .brightness = 5 := by
  obtain ⟨s, fold, here, empty, idle, config⟩ : ∃ s,
      (.replicate 10 (.CameraThread true true) ++ [.ictlSet 1 .brightness 5 true, .store] ++
        .replicate 9 (.CameraThread true true)).foldlM
          (fun s action => if InTurn s action then s.step false action else none)
          (ResetCameraParam (fun _ => 2) (0, 0)) = some s ∧ s.place = .running ∧
      s.g_pMsgCamera = [] ∧ s.request = none ∧ s.g_ConfigParam .brightness = 5 :=
    ⟨_, rfl, rfl, rfl, rfl, rfl⟩
  have run : Run (Guarded InTurn (Steps false)) _ _ s := Run.of_guarded_foldlM fold
  refine ⟨s, run, settings_agree (by decide) run here empty idle ?_ nofun⟩
  rw [config]
  rfl

/-- The start sends a brightness that a request has just asked to change, but not stored: the
camera has the old one when all is told, and the configuration the new one. -/
theorem request_crossed : ∃ s, Run (Steps false) (ResetCameraParam (fun _ => 2) (0, 0))
    (.replicate 5 (.CameraThread true true) ++ [.ictlSet 1 .brightness 5 true,
      .CameraThread true true, .store] ++ .replicate 13 (.CameraThread true true)) s ∧
    s.place = .running ∧ s.g_pMsgCamera = [] ∧ s.request = none ∧
    s.g_ConfigParam .brightness = 5 ∧ s.g_WebCamState .brightness = 2 := by
  obtain ⟨s, fold, ends⟩ : ∃ s, (.replicate 5 (.CameraThread true true) ++
      [.ictlSet 1 .brightness 5 true, .CameraThread true true, .store] ++
      .replicate 13 (.CameraThread true true)).foldlM (CameraControl.step false)
        (ResetCameraParam (fun _ => 2) (0, 0)) = some s ∧
      s.place = .running ∧ s.g_pMsgCamera = [] ∧ s.request = none ∧
      s.g_ConfigParam .brightness = 5 ∧ s.g_WebCamState .brightness = 2 :=
    ⟨_, rfl, rfl, rfl, rfl, rfl, rfl⟩
  exact ⟨s, Run.of_foldlM (fun _ _ _ => id) fold, ends⟩

end

end Rovio.Controls
