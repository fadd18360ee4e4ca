import Rovio.Media.Decoder

/-! Where the token of `pcDecFlag` is. A start that the hardware refuses leaves it with nobody. -/
namespace Rovio.Media.Decoder
open Kit

universe u

/-- A thread that has taken the token has it on both semaphores or, in `vmp4decWaitOK`, on the
producer's alone; the number is that of the consumer's semaphore. -/
def Place.hand : Place → Option Nat
  | .produced _ _ | .ready _ => some 1
  | .looked _ _ => some 0
  | _ => none

inductive Owner (T : Type u) where
  | free
  | hardware
  | thread (t : T)
  | nobody

section
variable {T : Type u}

def System.EmptyHands (s : System T) : Prop := ∀ t, (s.threads t).hand = none

/-- The state of the semaphores, of the hardware and of the threads for each owner. -/
def System.Has (s : System T) : Owner T → Prop
  | .free => s.mp4.pcDecFlag = ⟨1, 0⟩ ∧ s.mp4.decoding = false ∧ s.EmptyHands
  | .hardware => s.mp4.pcDecFlag = ⟨0, 1⟩ ∧ s.mp4.decoding = true ∧ s.EmptyHands
  | .thread t => ∃ n, (s.threads t).hand = some n ∧ s.mp4.pcDecFlag = ⟨0, n⟩ ∧
      s.mp4.decoding = false ∧ ∀ u, u ≠ t → (s.threads u).hand = none
  | .nobody => s.mp4.pcDecFlag = ⟨0, 1⟩ ∧ s.mp4.decoding = false ∧ s.EmptyHands

def Action.thread : Action T → Option T
  | .prepare t _ | .lock t | .finish t | .call t _ | .produce t | .set t _ _ | .start t _
  | .callWait t | .wait t | .post t | .unlock t => some t
  | .callback _ => none

variable [DecidableEq T] {s s' : System T} {a : Action T} {t u : T} {o : Owner T} {mp4 : Mp4}
  {place : Place} {board : Board}

theorem put_self : (s.put mp4 t place).threads t = place := Function.update_self ..

theorem put_other (other : u ≠ t) : (s.put mp4 t place).threads u = s.threads u :=
  Function.update_of_ne other ..

theorem System.EmptyHands.put (empty : s.EmptyHands) (open_hand : place.hand = none) :
    (s.put mp4 t place).EmptyHands := by
  intro u
  rcases eq_or_ne u t with rfl | other
  · rwa [put_self]
  · rw [put_other other]
    exact empty u

/-- The thread with the token lets it go. -/
theorem emptyHands_put (others : ∀ u, u ≠ t → (s.threads u).hand = none)
    (open_hand : place.hand = none) : (s.put mp4 t place).EmptyHands := by
  intro u
  rcases eq_or_ne u t with rfl | other
  · rwa [put_self]
  · rw [put_other other]
    exact others u other

omit [DecidableEq T] in
/-- A thread with the token in hand is its owner. -/
theorem System.Has.holder {n : Nat} (has : s.Has o) (holds : (s.threads t).hand = some n) :
    s.mp4.pcDecFlag = ⟨0, n⟩ ∧ s.mp4.decoding = false ∧ o ≠ .nobody ∧
      ∀ u, u ≠ t → (s.threads u).hand = none := by
  have not_empty (empty : s.EmptyHands) : False := by
    have none := empty t
    rw [holds] at none
    cases none
  cases o with
  | free => exact (not_empty has.2.2).elim
  | hardware => exact (not_empty has.2.2).elim
  | nobody => exact (not_empty has.2.2).elim
  | thread v =>
    obtain ⟨m, held, flag, still, others⟩ := has
    rcases eq_or_ne t v with rfl | other
    · rw [holds] at held
      cases held
      exact ⟨flag, still, (by intro h; cases h), others⟩
    · have none := others t other
      rw [holds] at none
      cases none

omit [DecidableEq T] in
/-- Where the producer's semaphore can be taken, the token is free. -/
theorem System.Has.producer {n : Nat} (has : s.Has o) (token : s.mp4.pcDecFlag.producer = n + 1) :
    o = .free := by
  cases o with
  | free => rfl
  | hardware =>
    rw [has.1] at token
    cases token
  | thread v =>
    obtain ⟨m, _, flag, _⟩ := has
    rw [flag] at token
    cases token
  | nobody =>
    rw [has.1] at token
    cases token

/-- A step of a thread with empty hands that leaves them empty, the semaphores and the hardware. -/
theorem System.Has.put (has : s.Has o) (before : (s.threads t).hand = none)
    (flag : mp4.pcDecFlag = s.mp4.pcDecFlag) (hardware : mp4.decoding = s.mp4.decoding)
    (behind : place.hand = none) : (s.put mp4 t place).Has o := by
  cases o with
  | free => exact ⟨flag.trans has.1, hardware.trans has.2.1, has.2.2.put behind⟩
  | hardware => exact ⟨flag.trans has.1, hardware.trans has.2.1, has.2.2.put behind⟩
  | nobody => exact ⟨flag.trans has.1, hardware.trans has.2.1, has.2.2.put behind⟩
  | thread v =>
    obtain ⟨m, held, token, still, others⟩ := has
    have other : v ≠ t := by
      rintro rfl
      rw [held] at before
      cases before
    refine ⟨m, ?_, flag.trans token, hardware.trans still, ?_⟩
    · rwa [put_other other]
    · intro u off
      rcases eq_or_ne u t with rfl | elsewhere
      · rwa [put_self]
      · rw [put_other elsewhere]
        exact others u off

/-- A thread takes the token, or goes on with it. -/
theorem has_thread {n : Nat} (holds : place.hand = some n) (flag : mp4.pcDecFlag = ⟨0, n⟩)
    (still : mp4.decoding = false) (others : ∀ u, u ≠ t → (s.threads u).hand = none) :
    (s.put mp4 t place).Has (.thread t) := by
  refine ⟨n, ?_, flag, still, ?_⟩
  · rwa [put_self]
  · intro u off
    rw [put_other off]
    exact others u off

@[simp] theorem hand_after (result : DecState) (caller : Caller) :
    (after result caller).hand = none := by
  cases caller <;> rfl

@[simp] theorem hand_started (caller : Caller) : (started caller).hand = none := by
  cases caller <;> rfl

/-- The start of the hardware has failed. -/
def Action.Fails : Action T → Prop
  | .start _ nRes => nRes ≠ 0
  | _ => False

/-- The token after the rest of `vmp4decStart`: the thread still has it, or it is free. -/
theorem setting_has {pMP4Header : List UInt8} {caller : Caller} {nDecoderRes : Int}
    {mp4decinf : Mp4DecInfo} (flag : s.mp4.pcDecFlag = ⟨0, 1⟩) (still : s.mp4.decoding = false)
    (others : ∀ u, u ≠ t → (s.threads u).hand = none)
    (setting : Setting board s.mp4 pMP4Header caller nDecoderRes mp4decinf mp4 place) :
    ∃ o', (s.put mp4 t place).Has o' ∧ o' ≠ .nobody := by
  cases setting with
  | skip => exact ⟨.thread t, has_thread rfl flag still others, by intro h; cases h⟩
  | fit => exact ⟨.thread t, has_thread rfl flag still others, by intro h; cases h⟩
  | unfit init bad consume =>
    rw [flag] at consume
    cases consume
    exact ⟨.free, ⟨rfl, still, emptyHands_put others (hand_after _ _)⟩, by intro h; cases h⟩

/-- The step lemma: the token gets lost where the hardware refuses the start, and never comes
back. -/
theorem System.Has.step (has : s.Has o) (step : Step board s a s') :
    ∃ o', s'.Has o' ∧ (o' = .nobody ↔ o = .nobody ∨ a.Fails) := by
  have idle {mp4 : Mp4} {t : T} {place : Place} (before : (s.threads t).hand = none)
      (flag : mp4.pcDecFlag = s.mp4.pcDecFlag) (hardware : mp4.decoding = s.mp4.decoding)
      (behind : place.hand = none) :
      ∃ o', (s.put mp4 t place).Has o' ∧ (o' = .nobody ↔ o = .nobody ∨ False) :=
    ⟨o, has.put before flag hardware behind, by rw [or_false]⟩
  cases step with
  | prepare here => exact idle (by rw [here]; rfl) rfl rfl rfl
  | lock here free => exact idle (by rw [here]; rfl) rfl rfl rfl
  | finish here => exact idle (by rw [here]; rfl) rfl rfl rfl
  | call here => exact idle (by rw [here]; rfl) rfl rfl rfl
  | refuse here => exact idle (by rw [here]; rfl) rfl rfl (hand_after _ _)
  | callWait here => exact idle (by rw [here]; rfl) rfl rfl rfl
  | unlock here => exact idle (by rw [here]; rfl) rfl rfl rfl
  | produce here produce =>
    obtain rfl := has.producer (ttPcTryProduce_eq_some.mp produce).1
    obtain ⟨flag, still, empty⟩ := has
    rw [flag] at produce
    cases produce
    exact ⟨.thread _, has_thread rfl rfl still (fun u _ => empty u), by simp [Action.Fails]⟩
  | set here setting =>
    obtain ⟨flag, still, known, others⟩ := has.holder (by rw [here]; rfl)
    obtain ⟨o', has', known'⟩ := setting_has flag still others setting
    exact ⟨o', has', by simp [known, known', Action.Fails]⟩
  | start here =>
    obtain ⟨flag, still, known, others⟩ := has.holder (by rw [here]; rfl)
    exact ⟨.hardware, ⟨flag, rfl, emptyHands_put others (hand_started _)⟩,
      by simp [known, Action.Fails]⟩
  | fail here failed =>
    obtain ⟨flag, still, known, others⟩ := has.holder (by rw [here]; rfl)
    exact ⟨.nobody, ⟨flag, still, emptyHands_put others (hand_after _ _)⟩,
      by simp [Action.Fails, failed]⟩
  | wait here free =>
    obtain rfl := has.producer free
    obtain ⟨flag, still, empty⟩ := has
    rw [flag] at free
    cases free
    exact ⟨.thread _, has_thread rfl (by rw [flag]) still (fun u _ => empty u),
      by simp [Action.Fails]⟩
  | post here =>
    obtain ⟨flag, still, known, others⟩ := has.holder (by rw [here]; rfl)
    exact ⟨.free, ⟨by rw [flag]; rfl, still, emptyHands_put others (hand_after _ _)⟩,
      by simp [known, Action.Fails]⟩
  | callback busy =>
    cases o with
    | free => exact absurd (has.2.1.symm.trans busy) (by decide)
    | nobody => exact absurd (has.2.1.symm.trans busy) (by decide)
    | thread v =>
      obtain ⟨m, _, _, still, _⟩ := has
      exact absurd (still.symm.trans busy) (by decide)
    | hardware =>
      obtain ⟨flag, _, empty⟩ := has
      refine ⟨.free, ⟨?_, rfl, empty⟩, by simp [Action.Fails]⟩
      change (ttPcTryConsume s.mp4.pcDecFlag).getD s.mp4.pcDecFlag = ⟨1, 0⟩
      rw [flag]
      rfl

/-- The run lemma. -/
theorem System.Has.run {as : List (Action T)} (has : s.Has o) (run : Run (Step board) s as s') :
    ∃ o', s'.Has o' ∧ (o' = .nobody ↔ o = .nobody ∨ ∃ a ∈ as, a.Fails) := by
  induction run generalizing o with
  | nil => exact ⟨o, has, by simp⟩
  | cons step _ ih =>
    obtain ⟨mid, has, lost⟩ := has.step step
    obtain ⟨o', has', lost'⟩ := ih has
    refine ⟨o', has', ?_⟩
    simp only [lost', lost, List.exists_mem_cons_iff, or_assoc]

/-- A thread with the token in hand is not blocked. -/
theorem System.Has.goes_on (has : s.Has o) (holds : (s.threads t).hand ≠ none) :
    ∃ a s', a.thread = some t ∧ Step board s a s' := by
  cases here : s.threads t with
  | produced pMP4Header caller =>
    obtain ⟨flag, _⟩ := has.holder (t := t) (n := 1) (by rw [here]; rfl)
    have consume : ttPcTryConsume s.mp4.pcDecFlag = some ⟨1, 0⟩ := by
      rw [flag]
      rfl
    cases init : !s.mp4.bDecInit || startsSequence pMP4Header with
    | false =>
      have setting : Setting board s.mp4 pMP4Header caller 0 ⟨0, 0⟩ _ _ := .skip init
      exact ⟨_, _, rfl, .set here setting⟩
    | true =>
      have setting : Setting board s.mp4 pMP4Header caller 1 ⟨0, 0⟩ _ _ := .unfit init rfl consume
      exact ⟨_, _, rfl, .set here setting⟩
  | ready caller => exact ⟨_, _, rfl, .start here⟩
  | looked eDecState caller => exact ⟨_, _, rfl, .post here⟩
  | outside | frames | starting | waiting | ended =>
    rw [here] at holds
    exact absurd rfl holds

/-- Where the hardware is still, the producer's token is there, or a thread has it in hand and is
not blocked. -/
def System.Available (board : Board) (s : System T) : Prop :=
  s.mp4.decoding = false →
    s.mp4.pcDecFlag.producer = 1 ∨
      ∃ t, (s.threads t).hand ≠ none ∧ ∃ a s', a.thread = some t ∧ Step board s a s'

theorem System.Has.available (has : s.Has o) : s.Available board ↔ o ≠ .nobody := by
  constructor
  · rintro available rfl
    obtain ⟨flag, still, empty⟩ := has
    rcases available still with token | ⟨t, holds, _⟩
    · rw [flag] at token
      cases token
    · exact holds (empty t)
  · intro known still
    cases o with
    | free =>
      rw [has.1]
      exact .inl rfl
    | hardware => exact absurd (has.2.1.symm.trans still) (by decide)
    | thread t =>
      have holds : (s.threads t).hand ≠ none := by
        obtain ⟨n, holds, _⟩ := has
        rw [holds]
        intro h
        cases h
      exact .inr ⟨t, holds, has.goes_on holds⟩
    | nobody => exact absurd rfl known

end

/-- The token is there, or on its way back, in just the runs in which no start of the hardware has
failed. -/
theorem decoder_token {T : Type u} [DecidableEq T] {board : Board} {s s' : System T}
    {as : List (Action T)} (initial : s.Initial) (run : Run (Step board) s as s') :
    s'.Available board ↔ ∀ t nRes, .start t nRes ∈ as → nRes = 0 := by
  have free : s.Has .free :=
    ⟨initial.token, initial.still, fun t => by rw [initial.outside t]; rfl⟩
  obtain ⟨o, has, lost⟩ := free.run run
  rw [has.available, Ne, lost]
  constructor
  · intro kept t nRes taken
    by_contra failed
    exact kept (.inr ⟨_, taken, failed⟩)
  · rintro all (h | ⟨a, taken, failed⟩)
    · cases h
    · cases a with
      | start t nRes => exact failed (all t nRes taken)
      | _ => exact failed

/-- A board with room for 176 by 144, and one thread. -/
def board : Board := ⟨176 * 144, 4⟩

def initial : System Unit where
  mp4 := ⟨ttPcInit 1, .ok, false, ⟨0, 0⟩, 0, false, false⟩
  threads := fun _ => .outside

theorem initial_initial : initial.Initial := ⟨rfl, rfl, fun _ => rfl⟩

/-- One frame is decoded. -/
theorem decoder_token_frame :
    ∃ s', Run (Step board) initial [.prepare () [[0, 0, 1, 0xB6]], .lock (), .produce (),
      .set () 0 ⟨16, 16⟩, .start () 0, .callback .ok, .wait (), .post (), .unlock (), .finish ()]
      s' ∧ s'.Available board := by
  have run : Run (Step board) initial [.prepare () [[0, 0, 1, 0xB6]], .lock (), .produce (),
      .set () 0 ⟨16, 16⟩, .start () 0, .callback .ok, .wait (), .post (), .unlock (), .finish ()]
      _ :=
    .cons (.prepare rfl) (.cons (.lock rfl rfl) (.cons (.produce rfl rfl)
      (.cons (.set rfl (.fit rfl (by decide))) (.cons (.start rfl) (.cons (.callback rfl)
      (.cons (.wait rfl rfl) (.cons (.post rfl) (.cons (.unlock rfl)
      (.cons (.finish rfl) (.nil _))))))))))
  exact ⟨_, run, (decoder_token initial_initial run).mpr (by simp)⟩

/-- The hardware refuses the first start. -/
theorem decoder_token_lost :
    ¬ ∀ (s s' : System Unit) (as : List (Action Unit)), s.Initial → Run (Step board) s as s' →
      s'.Available board := by
  intro claim
  have run : Run (Step board) initial [.call () [0, 0, 1, 0xB6], .produce (), .set () 0 ⟨16, 16⟩,
      .start () 1] _ :=
    .cons (.call rfl) (.cons (.produce rfl rfl) (.cons (.set rfl (.fit rfl (by decide)))
      (.cons (.fail rfl (by decide)) (.nil _))))
  rcases claim _ _ _ initial_initial run rfl with token | ⟨t, holds, _⟩
  · cases token
  · exact holds rfl

end Rovio.Media.Decoder
