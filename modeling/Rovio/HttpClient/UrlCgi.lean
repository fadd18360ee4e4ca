import Rovio.HttpClient.Delivery
import Rovio.Kit.Runs

/-! A page that the camera fetches for a browser. The thread of the HTTP client puts the response
into a small buffer and waits while it is full; the thread of the HTTP server empties it. -/
namespace Rovio.HttpClient

open Kit

/-! ### The code -/

/-- `sizeof(acBody)` in URLCGI_HTTPC. -/
def urlcgiSize : Nat := 64

/-- `acBody` up to `szBodyLen`. -/
structure URLCGI_HTTPC where
  acBody : Text
  bIsRequestOver : Bool
  bHasResponse : Bool
  bTransparent : Bool

/-- `rest` is what a call of URLCGI_HTTPCResponse has not put into `acBody` yet. The browser's
request is open, FillURLCGIData ends its page, and URLCGI_RequestOver, which closes it, sends for
URLCGI_DelFD. `responses` and `delivered` are histories of the calls. -/
structure UrlCgi where
  pHttpC : URLCGI_HTTPC
  rest : Option Text
  isOpen : Bool
  isEnded : Bool
  isDeleted : Bool
  header : Bool
  page : Text
  responses : Nat
  delivered : Text

/-- After Http_SendHttpRequest; ObjInit cleared the object. -/
def UrlCgi.init (bTransparent : Bool) : UrlCgi where
  pHttpC := ⟨[], false, false, bTransparent⟩
  rest := none
  isOpen := true
  isEnded := false
  isDeleted := false
  header := !bTransparent
  page := []
  responses := 0
  delivered := []

def noResponse : Text := "<!--no response-->".toList

/-- The loop of URLCGI_HTTPCResponse up to where it waits. -/
def UrlCgi.copy (s : UrlCgi) (rest : Text) : UrlCgi :=
  if rest = [] then { s with rest := none }
  else if s.pHttpC.acBody.length > 0 then { s with rest := some rest }
  else
    let left := rest.drop urlcgiSize
    { s with
      pHttpC := { s.pHttpC with acBody := rest.take urlcgiSize }
      rest := if left = [] then none else some left }

def UrlCgi.URLCGI_HTTPCResponse (s : UrlCgi) (acResponse : Text) : UrlCgi :=
  { s with
    pHttpC := { s.pHttpC with bHasResponse := true }
    responses := s.responses + 1
    delivered := s.delivered ++ acResponse }.copy acResponse

def UrlCgi.FillURLCGIData (s : UrlCgi) : UrlCgi :=
  if s.pHttpC.acBody.length > 0 then
    { s with page := s.page ++ s.pHttpC.acBody, pHttpC := { s.pHttpC with acBody := [] } }
  else if s.pHttpC.bIsRequestOver then
    if ¬ s.pHttpC.bHasResponse then
      { s with
        pHttpC := { s.pHttpC with bHasResponse := true }
        header := s.header || s.pHttpC.bTransparent
        page := s.page ++ noResponse }
    else { s with isEnded := true }
  else s

inductive UrlCgiEvent
  | response (acResponse : Text)
  | wakes
  | requestOver
  | fill
  | close
  | delete

/-- The thread of the HTTP client makes the first three and the last one, that of the HTTP server
the others. A call of the client's thread that waits keeps it from everything else. -/
def UrlCgi.step (s : UrlCgi) : UrlCgiEvent → Option UrlCgi
  | .response acResponse =>
    if s.rest = none ∧ ¬ s.pHttpC.bIsRequestOver ∧ ¬ s.isDeleted then
      some (s.URLCGI_HTTPCResponse acResponse)
    else none
  | .wakes => s.rest.map fun rest => s.copy rest
  | .requestOver =>
    if s.rest = none ∧ ¬ s.pHttpC.bIsRequestOver ∧ ¬ s.isDeleted then
      some { s with pHttpC := { s.pHttpC with bIsRequestOver := true } }
    else none
  | .fill => if s.isOpen ∧ ¬ s.isEnded then some s.FillURLCGIData else none
  | .close => if s.isOpen then some { s with isOpen := false } else none
  | .delete =>
    if ¬ s.isOpen ∧ s.rest = none ∧ ¬ s.isDeleted then some { s with isDeleted := true } else none

/-! ### What the browser is given -/

variable {s t : UrlCgi} {e : UrlCgiEvent}

/-- What has been delivered is on the page, in the buffer, or with the call that waits. -/
structure Relayed (s : UrlCgi) : Prop where
  all : 0 < s.responses → s.page ++ s.pHttpC.acBody ++ s.rest.getD [] = s.delivered
  has : 0 < s.responses → s.pHttpC.bHasResponse = true
  silent : s.responses = 0 → s.pHttpC.acBody = [] ∧ s.rest = none ∧ s.delivered = [] ∧
    (s.pHttpC.bHasResponse = false ∧ s.page = [] ∨
      s.pHttpC.bHasResponse = true ∧ s.page = noResponse ∧ s.header = true ∧
        s.pHttpC.bIsRequestOver = true)
  isOver : s.pHttpC.bIsRequestOver = true → s.rest = none
  rest : s.rest ≠ some []
  header : s.header = true ∨ s.pHttpC.bTransparent = true
  ended : s.isEnded = true → s.pHttpC.bIsRequestOver = true ∧ s.pHttpC.bHasResponse = true ∧
    s.pHttpC.acBody = []
  room : s.pHttpC.acBody.length ≤ urlcgiSize

theorem relayed_init (bTransparent : Bool) : Relayed (.init bTransparent) where
  all := fun some => absurd some (Nat.lt_irrefl 0)
  has := fun some => absurd some (Nat.lt_irrefl 0)
  silent := fun _ => ⟨rfl, rfl, rfl, .inl ⟨rfl, rfl⟩⟩
  isOver := fun _ => rfl
  rest := nofun
  header := by cases bTransparent <;> simp [UrlCgi.init]
  ended := nofun
  room := Nat.zero_le _

/-- The call puts what fits into the buffer and waits or returns. -/
theorem Relayed.copy {rest : Text} (some : 0 < s.responses)
    (all : s.page ++ s.pHttpC.acBody ++ rest = s.delivered) (has : s.pHttpC.bHasResponse = true)
    (running : s.pHttpC.bIsRequestOver = false) (shows : s.isEnded = false)
    (header : s.header = true ∨ s.pHttpC.bTransparent = true)
    (room : s.pHttpC.acBody.length ≤ urlcgiSize) : Relayed (s.copy rest) := by
  unfold UrlCgi.copy
  split
  · next done =>
    subst done
    refine ⟨fun _ => all, fun _ => has, fun no => absurd no (Nat.ne_of_gt some), fun _ => rfl,
      nofun, header, ?_, room⟩
    simp [shows]
  · next more =>
    split
    · refine ⟨fun _ => all, fun _ => has, fun no => absurd no (Nat.ne_of_gt some), ?_, ?_, header,
        ?_, room⟩
      · simp [running]
      · simpa using more
      · simp [shows]
    · next empty =>
      have body : s.pHttpC.acBody = [] := List.eq_nil_of_length_eq_zero (by omega)
      rw [body, List.append_nil] at all
      refine ⟨fun _ => ?_, fun _ => has, fun no => absurd no (Nat.ne_of_gt some), ?_, ?_, header,
        ?_, List.length_take_le ..⟩
      · rw [← all, List.append_assoc]
        congr 1
        dsimp only
        split
        · next last => simpa [last] using List.take_append_drop urlcgiSize rest
        · exact List.take_append_drop urlcgiSize rest
      · simp [running]
      · dsimp only
        split
        · nofun
        · next left => exact fun none => left (Option.some.inj none)
      · simp [shows]

theorem Relayed.shows (relayed : Relayed s) (running : s.pHttpC.bIsRequestOver = false) :
    s.isEnded = false := by
  cases ended : s.isEnded with
  | false => rfl
  | true =>
    rw [(relayed.ended ended).1] at running
    cases running

theorem Relayed.fill (relayed : Relayed s) : Relayed s.FillURLCGIData := by
  obtain ⟨all, has, silent, isOver, rest, header, ended, room⟩ := relayed
  unfold UrlCgi.FillURLCGIData
  split
  · next some =>
    refine ⟨fun called => ?_, has, fun no => ?_, isOver, rest, header, fun last => ?_,
      Nat.zero_le _⟩
    · rw [← all called, List.append_nil]
    · rw [(silent no).1] at some
      exact absurd some (Nat.lt_irrefl 0)
    · rw [(ended last).2.2] at some
      exact absurd some (Nat.lt_irrefl 0)
  · next empty =>
    have body : s.pHttpC.acBody = [] := List.eq_nil_of_length_eq_zero (by omega)
    split
    · next last =>
      split
      · next unheard =>
        have no : s.responses = 0 := by
          by_contra some
          exact unheard (has (Nat.pos_of_ne_zero some))
        obtain ⟨-, idle, delivered, page⟩ := silent no
        have blank : s.page = [] := by
          rcases page with ⟨-, page⟩ | ⟨heard, -⟩
          · exact page
          · exact absurd heard unheard
        refine ⟨fun some => absurd no (Nat.ne_of_gt some), fun _ => rfl, fun _ => ?_, isOver, rest,
          .inl ?_, fun _ => ⟨last, rfl, body⟩, room⟩
        · refine ⟨body, idle, delivered, .inr ⟨rfl, by simp [blank], ?_, last⟩⟩
          simpa using header
        · simpa using header
      · next heard =>
        exact ⟨all, has, silent, isOver, rest, header, fun _ => ⟨last, not_not.mp heard, body⟩,
          room⟩
    · exact ⟨all, has, silent, isOver, rest, header, ended, room⟩

theorem Relayed.step (relayed : Relayed s) (step : s.step e = some t) : Relayed t := by
  cases e with
  | response acResponse =>
    obtain ⟨⟨idle, running, -⟩, step⟩ := Option.ite_none_right_eq_some.mp step
    cases step
    have running : s.pHttpC.bIsRequestOver = false := Bool.not_eq_true _ ▸ running
    refine Relayed.copy (Nat.succ_pos _) ?_ rfl running (relayed.shows running) relayed.header
      relayed.room
    dsimp only
    rcases Nat.eq_zero_or_pos s.responses with no | some
    · obtain ⟨body, -, delivered, page⟩ := relayed.silent no
      have blank : s.page = [] := by
        rcases page with ⟨-, page⟩ | ⟨-, -, -, isOver⟩
        · exact page
        · rw [running] at isOver
          cases isOver
      simp [blank, body, delivered]
    · have before := relayed.all some
      rw [idle, Option.getD_none, List.append_nil] at before
      rw [before]
  | wakes =>
    obtain ⟨rest, waits, rfl⟩ := Option.map_eq_some_iff.mp step
    have some : 0 < s.responses := by
      by_contra no
      rw [(relayed.silent (by omega)).2.1] at waits
      cases waits
    have running : s.pHttpC.bIsRequestOver = false := by
      by_contra isOver
      rw [relayed.isOver (by simpa using isOver)] at waits
      cases waits
    have all := relayed.all some
    rw [waits] at all
    exact Relayed.copy some all (relayed.has some) running (relayed.shows running) relayed.header
      relayed.room
  | requestOver =>
    obtain ⟨⟨idle, running, -⟩, step⟩ := Option.ite_none_right_eq_some.mp step
    cases step
    have silent : s.responses = 0 → s.pHttpC.acBody = [] ∧ s.rest = none ∧ s.delivered = [] ∧
        (s.pHttpC.bHasResponse = false ∧ s.page = [] ∨
          s.pHttpC.bHasResponse = true ∧ s.page = noResponse ∧ s.header = true ∧ true = true) := by
      intro no
      obtain ⟨body, idle, delivered, page⟩ := relayed.silent no
      exact ⟨body, idle, delivered, page.imp_right fun told => ⟨told.1, told.2.1, told.2.2.1, rfl⟩⟩
    exact ⟨relayed.all, relayed.has, silent, fun _ => idle, relayed.rest, relayed.header,
      fun last => ⟨rfl, (relayed.ended last).2⟩, relayed.room⟩
  | fill =>
    obtain ⟨-, step⟩ := Option.ite_none_right_eq_some.mp step
    cases step
    exact relayed.fill
  | close =>
    obtain ⟨-, step⟩ := Option.ite_none_right_eq_some.mp step
    cases step
    exact ⟨relayed.all, relayed.has, relayed.silent, relayed.isOver, relayed.rest, relayed.header,
      relayed.ended, relayed.room⟩
  | delete =>
    obtain ⟨-, step⟩ := Option.ite_none_right_eq_some.mp step
    cases step
    exact ⟨relayed.all, relayed.has, relayed.silent, relayed.isOver, relayed.rest, relayed.header,
      relayed.ended, relayed.room⟩

/-- The steps of the two threads in any order, from the request on. -/
abbrev UrlCgiRun := Run fun (s : UrlCgi) e t => s.step e = some t

theorem Relayed.run {es : List UrlCgiEvent} (relayed : Relayed s) (run : UrlCgiRun s es t) :
    Relayed t :=
  run.invariant Relayed (fun _ _ _ relayed step => relayed.step step) relayed

theorem Relayed.page_ended (relayed : Relayed s) (ended : s.isEnded = true) :
    s.page = if s.responses = 0 then noResponse else s.delivered := by
  obtain ⟨isOver, heard, body⟩ := relayed.ended ended
  split
  · next no =>
    rcases (relayed.silent no).2.2.2 with ⟨unheard, -⟩ | ⟨-, page, -⟩
    · rw [heard] at unheard
      cases unheard
    · exact page
  · next some =>
    rw [← relayed.all (Nat.pos_of_ne_zero some), body, relayed.isOver isOver]
    simp

/-- The HTTP server only asks for more, and the waiting call only goes on. -/
def Serving (e : UrlCgiEvent) : Prop := e = .fill ∨ e = .wakes

/-- Nothing is left to be put on the page, and otherwise all is as before. -/
structure Drained (s t : UrlCgi) : Prop where
  rest : t.rest = none
  body : t.pHttpC.acBody = []
  isOpen : t.isOpen = s.isOpen
  isEnded : t.isEnded = s.isEnded
  isOver : t.pHttpC.bIsRequestOver = s.pHttpC.bIsRequestOver
  responses : t.responses = s.responses
  delivered : t.delivered = s.delivered

theorem emptied (shows : s.isOpen = true ∧ s.isEnded = false) (some : s.pHttpC.acBody ≠ []) :
    s.step .fill = .some { s with
      page := s.page ++ s.pHttpC.acBody, pHttpC := { s.pHttpC with acBody := [] } } := by
  have more : s.pHttpC.acBody.length > 0 := List.length_pos_iff.mpr some
  simp [UrlCgi.step, UrlCgi.FillURLCGIData, shows, more]

/-- The waiting call puts the next part into the empty buffer. -/
theorem copied {r : Text} (waits : s.rest = some r) (more : r ≠ []) (body : s.pHttpC.acBody = []) :
    ∃ t, s.step .wakes = some t ∧ t.rest ≠ some [] ∧ (t.rest.getD []).length < r.length ∧
      t.isOpen = s.isOpen ∧ t.isEnded = s.isEnded ∧
      t.pHttpC.bIsRequestOver = s.pHttpC.bIsRequestOver ∧ t.responses = s.responses ∧
      t.delivered = s.delivered := by
  have some : 0 < r.length := List.length_pos_iff.mpr more
  refine ⟨s.copy r, by simp [UrlCgi.step, waits], ?_⟩
  unfold UrlCgi.copy
  rw [if_neg more, if_neg (by simp [body])]
  dsimp only
  split
  · exact ⟨nofun, some, rfl, rfl, rfl, rfl, rfl⟩
  · next left =>
    refine ⟨fun none => left (Option.some.inj none), ?_, rfl, rfl, rfl, rfl, rfl⟩
    rw [Option.getD_some, List.length_drop]
    unfold urlcgiSize
    omega

theorem drains (shows : s.isOpen = true ∧ s.isEnded = false) (rest : s.rest ≠ some []) :
    ∃ es t, (∀ e ∈ es, Serving e) ∧ UrlCgiRun s es t ∧ Drained s t := by
  induction left : (s.rest.getD []).length using Nat.strongRecOn generalizing s with
  | ind n ih =>
    have cleared : ∃ es u, (∀ e ∈ es, Serving e) ∧ UrlCgiRun s es u ∧ u = { s with
        page := u.page, pHttpC := { s.pHttpC with acBody := [] } } := by
      by_cases body : s.pHttpC.acBody = []
      · refine ⟨[], s, by simp, .nil s, ?_⟩
        rw [← body]
      · exact ⟨[.fill], _, by simp [Serving], .cons (emptied shows body) (.nil _), rfl⟩
    obtain ⟨es, u, serving, run, same⟩ := cleared
    cases waits : s.rest with
    | none =>
      refine ⟨es, u, serving, run, ?_⟩
      rw [same]
      exact ⟨waits, rfl, rfl, rfl, rfl, rfl, rfl⟩
    | some r =>
      have still : u.rest = some r := by rw [same, waits]
      have more : r ≠ [] := fun none => rest (none ▸ waits)
      obtain ⟨v, wakes, rest', fewer, isOpen, isEnded, isOver, responses, delivered⟩ :=
        copied still more (by rw [same])
      rw [same] at isOpen isEnded isOver responses delivered
      rw [waits] at left
      obtain ⟨es', t, serving', run', drained⟩ :=
        ih _ (left ▸ fewer) ⟨isOpen.trans shows.1, isEnded.trans shows.2⟩ rest' rfl
      refine ⟨es ++ .wakes :: es', t, ?_, run.append (.cons wakes run'), drained.rest, drained.body,
        drained.isOpen.trans isOpen, drained.isEnded.trans isEnded, drained.isOver.trans isOver,
        drained.responses.trans responses, drained.delivered.trans delivered⟩
      simp only [List.forall_mem_append, List.forall_mem_cons]
      exact ⟨serving, .inr rfl, serving'⟩

/-- Once the request is over and the buffer empty, two more calls end the page. -/
theorem fills_end (shows : s.isOpen = true ∧ s.isEnded = false) (body : s.pHttpC.acBody = [])
    (isOver : s.pHttpC.bIsRequestOver = true) :
    ∃ es t, (∀ e ∈ es, Serving e) ∧ UrlCgiRun s es t ∧ t.isEnded = true ∧ t.rest = s.rest ∧
      t.responses = s.responses ∧ t.delivered = s.delivered := by
  have fill : ∀ u : UrlCgi, u.isOpen = true ∧ u.isEnded = false → u.pHttpC.acBody = [] →
      u.pHttpC.bIsRequestOver = true → u.pHttpC.bHasResponse = true →
      u.step .fill = some { u with isEnded := true } := by
    intro u shows body isOver heard
    simp [UrlCgi.step, UrlCgi.FillURLCGIData, shows, body, isOver, heard]
  by_cases heard : s.pHttpC.bHasResponse = true
  · exact ⟨[.fill], _, by simp [Serving], .cons (fill s shows body isOver heard) (.nil _), rfl, rfl,
      rfl, rfl⟩
  · have told : s.step .fill = some { s with
        pHttpC := { s.pHttpC with bHasResponse := true }
        header := s.header || s.pHttpC.bTransparent
        page := s.page ++ noResponse } := by
      simp [UrlCgi.step, UrlCgi.FillURLCGIData, shows, body, isOver, heard]
    exact ⟨[.fill, .fill], _, by simp [Serving],
      .cons told (.cons (fill _ shows body isOver rfl) (.nil _)), rfl, rfl, rfl, rfl⟩

/-- What is on the page is the front of the response, and all of it, or that there was none, when
the page ends. While the browser waits, the calls that go on bring all that has been delivered, and
the end of the page once the request is over. -/
theorem page_relayed (bTransparent : Bool) (es : List UrlCgiEvent) (s : UrlCgi)
    (run : UrlCgiRun (.init bTransparent) es s) :
    (0 < s.responses → s.page <+: s.delivered) ∧
    (s.isEnded = true → s.page = if s.responses = 0 then noResponse else s.delivered) ∧
    (s.isOpen = true → s.isEnded = false → ∃ es t, (∀ e ∈ es, Serving e) ∧ UrlCgiRun s es t ∧
      t.rest = none ∧ (0 < s.responses → t.page = s.delivered) ∧
      (s.pHttpC.bIsRequestOver = true → t.isEnded = true)) := by
  have relayed := (relayed_init bTransparent).run run
  refine ⟨fun some => ?_, relayed.page_ended, fun isOpen isEnded => ?_⟩
  · have all := relayed.all some
    rw [List.append_assoc] at all
    exact ⟨_, all⟩
  · obtain ⟨es', u, serving, drain, drained⟩ := drains ⟨isOpen, isEnded⟩ relayed.rest
    have whole : 0 < s.responses → u.page = s.delivered := by
      intro some
      have all := (relayed.run drain).all (drained.responses ▸ some)
      rw [drained.body, drained.rest, drained.delivered] at all
      simpa using all
    cases isOver : s.pHttpC.bIsRequestOver with
    | false => exact ⟨es', u, serving, drain, drained.rest, whole, fun isOver => by cases isOver⟩
    | true =>
      obtain ⟨last, t, serving', finish, ended, rest, responses, delivered⟩ :=
        fills_end ⟨drained.isOpen.trans isOpen, drained.isEnded.trans isEnded⟩ drained.body
          (drained.isOver.trans isOver)
      refine ⟨es' ++ last, t, ?_, drain.append finish, rest.trans drained.rest, fun some => ?_,
        fun _ => ended⟩
      · exact List.forall_mem_append.mpr ⟨serving, serving'⟩
      · have page := ((relayed.run drain).run finish).page_ended ended
        rw [responses, drained.responses, if_neg (Nat.ne_of_gt some), delivered,
          drained.delivered] at page
        exact page

/-- Seventy characters take two fillings of the buffer. -/
theorem page_relayed_twice : ∃ s, UrlCgiRun (.init false)
    [.response (List.replicate 70 'a'), .fill, .wakes, .requestOver, .fill, .fill] s ∧
      s.isEnded = true ∧ s.page = List.replicate 70 'a' := by
  obtain ⟨s, fold, ended, responses, delivered⟩ : ∃ s, [.response (List.replicate 70 'a'), .fill,
      .wakes, .requestOver, .fill, .fill].foldlM UrlCgi.step (.init false) = some s ∧
      s.isEnded = true ∧ s.responses = 1 ∧ s.delivered = List.replicate 70 'a' :=
    ⟨_, rfl, rfl, rfl, rfl⟩
  have run : UrlCgiRun (.init false) _ s := Run.of_foldlM (fun _ _ _ => id) fold
  have page := (page_relayed false _ s run).2.1 ended
  rw [responses, delivered] at page
  exact ⟨s, run, ended, page⟩

/-! ### A browser that goes away -/

/-- Nobody empties the buffer any more, and a call waits. -/
structure Stalled (s t : UrlCgi) : Prop where
  isOpen : t.isOpen = false
  body : t.pHttpC.acBody ≠ []
  rest : t.rest = s.rest

theorem Stalled.step {u : UrlCgi} (stalled : Stalled s t) (waits : s.rest ≠ none)
    (more : s.rest ≠ some []) (step : t.step e = some u) : Stalled s u := by
  obtain ⟨isOpen, body, rest⟩ := stalled
  have busy : t.rest ≠ none := rest ▸ waits
  cases e with
  | response =>
    obtain ⟨⟨idle, -⟩, -⟩ := Option.ite_none_right_eq_some.mp step
    exact absurd idle busy
  | wakes =>
    obtain ⟨r, here, rfl⟩ := Option.map_eq_some_iff.mp step
    have some : r ≠ [] := by
      rintro rfl
      exact more (rest ▸ here)
    have full : t.pHttpC.acBody.length > 0 := List.length_pos_iff.mpr body
    rw [UrlCgi.copy, if_neg some, if_pos full]
    exact ⟨isOpen, body, here ▸ rest⟩
  | requestOver =>
    obtain ⟨⟨idle, -⟩, -⟩ := Option.ite_none_right_eq_some.mp step
    exact absurd idle busy
  | fill =>
    obtain ⟨⟨still, -⟩, -⟩ := Option.ite_none_right_eq_some.mp step
    rw [isOpen] at still
    cases still
  | close =>
    obtain ⟨still, -⟩ := Option.ite_none_right_eq_some.mp step
    rw [isOpen] at still
    cases still
  | delete =>
    obtain ⟨⟨-, idle, -⟩, -⟩ := Option.ite_none_right_eq_some.mp step
    exact absurd idle busy

theorem copy_isDeleted (rest : Text) : (s.copy rest).isDeleted = s.isDeleted := by
  unfold UrlCgi.copy
  split
  · rfl
  · split <;> rfl

theorem fill_kept : s.FillURLCGIData.isDeleted = s.isDeleted ∧
    s.FillURLCGIData.rest = s.rest := by
  unfold UrlCgi.FillURLCGIData
  split
  · exact ⟨rfl, rfl⟩
  · split
    · split <;> exact ⟨rfl, rfl⟩
    · exact ⟨rfl, rfl⟩

/-- The object is deleted when no call waits, and called no more. -/
theorem deleted_step (idle : s.isDeleted = true → s.rest = none) (step : s.step e = some t) :
    t.isDeleted = true → t.rest = none := by
  intro deleted
  cases e with
  | response acResponse =>
    obtain ⟨⟨-, -, there⟩, step⟩ := Option.ite_none_right_eq_some.mp step
    cases step
    rw [UrlCgi.URLCGI_HTTPCResponse, copy_isDeleted] at deleted
    exact absurd deleted there
  | wakes =>
    obtain ⟨rest, waits, rfl⟩ := Option.map_eq_some_iff.mp step
    rw [copy_isDeleted] at deleted
    rw [idle deleted] at waits
    cases waits
  | requestOver =>
    obtain ⟨⟨free, -⟩, step⟩ := Option.ite_none_right_eq_some.mp step
    cases step
    exact free
  | fill =>
    obtain ⟨-, step⟩ := Option.ite_none_right_eq_some.mp step
    cases step
    rw [fill_kept.1] at deleted
    rw [fill_kept.2]
    exact idle deleted
  | close =>
    obtain ⟨-, step⟩ := Option.ite_none_right_eq_some.mp step
    cases step
    exact idle deleted
  | delete =>
    obtain ⟨⟨-, free, -⟩, step⟩ := Option.ite_none_right_eq_some.mp step
    cases step
    exact free

theorem deleted_idle {es : List UrlCgiEvent} {bTransparent : Bool}
    (run : UrlCgiRun (.init bTransparent) es s) : s.isDeleted = true → s.rest = none :=
  run.invariant (fun s => s.isDeleted = true → s.rest = none)
    (fun _ _ _ idle step => deleted_step idle step) (fun _ => rfl)

/-- When the browser goes away while a call waits, that call never returns: the object is not
deleted, and the thread, which serves all other connections too, does nothing any more. -/
theorem closed_page_stalls (bTransparent : Bool) (es : List UrlCgiEvent) (s : UrlCgi)
    (run : UrlCgiRun (.init bTransparent) es s) (closed : s.isOpen = false)
    (full : s.pHttpC.acBody ≠ []) (waits : s.rest ≠ none) (more : List UrlCgiEvent) (t : UrlCgi)
    (later : UrlCgiRun s more t) : t.rest = s.rest ∧ t.isDeleted = false := by
  have relayed := (relayed_init bTransparent).run run
  have stalled : Stalled s t := later.invariant (Stalled s)
    (fun _ _ _ stalled step => stalled.step waits relayed.rest step) ⟨closed, full, rfl⟩
  refine ⟨stalled.rest, Bool.eq_false_iff.mpr fun deleted => waits ?_⟩
  exact stalled.rest ▸ deleted_idle (run.append later) deleted

theorem closed_page_stalls_at_once : ∃ s t, UrlCgiRun (.init false)
    [.response (List.replicate 70 'a'), .close] s ∧ UrlCgiRun s [.wakes, .wakes] t ∧
      t.rest = some (List.replicate 6 'a') ∧ t.isDeleted = false := by
  obtain ⟨s, t, fold, later, isOpen, body, rest⟩ : ∃ s t,
      [.response (List.replicate 70 'a'), .close].foldlM UrlCgi.step (.init false) = some s ∧
      [.wakes, .wakes].foldlM UrlCgi.step s = some t ∧ s.isOpen = false ∧
      s.pHttpC.acBody = List.replicate 64 'a' ∧ s.rest = some (List.replicate 6 'a') :=
    ⟨_, _, rfl, rfl, rfl, rfl, rfl⟩
  have run : UrlCgiRun (.init false) _ s := Run.of_foldlM (fun _ _ _ => id) fold
  have more : UrlCgiRun s _ t := Run.of_foldlM (fun _ _ _ => id) later
  obtain ⟨still, kept⟩ := closed_page_stalls false _ s run isOpen (by simp [body]) (by simp [rest])
    _ t more
  exact ⟨s, t, run, more, still.trans rest, kept⟩

end Rovio.HttpClient
