import Rovio.Kit.Feed

/-! How `HTTPC_Process` hands a response to its callback: what has been read is kept until it is
half a buffer, and the rest follows when the connection closes or times out. -/
namespace Rovio.HttpClient
open Kit

abbrev Text := List Char

/-- `sizeof(acBuffer) / 2`. -/
def halfBuffer : Nat := 512

/-- The buffer up to `iLenOK`, what the callback keeps, and whether ST_NET_OVER is next. -/
structure Httpc (S : Type) where
  acBuffer : Text
  response : S
  isOver : Bool

/-- What a call in ST_NET_READ finds: characters, nothing yet, the end of the connection (a hard
error is taken for it), or that the time is over. -/
inductive Arrival where
  | read (piece : Text)
  | again
  | close
  | timeout

variable {S : Type} {step : S → Char → S × Bool}

def httpcProcess (pfunOnResponse : S → Text → S × Bool) (pHttpFD : Httpc S) : Arrival → Httpc S
  | .read piece =>
    let acBuffer := pHttpFD.acBuffer ++ piece
    if halfBuffer ≤ acBuffer.length then
      let called := pfunOnResponse pHttpFD.response acBuffer
      if called.2 then ⟨[], called.1, false⟩ else ⟨acBuffer, called.1, true⟩
    else { pHttpFD with acBuffer := acBuffer }
  | .again => pHttpFD
  | .close | .timeout =>
    ⟨pHttpFD.acBuffer, (pfunOnResponse pHttpFD.response pHttpFD.acBuffer).1, true⟩

/-- The calls one after the other, until the request is over. -/
def receive (pfunOnResponse : S → Text → S × Bool) : Httpc S → List Arrival → Httpc S
  | pHttpFD, [] => pHttpFD
  | pHttpFD, arrival :: rest =>
    if pHttpFD.isOver then pHttpFD
    else receive pfunOnResponse (httpcProcess pfunOnResponse pHttpFD arrival) rest

def Arrival.piece : Arrival → Text
  | .read piece => piece
  | _ => []

/-- A read gives at most half a buffer. -/
def Arrival.Reads : Arrival → Prop
  | .read piece => piece ≠ [] ∧ piece.length ≤ halfBuffer
  | .again => True
  | _ => False

/-- A way in which a response arrives: in any pieces, and then the end. -/
structure Delivery (response : Text) where
  arrivals : List Arrival
  last : Arrival
  reads : ∀ arrival ∈ arrivals, arrival.Reads
  whole : arrivals.flatMap Arrival.piece = response
  ends : last = .close ∨ last = .timeout

def Delivery.run {response : Text} (delivery : Delivery response)
    (pfunOnResponse : S → Text → S × Bool) (s : S) : S :=
  (receive pfunOnResponse ⟨[], s, false⟩ (delivery.arrivals ++ [delivery.last])).response

theorem receive_over {pfunOnResponse : S → Text → S × Bool} {pHttpFD : Httpc S}
    (ended : pHttpFD.isOver = true) (arrivals : List Arrival) :
    receive pfunOnResponse pHttpFD arrivals = pHttpFD := by
  cases arrivals with
  | nil => rfl
  | cons arrival rest => exact if_pos ended

theorem receive_append {pfunOnResponse : S → Text → S × Bool} (pHttpFD : Httpc S)
    (left right : List Arrival) : receive pfunOnResponse pHttpFD (left ++ right) =
      receive pfunOnResponse (receive pfunOnResponse pHttpFD left) right := by
  induction left generalizing pHttpFD with
  | nil => rfl
  | cons arrival rest ih =>
    rw [List.cons_append, receive, receive]
    split
    · rename_i ended
      exact (receive_over ended right).symm
    · exact ih _

/-- What the callback has been fed: all but the buffer, or all that it would take. -/
def Fed (step : S → Char → S × Bool) (s : S) (text : Text) (pHttpFD : Httpc S) : Prop :=
  if pHttpFD.isOver then
    ∃ fed rest, text = fed ++ rest ∧ feed step s fed = (pHttpFD.response, false)
  else ∃ fed, text = fed ++ pHttpFD.acBuffer ∧ feed step s fed = (pHttpFD.response, true)

theorem fed_read {s : S} {text piece : Text} {pHttpFD : Httpc S} (fed : Fed step s text pHttpFD)
    (going : pHttpFD.isOver = false) :
    Fed step s (text ++ piece) (httpcProcess (feed step) pHttpFD (.read piece)) := by
  unfold Fed at fed
  rw [going, if_neg Bool.false_ne_true] at fed
  obtain ⟨before, rfl, more⟩ := fed
  unfold httpcProcess Fed
  dsimp only
  split
  · cases called : feed step pHttpFD.response (pHttpFD.acBuffer ++ piece) with
    | mk t taken =>
      have whole : feed step s (before ++ (pHttpFD.acBuffer ++ piece)) = _ := feed_more more
      rw [called, ← List.append_assoc] at whole
      cases taken with
      | true => exact ⟨_, (List.append_nil _).symm, whole⟩
      | false => exact ⟨_, [], (List.append_nil _).symm, whole⟩
  · rw [going, if_neg Bool.false_ne_true]
    exact ⟨before, List.append_assoc .., more⟩

theorem fed_receive {s : S} {text : Text} {pHttpFD : Httpc S} (fed : Fed step s text pHttpFD)
    (arrivals : List Arrival) (reads : ∀ arrival ∈ arrivals, arrival.Reads) :
    Fed step s (text ++ arrivals.flatMap Arrival.piece)
      (receive (feed step) pHttpFD arrivals) := by
  induction arrivals generalizing text pHttpFD with
  | nil =>
    rw [List.flatMap_nil, List.append_nil]
    exact fed
  | cons arrival rest ih =>
    obtain ⟨first, others⟩ := List.forall_mem_cons.mp reads
    rw [List.flatMap_cons, ← List.append_assoc, receive]
    cases ended : pHttpFD.isOver with
    | true =>
      rw [if_pos rfl]
      unfold Fed at fed ⊢
      rw [ended, if_pos rfl] at fed ⊢
      obtain ⟨before, after, rfl, stopped⟩ := fed
      refine ⟨before, after ++ (arrival.piece ++ rest.flatMap Arrival.piece), ?_, stopped⟩
      simp only [List.append_assoc]
    | false =>
      rw [if_neg Bool.false_ne_true]
      cases arrival with
      | read piece => exact ih (fed_read fed ended) others
      | again =>
        rw [show Arrival.piece .again = [] from rfl, List.append_nil]
        exact ih fed others
      | close | timeout => cases first

/-- However a response arrives, its callback ends as if it had got it at once. -/
theorem delivery_run {response : Text} (delivery : Delivery response) (s : S) :
    delivery.run (feed step) s = (feed step s response).1 := by
  have start : Fed step s [] ⟨[], s, false⟩ := ⟨[], rfl, rfl⟩
  have fed := fed_receive start delivery.arrivals delivery.reads
  rw [List.nil_append, delivery.whole] at fed
  unfold Delivery.run
  rw [receive_append]
  generalize receive (feed step) ⟨[], s, false⟩ delivery.arrivals = pHttpFD at fed ⊢
  unfold Fed at fed
  cases ended : pHttpFD.isOver with
  | true =>
    rw [ended, if_pos rfl] at fed
    obtain ⟨before, after, rfl, stopped⟩ := fed
    rw [receive_over ended, feed_stopped stopped]
  | false =>
    rw [ended, if_neg Bool.false_ne_true] at fed
    obtain ⟨before, rfl, more⟩ := fed
    rw [receive, ended, if_neg Bool.false_ne_true, receive, feed_more more]
    rcases delivery.ends with last | last <;> rw [last] <;> rfl

end Rovio.HttpClient
