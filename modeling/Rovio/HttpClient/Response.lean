import Rovio.HttpClient.Delivery

/-! The parsers of what a DDNS service and the services that tell an address answer. -/
namespace Rovio.HttpClient
open Kit

inductive ResponseE where
  | line
  | cr
  | lf2
  | cr2
  | found
  deriving DecidableEq

inductive DDNSState where
  | noUpdate
  | updatting
  | updateOk
  | updateFail
  | checkIpOk
  deriving DecidableEq

/-- `sizeof(acBody)`. -/
def bodySize : Nat := 64

/-- What a parser keeps between its calls, the camera's `iDDNSState`, and the texts whose
addresses DDNS_Update_IP was called with. -/
structure Response where
  acBody : Text
  eResState : ResponseE
  iDDNSState : DDNSState
  updates : List Text
  deriving DecidableEq

def Response.init (iDDNSState : DDNSState) : Response := ⟨[], .line, iDDNSState, []⟩

def isAddress (c : Char) : Bool :=
  ('0' ≤ c && c ≤ '9') || c == '.' || c == '\t' || c == ' '

/-- The states up to the blank line, which the three parsers share. -/
def headStep : ResponseE → Char → ResponseE
  | .line, c => if c = '\n' then .cr else .line
  | .cr, c => if c = '\r' then .lf2 else if c = '\n' then .cr2 else .line
  | .lf2, c => if c = '\n' then .cr2 else .line
  | eResState, _ => eResState

/-- A character of the address, or the end of it. -/
def takeAddress (pHttpFD : Response) (c : Char) : Response × Bool :=
  if pHttpFD.acBody.length + 1 < bodySize then
    if isAddress c then ({ pHttpFD with acBody := pHttpFD.acBody ++ [c] }, true)
    else
      ({ pHttpFD with
          iDDNSState := .checkIpOk
          updates := pHttpFD.updates ++ [pHttpFD.acBody] }, false)
  else (pHttpFD, false)

def dyndnsChar (pHttpFD : Response) (c : Char) : Response × Bool :=
  match pHttpFD.eResState with
  | .cr2 => if c = ':' then ({ pHttpFD with eResState := .found }, true) else (pHttpFD, true)
  | .found => takeAddress pHttpFD c
  | eResState => ({ pHttpFD with eResState := headStep eResState c }, true)

def dnsomaticChar (pHttpFD : Response) (c : Char) : Response × Bool :=
  match pHttpFD.eResState with
  | .cr2 => takeAddress pHttpFD c
  | .found => (pHttpFD, false)
  | eResState => ({ pHttpFD with eResState := headStep eResState c }, true)

def ddnsChar (pHttpFD : Response) (c : Char) : Response × Bool :=
  match pHttpFD.eResState with
  | .cr2 =>
    if pHttpFD.acBody.length + 1 < bodySize then
      let acBody := pHttpFD.acBody ++ [c]
      if "nochg".toList <+: acBody ∨ "good".toList <+: acBody then
        ({ pHttpFD with acBody := acBody, iDDNSState := .updateOk }, false)
      else ({ pHttpFD with acBody := acBody }, true)
    else (pHttpFD, false)
  | .found => (pHttpFD, false)
  | eResState => ({ pHttpFD with eResState := headStep eResState c }, true)

def ckIPResponseDyndns : Response → Text → Response × Bool := feed dyndnsChar
def ckIPResponseDnsomatic : Response → Text → Response × Bool := feed dnsomaticChar
def ddnsResponse : Response → Text → Response × Bool := feed ddnsChar

def ckIPRequestOver (pHttpFD : Response) : Response :=
  if pHttpFD.iDDNSState = .checkIpOk then pHttpFD
  else { pHttpFD with iDDNSState := .updateFail }

def ddnsRequestOver (pHttpFD : Response) : Response :=
  if pHttpFD.iDDNSState = .updateOk then pHttpFD
  else { pHttpFD with iDDNSState := .updateFail }

inductive Parser where
  | dyndns
  | dnsomatic
  | ddns

def Parser.response : Parser → Response → Text → Response × Bool
  | .dyndns => ckIPResponseDyndns
  | .dnsomatic => ckIPResponseDnsomatic
  | .ddns => ddnsResponse

def Parser.requestOver : Parser → Response → Response
  | .dyndns | .dnsomatic => ckIPRequestOver
  | .ddns => ddnsRequestOver

/-- A whole request whose response comes in the given way. -/
def Parser.request (parser : Parser) {response : Text} (delivery : Delivery response)
    (iDDNSState : DDNSState) : Response :=
  parser.requestOver (delivery.run parser.response (.init iDDNSState))

/-- What follows the first blank line after the first line. -/
def bodyOf : Text → Option Text
  | '\n' :: '\n' :: rest => some rest
  | '\n' :: '\r' :: '\n' :: rest => some rest
  | _ :: rest => bodyOf rest
  | [] => none

def afterColon : Text → Option Text
  | [] => none
  | c :: rest => if c = ':' then some rest else afterColon rest

/-- Where the address is to begin. -/
def Parser.place : Parser → Text → Option Text
  | .dyndns, response => (bodyOf response).bind afterColon
  | .dnsomatic, response => bodyOf response
  | .ddns, _ => none

/-- The address text of a response. -/
def Parser.due (parser : Parser) (response : Text) : Option Text :=
  (parser.place response).map (List.takeWhile isAddress)

/-- However the response comes, the verdict is the same and the address is passed on. -/
structure Parses (parser : Parser) (response : Text) : Prop where
  same : ∀ (iDDNSState : DDNSState) (one other : Delivery response),
    (parser.request one iDDNSState).iDDNSState = (parser.request other iDDNSState).iDDNSState
  passed : ∀ (iDDNSState : DDNSState) (delivery : Delivery response),
    (parser.request delivery iDDNSState).updates = (parser.due response).toList

/-- The address, where there is to be one, leaves room in `acBody` and something follows it. -/
def Complete (parser : Parser) (response : Text) : Prop :=
  ∀ text ∈ parser.place response,
    (text.takeWhile isAddress).length + 1 < bodySize ∧ text.dropWhile isAddress ≠ []

def isHead : ResponseE → Bool
  | .line | .cr | .lf2 => true
  | .cr2 | .found => false

/-- The body of what is still to come, by what has come. -/
def bodyFrom : ResponseE → Text → Option Text
  | .line, text => bodyOf text
  | .cr, text => bodyOf ('\n' :: text)
  | .lf2, text => bodyOf ('\n' :: '\r' :: text)
  | .cr2, text | .found, text => some text

theorem bodyOf_cons {c : Char} (other : c ≠ '\n') (text : Text) :
    bodyOf (c :: text) = bodyOf text := by
  rw [bodyOf]
  · rintro _ rfl
    exact absurd rfl other
  · rintro _ rfl
    exact absurd rfl other

theorem bodyOf_line {c : Char} (noCr : c ≠ '\r') (noLf : c ≠ '\n') (text : Text) :
    bodyOf ('\n' :: c :: text) = bodyOf (c :: text) := by
  rw [bodyOf]
  · exact fun _ _ equal => noLf (List.cons.inj equal).1
  · exact fun _ _ equal => noCr (List.cons.inj equal).1

theorem bodyOf_cr {c : Char} (noLf : c ≠ '\n') (text : Text) :
    bodyOf ('\n' :: '\r' :: c :: text) = bodyOf ('\r' :: c :: text) := by
  rw [bodyOf]
  · intro _ _ equal
    exact absurd (List.cons.inj equal).1 (by decide)
  · exact fun _ _ equal => noLf (List.cons.inj (List.cons.inj equal).2).1

theorem bodyFrom_cons {eResState : ResponseE} (head : isHead eResState = true) (c : Char)
    (text : Text) :
    bodyFrom eResState (c :: text) = bodyFrom (headStep eResState c) text := by
  cases eResState with
  | line =>
    by_cases lf : c = '\n'
    · subst lf
      rfl
    · rw [headStep, if_neg lf]
      exact bodyOf_cons lf text
  | cr =>
    by_cases cr : c = '\r'
    · subst cr
      rfl
    · by_cases lf : c = '\n'
      · subst lf
        rfl
      · rw [headStep, if_neg cr, if_neg lf]
        exact (bodyOf_line cr lf text).trans (bodyOf_cons lf text)
  | lf2 =>
    by_cases lf : c = '\n'
    · subst lf
      rfl
    · rw [headStep, if_neg lf]
      have noLf : ('\r' : Char) ≠ '\n' := by decide
      exact (bodyOf_cr lf text).trans ((bodyOf_cons noLf _).trans (bodyOf_cons lf text))
  | cr2 | found => cases head

theorem headStep_early {eResState : ResponseE} (early : eResState ≠ .found) (c : Char) :
    headStep eResState c ≠ .found := by
  cases eResState with
  | line | lf2 =>
    simp only [headStep]
    split <;> decide
  | cr =>
    simp only [headStep]
    split
    · decide
    · split <;> decide
  | cr2 => exact early
  | found => exact absurd rfl early

variable {step : Response → Char → Response × Bool}

/-- Before the blank line a parser only changes its state, and after it starts on the body. -/
theorem feed_head
    (heads : ∀ pHttpFD c, isHead pHttpFD.eResState = true →
      step pHttpFD c = ({ pHttpFD with eResState := headStep pHttpFD.eResState c }, true))
    (pHttpFD : Response) (text : Text) (early : pHttpFD.eResState ≠ .found) :
    (feed step pHttpFD text).1.updates =
      match bodyFrom pHttpFD.eResState text with
      | none => pHttpFD.updates
      | some body => (feed step { pHttpFD with eResState := .cr2 } body).1.updates := by
  induction text generalizing pHttpFD with
  | nil =>
    cases at_ : pHttpFD.eResState with
    | line | cr | lf2 => rfl
    | cr2 => rfl
    | found => exact absurd at_ early
  | cons c rest ih =>
    cases head : isHead pHttpFD.eResState with
    | true =>
      rw [feed, heads pHttpFD c head, if_pos rfl, bodyFrom_cons head]
      refine ih _ ?_
      exact headStep_early early c
    | false =>
      have body : pHttpFD.eResState = .cr2 := by
        cases at_ : pHttpFD.eResState with
        | line | cr | lf2 => rw [at_] at head; cases head
        | cr2 => rfl
        | found => exact absurd at_ early
      rw [body, bodyFrom, ← body]

/-- The address is passed on when it fits and something follows. -/
theorem feed_address {place : ResponseE}
    (takes : ∀ pHttpFD c, pHttpFD.eResState = place → step pHttpFD c = takeAddress pHttpFD c)
    (pHttpFD : Response) (text : Text) (here : pHttpFD.eResState = place) :
    (feed step pHttpFD text).1.updates = pHttpFD.updates ++
      if pHttpFD.acBody.length + (text.takeWhile isAddress).length + 1 < bodySize ∧
        text.dropWhile isAddress ≠ [] then [pHttpFD.acBody ++ text.takeWhile isAddress]
      else [] := by
  induction text generalizing pHttpFD with
  | nil => simp only [feed, List.dropWhile_nil, ne_eq, not_true, and_false, if_false,
      List.append_nil]
  | cons c rest ih =>
    rw [feed, takes pHttpFD c here]
    by_cases room : pHttpFD.acBody.length + 1 < bodySize
    · cases address : isAddress c with
      | true =>
        have next : takeAddress pHttpFD c =
            ({ pHttpFD with acBody := pHttpFD.acBody ++ [c] }, true) := by
          rw [takeAddress, if_pos room, address, if_pos rfl]
        rw [next, if_pos rfl, ih { pHttpFD with acBody := pHttpFD.acBody ++ [c] } here,
          List.takeWhile_cons_of_pos address,
          List.dropWhile_cons_of_pos address]
        simp only [List.length_append, List.length_cons, List.length_nil, List.append_assoc,
          List.singleton_append, Nat.add_comm, Nat.add_left_comm]
      | false =>
        have no : ¬ isAddress c = true := by
          rw [address]
          exact Bool.false_ne_true
        have next : takeAddress pHttpFD c = ({ pHttpFD with
            iDDNSState := .checkIpOk
            updates := pHttpFD.updates ++ [pHttpFD.acBody] }, false) := by
          rw [takeAddress, if_pos room, if_neg no]
        rw [next, if_neg Bool.false_ne_true, List.takeWhile_cons_of_neg no,
          List.dropWhile_cons_of_neg no, if_pos ⟨room, List.cons_ne_nil _ _⟩, List.append_nil]
    · have next : takeAddress pHttpFD c = (pHttpFD, false) := if_neg room
      rw [next, if_neg Bool.false_ne_true, if_neg, List.append_nil]
      rintro ⟨small, _⟩
      omega

theorem feed_colon (pHttpFD : Response) (text : Text) (here : pHttpFD.eResState = .cr2) :
    (feed dyndnsChar pHttpFD text).1.updates =
      match afterColon text with
      | none => pHttpFD.updates
      | some rest => (feed dyndnsChar { pHttpFD with eResState := .found } rest).1.updates := by
  induction text with
  | nil => rfl
  | cons c rest ih =>
    rw [feed, afterColon]
    unfold dyndnsChar
    rw [here]
    by_cases colon : c = ':'
    · simp only [colon, if_true]
    · simp only [colon, if_false, if_true]
      exact ih

/-- What is passed on of an address that is to begin here. -/
def passedOn (text : Text) : List Text :=
  if (text.takeWhile isAddress).length + 1 < bodySize ∧ text.dropWhile isAddress ≠ [] then
    [text.takeWhile isAddress]
  else []

theorem dyndns_heads (pHttpFD : Response) (c : Char) (head : isHead pHttpFD.eResState = true) :
    dyndnsChar pHttpFD c =
      ({ pHttpFD with eResState := headStep pHttpFD.eResState c }, true) := by
  unfold dyndnsChar
  cases at_ : pHttpFD.eResState with
  | line | cr | lf2 => rfl
  | cr2 | found => rw [at_] at head; cases head

theorem dnsomatic_heads (pHttpFD : Response) (c : Char)
    (head : isHead pHttpFD.eResState = true) : dnsomaticChar pHttpFD c =
      ({ pHttpFD with eResState := headStep pHttpFD.eResState c }, true) := by
  unfold dnsomaticChar
  cases at_ : pHttpFD.eResState with
  | line | cr | lf2 => rfl
  | cr2 | found => rw [at_] at head; cases head

theorem dyndns_updates (iDDNSState : DDNSState) (text : Text) :
    (ckIPResponseDyndns (.init iDDNSState) text).1.updates =
      ((Parser.dyndns.place text).map passedOn).getD [] := by
  have start := feed_head dyndns_heads (.init iDDNSState) text (by rintro ⟨⟩)
  refine start.trans ?_
  show (match bodyOf text with | none => _ | some body => _) =
    (((bodyOf text).bind afterColon).map passedOn).getD []
  cases bodyOf text with
  | none => rfl
  | some body =>
    refine (feed_colon _ body rfl).trans ?_
    rw [Option.bind_some]
    cases afterColon body with
    | none => rfl
    | some rest =>
      have takes : ∀ (p : Response) (c : Char), p.eResState = .found →
          dyndnsChar p c = takeAddress p c := by
        intro p c here
        unfold dyndnsChar
        rw [here]
      refine (feed_address takes _ rest rfl).trans ?_
      simp only [Response.init, List.length_nil, Nat.zero_add, List.nil_append]
      rfl

theorem dnsomatic_updates (iDDNSState : DDNSState) (text : Text) :
    (ckIPResponseDnsomatic (.init iDDNSState) text).1.updates =
      ((Parser.dnsomatic.place text).map passedOn).getD [] := by
  have start := feed_head dnsomatic_heads (.init iDDNSState) text (by rintro ⟨⟩)
  refine start.trans ?_
  show (match bodyOf text with | none => _ | some body => _) =
    ((bodyOf text).map passedOn).getD []
  cases bodyOf text with
  | none => rfl
  | some body =>
    have takes : ∀ (p : Response) (c : Char), p.eResState = .cr2 →
        dnsomaticChar p c = takeAddress p c := by
      intro p c here
      unfold dnsomaticChar
      rw [here]
    refine (feed_address takes _ body rfl).trans ?_
    simp only [Response.init, List.length_nil, Nat.zero_add, List.nil_append]
    rfl

/-- DDNSResponse passes no address on. -/
theorem ddns_updates (pHttpFD : Response) (text : Text) :
    (ddnsResponse pHttpFD text).1.updates = pHttpFD.updates := by
  unfold ddnsResponse
  induction text generalizing pHttpFD with
  | nil => rfl
  | cons c rest ih =>
    have kept : (ddnsChar pHttpFD c).1.updates = pHttpFD.updates := by
      unfold ddnsChar
      split
      · split
        · dsimp only
          split <;> rfl
        · rfl
      · rfl
      · rfl
    rw [feed]
    split
    · exact (ih _).trans kept
    · exact kept

theorem requestOver_updates (parser : Parser) (pHttpFD : Response) :
    (parser.requestOver pHttpFD).updates = pHttpFD.updates := by
  cases parser with
  | dyndns | dnsomatic =>
    show (ckIPRequestOver pHttpFD).updates = _
    unfold ckIPRequestOver
    split <;> rfl
  | ddns =>
    show (ddnsRequestOver pHttpFD).updates = _
    unfold ddnsRequestOver
    split <;> rfl

theorem request_run (parser : Parser) {response : Text} (delivery : Delivery response)
    (iDDNSState : DDNSState) : parser.request delivery iDDNSState =
      parser.requestOver (parser.response (.init iDDNSState) response).1 := by
  unfold Parser.request
  cases parser with
  | dyndns | dnsomatic | ddns => exact congrArg _ (delivery_run delivery _)

theorem request_updates (parser : Parser) {response : Text} (delivery : Delivery response)
    (iDDNSState : DDNSState) : (parser.request delivery iDDNSState).updates =
      ((parser.place response).map passedOn).getD [] := by
  rw [request_run, requestOver_updates]
  cases parser with
  | dyndns => exact dyndns_updates iDDNSState response
  | dnsomatic => exact dnsomatic_updates iDDNSState response
  | ddns => exact ddns_updates _ response

/-- A response may come a character at a time. -/
def Delivery.slow (response : Text) : Delivery response where
  arrivals := response.map fun c => .read [c]
  last := .close
  reads := by
    intro arrival mem
    obtain ⟨c, _, rfl⟩ := List.mem_map.mp mem
    exact ⟨List.cons_ne_nil _ _, (by decide : 1 ≤ halfBuffer)⟩
  whole := by
    induction response with
    | nil => rfl
    | cons c rest ih => exact congrArg (c :: ·) ih
  ends := Or.inl rfl

/-- The verdict never depends on how the response comes, and the address is passed on exactly
where it fits `acBody` and does not end with the response. -/
theorem response_parsed (parser : Parser) (response : Text) :
    Parses parser response ↔ Complete parser response := by
  have passed : ∀ iDDNSState (delivery : Delivery response),
      (parser.request delivery iDDNSState).updates = (parser.due response).toList ↔
        Complete parser response := by
    intro iDDNSState delivery
    rw [request_updates]
    unfold Parser.due Complete
    cases parser.place response with
    | none => exact iff_of_true rfl (by rintro _ ⟨⟩)
    | some text =>
      simp only [Option.map_some, Option.getD_some, Option.toList_some, Option.mem_some_iff]
      unfold passedOn
      split
      · rename_i complete
        refine iff_of_true rfl ?_
        rintro _ rfl
        exact complete
      · rename_i incomplete
        exact iff_of_false (List.cons_ne_nil _ _).symm fun all => incomplete (all _ rfl)
  constructor
  · intro parses
    exact (passed .updatting (.slow response)).mp (parses.passed _ _)
  · intro complete
    refine ⟨?_, fun iDDNSState delivery => (passed iDDNSState delivery).mpr complete⟩
    intro iDDNSState one other
    rw [request_run, request_run]

/-- The body is an address and the connection ends behind it: nothing is passed on. -/
theorem address_at_the_end : ¬ Parses .dnsomatic "\r\n\r\n1.2.3.4".toList := by
  rintro ⟨_, passed⟩
  have nothing := passed .updatting (.slow _)
  rw [request_updates] at nothing
  revert nothing
  decide

end Rovio.HttpClient
