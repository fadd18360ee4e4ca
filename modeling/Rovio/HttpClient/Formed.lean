import Rovio.HttpClient.Request

/-! When the requests of the HTTP client are well formed. -/
namespace Rovio.HttpClient
open Kit Mail

theorem bufferSize_small (length : Nat) : base64BufferSize length ≤ acSize ↔ length < 184 := by
  unfold base64BufferSize acSize
  simp only [eol, base64MaxLine, List.length_cons, List.length_nil]
  omega

theorem basic_none {text : Text} (long : 184 ≤ text.length) : basic text = none := by
  have large : ¬ base64BufferSize text.length ≤ acSize := by
    rw [bufferSize_small]
    omega
  unfold basic encodeBase64
  rw [List.length_map, if_pos]
  · rfl
  · right
    omega

/-- Encoded credentials: how long they are, and how many line breaks stay among them. -/
theorem basic_some {text : Text} (short : text.length < 184) :
    ∃ ac, basic text = some ac ∧ breaks ac = 2 * (text.length / 3 * 4 / 76) ∧
      ac.length = (text.length + 2) / 3 * 4 + 2 * (text.length / 3 * 4 / 76) := by
  have small := (bufferSize_small text.length).mpr short
  obtain ⟨front, written, counted⟩ :=
    encodeGroups_lines 0 (text.map fun c => UInt8.ofNat c.toNat) rfl (by decide)
  have sized :=
    encodeGroups_length 0 (text.map fun c => UInt8.ofNat c.toNat) rfl (by decide)
  rw [List.length_map, Nat.zero_add] at counted sized
  rw [written, List.length_append] at sized
  have two : eol.length = 2 := rfl
  refine ⟨front, ?_, counted, ?_⟩
  · unfold basic encodeBase64
    rw [List.length_map, if_neg, written]
    · simp only [Option.map_some, List.length_append, two, Nat.add_sub_cancel, List.append_assoc,
        List.take_left]
    · unfold acSize at *
      omega
  · unfold base64MaxLine at sized
    omega

section Credentials
variable (pcUser pcPass : Option Text)

theorem credentials_length (given : ¬ (pcUser = none ∧ pcPass = none)) :
    (credentials pcUser pcPass).length = credentialsLength pcUser pcPass := by
  unfold credentials credentialsLength
  rw [if_neg given, List.length_append, List.length_cons]
  omega

theorem authorization_none (plain : ¬ Encoded (credentialsLength pcUser pcPass)) :
    authorization pcUser pcPass = none := by
  unfold authorization
  split
  · rfl
  · rename_i given
    have same := credentials_length pcUser pcPass given
    apply basic_none
    have some : 0 < credentialsLength pcUser pcPass := by
      unfold credentialsLength
      rw [if_neg given]
      omega
    unfold Encoded at plain
    omega

theorem authorization_some (encoded : Encoded (credentialsLength pcUser pcPass)) :
    ∃ ac, authorization pcUser pcPass = some ac ∧
      (breaks ac = 0 ↔ OneLine (credentialsLength pcUser pcPass)) ∧
      (OneLine (credentialsLength pcUser pcPass) →
        ac.length = basicLength (credentialsLength pcUser pcPass)) := by
  have given : ¬ (pcUser = none ∧ pcPass = none) := by
    intro nobody
    have zero : credentialsLength pcUser pcPass = 0 := if_pos nobody
    rw [zero] at encoded
    exact absurd encoded.1 (Nat.lt_irrefl 0)
  have same := credentials_length pcUser pcPass given
  have short := encoded.2
  rw [← same] at short
  obtain ⟨ac, printed, counted, sized⟩ := basic_some short
  rw [same] at counted sized
  refine ⟨ac, ?_, ?_, ?_⟩
  · unfold authorization
    rw [if_neg given, printed]
  · rw [counted]
    unfold OneLine
    omega
  · intro oneLine
    rw [sized, basicLength, if_pos encoded]
    unfold OneLine at oneLine
    omega

end Credentials

section Printing
variable (b : Build) (n : Nat)

/-- What has been printed has been written with its NUL. -/
def Build.Tight : Prop := b.acBuffer.length + 1 ≤ b.used

/-- What the user and the password leave in the buffer before they are encoded. -/
def Build.scratched (pcUser pcPass : Option Text) : Build :=
  if pcUser = none ∧ pcPass = none then b else b.scratch (credentials pcUser pcPass)

theorem authorize_eq (pcUser pcPass : Option Text) : b.authorize pcUser pcPass =
    (b.scratched pcUser pcPass).optional basicLine (authorization pcUser pcPass) := by
  unfold Build.authorize Build.scratched authorization
  by_cases nobody : pcUser = none ∧ pcPass = none
  · rw [if_pos nobody, if_pos nobody, if_pos nobody]
    rfl
  · rw [if_neg nobody, if_neg nobody, if_neg nobody]
    cases basic (credentials pcUser pcPass) <;> rfl

theorem authorizeProxy_eq (pcProxy : Text) (pcProxyUser pcProxyPass : Option Text) :
    b.authorizeProxy (some pcProxy) pcProxyUser pcProxyPass =
      (b.scratched pcProxyUser pcProxyPass).sprintf
        (proxyLine ((authorization pcProxyUser pcProxyPass).getD [])).line := by
  unfold Build.authorizeProxy Build.scratched authorization
  by_cases nobody : pcProxyUser = none ∧ pcProxyPass = none
  · simp only [if_pos nobody, Option.getD_none]
  · simp only [if_neg nobody]
    cases basic (credentials pcProxyUser pcProxyPass) <;> rfl

theorem sprintf_tight (text : Text) : (b.sprintf text).Tight := by
  unfold Build.Tight Build.sprintf
  rw [List.length_append]
  exact Nat.le_max_right ..

theorem sprintf_used (text : Text) : (b.sprintf text).used ≤ n ↔
    b.used ≤ n ∧ (b.sprintf text).acBuffer.length < n := by
  unfold Build.sprintf
  rw [List.length_append]
  exact Nat.max_le

@[simp] theorem scratched_text (pcUser pcPass : Option Text) :
    (b.scratched pcUser pcPass).acBuffer = b.acBuffer := by
  unfold Build.scratched
  split <;> rfl

variable {b}

theorem scratched_tight (tight : b.Tight) (pcUser pcPass : Option Text) :
    (b.scratched pcUser pcPass).Tight := by
  unfold Build.scratched
  split
  · exact tight
  · exact Nat.le_trans tight (Nat.le_max_left ..)

theorem scratched_used (tight : b.Tight) (pcUser pcPass : Option Text) :
    (b.scratched pcUser pcPass).used ≤ n ↔
      b.used ≤ n ∧ b.acBuffer.length + credentialsLength pcUser pcPass < n := by
  unfold Build.scratched
  by_cases nobody : pcUser = none ∧ pcPass = none
  · have zero : credentialsLength pcUser pcPass = 0 := if_pos nobody
    rw [if_pos nobody, zero]
    unfold Build.Tight at tight
    omega
  · rw [if_neg nobody, ← credentials_length pcUser pcPass nobody]
    exact Nat.max_le

theorem optional_tight (tight : b.Tight) (line : Text → HeadLine) (text : Option Text) :
    (b.optional line text).Tight := by
  cases text with
  | none => exact tight
  | some text => exact sprintf_tight b _

theorem optional_used (tight : b.Tight) (line : Text → HeadLine) (text : Option Text) :
    (b.optional line text).used ≤ n ↔
      b.used ≤ n ∧ (b.optional line text).acBuffer.length < n := by
  cases text with
  | none =>
    show b.used ≤ n ↔ b.used ≤ n ∧ b.acBuffer.length < n
    unfold Build.Tight at tight
    omega
  | some text => exact sprintf_used b n _

theorem optional_text (b : Build) (line : Text → HeadLine) (text : Option Text) :
    (b.optional line text).acBuffer =
      b.acBuffer ++ (text.toList.map line).flatMap HeadLine.line := by
  cases text with
  | none => exact (List.append_nil _).symm
  | some text => exact congrArg _ (List.append_nil _).symm

end Printing

section Request
variable (pHttpFD : Client)

/-- The request up to the credentials. -/
def buildBefore : Build :=
  (((Build.mk [] 0).sprintf (requestLine pHttpFD ++ crlf)).optional hostLine
    pHttpFD.pcHost).optional agentLine pHttpFD.pcUserAgent

def buildUser : Build := (buildBefore pHttpFD).authorize pHttpFD.pcUser pHttpFD.pcPass

def buildProxy : Build :=
  (buildUser pHttpFD).authorizeProxy pHttpFD.pcProxy pHttpFD.pcProxyUser pHttpFD.pcProxyPass

def printedProxy : List HeadLine :=
  pHttpFD.pcProxy.toList.map fun _ =>
    proxyLine ((authorization pHttpFD.pcProxyUser pHttpFD.pcProxyPass).getD [])

theorem buildRequest_eq : buildRequest pHttpFD =
    (buildProxy pHttpFD).sprintf (lastLines.flatMap HeadLine.line ++ crlf) := rfl

theorem buildBefore_text : (buildBefore pHttpFD).acBuffer =
    (requestLine pHttpFD ++ crlf) ++ (pHttpFD.pcHost.toList.map hostLine ++
      pHttpFD.pcUserAgent.toList.map agentLine).flatMap HeadLine.line := by
  unfold buildBefore
  rw [optional_text, optional_text, List.flatMap_append, List.append_assoc]
  rfl

theorem buildUser_text : (buildUser pHttpFD).acBuffer = (buildBefore pHttpFD).acBuffer ++
    ((authorization pHttpFD.pcUser pHttpFD.pcPass).toList.map basicLine).flatMap
      HeadLine.line := by
  unfold buildUser
  rw [authorize_eq, optional_text, scratched_text]

theorem buildProxy_text : (buildProxy pHttpFD).acBuffer =
    (buildUser pHttpFD).acBuffer ++ (printedProxy pHttpFD).flatMap HeadLine.line := by
  unfold buildProxy printedProxy
  cases pHttpFD.pcProxy with
  | none => exact (List.append_nil _).symm
  | some pcProxy =>
    rw [authorizeProxy_eq]
    show (Build.scratched _ _ _).acBuffer ++ _ = _
    rw [scratched_text]
    exact congrArg _ (List.append_nil _).symm

theorem buildRequest_text :
    (buildRequest pHttpFD).acBuffer = headText (requestLine pHttpFD) (headerLines pHttpFD) := by
  show (buildProxy pHttpFD).acBuffer ++ (lastLines.flatMap HeadLine.line ++ crlf) = _
  rw [buildProxy_text, buildUser_text, buildBefore_text]
  unfold headText headerLines printedProxy
  simp only [List.flatMap_append, List.append_assoc]

theorem buildBefore_tight : (buildBefore pHttpFD).Tight :=
  optional_tight (optional_tight (sprintf_tight _ _) _ _) _ _

theorem buildUser_tight : (buildUser pHttpFD).Tight := by
  unfold buildUser
  rw [authorize_eq]
  exact optional_tight (scratched_tight (buildBefore_tight pHttpFD) _ _) _ _

/-- The request line and the first headers fit when their text does. -/
theorem buildBefore_used (n : Nat) :
    (buildBefore pHttpFD).used ≤ n ↔ (buildBefore pHttpFD).acBuffer.length < n := by
  unfold buildBefore
  rw [optional_used n (optional_tight (sprintf_tight _ _) _ _), optional_used n
    (sprintf_tight _ _), sprintf_used]
  simp only [optional_text, List.length_append, Nat.zero_le, true_and]
  omega

theorem buildRequest_used (n : Nat) : (buildRequest pHttpFD).used ≤ n ↔
    (buildRequest pHttpFD).acBuffer.length < n ∧
      (buildBefore pHttpFD).acBuffer.length +
        credentialsLength pHttpFD.pcUser pHttpFD.pcPass < n ∧
      (pHttpFD.pcProxy ≠ none → (buildUser pHttpFD).acBuffer.length +
        credentialsLength pHttpFD.pcProxyUser pHttpFD.pcProxyPass < n) := by
  have user : (buildUser pHttpFD).used ≤ n ↔ (buildUser pHttpFD).acBuffer.length < n ∧
      (buildBefore pHttpFD).acBuffer.length +
        credentialsLength pHttpFD.pcUser pHttpFD.pcPass < n := by
    have tight := buildBefore_tight pHttpFD
    have text := congrArg List.length (buildUser_text pHttpFD)
    rw [List.length_append] at text
    unfold buildUser at text ⊢
    rw [authorize_eq] at text ⊢
    rw [optional_used n (scratched_tight tight _ _), scratched_used n tight, buildBefore_used]
    omega
  have text := congrArg List.length (buildProxy_text pHttpFD)
  rw [List.length_append] at text
  rw [buildRequest_eq, sprintf_used]
  have whole : ((buildProxy pHttpFD).sprintf
      (lastLines.flatMap HeadLine.line ++ crlf)).acBuffer.length =
        (buildProxy pHttpFD).acBuffer.length + (lastLines.flatMap HeadLine.line ++ crlf).length :=
    List.length_append
  have proxy : (buildProxy pHttpFD).used ≤ n ↔ (buildUser pHttpFD).used ≤ n ∧
      (buildProxy pHttpFD).acBuffer.length < n ∧
      (pHttpFD.pcProxy ≠ none → (buildUser pHttpFD).acBuffer.length +
        credentialsLength pHttpFD.pcProxyUser pHttpFD.pcProxyPass < n) := by
    have tight := buildUser_tight pHttpFD
    unfold buildProxy
    cases pHttpFD.pcProxy with
    | none =>
      have long : (buildUser pHttpFD).used ≤ n → (buildUser pHttpFD).acBuffer.length < n :=
        fun fits => Nat.lt_of_lt_of_le tight fits
      exact ⟨fun fits => ⟨fits, long fits, fun some => absurd rfl some⟩, fun fits => fits.1⟩
    | some pcProxy =>
      rw [authorizeProxy_eq, sprintf_used, scratched_used n tight]
      constructor
      · rintro ⟨⟨fits, scratch⟩, whole⟩
        exact ⟨fits, whole, fun _ => scratch⟩
      · rintro ⟨fits, whole, scratch⟩
        exact ⟨⟨fits, scratch (Option.some_ne_none _)⟩, whole⟩
  rw [proxy, user]
  constructor
  · rintro ⟨⟨⟨_, scratch⟩, _, proxyScratch⟩, total⟩
    exact ⟨total, scratch, proxyScratch⟩
  · rintro ⟨total, scratch, proxyScratch⟩
    exact ⟨⟨⟨by omega, scratch⟩, by omega, proxyScratch⟩, total⟩

theorem headerLines_names : (headerLines pHttpFD).map HeadLine.name = headerNames pHttpFD := by
  have printed : ((authorization pHttpFD.pcUser pHttpFD.pcPass).toList.map basicLine).map
      HeadLine.name = if Encoded (credentialsLength pHttpFD.pcUser pHttpFD.pcPass) then
        ["Authorization".toList] else [] := by
    by_cases encoded : Encoded (credentialsLength pHttpFD.pcUser pHttpFD.pcPass)
    · obtain ⟨ac, some, _⟩ := authorization_some _ _ encoded
      rw [some, if_pos encoded]
      rfl
    · rw [authorization_none _ _ encoded, if_neg encoded]
      rfl
  unfold headerLines headerNames
  rw [List.map_append, List.map_append, List.map_append, List.map_append, printed]
  cases pHttpFD.pcHost <;> cases pHttpFD.pcUserAgent <;> cases pHttpFD.pcProxy <;> rfl

theorem breaks_port (iPort : Int) : breaks (acPort iPort) = 0 := by
  unfold acPort breaks
  split
  · rfl
  · apply List.countP_eq_zero.mpr
    intro c mem
    rcases List.mem_cons.mp mem with rfl | digit
    · decide
    · rcases decimalText_plain digit with digit | rfl
      · intro lineBreak
        rcases Bool.or_eq_true_iff.mp lineBreak with cr | lf
        · rw [eq_of_beq cr] at digit
          exact absurd digit (by decide)
        · rw [eq_of_beq lf] at digit
          exact absurd digit (by decide)
      · decide

theorem breaks_requestLine : breaks (requestLine pHttpFD) = 0 ↔
    breaks pHttpFD.pcPath = 0 ∧ (pHttpFD.pcProxy ≠ none → breaks pHttpFD.pcServer = 0) := by
  have get : breaks "GET ".toList = 0 := by decide
  have getHttp : breaks "GET HTTP://".toList = 0 := by decide
  have version : breaks " HTTP/1.1".toList = 0 := by decide
  unfold requestLine
  cases pHttpFD.pcProxy with
  | none =>
    simp only [breaks_append, get, version, ne_eq, not_true, false_implies, and_true]
    omega
  | some pcProxy =>
    simp only [breaks_append, getHttp, version, breaks_port, ne_eq, reduceCtorEq,
      not_false_eq_true, true_implies]
    omega

theorem requestLine_length : (requestLine pHttpFD).length =
    startLength pHttpFD + pHttpFD.pcPath.length + 9 := by
  have get : "GET ".toList.length = 4 := by decide
  have getHttp : "GET HTTP://".toList.length = 11 := by decide
  have version : " HTTP/1.1".toList.length = 9 := by decide
  unfold requestLine startLength
  cases pHttpFD.pcProxy with
  | none =>
    simp only [List.length_append, get, version]
    omega
  | some pcProxy =>
    simp only [List.length_append, getHttp, version]
    omega

theorem optionalLength_text {line : Text → HeadLine} {around : Nat} (text : Option Text)
    (sized : ∀ text, (line text).line.length = text.length + around) :
    ((text.toList.map line).flatMap HeadLine.line).length = optionalLength around text := by
  cases text with
  | none => rfl
  | some text =>
    refine (congrArg List.length (List.append_nil _)).trans ?_
    exact sized text

theorem hostLine_length (text : Text) : (hostLine text).line.length = text.length + 8 := by
  have name : "HOST".toList.length = 4 := by decide
  rw [line_length]
  show "HOST".toList.length + text.length + 4 = _
  omega

theorem agentLine_length (text : Text) : (agentLine text).line.length = text.length + 14 := by
  have name : "User-Agent".toList.length = 10 := by decide
  rw [line_length]
  show "User-Agent".toList.length + text.length + 4 = _
  omega

theorem basicLine_length (ac : Text) : (basicLine ac).line.length = ac.length + 23 := by
  have name : "Authorization".toList.length = 13 := by decide
  have scheme : "Basic ".toList.length = 6 := by decide
  rw [line_length]
  show "Authorization".toList.length + ("Basic ".toList ++ ac).length + 4 = _
  rw [List.length_append]
  omega

theorem proxyLine_length (ac : Text) : (proxyLine ac).line.length = ac.length + 29 := by
  have name : "Proxy-Authorization".toList.length = 19 := by decide
  have scheme : "Basic ".toList.length = 6 := by decide
  rw [line_length]
  show "Proxy-Authorization".toList.length + ("Basic ".toList ++ ac).length + 4 = _
  rw [List.length_append]
  omega

theorem lengthBefore_text : (buildBefore pHttpFD).acBuffer.length = lengthBefore pHttpFD := by
  have two : crlf.length = 2 := rfl
  rw [buildBefore_text, List.length_append, List.length_append, requestLine_length,
    List.flatMap_append, List.length_append, two, optionalLength_text _ hostLine_length,
    optionalLength_text _ agentLine_length]
  unfold lengthBefore
  omega

theorem userLength_text
    (oneLine : OneLine (credentialsLength pHttpFD.pcUser pHttpFD.pcPass)) :
    (buildUser pHttpFD).acBuffer.length = lengthBefore pHttpFD + userLength pHttpFD := by
  rw [buildUser_text, List.length_append, lengthBefore_text]
  unfold userLength
  dsimp only
  by_cases encoded : Encoded (credentialsLength pHttpFD.pcUser pHttpFD.pcPass)
  · obtain ⟨ac, some, _, sized⟩ := authorization_some _ _ encoded
    rw [some, if_pos encoded, optionalLength_text _ basicLine_length]
    show _ + (ac.length + 23) = _
    rw [sized oneLine]
    omega
  · rw [authorization_none _ _ encoded, if_neg encoded]
    rfl

theorem proxyLength_text (oneLine : pHttpFD.pcProxy ≠ none →
      OneLine (credentialsLength pHttpFD.pcProxyUser pHttpFD.pcProxyPass)) :
    ((printedProxy pHttpFD).flatMap HeadLine.line).length = proxyLength pHttpFD := by
  unfold printedProxy proxyLength
  cases proxied : pHttpFD.pcProxy with
  | none => rfl
  | some pcProxy =>
    rw [if_neg (Option.some_ne_none _)]
    refine (congrArg List.length (List.append_nil _)).trans ?_
    rw [proxyLine_length]
    by_cases encoded : Encoded (credentialsLength pHttpFD.pcProxyUser pHttpFD.pcProxyPass)
    · obtain ⟨ac, some, _, sized⟩ := authorization_some _ _ encoded
      have oneLine := oneLine (by rw [proxied]; exact Option.some_ne_none _)
      rw [some, Option.getD_some, sized oneLine]
      omega
    · rw [authorization_none _ _ encoded, basicLength, if_neg encoded]
      rfl

theorem buildRequest_length
    (oneLine : OneLine (credentialsLength pHttpFD.pcUser pHttpFD.pcPass))
    (proxyOneLine : pHttpFD.pcProxy ≠ none →
      OneLine (credentialsLength pHttpFD.pcProxyUser pHttpFD.pcProxyPass)) :
    (buildRequest pHttpFD).acBuffer.length =
      lengthBefore pHttpFD + userLength pHttpFD + proxyLength pHttpFD + 77 := by
  have last : (lastLines.flatMap HeadLine.line ++ crlf).length = 77 := by decide
  show ((buildProxy pHttpFD).acBuffer ++ (lastLines.flatMap HeadLine.line ++ crlf)).length = _
  rw [List.length_append, last, buildProxy_text, List.length_append, userLength_text _ oneLine,
    proxyLength_text _ proxyOneLine]

/-- No header value ends a line but the encoded credentials may. -/
theorem headerLines_clean : (∀ header ∈ headerLines pHttpFD, breaks header.value = 0) ↔
    (∀ text ∈ pHttpFD.pcHost, breaks text = 0) ∧
      (∀ text ∈ pHttpFD.pcUserAgent, breaks text = 0) ∧
      OneLine (credentialsLength pHttpFD.pcUser pHttpFD.pcPass) ∧
      (pHttpFD.pcProxy ≠ none →
        OneLine (credentialsLength pHttpFD.pcProxyUser pHttpFD.pcProxyPass)) := by
  have scheme : breaks "Basic ".toList = 0 := by decide
  have last : ∀ header ∈ lastLines, breaks header.value = 0 := by decide
  have basic : ∀ ac, breaks (basicLine ac).value = breaks ac := by
    intro ac
    show breaks ("Basic ".toList ++ ac) = _
    rw [breaks_append, scheme, Nat.zero_add]
  have proxy : ∀ ac, breaks (proxyLine ac).value = breaks ac := basic
  have plain : ∀ pcUser pcPass, ¬ Encoded (credentialsLength pcUser pcPass) →
      OneLine (credentialsLength pcUser pcPass) := by
    intro pcUser pcPass plain
    unfold Encoded at plain
    unfold OneLine
    omega
  have host : (∀ header ∈ pHttpFD.pcHost.toList.map hostLine, breaks header.value = 0) ↔
      ∀ text ∈ pHttpFD.pcHost, breaks text = 0 := by
    rw [List.forall_mem_map]
    simp only [Option.mem_toList]
    rfl
  have agent : (∀ header ∈ pHttpFD.pcUserAgent.toList.map agentLine, breaks header.value = 0) ↔
      ∀ text ∈ pHttpFD.pcUserAgent, breaks text = 0 := by
    rw [List.forall_mem_map]
    simp only [Option.mem_toList]
    rfl
  have user : (∀ header ∈ (authorization pHttpFD.pcUser pHttpFD.pcPass).toList.map basicLine,
      breaks header.value = 0) ↔ OneLine (credentialsLength pHttpFD.pcUser pHttpFD.pcPass) := by
    rw [List.forall_mem_map]
    by_cases encoded : Encoded (credentialsLength pHttpFD.pcUser pHttpFD.pcPass)
    · obtain ⟨ac, some, clean, _⟩ := authorization_some _ _ encoded
      rw [some, ← clean, Option.toList_some, List.forall_mem_singleton, basic]
    · rw [authorization_none _ _ encoded]
      exact iff_of_true (by rintro _ ⟨⟩) (plain _ _ encoded)
  have proxyUser : (∀ header ∈ printedProxy pHttpFD, breaks header.value = 0) ↔
      (pHttpFD.pcProxy ≠ none →
        OneLine (credentialsLength pHttpFD.pcProxyUser pHttpFD.pcProxyPass)) := by
    unfold printedProxy
    rw [List.forall_mem_map]
    cases pHttpFD.pcProxy with
    | none => exact iff_of_true (by rintro _ ⟨⟩) (fun some => absurd rfl some)
    | some pcProxy =>
      rw [Option.toList_some, List.forall_mem_singleton, proxy]
      by_cases encoded : Encoded (credentialsLength pHttpFD.pcProxyUser pHttpFD.pcProxyPass)
      · obtain ⟨ac, some, clean, _⟩ := authorization_some _ _ encoded
        rw [some, Option.getD_some, clean]
        exact ⟨fun oneLine _ => oneLine, fun oneLine => oneLine (Option.some_ne_none _)⟩
      · rw [authorization_none _ _ encoded]
        exact iff_of_true rfl fun _ => plain _ _ encoded
  have split : headerLines pHttpFD = pHttpFD.pcHost.toList.map hostLine ++
      (pHttpFD.pcUserAgent.toList.map agentLine ++
      ((authorization pHttpFD.pcUser pHttpFD.pcPass).toList.map basicLine ++
      (printedProxy pHttpFD ++ lastLines))) := rfl
  rw [split]
  simp only [List.forall_mem_append]
  rw [host, agent, user, proxyUser]
  constructor
  · rintro ⟨hostClean, agentClean, userLine, proxyLine, _⟩
    exact ⟨hostClean, agentClean, userLine, proxyLine⟩
  · rintro ⟨hostClean, agentClean, userLine, proxyLine⟩
    exact ⟨hostClean, agentClean, userLine, proxyLine, last⟩

theorem wellFormed_iff : WellFormed pHttpFD ↔ Sound pHttpFD := by
  have formed : HeadFormed (headerNames pHttpFD) (buildRequest pHttpFD).acBuffer ↔
      breaks (requestLine pHttpFD) = 0 ∧
        ∀ header ∈ headerLines pHttpFD, breaks header.value = 0 := by
    rw [buildRequest_text, ← headerLines_names]
    exact headFormed_iff _ _
  rw [breaks_requestLine, headerLines_clean] at formed
  have fits := buildRequest_used pHttpFD acBufferSize
  rw [lengthBefore_text] at fits
  constructor
  · rintro ⟨used, head⟩
    obtain ⟨⟨path, server⟩, host, agent, user, proxyUser⟩ := formed.mp head
    rw [buildRequest_length _ user proxyUser, userLength_text _ user] at fits
    obtain ⟨room, scratch, proxyScratch⟩ := fits.mp used
    exact ⟨path, server, host, agent, user, proxyUser, room, scratch, proxyScratch⟩
  · rintro ⟨path, server, host, agent, user, proxyUser, room, scratch, proxyScratch⟩
    rw [buildRequest_length _ user proxyUser, userLength_text _ user] at fits
    exact ⟨fits.mpr ⟨room, scratch, proxyScratch⟩,
      formed.mpr ⟨⟨path, server⟩, host, agent, user, proxyUser⟩⟩

end Request

/-- The requests that are sent are well formed for just these parameters and settings: no line
break in the path or the server, credentials that are encoded on one line, and room for all. -/
theorem request_well_formed (caller : Caller) (g_ConfigParam : ProxyParam) :
    (∀ pHttpFD ∈ caller.client g_ConfigParam, WellFormed pHttpFD) ↔
      ∀ pHttpFD ∈ caller.client g_ConfigParam, Sound pHttpFD := by
  constructor
  · exact fun formed pHttpFD mem => (wellFormed_iff pHttpFD).mp (formed pHttpFD mem)
  · exact fun sound pHttpFD mem => (wellFormed_iff pHttpFD).mpr (sound pHttpFD mem)

/-- A user's name of fifty characters and a password of six are 57 together, so that the encoded
line is full and a second line break follows it. -/
theorem credentials_of_a_full_line : ¬ ∀ pHttpFD ∈ (Caller.send ['h'] none ['/']
    (some (List.replicate 50 'u')) (some (List.replicate 6 'p'))).client ⟨[], [], []⟩,
    WellFormed pHttpFD := by
  intro formed
  have sound := (wellFormed_iff _).mp (formed _ rfl)
  have user := sound.user
  revert user
  unfold OneLine
  decide

end Rovio.HttpClient
