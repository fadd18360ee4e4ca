import Rovio.HttpClient.Delivery
import Rovio.Kit.Decimal
import Rovio.Kit.Head
import Rovio.Mail.Base64

/-! The requests that `HTTPC_Process` builds once it is connected, for the web client and for the
two DDNS clients. -/
namespace Rovio.HttpClient
open Kit Mail

/-- `sizeof(acBuffer)`, and of the `ac` that credentials are encoded into. -/
def acBufferSize : Nat := 1024
def acSize : Nat := 256

/-- What an HTTPC keeps for its request; NULL is `none`. -/
structure Client where
  pcServer : Text
  pcPath : Text
  iPort : Int
  pcHost : Option Text
  pcUserAgent : Option Text
  pcUser : Option Text
  pcPass : Option Text
  pcProxy : Option Text
  pcProxyUser : Option Text
  pcProxyPass : Option Text

/-- The proxy settings in `g_ConfigParam`. -/
structure ProxyParam where
  acProxy : Text
  acProxyUser : Text
  acProxyPass : Text

/-- `pc != NULL && pc[0] != '\0'`. -/
def kept : Option Text → Option Text
  | some (c :: rest) => some (c :: rest)
  | _ => none

def httpcInit (pcServer pcPath : Text) (iPort : Int)
    (pcHost pcUserAgent pcUser pcPass pcProxy pcProxyUser pcProxyPass : Option Text) :
    Option Client :=
  if pcServer = [] then none
  else
    some {
      pcServer := pcServer
      pcPath := pcPath
      iPort := iPort
      pcHost := kept pcHost
      pcUserAgent := kept pcUserAgent
      pcUser := kept pcUser
      pcPass := kept pcPass
      pcProxy := kept pcProxy
      pcProxyUser := kept pcProxyUser
      pcProxyPass := kept pcProxyPass }

inductive DDNSType where
  | unsupported
  | dyndns
  | noip
  | dnsomatic

def rovioAgent : Text := "Rovio Update Client v1.0 roviotech@wowwee.com.hk".toList

/-- The object that Http_SendHttpRequest makes from its parameters and the settings it has
updated. -/
def httpSendHttpRequest (pcServer : Text) (port : Option Int) (path : Text)
    (pcUser pcPass : Option Text) (g_ConfigParam : ProxyParam) : Option Client :=
  let iPort := if port.getD 0 = 0 then 80 else port.getD 0
  let pcPath := if path = [] then ['/'] else path
  httpcInit pcServer pcPath iPort (some pcServer) (some rovioAgent) pcUser pcPass
    (some g_ConfigParam.acProxy) (some g_ConfigParam.acProxyUser) (some g_ConfigParam.acProxyPass)

/-- What a DDNS service is asked: its server, the path around the two `%s`, and the agent. -/
structure Service where
  pcServer : Text
  front : Text
  middle : Text
  back : Text
  pcAgent : Text

def service : DDNSType → Option Service
  | .unsupported => none
  | .dyndns => some {
      pcServer := "members.dyndns.org".toList
      front := "/nic/update?system=dyndns&hostname=".toList
      middle := "&myip=".toList
      back := "&wildcard=NO&backmx=NO&offline=NO&mx=".toList
      pcAgent := rovioAgent }
  | .noip => some {
      pcServer := "dynupdate.no-ip.com".toList
      front := "/nic/update?hostname=".toList
      middle := "&myip=".toList
      back := []
      pcAgent := rovioAgent }
  | .dnsomatic => some {
      pcServer := "updates.dnsomatic.com".toList
      front := "/nic/update?system=dyndns&hostname=".toList
      middle := "&myip=".toList
      back := "&wildcard=NO&backmx=NO&offline=NO&mx=".toList
      pcAgent := "wowwee Rovio Update Client v1.0".toList }

/-- `acIP` is what httpIP2String makes of the address, or `none` where there is none. -/
def doDNS (eDDNSType : DDNSType) (pcHost : Text) (acIP : Option Text) (pcUser pcPass : Text)
    (g_ConfigParam : ProxyParam) : Option Client := do
  let asked ← service eDDNSType
  let acIP ← acIP
  if pcHost = [] then none
  else if asked.front.length + asked.middle.length + asked.back.length + 4 + acIP.length +
      pcHost.length > 256 then none
  else
    httpcInit asked.pcServer
      (asked.front ++ (pcHost ++ (asked.middle ++ (acIP ++ asked.back)))) 80
      (some asked.pcServer) (some asked.pcAgent) (some pcUser) (some pcPass)
      (some g_ConfigParam.acProxy) (some g_ConfigParam.acProxyUser)
      (some g_ConfigParam.acProxyPass)

def ddnsDoCheckIP (eDDNSType : DDNSType) (g_ConfigParam : ProxyParam) : Option Client := do
  let pcServer ← match eDDNSType with
    | .unsupported => none
    | .dyndns | .noip => some "checkip.dyndns.com".toList
    | .dnsomatic => some "myip.dnsomatic.com".toList
  httpcInit pcServer ['/'] 80 (some pcServer)
    (some "Mozilla/4.0 (compatible; MSIE 5.00; Windows 98)".toList) none none
    (some g_ConfigParam.acProxy) (some g_ConfigParam.acProxyUser) (some g_ConfigParam.acProxyPass)

/-- Who makes a request. -/
inductive Caller where
  | send (pcServer : Text) (port : Option Int) (path : Text) (pcUser pcPass : Option Text)
  | update (eDDNSType : DDNSType) (pcHost : Text) (acIP : Option Text) (pcUser pcPass : Text)
  | checkIP (eDDNSType : DDNSType)

def Caller.client : Caller → ProxyParam → Option Client
  | .send pcServer port path pcUser pcPass => httpSendHttpRequest pcServer port path pcUser pcPass
  | .update eDDNSType pcHost acIP pcUser pcPass => doDNS eDDNSType pcHost acIP pcUser pcPass
  | .checkIP eDDNSType => ddnsDoCheckIP eDDNSType

/-- The first `iLen` characters of `acBuffer`, and how far it has been written with the NULs. -/
structure Build where
  acBuffer : Text
  used : Nat

/-- `iLen += sprintf(acBuffer + iLen, ..)`. -/
def Build.sprintf (b : Build) (text : Text) : Build :=
  ⟨b.acBuffer ++ text, max b.used (b.acBuffer.length + text.length + 1)⟩

/-- `iInLen = sprintf(acBuffer + iLen, ..)`: the text is overwritten afterwards. -/
def Build.scratch (b : Build) (text : Text) : Build :=
  ⟨b.acBuffer, max b.used (b.acBuffer.length + text.length + 1)⟩

def acPort (iPort : Int) : Text :=
  if iPort = 80 ∨ iPort = 0 then [] else ':' :: decimalText iPort

/-- The request line without its end. -/
def requestLine (pHttpFD : Client) : Text :=
  match pHttpFD.pcProxy with
  | some _ => "GET HTTP://".toList ++ (pHttpFD.pcServer ++ (acPort pHttpFD.iPort ++
      (pHttpFD.pcPath ++ " HTTP/1.1".toList)))
  | none => "GET ".toList ++ (pHttpFD.pcPath ++ " HTTP/1.1".toList)

def hostLine (text : Text) : HeadLine := ⟨"HOST".toList, text⟩
def agentLine (text : Text) : HeadLine := ⟨"User-Agent".toList, text⟩
def basicLine (ac : Text) : HeadLine := ⟨"Authorization".toList, "Basic ".toList ++ ac⟩
def proxyLine (ac : Text) : HeadLine := ⟨"Proxy-Authorization".toList, "Basic ".toList ++ ac⟩

def lastLines : List HeadLine :=
  [⟨"ACCEPT".toList, "*/*".toList⟩, ⟨"Pragma".toList, "no-cache".toList⟩,
    ⟨"Cache-Control".toList, "no-cache".toList⟩, ⟨"Connection".toList, "close".toList⟩]

def credentials (pcUser pcPass : Option Text) : Text :=
  pcUser.getD [] ++ (':' :: pcPass.getD [])

/-- `ac` after EncodeBase64 and `ac[iOutLen - 2] = '\0'`. -/
def basic (text : Text) : Option Text :=
  (encodeBase64 (text.map fun c => UInt8.ofNat c.toNat) acSize).map fun encoded =>
    encoded.pccOutStr.take (encoded.piOutLen - 2)

def Build.authorize (b : Build) (pcUser pcPass : Option Text) : Build :=
  if pcUser = none ∧ pcPass = none then b
  else
    let b := b.scratch (credentials pcUser pcPass)
    match basic (credentials pcUser pcPass) with
    | some ac => b.sprintf (basicLine ac).line
    | none => b

def Build.authorizeProxy (b : Build) (pcProxy pcProxyUser pcProxyPass : Option Text) : Build :=
  match pcProxy with
  | none => b
  | some _ =>
    if pcProxyUser = none ∧ pcProxyPass = none then b.sprintf (proxyLine []).line
    else
      let b := b.scratch (credentials pcProxyUser pcProxyPass)
      match basic (credentials pcProxyUser pcProxyPass) with
      | some ac => b.sprintf (proxyLine ac).line
      | none => b.sprintf (proxyLine []).line

def Build.optional (b : Build) (line : Text → HeadLine) : Option Text → Build
  | none => b
  | some text => b.sprintf (line text).line

/-- HTTPC_Process in ST_NET_CONNECTING when the connection is there. -/
def buildRequest (pHttpFD : Client) : Build :=
  let b := (Build.mk [] 0).sprintf (requestLine pHttpFD ++ crlf)
  let b := b.optional hostLine pHttpFD.pcHost
  let b := b.optional agentLine pHttpFD.pcUserAgent
  let b := b.authorize pHttpFD.pcUser pHttpFD.pcPass
  let b := b.authorizeProxy pHttpFD.pcProxy pHttpFD.pcProxyUser pHttpFD.pcProxyPass
  b.sprintf (lastLines.flatMap HeadLine.line ++ crlf)

/-- A user and a password that are there have this length as credentials, others none. -/
def credentialsLength (pcUser pcPass : Option Text) : Nat :=
  if pcUser = none ∧ pcPass = none then 0
  else (pcUser.getD []).length + 1 + (pcPass.getD []).length

/-- Credentials of this length fit `ac` when they are encoded. -/
def Encoded (length : Nat) : Prop := 0 < length ∧ length < 184

instance (length : Nat) : Decidable (Encoded length) :=
  inferInstanceAs (Decidable (_ ∧ _))

/-- The header lines a request is to have. -/
def headerNames (pHttpFD : Client) : List Text :=
  (if pHttpFD.pcHost = none then [] else ["HOST".toList]) ++
    ((if pHttpFD.pcUserAgent = none then [] else ["User-Agent".toList]) ++
    ((if Encoded (credentialsLength pHttpFD.pcUser pHttpFD.pcPass) then
        ["Authorization".toList] else []) ++
    ((if pHttpFD.pcProxy = none then [] else ["Proxy-Authorization".toList]) ++
    ["ACCEPT".toList, "Pragma".toList, "Cache-Control".toList, "Connection".toList])))

/-- The request fits `acBuffer`, also while it is built, and it is a request line, the header
lines and the empty line. -/
structure WellFormed (pHttpFD : Client) : Prop where
  fits : (buildRequest pHttpFD).used ≤ acBufferSize
  formed : HeadFormed (headerNames pHttpFD) (buildRequest pHttpFD).acBuffer

/-- Credentials of this length are encoded on one line, or not at all. -/
def OneLine (length : Nat) : Prop := length < 57 ∨ 184 ≤ length

def startLength (pHttpFD : Client) : Nat :=
  match pHttpFD.pcProxy with
  | some _ => 11 + pHttpFD.pcServer.length + (acPort pHttpFD.iPort).length
  | none => 4

def optionalLength (around : Nat) : Option Text → Nat
  | some text => text.length + around
  | none => 0

/-- The length up to the credentials. -/
def lengthBefore (pHttpFD : Client) : Nat :=
  startLength pHttpFD + pHttpFD.pcPath.length + 11 + optionalLength 8 pHttpFD.pcHost +
    optionalLength 14 pHttpFD.pcUserAgent

def basicLength (length : Nat) : Nat :=
  if Encoded length then (length + 2) / 3 * 4 else 0

def userLength (pHttpFD : Client) : Nat :=
  let length := credentialsLength pHttpFD.pcUser pHttpFD.pcPass
  if Encoded length then 23 + basicLength length else 0

def proxyLength (pHttpFD : Client) : Nat :=
  if pHttpFD.pcProxy = none then 0
  else 29 + basicLength (credentialsLength pHttpFD.pcProxyUser pHttpFD.pcProxyPass)

/-- The conditions on the parameters and the settings. -/
structure Sound (pHttpFD : Client) : Prop where
  path : breaks pHttpFD.pcPath = 0
  server : pHttpFD.pcProxy ≠ none → breaks pHttpFD.pcServer = 0
  host : ∀ text ∈ pHttpFD.pcHost, breaks text = 0
  agent : ∀ text ∈ pHttpFD.pcUserAgent, breaks text = 0
  user : OneLine (credentialsLength pHttpFD.pcUser pHttpFD.pcPass)
  proxyUser : pHttpFD.pcProxy ≠ none →
    OneLine (credentialsLength pHttpFD.pcProxyUser pHttpFD.pcProxyPass)
  room : lengthBefore pHttpFD + userLength pHttpFD + proxyLength pHttpFD + 77 < acBufferSize
  scratch : lengthBefore pHttpFD + credentialsLength pHttpFD.pcUser pHttpFD.pcPass < acBufferSize
  proxyScratch : pHttpFD.pcProxy ≠ none → lengthBefore pHttpFD + userLength pHttpFD +
    credentialsLength pHttpFD.pcProxyUser pHttpFD.pcProxyPass < acBufferSize

/-- The value that is printed for a user and a password. -/
def authorization (pcUser pcPass : Option Text) : Option Text :=
  if pcUser = none ∧ pcPass = none then none else basic (credentials pcUser pcPass)

/-- The header lines that are printed. -/
def headerLines (pHttpFD : Client) : List HeadLine :=
  pHttpFD.pcHost.toList.map hostLine ++
    (pHttpFD.pcUserAgent.toList.map agentLine ++
    ((authorization pHttpFD.pcUser pHttpFD.pcPass).toList.map basicLine ++
    ((pHttpFD.pcProxy.toList.map fun _ =>
        proxyLine ((authorization pHttpFD.pcProxyUser pHttpFD.pcProxyPass).getD [])) ++
    lastLines)))

end Rovio.HttpClient
