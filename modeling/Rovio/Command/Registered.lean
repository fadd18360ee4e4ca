import Rovio.Kit.Held
import Rovio.Command.Common

/-! The commands that `RegisterUrls` registers, as far as the configuration lock
`g_rmutex` goes: which part of a function runs with the lock held, and in which
of its two calls. All but `Config_SetIP` take and release it in one call. -/
namespace Rovio.Command
open Rovio.Http Rovio.Account Kit

inductive Registered where
  | dropData | getStatus | getLog | getVer | getDDNS | setDDNS | memDebug
  | getMyself | getUser | setUser | delUser | setUserCheck
  | setTime | getTime | setLogo | getLogo
  | chDirection | chResolution | chCompressRatio | chFramerate | chBrightness
  | chSpeakerVolume | chMicVolume
  | setMotionDetect | getMotionDetect | setMediaFormat | getMediaFormat | setCamera | getCamera
  | setWlan | getWlan | scanWlan | setMac | getMac
  | setMail | getMail | sendMail | setFtp | getFtp | setHttp | getHttp | setIP | getIP
  | reboot | setFactoryDefault | updateFactoryDefault | updateProgress
  | setName | getName | getVNet | setVNet | getUPnP | setUPnP | getPPP | setPPP
  | enableTestNet | controlMCU
  deriving DecidableEq

/-- What the functions read, decide and do apart from the lock. A function's parts are numbered
in the order they stand in; `test` is the condition of its branch, and `refuses` that of the
`ictl` function it calls. -/
structure Code (P : HttpParams) (S : Type) where
  httpGetClientAddr : S → Nat
  httpGetAuthPrivilege : S → Int
  authority : Registered → P.ParamList → S → Int
  test : Registered → P.ParamList → S → Bool
  refuses : Registered → P.ParamList → S → Bool
  part : Registered → Nat → P.ParamList → S → S
  result : Registered → P.ParamList → S → Int

section
variable {P : HttpParams} {S : Type} (code : Code P S)

def Code.run (c : Registered) (i : Nat) (pParamList : P.ParamList) : Held S → Held S :=
  Held.work (code.part c i pParamList)

/-- An `ictl` function: it refuses the handle or its arguments, or works with the lock held. -/
def Code.ictl (c : Registered) (pParamList : P.ParamList) (w : Held S) : Held S :=
  if code.refuses c pParamList w.rest then w else w.locked (code.run c 1 pParamList)

/-- A command that reads the configuration into its reply. -/
def Code.report (c : Registered) (pParamList : P.ParamList) (w : Held S) : Held S :=
  w.locked (code.run c 0 pParamList)

/-- A command that leaves its work to an `ictl` function. -/
def Code.throughIctl (c : Registered) (pParamList : P.ParamList) (w : Held S) : Held S :=
  code.run c 2 pParamList (code.ictl c pParamList (code.run c 0 pParamList w))

/-- A command that calls its `ictl` function only when there is something to set. -/
def Code.setThroughIctl (c : Registered) (pParamList : P.ParamList) (w : Held S) : Held S :=
  if code.test c pParamList w.rest then code.throughIctl c pParamList w
  else code.run c 3 pParamList w

def Code.configSetUPnP (pParamList : P.ParamList) (w : Held S) : Held S :=
  if code.test .setUPnP pParamList w.rest then
    code.run .setUPnP 1 pParamList (w.locked (code.run .setUPnP 0 pParamList))
  else w

def Code.configGetUPnP (pParamList : P.ParamList) (w : Held S) : Held S :=
  code.run .getUPnP 2 pParamList
    ((code.run .getUPnP 0 pParamList w).locked (code.run .getUPnP 1 pParamList))

def Code.configSetPPP (pParamList : P.ParamList) (w : Held S) : Held S :=
  code.run .setPPP 2 pParamList
    (if code.test .setPPP pParamList w.rest then
      code.run .setPPP 1 pParamList (w.locked (code.run .setPPP 0 pParamList))
    else w)

def Code.configSetVNet (pParamList : P.ParamList) (w : Held S) : Held S :=
  code.run .setVNet 1 pParamList (w.locked (code.run .setVNet 0 pParamList))

/-- The configuration call of every command but `Config_SetIP`. -/
def Code.config : Registered → P.ParamList → Held S → Held S
  | .getIP => code.report .getIP
  | .getPPP => code.report .getPPP
  | .getVNet => code.report .getVNet
  | .getWlan => code.report .getWlan
  | .getMediaFormat => code.report .getMediaFormat
  | .setUPnP => code.configSetUPnP
  | .getUPnP => code.configGetUPnP
  | .setPPP => code.configSetPPP
  | .setVNet => code.configSetVNet
  | .getMyself => code.throughIctl .getMyself
  | .getUser => code.throughIctl .getUser
  | .getMac => code.throughIctl .getMac
  | .setWlan => code.throughIctl .setWlan
  | .setUser => code.setThroughIctl .setUser
  | .delUser => code.setThroughIctl .delUser
  | .setUserCheck => code.setThroughIctl .setUserCheck
  | .setMac => code.setThroughIctl .setMac
  | .setMediaFormat => code.setThroughIctl .setMediaFormat
  | .chResolution => code.setThroughIctl .chResolution
  | .chFramerate => code.setThroughIctl .chFramerate
  | .chCompressRatio => code.setThroughIctl .chCompressRatio
  | .chBrightness => code.setThroughIctl .chBrightness
  | .chSpeakerVolume => code.setThroughIctl .chSpeakerVolume
  | .chMicVolume => code.setThroughIctl .chMicVolume
  | c => code.run c 0

/-- `0x0100007f`, the address of the camera itself. -/
def localhost : Nat := 0x0100007f

/-- The lock is taken in the authority call and released in the configuration call. -/
def Code.configSetIP : SubCmdFun P (Held S) := fun pParamList iAction w =>
  match iAction with
  | .auth => (if code.httpGetClientAddr w.rest = localhost then authAny else authAdmin, w.lock)
  | .config => (0, code.run .setIP 1 pParamList (code.run .setIP 0 pParamList w).unlock)

def Code.fun (c : Registered) : SubCmdFun P (Held S) :=
  if c = .setIP then code.configSetIP
  else fun pParamList iAction w =>
    match iAction with
    | .auth => (code.authority c pParamList w.rest, w)
    | .config => (code.result c pParamList w.rest, code.config c pParamList w)

/-- What a name is registered for: whether its callback is `Http_SubCmdInit`, and its parameter. -/
abbrev Lookup := Option CString → Option (Bool × Option Registered)

def Code.server (find : Lookup) : Server P (Held S) where
  httpIsRegisterEmbedFunEx name := (find name).map fun e => ⟨e.1, e.2.map code.fun⟩
  httpGetAuthPrivilege w := code.httpGetAuthPrivilege w.rest

/-- The callback of a command that is requested by its own name. -/
def Code.httpSubCmdRun (c : Registered) (pcCmdParam : CString) (w : Held S) : Int × Held S :=
  let pList := P.httpParseString pcCmdParam
  let (iAuthRequired, w) := code.fun c pList .auth w
  if code.httpGetAuthPrivilege w.rest < iAuthRequired then (0, w) else code.fun c pList .config w

theorem run_balanced (c : Registered) (i : Nat) (pParamList : P.ParamList) :
    Balanced (code.run c i pParamList) :=
  Balanced.work _

theorem ictl_balanced (c : Registered) (pParamList : P.ParamList) :
    Balanced (code.ictl c pParamList) :=
  Balanced.branch _ .skip (run_balanced code c 1 pParamList).locked

theorem report_balanced (c : Registered) (pParamList : P.ParamList) :
    Balanced (code.report c pParamList) :=
  (run_balanced code c 0 pParamList).locked

theorem throughIctl_balanced (c : Registered) (pParamList : P.ParamList) :
    Balanced (code.throughIctl c pParamList) := by
  have called := (run_balanced code c 0 pParamList).seq (ictl_balanced code c pParamList)
  have after := called.seq (run_balanced code c 2 pParamList)
  exact after

theorem setThroughIctl_balanced (c : Registered) (pParamList : P.ParamList) :
    Balanced (code.setThroughIctl c pParamList) :=
  Balanced.branch _ (throughIctl_balanced code c pParamList) (run_balanced code c 3 pParamList)

theorem config_balanced (c : Registered) (pParamList : P.ParamList) :
    Balanced (code.config c pParamList) := by
  have run := fun i => run_balanced code c i pParamList
  have stored := (run 0).locked.seq (run 1)
  cases c
  case getIP | getPPP | getVNet | getWlan | getMediaFormat => exact report_balanced code _ _
  case getMyself | getUser | getMac | setWlan => exact throughIctl_balanced code _ _
  case setUser | delUser | setUserCheck | setMac | setMediaFormat | chResolution | chFramerate |
      chCompressRatio | chBrightness | chSpeakerVolume | chMicVolume =>
    exact setThroughIctl_balanced code _ _
  case setVNet => exact stored
  case setUPnP => exact stored.branch (code.test .setUPnP pParamList) .skip
  case getUPnP =>
    have read := ((run 0).seq (run 1).locked).seq (run 2)
    exact read
  case setPPP =>
    have changed := stored.branch (code.test .setPPP pParamList) .skip
    have switched := changed.seq (run 2)
    exact switched
  all_goals exact run 0

end

end Rovio.Command
