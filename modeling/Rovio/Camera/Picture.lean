import Mathlib.Logic.Function.Basic
import Rovio.Kit.Runs

/-! The last picture of the camera: the camera thread fills the buffer that is not the ready one and
publishes it, and HTTP connections copy the ready one under `g_ptmState`. -/
namespace Rovio.Camera

universe u

def invalidPicture : Nat := 999999

def maxImgIndex : Nat := 800000

def maxCameraImgLength : Nat := 128 * 1024

/-- What `g_WebCamState` says about the picture. -/
structure WebCamState where
  uiPicIndex : Nat
  uiPicMotionDetectedIndex : Nat
  uiPicSize : Nat
  iReadyImg : Int
  iImgBufLen : Int → Nat
  acImgBuf : Int → Nat → UInt8

def nextReadyImg (iReadyImg : Int) : Int := if 2 ≤ iReadyImg + 1 then 0 else iReadyImg + 1

def nextPicIndex (uiPicIndex : Nat) : Nat :=
  let next := if uiPicIndex = invalidPicture then 0 else uiPicIndex + 1
  if maxImgIndex ≤ next then 0 else next

/-- The range that the readers test. -/
def WebCamState.Ready (g : WebCamState) : Prop := 0 ≤ g.iReadyImg ∧ g.iReadyImg ≤ 1

instance (g : WebCamState) : Decidable g.Ready := inferInstanceAs (Decidable (_ ∧ _))

def WebCamState.setByte (g : WebCamState) (img : Int) (k : Nat) (byte : UInt8) : WebCamState :=
  { g with acImgBuf := Function.update g.acImgBuf img (Function.update (g.acImgBuf img) k byte) }

def WebCamState.setLen (g : WebCamState) (img : Int) (len : Nat) : WebCamState :=
  { g with iImgBufLen := Function.update g.iImgBufLen img len }

/-- Where the camera thread stands: at the top of its loop, with a buffer chosen, in the memcpy and
behind it in `W99702_GetOneImage`, and in `SaveJpeg` with the next numbers computed, with the lock,
with `iReadyImg` set, and with the rest set. -/
inductive CameraThread where
  | top
  | chosen (iNextReadyImg : Int)
  | copying (iNextReadyImg : Int) (done : Nat)
  | got (iNextReadyImg : Int)
  | computed (iNextReadyImg : Int) (iNextPicIndex iNextMotionDetectedIndex iJpegLen : Nat)
  | locked (iNextReadyImg : Int) (iNextPicIndex iNextMotionDetectedIndex iJpegLen : Nat)
  | readied (iNextPicIndex iNextMotionDetectedIndex iJpegLen : Nat)
  | unlocking

/-- The buffer that is being filled. -/
def CameraThread.fills : CameraThread → Option Int
  | .chosen img | .copying img _ | .got img => some img
  | .computed img _ _ _ | .locked img _ _ _ => some img
  | .top | .readied _ _ _ | .unlocking => none

/-- The width of `uiIndex`. -/
def indexBits (uiIndex : Nat) : Nat := uiIndex % 0x100000

/-- `FILLDATA_T` of a connection, and its `*ptLastFill`. -/
structure FillData where
  uiIndex : Nat
  uiIfSendStatus : Bool
  ptLastFill : Int

/-- What a connection adds to its reply. -/
inductive Added where
  | text (string : String)
  | body (bytes : List UInt8)
  | state (uiPicIndex uiPicSize uiPicMotionDetectedIndex : Nat)
deriving DecidableEq

inductive Call where
  | sendJpeg
  | fill (tCur : Int)
deriving DecidableEq

/-- Where a connection stands: in no call, behind the lock, in `httpAddBody` with a part of the
buffer copied, and behind it. -/
inductive Place where
  | outside
  | locked (call : Call)
  | adding (call : Call) (img : Int) (len : Nat) (copied : List UInt8)
  | added (call : Call) (bIsAddJpeg : Bool)

/-- `numbers` is a history: the pictures behind the bodies, counted as they are published. -/
structure Connection where
  place : Place
  fill : Option FillData
  reply : List Added
  numbers : List Nat

inductive Holder (R : Type u) where
  | camera
  | connection (r : R)

/-- `jpeg` is the picture of the last event; `published` is a history. -/
structure System (R : Type u) where
  g_WebCamState : WebCamState
  g_ptmState : Option (Holder R)
  camera : CameraThread
  jpeg : List UInt8
  connections : R → Connection
  published : List (List UInt8)

inductive Action (R : Type u) where
  | choose
  | eventRead (pJPEGBuf : Option (List UInt8))
  | copyByte
  | setLength
  | saveJpeg (bOnGetImage bIsMotionDetected : Bool)
  | lock
  | setReady
  | setIndex
  | unlock
  | getCameraData (r : R) (uiIfSendStatus : Bool) (ptLastFill : Int)
  | disconnect (r : R)
  | call (r : R) (call : Call)
  | test (r : R)
  | read (r : R)
  | addBody (r : R)
  | finish (r : R)

/-- A picture that the buffer has room for. -/
def Action.captured {R : Type u} : Action R → Option (List UInt8)
  | .eventRead (some jpeg) => if jpeg.length ≤ maxCameraImgLength then some jpeg else none
  | _ => none

def boundaryJpeg : Added := .text "--WINBONDBOUDARY\r\nContent-Type: image/jpeg\r\n\r\n"

def boundaryState : Added := .text "--WINBONDBOUDARY\r\nContent-Type: text/plain\r\n\r\n"

def WebCamState.string (g : WebCamState) : List Added :=
  [boundaryState, .state g.uiPicIndex g.uiPicSize g.uiPicMotionDetectedIndex, .text "\r\n"]

/-- The test of a call, and the beginning of `httpAddBody`. -/
def testReady (g : WebCamState) (call : Call) (c : Connection) : Connection :=
  match call, c.fill with
  | .sendJpeg, _ =>
    { c with place :=
        if g.Ready then .adding call g.iReadyImg (g.iImgBufLen g.iReadyImg) []
        else .added call false }
  | .fill _, some fData =>
    if g.uiPicIndex ≠ fData.uiIndex then
      if g.Ready then
        { c with
          reply := c.reply ++ [boundaryJpeg]
          place := .adding call g.iReadyImg (g.iImgBufLen g.iReadyImg) [] }
      else
        { c with
          fill := some { fData with uiIndex := indexBits g.uiPicIndex }
          place := .added call false }
    else { c with place := .added call false }
  | .fill _, none => c

/-- The end of `httpAddBody`, and what follows for a stream. -/
def pictureAdded (g : WebCamState) (call : Call) (copied : List UInt8) (number : Nat)
    (c : Connection) : Connection :=
  { c with
    reply := c.reply ++ [.body copied]
    numbers := c.numbers ++ [number]
    fill := match call with
      | .sendJpeg => c.fill
      | .fill tCur =>
        c.fill.map fun fData =>
          { fData with uiIndex := indexBits g.uiPicIndex, ptLastFill := tCur }
    place := .added call true }

/-- What is left of a call, up to the unlock. -/
def callOver (g : WebCamState) (call : Call) (bIsAddJpeg : Bool) (c : Connection) : Connection :=
  match call, c.fill with
  | .fill tCur, some fData =>
    if bIsAddJpeg then
      { c with
        reply := if fData.uiIfSendStatus then c.reply ++ g.string else c.reply
        place := .outside }
    else if 1 ≤ tCur - fData.ptLastFill then
      { c with
        reply := c.reply ++ if fData.uiIfSendStatus then g.string else [.text "\r\n"]
        fill := some { fData with ptLastFill := tCur }
        place := .outside }
    else { c with place := .outside }
  | _, _ => { c with place := .outside }

variable {R : Type u} [DecidableEq R]

def System.put (s : System R) (r : R) (c : Connection) : System R :=
  { s with connections := Function.update s.connections r c }

inductive Step : System R → Action R → System R → Prop where
  | choose {s : System R} (here : s.camera = .top) :
      Step s .choose { s with camera := .chosen (nextReadyImg s.g_WebCamState.iReadyImg) }
  | noImage {s : System R} {img : Int} {pJPEGBuf : Option (List UInt8)}
      (here : s.camera = .chosen img)
      (bad : ∀ jpeg, pJPEGBuf = some jpeg → maxCameraImgLength < jpeg.length) :
      Step s (.eventRead pJPEGBuf) { s with camera := .top }
  | image {s : System R} {img : Int} {jpeg : List UInt8} (here : s.camera = .chosen img)
      (room : jpeg.length ≤ maxCameraImgLength) :
      Step s (.eventRead (some jpeg)) { s with camera := .copying img 0, jpeg }
  | copyByte {s : System R} {img : Int} {k : Nat} (here : s.camera = .copying img k)
      (more : k < s.jpeg.length) :
      Step s .copyByte
        { s with
          g_WebCamState := s.g_WebCamState.setByte img k s.jpeg[k]
          camera := .copying img (k + 1) }
  | setLength {s : System R} {img : Int} (here : s.camera = .copying img s.jpeg.length) :
      Step s .setLength
        { s with
          g_WebCamState := s.g_WebCamState.setLen img s.jpeg.length
          camera := .got img }
  | refused {s : System R} {img : Int} {bIsMotionDetected : Bool} (here : s.camera = .got img) :
      Step s (.saveJpeg false bIsMotionDetected) { s with camera := .top }
  | saveJpeg {s : System R} {img : Int} {bIsMotionDetected : Bool} (here : s.camera = .got img) :
      Step s (.saveJpeg true bIsMotionDetected)
        { s with
          camera := .computed (nextReadyImg s.g_WebCamState.iReadyImg)
            (nextPicIndex s.g_WebCamState.uiPicIndex)
            (if bIsMotionDetected then nextPicIndex s.g_WebCamState.uiPicMotionDetectedIndex
              else s.g_WebCamState.uiPicMotionDetectedIndex)
            (s.g_WebCamState.iImgBufLen img) }
  | lock {s : System R} {img : Int} {index motion len : Nat}
      (here : s.camera = .computed img index motion len) (free : s.g_ptmState = none) :
      Step s .lock { s with camera := .locked img index motion len, g_ptmState := some .camera }
  | setReady {s : System R} {img : Int} {index motion len : Nat}
      (here : s.camera = .locked img index motion len) :
      Step s .setReady
        { s with
          g_WebCamState := { s.g_WebCamState with iReadyImg := img }
          camera := .readied index motion len
          published := s.published ++ [s.jpeg] }
  | setIndex {s : System R} {index motion len : Nat} (here : s.camera = .readied index motion len) :
      Step s .setIndex
        { s with
          g_WebCamState :=
            { s.g_WebCamState with
              uiPicIndex := index
              uiPicSize := len
              uiPicMotionDetectedIndex := motion }
          camera := .unlocking }
  | unlock {s : System R} (here : s.camera = .unlocking) :
      Step s .unlock { s with camera := .top, g_ptmState := none }
  | getCameraData {s : System R} {r : R} {uiIfSendStatus : Bool} {ptLastFill : Int}
      (here : (s.connections r).place = .outside) :
      Step s (.getCameraData r uiIfSendStatus ptLastFill)
        (s.put r ⟨.outside, some ⟨indexBits invalidPicture, uiIfSendStatus, ptLastFill⟩, [], []⟩)
  | disconnect {s : System R} {r : R} (here : (s.connections r).place = .outside) :
      Step s (.disconnect r) (s.put r { s.connections r with fill := none })
  | call {s : System R} {r : R} {call : Call} (here : (s.connections r).place = .outside)
      (stream : (s.connections r).fill.isSome = decide (call ≠ .sendJpeg))
      (free : s.g_ptmState = none) :
      Step s (.call r call)
        { s.put r { s.connections r with place := .locked call } with
          g_ptmState := some (.connection r) }
  | test {s : System R} {r : R} {call : Call} (here : (s.connections r).place = .locked call) :
      Step s (.test r) (s.put r (testReady s.g_WebCamState call (s.connections r)))
  | read {s : System R} {r : R} {call : Call} {img : Int} {len : Nat} {copied : List UInt8}
      (here : (s.connections r).place = .adding call img len copied) (more : copied.length < len) :
      Step s (.read r)
        (s.put r
          { s.connections r with
            place := .adding call img len
              (copied ++ [s.g_WebCamState.acImgBuf img copied.length]) })
  | addBody {s : System R} {r : R} {call : Call} {img : Int} {len : Nat} {copied : List UInt8}
      (here : (s.connections r).place = .adding call img len copied)
      (all : copied.length = len) :
      Step s (.addBody r)
        (s.put r (pictureAdded s.g_WebCamState call copied (s.published.length - 1)
          (s.connections r)))
  | finish {s : System R} {r : R} {call : Call} {bIsAddJpeg : Bool}
      (here : (s.connections r).place = .added call bIsAddJpeg) :
      Step s (.finish r)
        { s.put r (callOver s.g_WebCamState call bIsAddJpeg (s.connections r)) with
          g_ptmState := none }

/-- Nothing is captured yet. The buffers hold anything. -/
def start (acImgBuf : Int → Nat → UInt8) : System R where
  g_WebCamState := ⟨invalidPicture, invalidPicture, 0, -1, fun _ => 0, acImgBuf⟩
  g_ptmState := none
  camera := .top
  jpeg := []
  connections _ := ⟨.outside, none, [], []⟩
  published := []

end Rovio.Camera
