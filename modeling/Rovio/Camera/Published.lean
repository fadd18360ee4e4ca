import Mathlib.Data.List.Forall2
import Mathlib.Tactic.SplitIfs
import Rovio.Camera.Picture

/-! A connection copies the picture published last, whole, and a stream sends each picture at most
once, in the order in which they are published. -/
namespace Rovio.Camera
open Kit

universe u

/-- `uiPicIndex` behind the n-th picture. -/
def picIndex : Nat → Nat
  | 0 => invalidPicture
  | n + 1 => n % maxImgIndex

theorem nextPicIndex_picIndex (n : Nat) : nextPicIndex (picIndex n) = picIndex (n + 1) := by
  cases n with
  | zero => rfl
  | succ n =>
    have valid : n % maxImgIndex ≠ invalidPicture := by
      unfold maxImgIndex invalidPicture
      omega
    unfold nextPicIndex picIndex
    rw [if_neg valid]
    unfold maxImgIndex
    dsimp only
    split <;> omega

theorem indexBits_picIndex (n : Nat) : indexBits (picIndex n) = picIndex n := by
  cases n with
  | zero => rfl
  | succ n =>
    simp only [indexBits, picIndex, maxImgIndex]
    omega

theorem nextReadyImg_ready (iReadyImg : Int) (old : -1 ≤ iReadyImg ∧ iReadyImg ≤ 1) :
    0 ≤ nextReadyImg iReadyImg ∧ nextReadyImg iReadyImg ≤ 1 ∧
    nextReadyImg iReadyImg ≠ iReadyImg := by
  unfold nextReadyImg
  split <;> omega

/-- The first bytes of a buffer. -/
def WebCamState.Holds (g : WebCamState) (img : Int) (bytes : List UInt8) (n : Nat) : Prop :=
  ∀ k (inside : k < bytes.length), k < n → g.acImgBuf img k = bytes[k]

/-- The readers find this picture. -/
def WebCamState.Shows (g : WebCamState) : Option (List UInt8) → Prop
  | none => g.iReadyImg = -1
  | some picture => g.Ready ∧ g.iImgBufLen g.iReadyImg = picture.length ∧
      g.Holds g.iReadyImg picture picture.length

theorem WebCamState.Shows.range {g : WebCamState} {last : Option (List UInt8)}
    (shows : g.Shows last) : -1 ≤ g.iReadyImg ∧ g.iReadyImg ≤ 1 := by
  cases last with
  | none =>
    have none : g.iReadyImg = -1 := shows
    omega
  | some picture =>
    have ready := shows.1
    unfold WebCamState.Ready at ready
    omega

def lastLength (published : List (List UInt8)) : Nat :=
  (published.getLast?.map List.length).getD 0

/-- `uiPicIndex` and `uiPicSize` are those of the picture published last. -/
def WebCamState.Numbered (g : WebCamState) (published : List (List UInt8)) : Prop :=
  g.uiPicIndex = picIndex published.length ∧ g.uiPicSize = lastLength published

/-- What is known of the picture in hand at each place. -/
def CameraThread.Fits (camera : CameraThread) (g : WebCamState) (jpeg : List UInt8)
    (published : List (List UInt8)) : Prop :=
  match camera with
  | .top | .unlocking => g.Numbered published
  | .chosen img => g.Numbered published ∧ img = nextReadyImg g.iReadyImg
  | .copying img k => g.Numbered published ∧ img = nextReadyImg g.iReadyImg ∧
      g.Holds img jpeg k
  | .got img => g.Numbered published ∧ img = nextReadyImg g.iReadyImg ∧
      g.Holds img jpeg jpeg.length ∧ g.iImgBufLen img = jpeg.length
  | .computed img index _ len | .locked img index _ len =>
      g.Numbered published ∧ img = nextReadyImg g.iReadyImg ∧
      g.Holds img jpeg jpeg.length ∧ g.iImgBufLen img = jpeg.length ∧
      index = picIndex (published.length + 1) ∧ len = jpeg.length
  | .readied index _ len => index = picIndex published.length ∧ len = lastLength published

def CameraThread.inside : CameraThread → Bool
  | .locked _ _ _ _ | .readied _ _ _ | .unlocking => true
  | _ => false

def Place.call? : Place → Option Call
  | .outside => none
  | .locked call | .adding call _ _ _ | .added call _ => some call

def Added.bytes : Added → Option (List UInt8)
  | .body bytes => some bytes
  | _ => none

def bodies (reply : List Added) : List (List UInt8) := reply.filterMap Added.bytes

/-- A state string shows the number and the size of one published picture. -/
def Stated (published : List (List UInt8)) (index size : Nat) : Prop :=
  (index = invalidPicture ∧ size = 0) ∨
    ∃ n picture, published[n]? = some picture ∧ index = n % maxImgIndex ∧ size = picture.length

/-- What a connection in `httpAddBody` copies is the last picture. -/
def Place.Copies (place : Place) (iReadyImg : Int) (published : List (List UInt8)) : Prop :=
  match place with
  | .adding _ img len copied => img = iReadyImg ∧
      ∃ picture, published.getLast? = some picture ∧ len = picture.length ∧ copied <+: picture
  | _ => True

/-- The mark of a stream is that of a picture it has seen, and what it has sent came before. -/
structure Marked (uiPicIndex : Nat) (n : Nat) (c : Connection) (fData : FillData) : Prop where
  seen : ∃ m ≤ n, fData.uiIndex = picIndex m ∧ ∀ k ∈ c.numbers, k < m
  sorted : c.numbers.Pairwise (· < ·)
  newer : ∀ call img len copied, c.place = .adding call img len copied → fData.uiIndex ≠ uiPicIndex

structure Served (iReadyImg : Int) (uiPicIndex : Nat) (published : List (List UInt8))
    (c : Connection) : Prop where
  copies : c.place.Copies iReadyImg published
  stream : ∀ call, c.place.call? = some call → c.fill.isSome = decide (call ≠ .sendJpeg)
  bodies : List.Forall₂ (fun n body => published[n]? = some body) c.numbers (bodies c.reply)
  states : ∀ index size motion, .state index size motion ∈ c.reply → Stated published index size
  marked : ∀ fData, c.fill = some fData → Marked uiPicIndex published.length c fData

variable {R : Type u}

/-- Who has `g_ptmState`. -/
structure System.Exclusive (s : System R) : Prop where
  camera : s.camera.inside = true ↔ s.g_ptmState = some .camera
  connection : ∀ r, (s.connections r).place ≠ .outside ↔ s.g_ptmState = some (.connection r)

structure Valid (s : System R) : Prop where
  shows : s.g_WebCamState.Shows s.published.getLast?
  fits : s.camera.Fits s.g_WebCamState s.jpeg s.published
  exclusive : s.Exclusive
  served : ∀ r, Served s.g_WebCamState.iReadyImg s.g_WebCamState.uiPicIndex s.published
    (s.connections r)

/-! ### The camera thread -/

section
variable {s s' : System R} {g : WebCamState} {camera : CameraThread} {jpeg picture : List UInt8}
  {img : Int} {k n : Nat}

theorem WebCamState.holds_setByte (holds : g.Holds img jpeg k) (more : k < jpeg.length) :
    (g.setByte img k jpeg[k]).Holds img jpeg (k + 1) := by
  intro j inside below
  simp only [WebCamState.setByte, Function.update_self]
  rcases eq_or_ne j k with rfl | other
  · rw [Function.update_self]
  · rw [Function.update_of_ne other]
    exact holds j inside (by omega)

/-- The other buffer. -/
theorem WebCamState.Shows.setByte {last : Option (List UInt8)} (shows : g.Shows last)
    (other : img ≠ g.iReadyImg) (byte : UInt8) : (g.setByte img k byte).Shows last := by
  cases last with
  | none => exact shows
  | some picture =>
    obtain ⟨ready, length, holds⟩ := shows
    refine ⟨ready, length, fun j inside below => ?_⟩
    have same : (g.setByte img k byte).acImgBuf g.iReadyImg = g.acImgBuf g.iReadyImg :=
      Function.update_of_ne other.symm ..
    exact (congrFun same j).trans (holds j inside below)

theorem WebCamState.Shows.setLen {last : Option (List UInt8)} (shows : g.Shows last)
    (other : img ≠ g.iReadyImg) (len : Nat) : (g.setLen img len).Shows last := by
  cases last with
  | none => exact shows
  | some picture =>
    obtain ⟨ready, length, holds⟩ := shows
    exact ⟨ready, (Function.update_of_ne other.symm ..).trans length, holds⟩

/-- A step of the camera thread without the lock, before it and after it. -/
theorem Valid.unlocked (valid : Valid s) (outside : s.camera.inside = false)
    (after : camera.inside = false) (ready : g.iReadyImg = s.g_WebCamState.iReadyImg)
    (index : g.uiPicIndex = s.g_WebCamState.uiPicIndex) (shows : g.Shows s.published.getLast?)
    (fits : camera.Fits g jpeg s.published) :
    Valid { s with g_WebCamState := g, camera, jpeg } where
  shows := shows
  fits := fits
  exclusive := {
    camera := by
      have both := valid.exclusive.camera
      rw [outside] at both
      exact ⟨fun inside => absurd inside (by rw [after]; decide),
        fun held => absurd (both.mpr held) (by decide)⟩
    connection := valid.exclusive.connection }
  served := by
    dsimp only
    rw [ready, index]
    exact valid.served

theorem Valid.outside (valid : Valid s) (inside : s.camera.inside = true) (r : R) :
    (s.connections r).place = .outside := by
  by_contra other
  have camera := valid.exclusive.camera.mp inside
  rw [(valid.exclusive.connection r).mp other] at camera
  cases camera

/-- A step of the camera thread that has the lock. -/
theorem Valid.held {published : List (List UInt8)} (valid : Valid s)
    (inside : s.camera.inside = true) (after : camera.inside = true)
    (shows : g.Shows published.getLast?) (fits : camera.Fits g s.jpeg published)
    (grown : ∃ new, published = s.published ++ new) :
    Valid { s with g_WebCamState := g, camera, published } where
  shows := shows
  fits := fits
  exclusive := {
    camera := ⟨fun _ => valid.exclusive.camera.mp inside, fun _ => after⟩
    connection := valid.exclusive.connection }
  served := by
    obtain ⟨new, rfl⟩ := grown
    intro r
    have outside := valid.outside inside r
    obtain ⟨-, stream, bodies, states, marked⟩ := valid.served r
    have kept (n : Nat) (body : List UInt8) (there : s.published[n]? = some body) :
        (s.published ++ new)[n]? = some body := by
      obtain ⟨small, -⟩ := List.getElem?_eq_some_iff.mp there
      rwa [List.getElem?_append_left small]
    constructor
    · rw [outside]
      trivial
    · exact stream
    · exact bodies.imp kept
    · intro index size motion mem
      rcases states index size motion mem with none | ⟨n, picture, there, number, length⟩
      · exact .inl none
      · exact .inr ⟨n, picture, kept n picture there, number, length⟩
    · intro fData fill
      obtain ⟨⟨m, seen, mark, before⟩, sorted, -⟩ := marked fData fill
      refine ⟨⟨m, ?_, mark, before⟩, sorted, ?_⟩
      · rw [List.length_append]
        omega
      · intro call img len copied adding
        rw [outside] at adding
        cases adding

theorem Valid.lock (valid : Valid s) (free : s.g_ptmState = none) (inside : camera.inside = true)
    (fits : camera.Fits s.g_WebCamState s.jpeg s.published) :
    Valid { s with camera, g_ptmState := some .camera } where
  shows := valid.shows
  fits := fits
  exclusive := {
    camera := ⟨fun _ => rfl, fun _ => inside⟩
    connection := fun r => by
      have nobody := valid.exclusive.connection r
      rw [free] at nobody
      constructor
      · intro within
        cases nobody.mp within
      · intro held
        cases held }
  served := valid.served

theorem Valid.unlock (valid : Valid s) (inside : s.camera.inside = true)
    (numbered : s.g_WebCamState.Numbered s.published) :
    Valid { s with camera := .top, g_ptmState := none } where
  shows := valid.shows
  fits := numbered
  exclusive := {
    camera := by
      constructor
      · intro within
        cases within
      · intro held
        cases held
    connection := fun r => by
      constructor
      · intro within
        exact absurd (valid.outside inside r) within
      · intro held
        cases held }
  served := valid.served

/-- The thread has the picture in the buffer that is not the ready one. -/
theorem Valid.fills (valid : Valid s) (there : img = nextReadyImg s.g_WebCamState.iReadyImg) :
    img ≠ s.g_WebCamState.iReadyImg := by
  subst there
  exact (nextReadyImg_ready _ valid.shows.range).2.2

theorem Valid.filled (valid : Valid s) (fills : s.camera.fills = some img) :
    img = nextReadyImg s.g_WebCamState.iReadyImg := by
  have fits := valid.fits
  cases camera : s.camera with
  | top | unlocking | readied =>
    rw [camera] at fills
    cases fills
  | chosen =>
    rw [camera] at fits fills
    cases fills
    exact fits.2
  | copying | got | computed | locked =>
    rw [camera] at fits fills
    cases fills
    exact fits.2.1

theorem lastLength_append (published : List (List UInt8)) (jpeg : List UInt8) :
    lastLength (published ++ [jpeg]) = jpeg.length := by
  simp [lastLength]

end

/-! ### The connections -/

section
variable [DecidableEq R] {s s' : System R} {r : R} {c : Connection} {a : Action R}

theorem System.put_self : (s.put r c).connections r = c := Function.update_self ..

theorem System.put_other {q : R} (other : q ≠ r) :
    (s.put r c).connections q = s.connections q := Function.update_of_ne other ..

theorem Valid.put (valid : Valid s) (holder : Option (Holder R))
    (exclusive : System.Exclusive { s.put r c with g_ptmState := holder })
    (served : Served s.g_WebCamState.iReadyImg s.g_WebCamState.uiPicIndex s.published c) :
    Valid { s.put r c with g_ptmState := holder } where
  shows := valid.shows
  fits := valid.fits
  exclusive := exclusive
  served q := by
    change Served _ _ _ ((s.put r c).connections q)
    rcases eq_or_ne q r with rfl | other
    · rwa [System.put_self]
    · rw [System.put_other other]
      exact valid.served q

/-- A step within a call, or between two calls. -/
theorem Valid.stay (valid : Valid s)
    (same : c.place = .outside ↔ (s.connections r).place = .outside)
    (served : Served s.g_WebCamState.iReadyImg s.g_WebCamState.uiPicIndex s.published c) :
    Valid (s.put r c) := by
  refine valid.put s.g_ptmState ⟨valid.exclusive.camera, fun q => ?_⟩ served
  change ((s.put r c).connections q).place ≠ .outside ↔ _
  rcases eq_or_ne q r with rfl | other
  · rw [System.put_self]
    exact (not_congr same).trans (valid.exclusive.connection q)
  · rw [System.put_other other]
    exact valid.exclusive.connection q

theorem Valid.enter (valid : Valid s) (free : s.g_ptmState = none) (within : c.place ≠ .outside)
    (served : Served s.g_WebCamState.iReadyImg s.g_WebCamState.uiPicIndex s.published c) :
    Valid { s.put r c with g_ptmState := some (.connection r) } := by
  have camera := valid.exclusive.camera
  rw [free] at camera
  refine valid.put _ ⟨?_, fun q => ?_⟩ served
  · constructor
    · intro inside
      cases camera.mp inside
    · intro held
      cases held
  · change ((s.put r c).connections q).place ≠ .outside ↔ _
    rcases eq_or_ne q r with rfl | other
    · rw [System.put_self]
      exact ⟨fun _ => rfl, fun _ => within⟩
    · have nobody := valid.exclusive.connection q
      rw [free] at nobody
      rw [System.put_other other]
      constructor
      · intro inside
        cases nobody.mp inside
      · intro held
        cases held
        exact absurd rfl other

theorem Valid.leave (valid : Valid s) (within : (s.connections r).place ≠ .outside)
    (outside : c.place = .outside)
    (served : Served s.g_WebCamState.iReadyImg s.g_WebCamState.uiPicIndex s.published c) :
    Valid { s.put r c with g_ptmState := none } := by
  have mine := (valid.exclusive.connection r).mp within
  have camera := valid.exclusive.camera
  rw [mine] at camera
  refine valid.put _ ⟨?_, fun q => ?_⟩ served
  · constructor
    · intro inside
      cases camera.mp inside
    · intro held
      cases held
  · change ((s.put r c).connections q).place ≠ .outside ↔ _
    rcases eq_or_ne q r with rfl | other
    · rw [System.put_self]
      exact ⟨fun inside => absurd outside inside, fun held => by cases held⟩
    · have nobody := valid.exclusive.connection q
      rw [mine] at nobody
      rw [System.put_other other]
      constructor
      · intro inside
        cases nobody.mp inside
        exact absurd rfl other
      · intro held
        cases held

omit [DecidableEq R] in
/-- While a connection has the lock, the numbers are those of the last picture. -/
theorem Valid.numbered (valid : Valid s) (within : (s.connections r).place ≠ .outside) :
    s.g_WebCamState.Numbered s.published := by
  have mine := (valid.exclusive.connection r).mp within
  have outside : s.camera.inside ≠ true := by
    intro inside
    rw [valid.exclusive.camera.mp inside] at mine
    cases mine
  have fits := valid.fits
  cases camera : s.camera with
  | top | unlocking =>
    rw [camera] at fits
    exact fits
  | chosen img | copying img k | got img | computed img index motion len =>
    rw [camera] at fits
    exact fits.1
  | locked img index motion len | readied index motion len =>
    rw [camera] at outside
    exact absurd rfl outside

end

/-! ### What a connection does with the lock -/

section
variable {g : WebCamState} {published : List (List UInt8)} {c : Connection} {iReadyImg : Int}
  {uiPicIndex : Nat} {place : Place} {call : Call} {fData : FillData}

def Place.Adding : Place → Prop
  | .adding _ _ _ _ => True
  | _ => False

theorem bodies_append (reply new : List Added) :
    bodies (reply ++ new) = bodies reply ++ bodies new := List.filterMap_append ..

theorem Served.add (new : List Added) (served : Served iReadyImg uiPicIndex published c)
    (silent : Camera.bodies new = [])
    (stated : ∀ index size motion, .state index size motion ∈ new → Stated published index size) :
    Served iReadyImg uiPicIndex published { c with reply := c.reply ++ new } where
  copies := served.copies
  stream := served.stream
  bodies := by
    rw [bodies_append, silent, List.append_nil]
    exact served.bodies
  states index size motion mem := by
    rcases List.mem_append.mp mem with old | new
    · exact served.states index size motion old
    · exact stated index size motion new
  marked fData fill := by
    obtain ⟨seen, sorted, newer⟩ := served.marked fData fill
    exact ⟨seen, sorted, newer⟩

theorem Served.go (served : Served iReadyImg uiPicIndex published c)
    (copies : place.Copies iReadyImg published)
    (stream : ∀ call, place.call? = some call → c.fill.isSome = decide (call ≠ .sendJpeg))
    (newer : ∀ fData, c.fill = some fData → place.Adding → fData.uiIndex ≠ uiPicIndex) :
    Served iReadyImg uiPicIndex published { c with place } where
  copies := copies
  stream := stream
  bodies := served.bodies
  states := served.states
  marked fData fill := by
    obtain ⟨seen, sorted, -⟩ := served.marked fData fill
    refine ⟨seen, sorted, fun call img len copied adding => newer fData fill ?_⟩
    rw [show place = .adding call img len copied from adding]
    trivial

theorem Served.leave (served : Served iReadyImg uiPicIndex published c) :
    Served iReadyImg uiPicIndex published { c with place := .outside } := by
  apply served.go
  · trivial
  · intro call within
    cases within
  · intro fData _ adding
    cases adding

/-- The mark stays, or becomes that of the last picture. -/
theorem Served.refill (served : Served iReadyImg uiPicIndex published c)
    (still : ¬ c.place.Adding) (fill : c.fill = some fData) (fData' : FillData)
    (mark : fData'.uiIndex = fData.uiIndex ∨ fData'.uiIndex = picIndex published.length) :
    Served iReadyImg uiPicIndex published { c with fill := some fData' } where
  copies := served.copies
  stream call within := by
    have before := served.stream call within
    rw [fill] at before
    exact before
  bodies := served.bodies
  states := served.states
  marked fData'' same := by
    obtain rfl : fData' = fData'' := Option.some.inj same
    obtain ⟨⟨m, seen, index, before⟩, sorted, -⟩ := served.marked fData fill
    have none (call : Call) (img : Int) (len : Nat) (copied : List UInt8)
        (adding : c.place = .adding call img len copied) : fData'.uiIndex ≠ uiPicIndex := by
      rw [adding] at still
      exact absurd trivial still
    rcases mark with kept | last
    · exact ⟨⟨m, seen, kept.trans index, before⟩, sorted, none⟩
    · refine ⟨⟨published.length, Nat.le_refl _, last, fun k mem => ?_⟩, sorted, none⟩
      exact Nat.lt_of_lt_of_le (before k mem) seen

theorem testReady_place (here : c.place = .locked call) :
    (testReady g call c).place ≠ .outside := by
  unfold testReady
  split
  · dsimp only
    split
    · rintro ⟨⟩
    · rintro ⟨⟩
  · split
    · split
      · rintro ⟨⟩
      · rintro ⟨⟩
    · rintro ⟨⟩
  · rw [here]
    rintro ⟨⟩

theorem callOver_place {bIsAddJpeg : Bool} : (callOver g call bIsAddJpeg c).place = .outside := by
  unfold callOver
  split
  · split
    · rfl
    · split <;> rfl
  · rfl

theorem served_test (shows : g.Shows published.getLast?) (numbered : g.Numbered published)
    (served : Served g.iReadyImg g.uiPicIndex published c) (here : c.place = .locked call) :
    Served g.iReadyImg g.uiPicIndex published (testReady g call c) := by
  obtain ⟨place, fill, reply, numbers⟩ := c
  have kind := served.stream call (by rw [here]; rfl)
  have stream (place : Place) (same : place.call? = some call) (other : Call)
      (within : place.call? = some other) : fill.isSome = decide (other ≠ .sendJpeg) := by
    rw [same] at within
    cases within
    exact kind
  have copies (ready : g.Ready) : Place.Copies
      (.adding call g.iReadyImg (g.iImgBufLen g.iReadyImg) []) g.iReadyImg published := by
    cases last : published.getLast? with
    | none =>
      rw [last] at shows
      have none : g.iReadyImg = -1 := shows
      have range := ready.1
      omega
    | some picture =>
      rw [last] at shows
      exact ⟨rfl, picture, last, shows.2.1, List.nil_prefix⟩
  have gone : Served g.iReadyImg g.uiPicIndex published
      ⟨.added call false, fill, reply, numbers⟩ :=
    served.go trivial (stream _ rfl) fun _ _ adding => adding.elim
  cases fill with
  | none =>
    cases call with
    | fill tCur => cases kind
    | sendJpeg =>
      simp only [testReady]
      split
      case isTrue ready =>
        exact served.go (copies ready) (stream _ rfl) fun fData none => by cases none
      case isFalse => exact gone
  | some fData =>
    cases call with
    | sendJpeg => cases kind
    | fill tCur =>
      simp only [testReady]
      split
      case isFalse => exact gone
      case isTrue newer =>
        split
        case isTrue ready =>
          refine (served.add [boundaryJpeg] rfl ?_).go (copies ready) (stream _ rfl) ?_
          · intro index size motion mem
            cases List.mem_singleton.mp mem
          · intro fData' same _
            obtain rfl : fData = fData' := Option.some.inj same
            exact newer.symm
        case isFalse =>
          refine gone.refill (fun adding => adding) rfl _ (.inr ?_)
          change indexBits g.uiPicIndex = _
          rw [numbered.1, indexBits_picIndex]

theorem served_read {img : Int} {len : Nat} {copied : List UInt8}
    (shows : g.Shows published.getLast?)
    (served : Served g.iReadyImg g.uiPicIndex published c)
    (here : c.place = .adding call img len copied) (more : copied.length < len) :
    Served g.iReadyImg g.uiPicIndex published
      { c with place := .adding call img len (copied ++ [g.acImgBuf img copied.length]) } := by
  have copies := served.copies
  rw [here] at copies
  obtain ⟨rfl, picture, last, rfl, ⟨rest, parts⟩⟩ := copies
  rw [last] at shows
  refine served.go ⟨rfl, picture, last, rfl, ?_⟩ ?_ ?_
  · rw [shows.2.2 copied.length more more]
    cases rest with
    | nil =>
      rw [← parts, List.append_nil] at more
      exact absurd more (Nat.lt_irrefl _)
    | cons byte rest =>
      subst parts
      rw [List.getElem_append_right (Nat.le_refl _)]
      simp only [Nat.sub_self, List.getElem_cons_zero]
      exact ⟨rest, List.append_assoc ..⟩
  · intro other within
    exact served.stream other (by rw [here]; exact within)
  · intro fData fill _
    exact (served.marked fData fill).newer _ _ _ _ here

theorem served_added {img : Int} {len : Nat} {copied : List UInt8}
    (numbered : g.Numbered published) (served : Served g.iReadyImg g.uiPicIndex published c)
    (here : c.place = .adding call img len copied) (all : copied.length = len) :
    Served g.iReadyImg g.uiPicIndex published
      (pictureAdded g call copied (published.length - 1) c) := by
  have copies := served.copies
  rw [here] at copies
  obtain ⟨-, picture, last, rfl, start⟩ := copies
  obtain rfl : copied = picture := start.eq_of_length all
  have some : 0 < published.length := by
    cases published with
    | nil => cases last
    | cons => exact Nat.succ_pos _
  have there : published[published.length - 1]? = Option.some copied := by
    rwa [← List.getLast?_eq_getElem?]
  have kind := served.stream call (by rw [here]; rfl)
  constructor
  · trivial
  · intro other within
    cases within
    cases call with
    | sendJpeg => exact kind
    | fill tCur =>
      change (c.fill.map _).isSome = _
      rw [Option.isSome_map, kind]
  · change List.Forall₂ _ (c.numbers ++ [published.length - 1]) (bodies (c.reply ++ _))
    rw [bodies_append]
    exact List.rel_append served.bodies (.cons there .nil)
  · intro index size motion mem
    rcases List.mem_append.mp mem with old | new
    · exact served.states index size motion old
    · cases List.mem_singleton.mp new
  · intro fData' fill
    cases call with
    | sendJpeg =>
      have fill : c.fill = Option.some fData' := fill
      rw [fill] at kind
      cases kind
    | fill tCur =>
      obtain ⟨fData, old, rfl⟩ := Option.map_eq_some_iff.mp fill
      obtain ⟨⟨m, seen, index, before⟩, sorted, newer⟩ := served.marked fData old
      have later : m ≠ published.length := by
        rintro rfl
        exact newer _ _ _ _ here (index.trans numbered.1.symm)
      refine ⟨⟨published.length, Nat.le_refl _, ?_, ?_⟩, ?_, ?_⟩
      · change indexBits g.uiPicIndex = _
        rw [numbered.1, indexBits_picIndex]
      · intro k mem
        rcases List.mem_append.mp mem with old | new
        · exact Nat.lt_of_lt_of_le (before k old) seen
        · cases List.mem_singleton.mp new
          omega
      · change (c.numbers ++ [published.length - 1]).Pairwise _
        refine List.pairwise_append.mpr ⟨sorted, List.pairwise_singleton .., ?_⟩
        intro k mem n new
        cases List.mem_singleton.mp new
        have below := before k mem
        omega
      · intro other img len bytes adding
        cases adding

theorem stated_last (numbered : g.Numbered published) :
    Stated published g.uiPicIndex g.uiPicSize := by
  obtain ⟨index, size⟩ := numbered
  rcases List.eq_nil_or_concat' published with rfl | ⟨front, last, rfl⟩
  · exact .inl ⟨index, size⟩
  · refine .inr ⟨front.length, last, List.getElem?_concat_length, ?_, ?_⟩
    · rw [index, List.length_append]
      rfl
    · rw [size, lastLength_append]

theorem served_over {bIsAddJpeg : Bool} (numbered : g.Numbered published)
    (served : Served g.iReadyImg g.uiPicIndex published c)
    (here : c.place = .added call bIsAddJpeg) :
    Served g.iReadyImg g.uiPicIndex published (callOver g call bIsAddJpeg c) := by
  obtain ⟨place, fill, reply, numbers⟩ := c
  obtain rfl : place = .added call bIsAddJpeg := here
  have leave := served.leave
  have state := served.add g.string rfl fun index size motion mem => by
    rcases List.mem_cons.mp mem with boundary | mem
    · cases boundary
    rcases List.mem_cons.mp mem with state | mem
    · cases state
      exact stated_last numbered
    · cases List.mem_singleton.mp mem
  have crlf := served.add [.text "\r\n"] rfl fun index size motion mem => by
    cases List.mem_singleton.mp mem
  cases call with
  | sendJpeg => exact leave
  | fill tCur =>
    cases fill with
    | none => exact leave
    | some fData =>
      simp only [callOver]
      split
      case isTrue =>
        split
        case isTrue => exact state.leave
        case isFalse => exact leave
      case isFalse =>
        split
        case isFalse => exact leave
        case isTrue =>
          split
          case isTrue =>
            exact (state.refill (fun adding => adding) rfl { fData with ptLastFill := tCur }
              (.inl rfl)).leave
          case isFalse =>
            exact (crlf.refill (fun adding => adding) rfl { fData with ptLastFill := tCur }
              (.inl rfl)).leave

end

/-! ### Runs -/

section
variable [DecidableEq R] {s s' : System R} {a : Action R} {actions : List (Action R)}
  {acImgBuf : Int → Nat → UInt8}

omit [DecidableEq R] in
theorem valid_start : Valid (start acImgBuf : System R) where
  shows := rfl
  fits := ⟨rfl, rfl⟩
  exclusive := {
    camera := iff_of_false (by rintro ⟨⟩) (by rintro ⟨⟩)
    connection := fun _ => iff_of_false (fun within => within rfl) (by rintro ⟨⟩) }
  served _ := {
    copies := trivial
    stream := fun _ within => by cases within
    bodies := .nil
    states := fun _ _ _ mem => by cases mem
    marked := fun _ fill => by cases fill }

theorem step_valid (valid : Valid s) (step : Step s a s') : Valid s' := by
  have fits := valid.fits
  cases step with
  | choose here =>
    rw [here] at fits
    exact valid.unlocked (by rw [here]; rfl) rfl rfl rfl valid.shows ⟨fits, rfl⟩
  | noImage here =>
    rw [here] at fits
    exact valid.unlocked (by rw [here]; rfl) rfl rfl rfl valid.shows fits.1
  | image here =>
    rw [here] at fits
    refine valid.unlocked (by rw [here]; rfl) rfl rfl rfl valid.shows ⟨fits.1, fits.2, ?_⟩
    intro k _ below
    exact absurd below (Nat.not_lt_zero k)
  | copyByte here more =>
    rw [here] at fits
    obtain ⟨numbered, there, holds⟩ := fits
    exact valid.unlocked (by rw [here]; rfl) rfl rfl rfl
      (valid.shows.setByte (valid.fills there) _)
      ⟨numbered, there, WebCamState.holds_setByte holds more⟩
  | setLength here =>
    rw [here] at fits
    obtain ⟨numbered, there, holds⟩ := fits
    exact valid.unlocked (by rw [here]; rfl) rfl rfl rfl
      (valid.shows.setLen (valid.fills there) _)
      ⟨numbered, there, holds, Function.update_self ..⟩
  | refused here =>
    rw [here] at fits
    exact valid.unlocked (by rw [here]; rfl) rfl rfl rfl valid.shows fits.1
  | saveJpeg here =>
    rw [here] at fits
    obtain ⟨numbered, there, holds, length⟩ := fits
    refine valid.unlocked (by rw [here]; rfl) rfl rfl rfl valid.shows
      ⟨numbered, rfl, ?_, ?_, ?_, length⟩
    · rwa [← there]
    · rwa [← there]
    · rw [numbered.1, nextPicIndex_picIndex]
  | lock here free =>
    rw [here] at fits
    exact valid.lock free rfl fits
  | @setReady img _ _ _ here =>
    rw [here] at fits
    obtain ⟨numbered, there, holds, length, index, size⟩ := fits
    refine valid.held (by rw [here]; rfl) rfl ?_ ⟨?_, ?_⟩ ⟨_, rfl⟩
    · rw [List.getLast?_concat]
      have range := nextReadyImg_ready _ valid.shows.range
      rw [← there] at range
      exact ⟨⟨range.1, range.2.1⟩, length, holds⟩
    · rw [index, List.length_append]
      rfl
    · rw [size, lastLength_append]
  | setIndex here =>
    rw [here] at fits
    exact valid.held (by rw [here]; rfl) rfl valid.shows fits ⟨[], (List.append_nil _).symm⟩
  | unlock here =>
    rw [here] at fits
    exact valid.unlock (by rw [here]; rfl) fits
  | @getCameraData r uiIfSendStatus ptLastFill here =>
    refine valid.stay ⟨fun _ => here, fun _ => rfl⟩ ?_
    constructor
    · trivial
    · intro call within
      cases within
    · exact .nil
    · intro _ _ _ mem
      cases mem
    · intro fData fill
      cases fill
      refine ⟨⟨0, Nat.zero_le _, indexBits_picIndex 0, ?_⟩, .nil, ?_⟩
      · intro k mem
        cases mem
      · intro call img len copied adding
        cases adding
  | @disconnect r here =>
    refine valid.stay Iff.rfl ?_
    obtain ⟨copies, -, bodies, states, -⟩ := valid.served r
    refine ⟨copies, ?_, bodies, states, ?_⟩
    · intro call within
      rw [here] at within
      cases within
    · intro fData fill
      cases fill
  | @call r call here stream free =>
    refine valid.enter free (by rintro ⟨⟩) ((valid.served r).go trivial ?_ ?_)
    · intro other within
      cases within
      exact stream
    · intro fData fill adding
      cases adding
  | @test r call here =>
    have within : (s.connections r).place ≠ .outside := by
      rw [here]
      rintro ⟨⟩
    exact valid.stay (iff_of_false (testReady_place here) within)
      (served_test valid.shows (valid.numbered within) (valid.served r) here)
  | @read r call img len copied here more =>
    have within : (s.connections r).place ≠ .outside := by
      rw [here]
      rintro ⟨⟩
    exact valid.stay (iff_of_false (by rintro ⟨⟩) within)
      (served_read valid.shows (valid.served r) here more)
  | @addBody r call img len copied here all =>
    have within : (s.connections r).place ≠ .outside := by
      rw [here]
      rintro ⟨⟩
    exact valid.stay (iff_of_false (by rintro ⟨⟩) within)
      (served_added (valid.numbered within) (valid.served r) here all)
  | @finish r call bIsAddJpeg here =>
    have within : (s.connections r).place ≠ .outside := by
      rw [here]
      rintro ⟨⟩
    exact valid.leave within callOver_place (served_over (valid.numbered within) (valid.served r) here)

/-- The picture in hand, before it is published. -/
def System.pending (s : System R) : List (List UInt8) :=
  match s.camera with
  | .copying _ _ | .got _ | .computed _ _ _ _ | .locked _ _ _ _ => [s.jpeg]
  | .top | .chosen _ | .readied _ _ _ | .unlocking => []

theorem step_captured (step : Step s a s') :
    (s'.published ++ s'.pending).Sublist (s.published ++ s.pending ++ a.captured.toList) := by
  -- A picture in hand can be dropped, and otherwise stays the same.
  have dropped (camera : CameraThread) (new : List (List UInt8)) :
      s.published.Sublist (s.published ++ s.pending ++ new) :=
    (List.sublist_append_left ..).trans (List.sublist_append_left ..)
  have kept (s' : System R) (published : s'.published = s.published)
      (pending : s'.pending = s.pending) :
      (s'.published ++ s'.pending).Sublist (s.published ++ s.pending ++ a.captured.toList) := by
    rw [published, pending]
    exact List.sublist_append_left ..
  cases step with
  | choose here => exact kept _ rfl (by simp only [System.pending, here])
  | noImage here bad => exact kept _ rfl (by simp only [System.pending, here])
  | @image img jpeg here room =>
    simp only [System.pending, here, Action.captured, if_pos room, Option.toList_some,
      List.append_nil]
    exact List.Sublist.refl _
  | copyByte here more => exact kept _ rfl (by simp only [System.pending, here])
  | setLength here => exact kept _ rfl (by simp only [System.pending, here])
  | refused here =>
    rw [show System.pending { s with camera := .top } = [] from rfl, List.append_nil]
    exact dropped .top _
  | saveJpeg here => exact kept _ rfl (by simp only [System.pending, here])
  | lock here free => exact kept _ rfl (by simp only [System.pending, here])
  | setReady here =>
    simp only [System.pending, here, Action.captured, Option.toList_none, List.append_nil]
    exact List.Sublist.refl _
  | setIndex here => exact kept _ rfl (by simp only [System.pending, here])
  | unlock here => exact kept _ rfl (by simp only [System.pending, here])
  | getCameraData here => exact kept _ rfl rfl
  | disconnect here => exact kept _ rfl rfl
  | call here stream free => exact kept _ rfl rfl
  | test here => exact kept _ rfl rfl
  | read here more => exact kept _ rfl rfl
  | addBody here all => exact kept _ rfl rfl
  | finish here => exact kept _ rfl rfl

theorem run_captured (run : Run Step s actions s') :
    (s'.published ++ s'.pending).Sublist
      (s.published ++ s.pending ++ actions.filterMap Action.captured) := by
  induction run with
  | nil => simp
  | @cons s r t a as step _ ih =>
    have all : (a :: as).filterMap Action.captured =
        a.captured.toList ++ as.filterMap Action.captured := by
      cases captured : a.captured <;> simp [captured]
    rw [all, ← List.append_assoc]
    exact ih.trans ((step_captured step).append_right _)

/-- What a connection copies is a picture of the encoder, whole and with its own length, and the
bodies of a stream are published one after the other. -/
theorem picture_consistent (run : Run Step (start acImgBuf) actions s) :
    s.published.Sublist (actions.filterMap Action.captured) ∧
    (∀ r call img len copied, (s.connections r).place = .adding call img len copied →
      s.camera.fills ≠ some img ∧ ∃ picture, s.published.getLast? = some picture ∧
        len = picture.length ∧ copied <+: picture) ∧
    (∀ r, List.Forall₂ (fun n body => s.published[n]? = some body)
      (s.connections r).numbers (bodies (s.connections r).reply)) ∧
    (∀ r index size motion, .state index size motion ∈ (s.connections r).reply →
      Stated s.published index size) ∧
    ∀ r, (s.connections r).fill.isSome → (s.connections r).numbers.Pairwise (· < ·) := by
  have valid := run.invariant Valid (fun s a t => step_valid) valid_start
  refine ⟨?_, ?_, fun r => (valid.served r).bodies, fun r => (valid.served r).states, ?_⟩
  · exact (List.sublist_append_left ..).trans (run_captured run)
  · intro r call img len copied adding
    have copies := (valid.served r).copies
    rw [adding] at copies
    obtain ⟨rfl, picture, last, length, start⟩ := copies
    refine ⟨fun fills => ?_, picture, last, length, start⟩
    exact valid.fills (valid.filled fills) rfl
  · intro r some
    obtain ⟨fData, fill⟩ := Option.isSome_iff_exists.mp some
    exact ((valid.served r).marked fData fill).sorted

end

/-- A picture of one byte on its way to a stream. -/
def onePicture : List (Action Unit) :=
  [.choose, .eventRead (some [7]), .copyByte, .setLength, .saveJpeg true false, .lock, .setReady,
    .setIndex, .unlock, .getCameraData () true 0, .call () (.fill 1), .test (), .read (),
    .addBody (), .finish ()]

theorem one_picture_sent : ∃ s : System Unit, bodies (s.connections ()).reply = [[7]] ∧
    List.Forall₂ (fun n body => s.published[n]? = some body)
      (s.connections ()).numbers (bodies (s.connections ()).reply) := by
  have run : Run Step (start fun _ _ => 0) onePicture _ :=
    .cons (.choose rfl) <| .cons (.image rfl (Nat.le_of_ble_eq_true rfl)) <|
    .cons (.copyByte rfl Nat.zero_lt_one) <| .cons (.setLength rfl) <| .cons (.saveJpeg rfl) <|
    .cons (.lock rfl rfl) <| .cons (.setReady rfl) <| .cons (.setIndex rfl) <|
    .cons (.unlock rfl) <| .cons (.getCameraData rfl) <| .cons (.call rfl rfl rfl) <|
    .cons (.test rfl) <| .cons (.read rfl (by decide)) <| .cons (.addBody rfl rfl) <|
    .cons (.finish rfl) <| .nil _
  exact ⟨_, rfl, (picture_consistent run).2.2.1 ()⟩

end Rovio.Camera
