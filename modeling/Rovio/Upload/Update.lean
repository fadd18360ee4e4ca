import Rovio.Kit.Split
import Rovio.Upload.Boundary

/-! The upload automaton. It takes the body one character at a time, so the
pieces in which the body arrives do not matter. The name that a part's header
gives it is the library's answer and a parameter; `usiMyWrite` succeeds. -/
namespace Rovio.Upload
open Kit

inductive MpState where
  | ignore | header | oneCr | twoLf | bodyFile | bodyParam
  deriving DecidableEq, Repr

/-- `PROCESS_MULTIPART_T`, with the calls of `httpSetString` made on `pParamList`, and the flash
that `usiMyWrite` stores to. -/
structure ProcessMultipart extends Ring where
  iState : MpState
  pfFlashTmpFile : Nat
  pParamList : List (Option (List UInt8) × List UInt8)
  pcInnerPartName : Option (List UInt8)
  acBoundary : List UInt8
  flash : Nat → UInt8

/-- `SourceFile`. -/
def sourceFile : List UInt8 := [83, 111, 117, 114, 99, 101, 70, 105, 108, 101]

def usiMyWrite (flash : Nat → UInt8) (addr : Nat) (data : List UInt8) : Nat → UInt8 :=
  fun a => if addr ≤ a then data[a - addr]?.getD (flash a) else flash a

/-- `httpParseSinglePart` followed by `GetInnerPartName`. -/
abbrev PartName := List UInt8 → Option (List UInt8)

section
variable (iBufLen : Nat) (N : PartName)

/-- The state that `Http_Post_FMUpload` starts with. -/
def mpStart (acBoundary : List UInt8) (flash : Nat → UInt8) : ProcessMultipart where
  pcBufDataHeader := 0
  pcBufDataEnd := 0
  acBuf _ := 0
  iState := .ignore
  pfFlashTmpFile := 16
  pParamList := []
  pcInnerPartName := none
  acBoundary := acBoundary
  flash := flash

def mpTestWriteFlash (m : ProcessMultipart) : ProcessMultipart :=
  if m.pcBufDataEnd + 1 = iBufLen then
    let iLen := (m.pcBufDataEnd - m.pcBufDataHeader - m.acBoundary.length - 2) / 4 * 4
    { m with
      toRing := mpClean iBufLen { m.toRing with pcBufDataHeader := iLen }
      pfFlashTmpFile := m.pfFlashTmpFile + iLen
      flash := usiMyWrite m.flash m.pfFlashTmpFile ((List.range iLen).map m.acBuf) }
  else m

/-- The line end before the delimiter at `pc` is not part of the body. -/
def stripLineEnd (r : Ring) (pc : Nat) : Nat :=
  if 0 < pc ∧ r.acBuf (pc - 1) = lf then
    if 0 < pc - 1 ∧ r.acBuf (pc - 2) = cr then pc - 2 else pc - 1
  else pc

/-- The bytes from the data header to the data end. -/
def Ring.window (r : Ring) : List UInt8 :=
  (List.range (r.pcBufDataEnd - r.pcBufDataHeader)).map (fun i => r.acBuf (r.pcBufDataHeader + i))

/-- The case `MPST_TWO_LF`, into which `MPST_ONE_CR` falls through. -/
def headerEnd (m : ProcessMultipart) (ch : UInt8) : ProcessMultipart :=
  if ch = lf then
    let r := mpClean iBufLen m.toRing
    match N r.window with
    | some pcName =>
      if pcName = sourceFile then { m with toRing := mpClear r, iState := .bodyFile }
      else { m with toRing := mpClear r, iState := .bodyParam, pcInnerPartName := some pcName }
    | none => { m with toRing := mpClear r, iState := .ignore }
  else { m with iState := .header }

def bodyFile (m : ProcessMultipart) : ProcessMultipart :=
  match mpTestBoundary m.toRing m.acBoundary with
  | some pc =>
    let pc := stripLineEnd m.toRing pc
    { m with
      toRing := mpClear m.toRing
      iState := .header
      pfFlashTmpFile := m.pfFlashTmpFile + pc
      flash := usiMyWrite m.flash m.pfFlashTmpFile ((List.range pc).map m.acBuf) }
  | none => mpTestWriteFlash iBufLen m

def bodyParam (m : ProcessMultipart) : ProcessMultipart :=
  let r := mpClean iBufLen m.toRing
  match mpTestBoundary r m.acBoundary with
  | some pc =>
    let pc := stripLineEnd r pc
    let acBuf := Function.update r.acBuf pc 0
    let value := ((List.range pc).map acBuf).takeWhile (· ≠ 0)
    { m with
      toRing := mpClear { r with acBuf := acBuf }
      iState := .header
      pParamList := m.pParamList ++ [(m.pcInnerPartName, value)]
      pcInnerPartName := none }
  | none => { m with toRing := r }

/-- The body of the loop of `ProcessUpdate`. -/
def processChar (m : ProcessMultipart) (ch : UInt8) : ProcessMultipart :=
  let m := { m with toRing := mpAddChar iBufLen m.toRing ch }
  match m.iState with
  | .ignore =>
    if ch = lf then
      let r := mpClean iBufLen m.toRing
      if (mpTestBoundary r m.acBoundary).isSome then
        { m with toRing := mpClear r, iState := .header }
      else { m with toRing := r }
    else m
  | .header =>
    if ch = lf then
      let r := mpClean iBufLen m.toRing
      if (mpTestBoundary r m.acBoundary).isSome then { m with toRing := r }
      else { m with toRing := r, iState := .oneCr }
    else m
  | .oneCr =>
    if ch = cr then { m with iState := .twoLf }
    else headerEnd iBufLen N m ch
  | .twoLf => headerEnd iBufLen N m ch
  | .bodyFile => bodyFile iBufLen m
  | .bodyParam => bodyParam iBufLen m

def processUpdate (m : ProcessMultipart) (data : List UInt8) : ProcessMultipart :=
  data.foldl (processChar iBufLen N) m

end

/-- Size of `acBuf`. -/
def mpBufLen : Nat := 32 * 1024

variable {n : Nat} {N : PartName}

theorem processUpdate_append (m : ProcessMultipart) (left right : List UInt8) :
    processUpdate n N m (left ++ right) =
      processUpdate n N (processUpdate n N m left) right :=
  List.foldl_append

/-- The pieces of the body one after another are the body. -/
theorem processUpdate_pieces (m : ProcessMultipart) (pieces : List (List UInt8)) :
    pieces.foldl (processUpdate n N) m = processUpdate n N m pieces.flatten := by
  induction pieces generalizing m with
  | nil => rfl
  | cons piece rest ih => rw [List.foldl_cons, ih, List.flatten_cons, processUpdate_append]

/-- Nothing was written and the boundary is the same. -/
structure SameFlash (m m' : ProcessMultipart) : Prop where
  boundary : m'.acBoundary = m.acBoundary
  address : m'.pfFlashTmpFile = m.pfFlashTmpFile
  flash : m'.flash = m.flash

theorem SameFlash.trans {a b c : ProcessMultipart} (left : SameFlash a b) (right : SameFlash b c) :
    SameFlash a c :=
  ⟨right.boundary.trans left.boundary, right.address.trans left.address,
    right.flash.trans left.flash⟩

theorem headerEnd_sameFlash (m : ProcessMultipart) (ch : UInt8) :
    SameFlash m (headerEnd n N m ch) := by
  unfold headerEnd
  dsimp only
  repeat' split
  all_goals exact ⟨rfl, rfl, rfl⟩

/-- Only the state of a file body writes. -/
theorem processChar_sameFlash {m : ProcessMultipart} (quiet : m.iState ≠ .bodyFile) (ch : UInt8) :
    SameFlash m (processChar n N m ch) := by
  have added : SameFlash m { m with toRing := mpAddChar n m.toRing ch } := ⟨rfl, rfl, rfl⟩
  unfold processChar
  cases state : m.iState with
  | bodyFile => exact absurd state quiet
  | ignore =>
    dsimp only
    repeat' split
    all_goals exact ⟨rfl, rfl, rfl⟩
  | header =>
    dsimp only
    repeat' split
    all_goals exact ⟨rfl, rfl, rfl⟩
  | oneCr =>
    dsimp only
    split
    · exact ⟨rfl, rfl, rfl⟩
    · rw [← state]
      exact added.trans (headerEnd_sameFlash _ ch)
  | twoLf =>
    dsimp only
    rw [← state]
    exact added.trans (headerEnd_sameFlash _ ch)
  | bodyParam =>
    dsimp only [bodyParam]
    split <;> exact ⟨rfl, rfl, rfl⟩

theorem bodyFile_frame (m : ProcessMultipart) :
    (bodyFile n m).acBoundary = m.acBoundary ∧
      m.pfFlashTmpFile ≤ (bodyFile n m).pfFlashTmpFile := by
  unfold bodyFile mpTestWriteFlash
  dsimp only
  repeat' split
  · exact ⟨rfl, Nat.le_add_right _ _⟩
  · exact ⟨rfl, Nat.le_add_right _ _⟩
  · exact ⟨rfl, Nat.le_refl _⟩

/-- The write address never goes back. -/
theorem processChar_address (m : ProcessMultipart) (ch : UInt8) :
    m.pfFlashTmpFile ≤ (processChar n N m ch).pfFlashTmpFile := by
  by_cases state : m.iState = .bodyFile
  · unfold processChar
    simp only [state]
    exact (bodyFile_frame { m with
      toRing := mpAddChar n m.toRing ch, iState := .bodyFile }).2
  · exact (processChar_sameFlash state ch).address.ge

theorem processUpdate_address (m : ProcessMultipart) (data : List UInt8) :
    m.pfFlashTmpFile ≤ (processUpdate n N m data).pfFlashTmpFile := by
  induction data generalizing m with
  | nil => exact Nat.le_refl _
  | cons ch rest ih => exact (processChar_address m ch).trans (ih _)

/-! The characters that a ring of one free place holds of a text. -/

def held (k : Nat) (text : List UInt8) : List UInt8 := text.drop (text.length - k)

theorem push_held {k : Nat} (hk : 0 < k) (text : List UInt8) (ch : UInt8) :
    push k (held k text) ch = held k (text ++ [ch]) := by
  unfold push held
  rw [List.length_drop, List.length_append, List.length_singleton]
  split
  · rename_i full
    rw [List.tail_drop, show text.length + 1 - k = text.length - k + 1 by omega,
      List.drop_append_of_le_length (by omega)]
  · rename_i room
    rw [show text.length + 1 - k = 0 by omega, show text.length - k = 0 by omega]
    rfl

theorem held_suffix (k : Nat) (text : List UInt8) : held k text <:+ text := List.drop_suffix _ _

/-- A short suffix of a text is a suffix of what is held of it. -/
theorem suffix_held {k : Nat} {tail text : List UInt8} (suffix : tail <:+ text)
    (short : tail.length ≤ k) : tail <:+ held k text := by
  obtain ⟨front, rfl⟩ := suffix
  unfold held
  rw [List.length_append, List.drop_append_of_le_length (by omega)]
  exact List.suffix_append _ _

/-- The ring is sound and holds the given characters. -/
structure Holds (n : Nat) (r : Ring) (c : List UInt8) : Prop where
  valid : r.Valid n
  contents : r.contents n = c

theorem Holds.clear {r : Ring} (hn : 0 < n) : Holds n (mpClear r) [] := by
  constructor
  · exact ⟨hn, hn⟩
  · simp [Ring.contents, places, mpClear]

theorem Holds.push {r : Ring} {c : List UInt8} (hn : 1 < n) (holds : Holds n r c) (ch : UInt8) :
    Holds n (mpAddChar n r ch) (push (n - 1) c ch) := by
  constructor
  · exact mpAddChar_valid holds.valid ch
  · rw [mpAddChar_contents holds.valid hn, holds.contents]

theorem Holds.add {r : Ring} {text : List UInt8} (hn : 1 < n)
    (holds : Holds n r (held (n - 1) text))
    (ch : UInt8) : Holds n (mpAddChar n r ch) (held (n - 1) (text ++ [ch])) := by
  rw [← push_held (by omega)]
  exact holds.push hn ch

theorem push_ne_nil (k : Nat) (c : List UInt8) (ch : UInt8) : push k c ch ≠ [] := by
  unfold Upload.push
  split <;> simp

theorem push_suffix {k : Nat} {c text : List UInt8} (suffix : c <:+ text) (ch : UInt8) :
    push k c ch <:+ text ++ [ch] := by
  unfold Upload.push
  split
  · exact snoc_suffix_snoc.mpr ⟨rfl, (List.tail_suffix c).trans suffix⟩
  · exact snoc_suffix_snoc.mpr ⟨rfl, suffix⟩

theorem window_front {r : Ring} (zero : r.pcBufDataHeader = 0) : r.window = r.front := by
  simp [Ring.window, Ring.front, zero]

/-- A ring that is not empty, cleaned. -/
theorem Holds.clean {r : Ring} {c : List UInt8} (holds : Holds n r c) (some : c ≠ []) :
    Holds n (mpClean n r) c ∧ (mpClean n r).pcBufDataHeader = 0 ∧ (mpClean n r).front = c := by
  have apart : r.pcBufDataEnd ≠ r.pcBufDataHeader := by
    intro meet
    apply some
    rw [← holds.contents, ← List.length_eq_zero_iff, contents_length, meet,
      show r.pcBufDataHeader + n - r.pcBufDataHeader = n by omega, Nat.mod_self]
  have valid := mpClean_valid holds.valid (.inl apart)
  have header := mpClean_header holds.valid
  have contents := (mpClean_contents holds.valid (.inl apart)).trans holds.contents
  exact ⟨⟨valid, contents⟩, header, (front_contents valid header).symm.trans contents⟩

end Rovio.Upload
