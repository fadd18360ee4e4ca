import Mathlib.Algebra.GroupWithZero.Nat
import Mathlib.Data.List.Basic

/-! The head of an HTTP message: a start line, header lines and an empty line. -/
namespace Kit

def crlf : List Char := ['\r', '\n']

def isLineBreak (c : Char) : Bool := c == '\r' || c == '\n'

/-- How many characters of a text would end a line. -/
def breaks (text : List Char) : Nat := text.countP isLineBreak

structure HeadLine where
  name : List Char
  value : List Char
  deriving DecidableEq

def HeadLine.line (header : HeadLine) : List Char :=
  header.name ++ (": ".toList ++ (header.value ++ crlf))

def headText (start : List Char) (headers : List HeadLine) : List Char :=
  start ++ (crlf ++ (headers.flatMap HeadLine.line ++ crlf))

/-- The text is one start line, one line for each of the names, and the empty line. -/
def HeadFormed (names : List (List Char)) (text : List Char) : Prop :=
  ∃ start headers, text = headText start headers ∧ headers.map HeadLine.name = names ∧
    breaks start = 0 ∧ ∀ header ∈ headers, breaks header.value = 0

@[simp] theorem breaks_append (l r : List Char) : breaks (l ++ r) = breaks l + breaks r :=
  List.countP_append

@[simp] theorem breaks_crlf : breaks crlf = 2 := by decide

theorem breaks_line (header : HeadLine) :
    breaks header.line = breaks header.name + breaks header.value + 2 := by
  have colon : breaks ": ".toList = 0 := by decide
  unfold HeadLine.line
  rw [breaks_append, breaks_append, breaks_append, colon, breaks_crlf]
  omega

theorem line_length (header : HeadLine) :
    header.line.length = header.name.length + header.value.length + 4 := by
  have colon : ": ".toList.length = 2 := by decide
  have two : crlf.length = 2 := rfl
  unfold HeadLine.line
  rw [List.length_append, List.length_append, List.length_append, colon, two]
  omega

theorem breaks_lines (headers : List HeadLine) : breaks (headers.flatMap HeadLine.line) =
    (headers.map fun header => breaks header.value).sum +
      ((headers.map HeadLine.name).map fun name => breaks name + 2).sum := by
  induction headers with
  | nil => rfl
  | cons header rest ih =>
    rw [List.flatMap_cons, breaks_append, breaks_line, ih]
    simp only [List.map_cons, List.sum_cons]
    omega

theorem breaks_headText (start : List Char) (headers : List HeadLine) :
    breaks (headText start headers) =
      breaks start + (headers.map fun header => breaks header.value).sum +
        (((headers.map HeadLine.name).map fun name => breaks name + 2).sum + 4) := by
  unfold headText
  rw [breaks_append, breaks_append, breaks_append, breaks_crlf, breaks_lines]
  omega

theorem values_clean (headers : List HeadLine) :
    (headers.map fun header => breaks header.value).sum = 0 ↔
      ∀ header ∈ headers, breaks header.value = 0 := by
  rw [List.sum_eq_zero_iff_forall_eq_nat, List.forall_mem_map]

/-- A head printed from parts is well formed just when no part ends a line: each such character
would be one too many. -/
theorem headFormed_iff (start : List Char) (headers : List HeadLine) :
    HeadFormed (headers.map HeadLine.name) (headText start headers) ↔
      breaks start = 0 ∧ ∀ header ∈ headers, breaks header.value = 0 := by
  constructor
  · rintro ⟨start', headers', same, names, clean, cleanValues⟩
    have count := congrArg breaks same
    rw [breaks_headText, breaks_headText, names, clean,
      (values_clean headers').mpr cleanValues] at count
    exact ⟨by omega, (values_clean headers).mp (by omega)⟩
  · rintro ⟨clean, cleanValues⟩
    exact ⟨start, headers, rfl, rfl, clean, cleanValues⟩

end Kit
