import Mathlib.Data.List.Infix
import Mathlib.Data.List.Basic

/-! Texts of named sections with lines `name = value`, and what a search for a name finds when the
text has been cut off at some length. -/
namespace Kit.Ini

abbrev Text := List Char

/-- The lines of a text, without the line feeds. -/
def lines : Text → List Text
  | [] => [[]]
  | c :: rest =>
    if c = '\n' then [] :: lines rest
    else match lines rest with
      | [] => [[c]]
      | line :: more => (c :: line) :: more

/-- A line without the carriage return at its end. -/
def chomp (line : Text) : Text := if line.getLast? = some '\r' then line.dropLast else line

/-- The section that a line `[name]` opens. -/
def sectionOf : Text → Option Text
  | '[' :: rest => if rest.getLast? = some ']' then some rest.dropLast else none
  | _ => none

/-- The text after `name = `. -/
def valueOf (name line : Text) : Option Text :=
  if (name ++ [' ', '=', ' ']).isPrefixOf line then some (line.drop (name.length + 3)) else none

/-- The first value of the name in the section, `inside` being whether the search is in it. -/
def search (seg name : Text) : Bool → List Text → Text
  | _, [] => []
  | inside, line :: rest =>
    match sectionOf line with
    | some opened => search seg name (opened = seg) rest
    | none =>
      match if inside then valueOf name line else none with
      | some v => v
      | none => search seg name inside rest

/-- The text after `name = ` in the named section, or the empty text. -/
def textAfter (file seg name : Text) : Text := search seg name false ((lines file).map chomp)

/-- A line that is written. -/
inductive Line where
  | header (name : Text) (ending : Bool)
  | entry (name value : Text)
  | blank

/-- The line without its end. -/
def Line.body : Line → Text
  | .header name _ => '[' :: name ++ [']']
  | .entry name value => name ++ [' ', '=', ' '] ++ value
  | .blank => []

/-- A header may end in a line feed alone. -/
def Line.ending : Line → Text
  | .header _ false => []
  | _ => ['\r']

def Line.text (l : Line) : Text := l.body ++ l.ending ++ ['\n']

def render (ls : List Line) : Text := ls.flatMap Line.text

@[simp] theorem render_nil : render [] = [] := rfl
@[simp] theorem render_append (ls ms : List Line) : render (ls ++ ms) = render ls ++ render ms := by
  simp [render]

/-- A name can be told from a header and from what follows it. -/
def Name (k : Text) : Prop := ' ' ∉ k ∧ '[' ∉ k

/-- The line has no line end inside, and its name is one. -/
def Line.Proper : Line → Prop
  | .header name ending => ∀ c ∈ (Line.header name ending).body, c ≠ '\n' ∧ c ≠ '\r'
  | .entry name value => Name name ∧ ∀ c ∈ (Line.entry name value).body, c ≠ '\n' ∧ c ≠ '\r'
  | .blank => True

theorem Line.Proper.plain {l : Line} (proper : l.Proper) : ∀ c ∈ l.body, c ≠ '\n' ∧ c ≠ '\r' := by
  cases l with
  | header name ending => exact proper
  | entry name value => exact proper.2
  | blank => simp [Line.body]

/-- What the search finds when only the first `n` characters are there. -/
def find (seg name : Text) : Bool → Nat → List Line → Text
  | _, _, [] => []
  | _, n, .header opened ending :: ls =>
    find seg name (opened = seg) (n - (Line.header opened ending).text.length) ls
  | inside, n, .entry k v :: ls =>
    if inside ∧ k = name then v.take (n - (k.length + 3))
    else find seg name inside (n - (Line.entry k v).text.length) ls
  | inside, n, .blank :: ls => find seg name inside (n - Line.blank.text.length) ls

universe u
variable {β : Type u}

/-- A section: its header, its lines, and whether a blank line follows. -/
structure Section (β : Type u) where
  name : Text
  ending : Bool
  entries : List (Text × β)
  separated : Bool

section
variable (text : β → Text)

def entryLines (entries : List (Text × β)) : List Line :=
  entries.map fun e => .entry e.1 (text e.2)

def Section.lines (s : Section β) : List Line :=
  .header s.name s.ending :: (entryLines text s.entries ++ if s.separated then [.blank] else [])

def Section.length (s : Section β) : Nat := (render (s.lines text)).length

def fileLines (file : List (Section β)) : List Line := file.flatMap (Section.lines text)

/-- An entry with the place of the first character of its value. -/
structure Placed (β : Type u) where
  pos : Nat
  name : Text
  value : β

def placed : Nat → List (Text × β) → List (Placed β)
  | _, [] => []
  | start, (k, v) :: entries =>
    ⟨start + (k.length + 3), k, v⟩ ::
      placed (start + (Line.entry k (text v)).text.length) entries

def headerLength (s : Section β) : Nat := (Line.header s.name s.ending).text.length

def placedFile : Nat → List (Section β) → List (Placed β)
  | _, [] => []
  | start, s :: file =>
    placed text (start + headerLength s) s.entries ++ placedFile (start + s.length text) file

variable (seg : Text)

/-- The lines of the file are proper. -/
def Proper (file : List (Section β)) : Prop := ∀ l ∈ fileLines text file, l.Proper

theorem Proper.name {file : List (Section β)} (proper : Proper text file) {s : Section β}
    (member : s ∈ file) {e : Text × β} (inside : e ∈ s.entries) : Name e.1 := by
  have here : Line.entry e.1 (text e.2) ∈ fileLines text file := by
    apply List.mem_flatMap.mpr
    refine ⟨s, member, ?_⟩
    simp only [Section.lines, List.mem_cons, List.mem_append, entryLines]
    exact .inr (.inl (List.mem_map.mpr ⟨e, inside, rfl⟩))
  exact (proper _ here).1

end
end Kit.Ini
