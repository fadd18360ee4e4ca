import Mathlib.Data.List.Chain

/-! Object literals of a script: their tokens, and which token sequences are one. -/
namespace Kit

inductive Token where
  | space (text : List Char)
  | name (text : List Char)
  | string (text : List Char)
  | colon
  | comma
  | openObject
  | closeObject
  | openList
  | closeList
  deriving DecidableEq

/-- A string stands for itself between quotes, so its text is to be escaped already. -/
def Token.text : Token → List Char
  | .space text | .name text => text
  | .string text => '"' :: (text ++ ['"'])
  | .colon => [':']
  | .comma => [',']
  | .openObject => ['{']
  | .closeObject => ['}']
  | .openList => ['[']
  | .closeList => [']']

def Token.isSpace : Token → Bool
  | .space _ => true
  | _ => false

/-- The tokens without the white space between them. -/
def significant (tokens : List Token) : List Token := tokens.filter fun t => !t.isSpace

def isNameStart (c : Char) : Bool := ('a' ≤ c && c ≤ 'z') || ('A' ≤ c && c ≤ 'Z') || c == '_'

def isNamePart (c : Char) : Bool := ('0' ≤ c && c ≤ '9') || isNameStart c

def isIdentifier : List Char → Bool
  | [] => false
  | c :: rest => isNameStart c && rest.all isNamePart

abbrev Identifier := { text : List Char // isIdentifier text = true }

/-- An item that is left out of a list is `none`. -/
inductive Literal where
  | string (text : List Char)
  | list (items : List (Option Literal))
  | object (members : List (Identifier × Literal))

mutual

def Literal.tokens : Literal → List Token
  | .string text => [.string text]
  | .list items => .openList :: (itemsTokens items ++ [.closeList])
  | .object members => .openObject :: (membersTokens members ++ [.closeObject])

def itemTokens : Option Literal → List Token
  | none => []
  | some item => item.tokens

def itemsTokens : List (Option Literal) → List Token
  | [] => []
  | item :: rest =>
    itemTokens item ++ match rest with
      | [] => []
      | next :: others => .comma :: itemsTokens (next :: others)

def memberTokens : Identifier × Literal → List Token
  | (name, value) => .name name.val :: .colon :: value.tokens

def membersTokens : List (Identifier × Literal) → List Token
  | [] => []
  | member :: rest =>
    memberTokens member ++ match rest with
      | [] => []
      | next :: others => .comma :: membersTokens (next :: others)

end

/-- The tokens are those of this literal. -/
def IsLiteral (tokens : List Token) (literal : Literal) : Prop :=
  significant tokens = literal.tokens

@[simp] theorem significant_append (l r : List Token) :
    significant (l ++ r) = significant l ++ significant r := List.filter_append ..

@[simp] theorem significant_nil : significant [] = [] := rfl

@[simp] theorem significant_space (text : List Char) (rest : List Token) :
    significant (.space text :: rest) = significant rest := rfl

theorem significant_cons {t : Token} (solid : t.isSpace = false) (rest : List Token) :
    significant (t :: rest) = t :: significant rest :=
  List.filter_cons_of_pos (by rw [solid]; rfl)

/-- Parts with commas between them. -/
def joined : List (List Token) → List Token
  | [] => []
  | part :: rest =>
    part ++ match rest with
      | [] => []
      | next :: others => .comma :: joined (next :: others)

theorem itemsTokens_joined (items : List (Option Literal)) :
    itemsTokens items = joined (items.map itemTokens) := by
  induction items with
  | nil => rfl
  | cons item rest ih =>
    cases rest with
    | nil => rfl
    | cons next others =>
      rw [itemsTokens, ih]
      rfl

theorem membersTokens_joined (members : List (Identifier × Literal)) :
    membersTokens members = joined (members.map memberTokens) := by
  induction members with
  | nil => rfl
  | cons member rest ih =>
    cases rest with
    | nil => rfl
    | cons next others =>
      rw [membersTokens, ih]
      rfl

def Token.isName : Token → Bool
  | .name _ => true
  | _ => false

/-- A value begins with this token. -/
def Token.begins : Token → Bool
  | .string _ | .openObject | .openList => true
  | _ => false

/-- Any token may follow this one. -/
def Token.loose : Token → Bool
  | .colon | .openList => false
  | _ => true

def Token.Follows (a b : Token) : Prop :=
  (a = .colon → b.begins = true) ∧ (a = .openList → b.isName = false)

/-- What holds of the tokens of every part of a literal. -/
structure Part (tokens : List Token) : Prop where
  chain : tokens.IsChain Token.Follows
  names : ∀ text, .name text ∈ tokens → isIdentifier text = true
  last : ∀ t ∈ tokens.getLast?, t.loose = true

theorem Token.loose_follows {a : Token} (loose : a.loose = true) (b : Token) : a.Follows b := by
  constructor
  · rintro rfl
    cases loose
  · rintro rfl
    cases loose

theorem Part.nil : Part [] :=
  ⟨.nil, by rintro _ ⟨⟩, by rintro _ ⟨⟩⟩

theorem Part.single {t : Token} (loose : t.loose = true) (plain : t.isName = false) :
    Part [t] := by
  refine ⟨.singleton t, ?_, ?_⟩
  · intro text mem
    rw [← List.mem_singleton.mp mem] at plain
    cases plain
  · rintro _ ⟨⟩
    exact loose

theorem comma_part : Part [.comma] := .single rfl rfl

theorem Part.append {l r : List Token} (left : Part l) (right : Part r) : Part (l ++ r) := by
  refine ⟨?_, ?_, ?_⟩
  · apply List.isChain_append.mpr
    exact ⟨left.chain, right.chain, fun x mem y _ => Token.loose_follows (left.last x mem) y⟩
  · intro text mem
    rcases List.mem_append.mp mem with mem | mem
    · exact left.names text mem
    · exact right.names text mem
  · intro t mem
    rw [List.getLast?_append] at mem
    cases last : r.getLast? with
    | none =>
      rw [last] at mem
      exact left.last t mem
    | some x =>
      rw [last] at mem
      exact right.last t (last.trans mem)

/-- A token in front of a part that may follow it. -/
theorem Part.cons {t : Token} {r : List Token} (right : Part r) (some : r ≠ [])
    (follows : ∀ b ∈ r.head?, t.Follows b)
    (named : ∀ text, t = .name text → isIdentifier text = true) : Part (t :: r) := by
  refine ⟨List.isChain_cons.mpr ⟨follows, right.chain⟩, ?_, ?_⟩
  · intro text mem
    rcases List.mem_cons.mp mem with here | there
    · exact named text here.symm
    · exact right.names text there
  · intro x mem
    rw [List.getLast?_cons_of_ne_nil some] at mem
    exact right.last x mem

theorem head?_append_some {l r : List Token} (filled : l ≠ []) {t : Token}
    (mem : t ∈ (l ++ r).head?) : t ∈ l.head? := by
  rwa [List.head?_append_of_ne_nil l filled] at mem

mutual

theorem Literal.part (literal : Literal) : Part literal.tokens ∧
    literal.tokens ≠ [] ∧ ∀ t ∈ literal.tokens.head?, t.begins = true := by
  cases literal with
  | string text =>
    refine ⟨.single rfl rfl, List.cons_ne_nil _ _, ?_⟩
    rintro _ ⟨⟩
    rfl
  | list items =>
    obtain ⟨inner, starts⟩ := itemsPart items
    refine ⟨?_, List.cons_ne_nil _ _, by rintro _ ⟨⟩; rfl⟩
    refine (inner.append (.single rfl rfl)).cons ?_ ?_ (by rintro _ ⟨⟩)
    · exact List.append_ne_nil_of_right_ne_nil _ (List.cons_ne_nil _ _)
    · intro b mem
      refine ⟨by rintro ⟨⟩, fun _ => ?_⟩
      rcases eq_or_ne (itemsTokens items) [] with none | some
      · rw [none] at mem
        cases mem
        rfl
      · exact starts b (head?_append_some some mem)
  | object members =>
    have inner := membersPart members
    refine ⟨?_, List.cons_ne_nil _ _, by rintro _ ⟨⟩; rfl⟩
    refine (inner.append (.single rfl rfl)).cons ?_ ?_ (by rintro _ ⟨⟩)
    · exact List.append_ne_nil_of_right_ne_nil _ (List.cons_ne_nil _ _)
    · exact fun b _ => Token.loose_follows rfl b

theorem itemPart (item : Option Literal) :
    Part (itemTokens item) ∧ ∀ t ∈ (itemTokens item).head?, t.isName = false := by
  cases item with
  | none => exact ⟨.nil, by rintro _ ⟨⟩⟩
  | some literal =>
    obtain ⟨inner, _, starts⟩ := Literal.part literal
    refine ⟨inner, fun t mem => ?_⟩
    have value := starts t mem
    cases t <;> first | rfl | cases value

theorem itemsPart (items : List (Option Literal)) :
    Part (itemsTokens items) ∧ ∀ t ∈ (itemsTokens items).head?, t.isName = false := by
  cases items with
  | nil => exact ⟨.nil, by rintro _ ⟨⟩⟩
  | cons item rest =>
    obtain ⟨inner, starts⟩ := itemPart item
    obtain ⟨others, _⟩ := itemsPart rest
    cases rest with
    | nil =>
      rw [itemsTokens, List.append_nil]
      exact ⟨inner, starts⟩
    | cons next others' =>
      rw [itemsTokens]
      refine ⟨inner.append ((comma_part).append others), ?_⟩
      intro t mem
      rcases eq_or_ne (itemTokens item) [] with none | some
      · rw [none] at mem
        cases mem
        rfl
      · exact starts t (head?_append_some some mem)

theorem memberPart (member : Identifier × Literal) : Part (memberTokens member) := by
  cases member with
  | mk name value =>
    obtain ⟨inner, filled, starts⟩ := Literal.part value
    have colon : Part (.colon :: value.tokens) := by
      refine inner.cons filled ?_ (by rintro _ ⟨⟩)
      exact fun b mem => ⟨fun _ => starts b mem, by rintro ⟨⟩⟩
    refine colon.cons (List.cons_ne_nil _ _) (fun b _ => Token.loose_follows rfl b) ?_
    rintro _ ⟨⟩
    exact name.property

theorem membersPart (members : List (Identifier × Literal)) : Part (membersTokens members) := by
  cases members with
  | nil => exact .nil
  | cons member rest =>
    have inner := memberPart member
    have others := membersPart rest
    cases rest with
    | nil =>
      rw [membersTokens, List.append_nil]
      exact inner
    | cons next others' =>
      rw [membersTokens]
      exact inner.append ((comma_part).append others)

end

/-- A pair of neighbours that are in no literal, or a name that is no identifier. -/
def Flawed (tokens : List Token) : Prop :=
  (∃ a b, [a, b] <:+: tokens ∧ ¬ a.Follows b) ∨
    ∃ text, .name text ∈ tokens ∧ isIdentifier text = false

theorem flawed_not_literal {tokens : List Token} (flawed : Flawed (significant tokens))
    (literal : Literal) : ¬ IsLiteral tokens literal := by
  intro same
  obtain ⟨part, _⟩ := literal.part
  rw [← same] at part
  rcases flawed with ⟨a, b, near, never⟩ | ⟨text, mem, bad⟩
  · have chain := List.IsChain.infix part.chain near
    exact never (List.isChain_pair.mp chain)
  · rw [part.names text mem] at bad
    cases bad

theorem Flawed.within {l r : List Token} (flawed : Flawed l) (inside : l <:+: r) : Flawed r := by
  rcases flawed with ⟨a, b, near, never⟩ | ⟨text, mem, bad⟩
  · exact .inl ⟨a, b, near.trans inside, never⟩
  · exact .inr ⟨text, inside.subset mem, bad⟩

end Kit
