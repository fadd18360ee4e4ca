import Rovio.Kit.Buffer
import Mathlib.Data.List.Forall2
import Mathlib.Data.List.Infix

/-! `parseCommand`: the values of a custom command, found by their keys. A key is looked for as a
piece of the whole command, and the value is cut out of one copy of it while the other is
searched. -/
namespace Rovio.Usb.Custom
open Kit

abbrev Text := List Char

def nul : Char := '\x00'

/-- The place of the first `token` in a string. -/
def strstr (s token : Text) : Option Nat :=
  (List.range (s.length + 1)).find? fun p => token.isPrefixOf (s.drop p)

/-- The place of the first `c` from `p` on. -/
def strchr (s : Text) (p : Nat) (c : Char) : Option Nat :=
  (List.range' p (s.length - p)).find? fun i => s[i]? = some c

/-- What a token comes to: NULL, the place of a value, or an error; with the place where its end has
been cut. -/
inductive Parsed where
  | null
  | value (cut : Option Nat) (value : Nat)
  | error (cut : Option Nat)
  deriving DecidableEq

/-- The copy is cut at `end` while the value is looked for. -/
def parseToken (tmp token : Text) : Parsed :=
  match strstr tmp token with
  | none => .null
  | some p =>
    if ((tmp.drop (p + token.length)).dropWhile (· = ' ')).head? ≠ some '=' then .null
    else
      let cut := strchr tmp p '&'
      match strchr (tmp.take (cut.getD tmp.length)) p '=' with
      | none => .error cut
      | some value => .value cut (value + 1)

def Parsed.cut : Parsed → Option Nat
  | .null => none
  | .value cut _ => cut
  | .error cut => cut

/-- An entry of `args` before its token, NULL, or a place in `cmdLine`. -/
inductive Slot where
  | unset | null
  | at (place : Nat)
  deriving DecidableEq

structure ParseResult where
  rt : Int
  args : List Slot
  cmdLine : Text
  deriving DecidableEq

/-- A zero where the value ends. -/
def cutAt (cmdLine : Text) : Option Nat → Option Text
  | none => some cmdLine
  | some e => put cmdLine e [nul]

/-- The loop over the tokens; `tmp` is the same in front of each. -/
def parseTokens (tmp : Text) : List Text → Text → Option ParseResult
  | [], cmdLine => some ⟨0, [], cmdLine⟩
  | token :: rest, cmdLine => do
    let parsed := parseToken tmp token
    let cmdLine ← cutAt cmdLine parsed.cut
    match parsed with
    | .error _ => some ⟨-1, .unset :: rest.map fun _ => .unset, cmdLine⟩
    | .null =>
      let r ← parseTokens tmp rest cmdLine
      some { r with args := .null :: r.args }
    | .value _ value =>
      let r ← parseTokens tmp rest cmdLine
      some { r with args := .at value :: r.args }

/-- `sizeof(tmp)`. -/
def sizeofTmp : Nat := 100

/-- None where something is stored outside `tmp` or `cmdLine`. -/
def parseCommand (cmdLine : Text) (tokens : List Text) : Option ParseResult := do
  let _ ← put (List.replicate sizeofTmp nul) 0 (cmdLine ++ [nul])
  parseTokens cmdLine tokens cmdLine

/-- The string that an entry points to. -/
def stringFrom (cmdLine : Text) (place : Nat) : Text := (cmdLine.drop place).takeWhile (· ≠ nul)

/-! ### What is asked for -/

/-- A key and its value. -/
structure Pair where
  key : Text
  value : Text
  keyPlain : '&' ∉ key ∧ nul ∉ key
  valuePlain : '&' ∉ value ∧ nul ∉ value

def Pair.text (pair : Pair) : Text := pair.key ++ '=' :: pair.value

def commandText : List Pair → Text
  | [] => []
  | [pair] => pair.text
  | pair :: rest => pair.text ++ '&' :: commandText rest

/-- Where the first pair with the key begins, and its value. -/
def findPair (token : Text) : List Pair → Option (Nat × Text)
  | [] => none
  | pair :: rest =>
    if pair.key = token then some (0, pair.value)
    else (findPair token rest).map fun (start, value) => (pair.text.length + 1 + start, value)

/-- The entry for a token is the place of its value and the string there is the value, or it is
NULL. -/
def Right (pairs : List Pair) (cmdLine token : Text) (slot : Slot) : Prop :=
  match findPair token pairs with
  | some (start, value) =>
    slot = .at (start + token.length + 1) ∧
      stringFrom cmdLine (start + token.length + 1) = value
  | none => slot = .null

/-! ### Searches -/

variable {s token : Text} {p i : Nat} {c : Char}

theorem strchr_some : strchr s p c = some i ↔
    p ≤ i ∧ s[i]? = some c ∧ ∀ j, p ≤ j → j < i → s[j]? ≠ some c := by
  unfold strchr
  rw [List.find?_range'_eq_some]
  simp only [decide_eq_true_eq, List.mem_range'_1, Bool.not_eq_true', decide_eq_false_iff_not]
  constructor
  · rintro ⟨here, ⟨low, _⟩, before⟩
    exact ⟨low, here, before⟩
  · rintro ⟨low, here, before⟩
    obtain ⟨inside, _⟩ := List.getElem?_eq_some_iff.mp here
    exact ⟨here, ⟨low, by omega⟩, before⟩

theorem strchr_none : strchr s p c = none ↔ ∀ j, p ≤ j → s[j]? ≠ some c := by
  unfold strchr
  rw [List.find?_range'_eq_none]
  simp only [Bool.not_eq_true', decide_eq_false_iff_not]
  constructor
  · intro nowhere j low here
    obtain ⟨inside, _⟩ := List.getElem?_eq_some_iff.mp here
    exact nowhere j low (by omega) here
  · intro nowhere j low _
    exact nowhere j low

theorem strstr_some : strstr s token = some p ↔
    (token <+: s.drop p ∧ p ≤ s.length) ∧ ∀ q < p, ¬ token <+: s.drop q := by
  unfold strstr
  rw [List.find?_range_eq_some]
  simp only [List.isPrefixOf_iff_prefix, List.mem_range, Bool.not_eq_true', Nat.lt_succ_iff,
    ← Bool.not_eq_true]
  exact and_assoc.symm

/-- The character after a piece that does not have it is found after the piece. -/
theorem strchr_past {before middle after : Text} (plain : c ∉ middle) :
    strchr (before ++ (middle ++ c :: after)) before.length c
      = some (before.length + middle.length) := by
  refine strchr_some.mpr ⟨Nat.le_add_right _ _, by simp, fun j low high here => plain ?_⟩
  rw [List.getElem?_append_right low, List.getElem?_append_left (by omega)] at here
  exact List.mem_of_getElem? here

theorem strchr_absent {before middle : Text} (plain : c ∉ middle) :
    strchr (before ++ middle) before.length c = none := by
  refine strchr_none.mpr fun j low here => plain ?_
  rw [List.getElem?_append_right low] at here
  exact List.mem_of_getElem? here

/-! ### The pairs in the text -/

variable {pairs : List Pair} {start : Nat} {value : Text}

/-- A pair that is found stands in the text between separators. -/
theorem findPair_text (found : findPair token pairs = some (start, value)) :
    ('&' ∉ token ∧ nul ∉ token) ∧ ('&' ∉ value ∧ nul ∉ value) ∧
    ∃ before after, commandText pairs = before ++ (token ++ '=' :: (value ++ after)) ∧
      before.length = start ∧ (before = [] ∨ before.getLast? = some '&') ∧
      (after = [] ∨ after.head? = some '&') := by
  induction pairs generalizing start with
  | nil => cases found
  | cons pair rest induct =>
    unfold findPair at found
    split at found
    · rename_i named
      cases found
      refine ⟨named ▸ pair.keyPlain, pair.valuePlain, [], ?_⟩
      cases rest with
      | nil => exact ⟨[], by simp [commandText, Pair.text, named], rfl, .inl rfl, .inl rfl⟩
      | cons next rest =>
        exact ⟨'&' :: commandText (next :: rest),
          by simp [commandText, Pair.text, named], rfl, .inl rfl, .inr rfl⟩
    · cases searched : findPair token rest with
      | none =>
        rw [searched] at found
        cases found
      | some later =>
        rw [searched] at found
        cases found
        obtain ⟨keyPlain, valuePlain, before, after, text, place, left, right⟩ := induct searched
        refine ⟨keyPlain, valuePlain, pair.text ++ '&' :: before, after, ?_, ?_, .inr ?_, right⟩
        · cases rest with
          | nil => cases searched
          | cons next rest => simp [commandText, text]
        · simp [place]
          omega
        · rcases left with rfl | left
          · simp
          · simp [List.getLast?_cons, left]

/-! ### One token -/

/-- Spaces and '=' follow the token. -/
def Named (text token : Text) (p : Nat) : Prop :=
  ((text.drop (p + token.length)).dropWhile (· = ' ')).head? = some '='

instance (text token : Text) (p : Nat) : Decidable (Named text token p) :=
  inferInstanceAs (Decidable (_ = _))

/-- The first place of the token in the text is the key of its pair, and without a pair it is not
taken for a key. -/
def Found (pairs : List Pair) (token : Text) : Prop :=
  match findPair token pairs with
  | some (start, _) => '=' ∉ token ∧ strstr (commandText pairs) token = some start
  | none => ∀ p, strstr (commandText pairs) token = some p → ¬ Named (commandText pairs) token p

variable {text : Text}

theorem parseToken_null : parseToken text token = .null ↔
    ∀ p, strstr text token = some p → ¬ Named text token p := by
  unfold parseToken Named
  cases strstr text token with
  | none => simp
  | some p =>
    simp only [Option.some.injEq, forall_eq']
    split
    · rename_i other
      exact ⟨fun _ => other, fun _ => rfl⟩
    · rename_i named
      refine ⟨fun parsed => ?_, fun other => absurd (not_not.mp named) other⟩
      split at parsed <;> cases parsed

theorem parseToken_value {cut : Option Nat} {place : Nat} :
    parseToken text token = .value cut (place + 1) ↔
      ∃ p, strstr text token = some p ∧ Named text token p ∧ cut = strchr text p '&' ∧
        strchr (text.take (cut.getD text.length)) p '=' = some place := by
  unfold parseToken Named
  cases strstr text token with
  | none => simp
  | some p =>
    simp only [Option.some.injEq, exists_eq_left']
    split
    · rename_i other
      exact ⟨fun parsed => (by cases parsed), fun ⟨named, _⟩ => absurd named other⟩
    · rename_i named
      split
      · rename_i absent
        refine ⟨fun parsed => (by cases parsed), ?_⟩
        rintro ⟨_, rfl, present⟩
        cases absent.symm.trans present
      · rename_i value here
        constructor
        · rintro parsed
          cases parsed
          exact ⟨not_not.mp named, rfl, here⟩
        · rintro ⟨_, rfl, present⟩
          cases here.symm.trans present
          rfl

/-- Where the copy is cut there is a separator. -/
theorem parseToken_cut {e : Nat} (cut : (parseToken text token).cut = some e) :
    text[e]? = some '&' := by
  unfold parseToken at cut
  split at cut
  · cases cut
  · split at cut
    · cases cut
    · dsimp only at cut
      split at cut
      · exact (strchr_some.mp cut).2.1
      · exact (strchr_some.mp cut).2.1

/-- From the beginning of a pair, the copy is cut where the pair ends. -/
theorem pair_end {before after : Text} (keyPlain : '&' ∉ token) (valuePlain : '&' ∉ value)
    (right : after = [] ∨ after.head? = some '&')
    (whole : text = before ++ (token ++ '=' :: (value ++ after))) :
    (strchr text before.length '&' = none ∧ after = [] ∨
      strchr text before.length '&' = some (before.length + token.length + 1 + value.length)) ∧
    text.take ((strchr text before.length '&').getD text.length)
      = before ++ (token ++ '=' :: value) := by
  have plain : '&' ∉ token ++ '=' :: value := by simp [keyPlain, valuePlain]
  cases after with
  | nil =>
    have same : text = before ++ (token ++ '=' :: value) := by simp [whole]
    have absent : strchr text before.length '&' = none := by
      rw [same]
      exact strchr_absent plain
    refine ⟨.inl ⟨absent, rfl⟩, ?_⟩
    rw [absent, Option.getD_none, List.take_length, same]
  | cons c rest =>
    obtain rfl : c = '&' := by simpa using right
    have same : text = before ++ ((token ++ '=' :: value) ++ '&' :: rest) := by simp [whole]
    have past : strchr (before ++ ((token ++ '=' :: value) ++ '&' :: rest)) before.length '&'
        = some (before.length + (token ++ '=' :: value).length) := strchr_past plain
    have size : before.length + (token ++ '=' :: value).length
        = before.length + token.length + 1 + value.length := by
      simp
      omega
    rw [← same] at past
    refine ⟨.inr (past.trans (congrArg some size)), ?_⟩
    rw [past, Option.getD_some, same, ← List.append_assoc, ← List.length_append, List.take_left]

/-- With a pair, its value is the one taken exactly for a token that is found there first. -/
theorem parseToken_pair (found : findPair token pairs = some (start, value)) :
    (∃ cut, parseToken (commandText pairs) token = .value cut (start + token.length + 1)) ↔
      '=' ∉ token ∧ strstr (commandText pairs) token = some start := by
  obtain ⟨keyPlain, valuePlain, before, after, whole, rfl, left, right⟩ := findPair_text found
  constructor
  · rintro ⟨cut, parsed⟩
    obtain ⟨p, first, _, rfl, here⟩ := parseToken_value.mp parsed
    have low : p ≤ before.length := by
      refine Nat.le_of_not_lt fun late => (strstr_some.mp first).2 _ late ?_
      simp [whole]
    obtain ⟨_, equals, none⟩ := strchr_some.mp here
    obtain ⟨uncut, _⟩ := List.getElem?_eq_some_iff.mp equals
    have same : p = before.length := by
      -- from a place in front of the pair, the cut comes before its sign
      refine Nat.le_antisymm low (Nat.le_of_not_lt fun early => ?_)
      have separator : (commandText pairs)[before.length - 1]? = some '&' := by
        rcases left with rfl | left
        · exact absurd early (Nat.not_lt_zero p)
        · rw [whole, List.getElem?_append_left (by omega), ← List.getLast?_eq_getElem?, left]
      cases ending : strchr (commandText pairs) p '&' with
      | none => exact strchr_none.mp ending _ (by omega) separator
      | some e =>
        obtain ⟨_, _, least⟩ := strchr_some.mp ending
        have : e ≤ before.length - 1 :=
          Nat.le_of_not_lt fun late => least _ (by omega) late separator
        rw [ending, List.length_take] at uncut
        simp only [Option.getD_some] at uncut
        omega
    subst same
    refine ⟨fun inside => ?_, first⟩
    obtain ⟨j, inside, at'⟩ := List.mem_iff_getElem.mp inside
    refine none (before.length + j) (Nat.le_add_right _ _) (by omega) ?_
    rw [List.length_take] at uncut
    rw [List.getElem?_take_of_lt (by omega), whole, List.getElem?_append_right (by omega),
      Nat.add_sub_cancel_left, List.getElem?_append_left inside, List.getElem?_eq_getElem inside,
      at']
  · rintro ⟨plain, first⟩
    refine ⟨strchr (commandText pairs) before.length '&', parseToken_value.mpr
      ⟨before.length, first, ?_, rfl, ?_⟩⟩
    · rw [Named, whole, ← List.append_assoc, ← List.length_append, List.drop_left]
      simp
    · rw [(pair_end keyPlain.1 valuePlain.1 right whole).2]
      exact strchr_past plain

/-! ### The values in the command line -/

variable {cmdLine final : Text} {place : Nat}

theorem stringFrom_eq (same : ∀ i < value.length, s[place + i]? = value[i]?)
    (ending : s.length = place + value.length ∨ s[place + value.length]? = some nul)
    (plain : nul ∉ value) : stringFrom s place = value := by
  unfold stringFrom
  induction value generalizing place with
  | nil =>
    rw [List.length_nil, Nat.add_zero] at ending
    rcases ending with ending | ending
    · simp [List.drop_of_length_le (Nat.le_of_eq ending)]
    · obtain ⟨inside, zero⟩ := List.getElem?_eq_some_iff.mp ending
      rw [List.drop_eq_getElem_cons inside]
      simp [show s[place] = nul from zero]
  | cons c rest induct =>
    have first : s[place]? = some c := same 0 (Nat.zero_lt_succ _)
    obtain ⟨inside, here⟩ := List.getElem?_eq_some_iff.mp first
    obtain ⟨other, plain⟩ := not_or.mp (mt List.mem_cons.mpr plain)
    have tail := @induct (place + 1) (fun i low => ?_) ?_ plain
    · rw [List.drop_eq_getElem_cons inside, show s[place] = c from here,
        List.takeWhile_cons_of_pos (by simpa using Ne.symm other), tail]
    · rw [Nat.add_assoc, Nat.add_comm 1]
      exact same (i + 1) (Nat.succ_lt_succ low)
    · rw [Nat.add_assoc, Nat.add_comm 1]
      exact ending

/-- A copy in which some separators have become zeros. -/
structure CutCopy (text cmdLine : Text) : Prop where
  size : cmdLine.length = text.length
  item : ∀ i : Nat, cmdLine[i]? = text[i]? ∨ text[i]? = some '&' ∧ cmdLine[i]? = some nul

theorem value_read (found : findPair token pairs = some (start, value))
    (copy : CutCopy (commandText pairs) final)
    (cut : ∀ e, strchr (commandText pairs) start '&' = some e → final[e]? = some nul) :
    stringFrom final (start + token.length + 1) = value := by
  obtain ⟨keyPlain, valuePlain, before, after, whole, rfl, _, right⟩ := findPair_text found
  have text : commandText pairs = (before ++ token ++ ['=']) ++ (value ++ after) := by
    simp [whole]
  have front : (before ++ token ++ ['=']).length = before.length + token.length + 1 := by
    simp [Nat.add_assoc]
  refine stringFrom_eq (fun i inside => ?_) ?_ valuePlain.2
  · have here : (commandText pairs)[before.length + token.length + 1 + i]? = value[i]? := by
      rw [text, ← front, List.getElem?_append_right (Nat.le_add_right _ _),
        Nat.add_sub_cancel_left, List.getElem?_append_left inside]
    rcases copy.item (before.length + token.length + 1 + i) with same | ⟨separator, _⟩
    · exact same.trans here
    · exact absurd (List.mem_of_getElem? (here.symm.trans separator)) valuePlain.1
  · rcases (pair_end keyPlain.1 valuePlain.1 right whole).1 with ⟨_, rfl⟩ | ending
    · left
      rw [copy.size, text, List.length_append, front, List.append_nil]
    · exact .inr (cut _ ending)

/-- The entry that comes of a token. -/
def Parsed.slot : Parsed → Slot
  | .null => .null
  | .value _ value => .at value
  | .error _ => .unset

theorem not_right_unset : ¬ Right pairs cmdLine token .unset := by
  unfold Right
  split <;> simp

theorem slot_right (copy : CutCopy (commandText pairs) final)
    (cut : ∀ e, (parseToken (commandText pairs) token).cut = some e → final[e]? = some nul) :
    Right pairs final token (parseToken (commandText pairs) token).slot ↔ Found pairs token := by
  unfold Right Found
  cases found : findPair token pairs with
  | none =>
    rw [← parseToken_null]
    cases parseToken (commandText pairs) token <;> simp [Parsed.slot]
  | some pair =>
    obtain ⟨start, value⟩ := pair
    simp only [← parseToken_pair found]
    constructor
    · rintro ⟨slot, _⟩
      cases parsed : parseToken (commandText pairs) token with
      | null | error => rw [parsed] at slot; cases slot
      | value e v =>
        rw [parsed] at slot
        cases slot
        exact ⟨e, rfl⟩
    · rintro ⟨e, parsed⟩
      rw [parsed] at cut ⊢
      obtain ⟨p, first, _, ending, _⟩ := parseToken_value.mp parsed
      have same := first.symm.trans ((parseToken_pair found).mp ⟨e, parsed⟩).2
      cases same
      exact ⟨rfl, value_read found copy fun e' here => cut e' (ending.trans here)⟩

/-! ### All tokens -/

theorem cutAt_run {cut : Option Nat} (copy : CutCopy text cmdLine)
    (separator : ∀ e, cut = some e → text[e]? = some '&') :
    ∃ after, cutAt cmdLine cut = some after ∧ CutCopy text after ∧
      (∀ e : Nat, cmdLine[e]? = some nul → after[e]? = some nul) ∧
      ∀ e, cut = some e → after[e]? = some nul := by
  cases cut with
  | none => exact ⟨cmdLine, rfl, copy, fun _ zero => zero, by rintro _ ⟨⟩⟩
  | some e =>
    have here := separator e rfl
    obtain ⟨inside, _⟩ := List.getElem?_eq_some_iff.mp here
    have low : e < cmdLine.length := by simpa only [copy.size] using inside
    have stored : cutAt cmdLine (some e) = some (cmdLine.set e nul) := by
      have room : e + [nul].length ≤ cmdLine.length := Nat.succ_le_of_lt low
      rw [cutAt, put, if_pos room, List.set_eq_take_append_cons_drop, if_pos low]
      rfl
    have zero : (cmdLine.set e nul)[e]? = some nul := List.getElem?_set_self low
    refine ⟨_, stored, ⟨by rw [List.length_set, copy.size], fun i => ?_⟩, fun i before => ?_, ?_⟩
    · rcases Decidable.eq_or_ne e i with rfl | other
      · exact .inr ⟨here, zero⟩
      · rw [List.getElem?_set_ne other]
        exact copy.item i
    · rcases Decidable.eq_or_ne e i with rfl | other
      · exact zero
      · rwa [List.getElem?_set_ne other]
    · rintro _ ⟨⟩
      exact zero

/-- Every store of the loop is inside, and its entries are right exactly for the keys that are
found. -/
theorem parseTokens_run (tokens : List Text) (copy : CutCopy (commandText pairs) cmdLine) :
    ∃ r, parseTokens (commandText pairs) tokens cmdLine = some r ∧
      CutCopy (commandText pairs) r.cmdLine ∧
      (∀ e : Nat, cmdLine[e]? = some nul → r.cmdLine[e]? = some nul) ∧
      (List.Forall₂ (Right pairs r.cmdLine) tokens r.args ↔
        ∀ token ∈ tokens, Found pairs token) := by
  induction tokens generalizing cmdLine with
  | nil => exact ⟨_, rfl, copy, fun _ zero => zero, by simp⟩
  | cons token rest induct =>
    obtain ⟨next, stored, copy, kept, cut⟩ :=
      cutAt_run copy fun _ => @parseToken_cut token (commandText pairs) _
    obtain ⟨r, run, rCopy, rKept, right⟩ := induct copy
    have slot : Right pairs r.cmdLine token _ ↔ Found pairs token :=
      slot_right rCopy fun e here => rKept e (cut e here)
    cases parsed : parseToken (commandText pairs) token with
    | error e =>
      refine ⟨⟨-1, .unset :: rest.map fun _ => .unset, next⟩, ?_, copy, kept, ?_⟩
      · simp [parseTokens, parsed, parsed ▸ stored]
      · have here : Right pairs next token _ ↔ Found pairs token := slot_right copy cut
        rw [parsed] at here
        have missed := mt here.mpr not_right_unset
        rw [List.forall₂_cons, List.forall_mem_cons]
        exact iff_of_false (fun all => not_right_unset all.1) fun all => missed all.1
    | null =>
      refine ⟨{ r with args := .null :: r.args }, ?_, rCopy,
        fun e zero => rKept e (kept e zero), ?_⟩
      · simp [parseTokens, parsed, parsed ▸ stored, run]
      · rw [parsed] at slot
        rw [List.forall₂_cons, List.forall_mem_cons, right]
        exact and_congr_left' slot
    | value e v =>
      refine ⟨{ r with args := .at v :: r.args }, ?_, rCopy,
        fun e zero => rKept e (kept e zero), ?_⟩
      · simp [parseTokens, parsed, parsed ▸ stored, run]
      · rw [parsed] at slot
        rw [List.forall₂_cons, List.forall_mem_cons, right]
        exact and_congr_left' slot

/-- The entries come out right, with every store inside, exactly when the command fits in the copy
and the first place of each token is the key of its pair, or no key without one. -/
theorem parse_command (pairs : List Pair) (tokens : List Text) :
    (∃ r, parseCommand (commandText pairs) tokens = some r ∧
      List.Forall₂ (Right pairs r.cmdLine) tokens r.args) ↔
    (commandText pairs).length < sizeofTmp ∧ ∀ token ∈ tokens, Found pairs token := by
  have copy : CutCopy (commandText pairs) (commandText pairs) := ⟨rfl, fun _ => .inl rfl⟩
  obtain ⟨r, run, _, _, right⟩ := parseTokens_run tokens copy
  have room (fits : (commandText pairs).length < sizeofTmp) :
      0 + (commandText pairs ++ [nul]).length ≤ (List.replicate sizeofTmp nul).length := by
    rw [List.length_append, List.length_replicate, Nat.zero_add]
    exact fits
  constructor
  · rintro ⟨r', parsed, all⟩
    obtain ⟨tmp, stored, rest⟩ := Option.bind_eq_some_iff.mp parsed
    cases run.symm.trans rest
    have fits := put_room stored
    rw [List.length_append, List.length_replicate, Nat.zero_add] at fits
    exact ⟨fits, right.mp all⟩
  · rintro ⟨fits, all⟩
    obtain ⟨tmp, stored⟩ := put_isSome (room fits)
    refine ⟨r, ?_, right.mpr all⟩
    rw [parseCommand, stored]
    exact run

/-- In "ab=1&b=2" the key "b" is found at the end of "ab". -/
theorem value_of_other_key : ¬ ∀ (pairs : List Pair) (tokens : List Text),
    ∃ r, parseCommand (commandText pairs) tokens = some r ∧
      List.Forall₂ (Right pairs r.cmdLine) tokens r.args := by
  intro all
  obtain ⟨r, parsed, right⟩ := all
    [⟨['a', 'b'], ['1'], by decide, by decide⟩, ⟨['b'], ['2'], by decide, by decide⟩] [['b']]
  have run : parseCommand ['a', 'b', '=', '1', '&', 'b', '=', '2'] [['b']]
      = some ⟨0, [.at 3], ['a', 'b', '=', '1', nul, 'b', '=', '2']⟩ := by decide
  cases run.symm.trans parsed
  rw [List.forall₂_cons] at right
  exact absurd right.1.1 (by decide)

end Rovio.Usb.Custom
