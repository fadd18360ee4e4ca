import Rovio.Kit.Grouping
import Rovio.Kit.Literal

/-! What a request for sub-commands answers: the tree that AppendXMLArray and AddHttpValue build,
and the texts that ReturnTypeEnd makes of it. -/
namespace Rovio.Reply
open Kit

abbrev Text := List Char

/-- A text node has neither attributes nor a list of nodes; of the attributes `Array` is kept as
its text, which is empty without it, and `Cmd` as its truth. -/
inductive XML where
  | text (pcName : Text)
  | node (pcName acArray : Text) (bCmd : Bool) (plSubXML : List XML)

def XML.pcName : XML → Text
  | .text pcName | .node pcName _ _ _ => pcName

def XML.acArray : XML → Text
  | .text _ => []
  | .node _ acArray _ _ => acArray

/-- `plSubXML != NULL`. -/
def XML.isNode : XML → Bool
  | .text _ => false
  | .node .. => true

def XML.append : XML → XML → XML
  | .text pcName, _ => .text pcName
  | .node pcName acArray bCmd plSubXML, pSubXML =>
    .node pcName acArray bCmd (plSubXML ++ [pSubXML])

def arrayName : Text := "Array".toList

/-- The new node comes with what the caller then puts into it; the first list is what the loop
has passed. -/
def appendXMLArray (pcName : Text) (pAppend : XML) (passed : List XML) : List XML → List XML
  | [] => passed ++ [pAppend]
  | pNodeXML :: rest =>
    if pNodeXML.acArray = pcName then passed ++ pNodeXML.append pAppend :: rest
    else if pNodeXML.pcName = pcName then
      passed ++ rest ++ [.node arrayName pcName false [pNodeXML, pAppend]]
    else appendXMLArray pcName pAppend (passed ++ [pNodeXML]) rest

abbrev Calls := List (Text × Text)

def keyNode (pcString pcValue : Text) : XML := .node pcString [] false [.text pcValue]

def addHttpValue (plSubXML : List XML) (call : Text × Text) : List XML :=
  appendXMLArray call.1 (keyNode call.1 call.2) [] plSubXML

/-- What a sub-command leaves under its node. -/
def runSubCmd (calls : Calls) : List XML := calls.foldl addHttpValue []

def cmdNode (pcName : Text) (calls : Calls) : XML := .node pcName [] true (runSubCmd calls)

/-- The sub-commands that were found, with the calls each makes. No function is registered under
an empty name or under `Array`. -/
structure Request where
  subCmds : List (Text × Calls)
  registered : ∀ s ∈ subCmds, s.1 ≠ [] ∧ s.1 ≠ arrayName

def httpCommonReply (subCmds : List (Text × Calls)) : List XML :=
  subCmds.foldl (fun plSubXML s => appendXMLArray s.1 (cmdNode s.1 s.2) [] plSubXML) []

section Dump
variable (httpGetCStyleString : Text → Text)

/-- How a text is printed between the quotes of a script, or without them. -/
def printed (bJS : Bool) (text : Text) : Text :=
  if bJS then httpGetCStyleString text else text

def lineEnd (bJS : Bool) : Text := if bJS then ['\\', 'n'] else ['\n']

mutual

def dumpJsVar (bJS : Bool) (pcParent : Text) (bCmdParent : Bool) : XML → Text
  | .text pcName =>
    (if bCmdParent then [] else printed httpGetCStyleString bJS pcParent ++ " = ".toList) ++
      printed httpGetCStyleString bJS pcName ++ (if bCmdParent then [] else lineEnd bJS)
  | .node pcName _ bCmd plSubXML =>
    (if bCmd then "Cmd = ".toList ++ pcName ++ lineEnd bJS else []) ++
      dumpJsVars bJS pcName bCmd plSubXML

def dumpJsVars (bJS : Bool) (pcParent : Text) (bCmdParent : Bool) : List XML → Text
  | [] => []
  | pXML :: rest =>
    dumpJsVar bJS pcParent bCmdParent pXML ++ dumpJsVars bJS pcParent bCmdParent rest

end

def getCleanVariableName : Text → Option Text
  | [] => none
  | c :: rest => some (((if isNameStart c then c else 'V') :: rest).takeWhile isNamePart)

def htn (iCount : Nat) : List Token := [.space (List.replicate iCount '\t')]

def newLine : Token := .space ['\n']

/-- The comma before the next node, if `pXML` is not the last one. -/
def separator (isLast : Bool) : List Token :=
  if isLast then [newLine] else [.comma, newLine]

mutual

/-- Whether a node is the last one of its list is known to its parent. -/
def dumpJsObj (iTabs : Nat) (bInArray isLast : Bool) : XML → List Token
  | .text pcName => htn iTabs ++ [.string (httpGetCStyleString pcName)]
  | .node pcName acArray _ plSubXML =>
    if acArray ≠ [] then
      htn iTabs ++ [.name ((getCleanVariableName acArray).getD "VName".toList), .space [' '],
        .colon, newLine] ++ htn iTabs ++ [.openList, newLine] ++
        dumpJsObjs (iTabs + 1) true plSubXML ++ htn iTabs ++ (.closeList :: separator isLast)
    else
      let bStruct := plSubXML.any XML.isNode
      (if bInArray then []
        else htn iTabs ++ [.name ((getCleanVariableName pcName).getD pcName), .colon, newLine]) ++
      (if bStruct then htn iTabs ++ [.openObject, newLine] else []) ++
      dumpJsObjs (iTabs + 1) false plSubXML ++
      (if bStruct then htn iTabs ++ (.closeObject :: separator isLast) else separator isLast)

def dumpJsObjs (iTabs : Nat) (bInArray : Bool) : List XML → List Token
  | [] => []
  | pXML :: rest =>
    dumpJsObj iTabs bInArray rest.isEmpty pXML ++ dumpJsObjs iTabs bInArray rest

end

/-- The three types of a reply that are printed here, with the variable's name and what `OnJs`
names. -/
inductive ReturnType where
  | txt
  | jsVar (pcName pcFun : Text)
  | jsObj (pcName pcFun : Text)

def onJs (pcFun : Text) : Text := if pcFun = [] then [] else pcFun ++ "(this);\n".toList

def objectTokens (plSubXML : List XML) : List Token :=
  .openObject :: newLine :: (dumpJsObjs httpGetCStyleString 1 false plSubXML ++ [.closeObject])

def returnTypeEnd (plSubXML : List XML) : ReturnType → Text
  | .txt =>
    dumpJsVar httpGetCStyleString false [] true (.node "Txt".toList [] false plSubXML)
  | .jsVar pcName pcFun =>
    pcName ++ "=\"".toList ++ dumpJsVars httpGetCStyleString true "JsVar".toList true plSubXML ++
      "\";\n".toList ++ onJs pcFun
  | .jsObj pcName pcFun =>
    pcName ++ "=\n".toList ++ (objectTokens httpGetCStyleString plSubXML).flatMap Token.text ++
      ";\n".toList ++ onJs pcFun

/-- A way of putting entries together by their names, which keeps the order within a name. -/
structure Arrangement where
  groups : {A : Type} → List (Text × A) → Groups Text A
  grouping : ∀ {A : Type} (entries : List (Text × A)), Grouping entries (groups entries)

variable (arrangement : Arrangement)

def lineOf (bJS : Bool) (key value : Text) : Text :=
  printed httpGetCStyleString bJS key ++ " = ".toList ++ printed httpGetCStyleString bJS value ++
    lineEnd bJS

def linesOf (bJS : Bool) (g : Text × List Text) : Text :=
  g.2.flatMap (lineOf httpGetCStyleString bJS g.1)

/-- A sub-command's own lines. -/
def cmdText (bJS : Bool) (pcName : Text) (calls : Calls) : Text :=
  "Cmd = ".toList ++ pcName ++ lineEnd bJS ++
    (arrangement.groups calls).flatMap (linesOf httpGetCStyleString bJS)

def replyText (bJS : Bool) (subCmds : List (Text × Calls)) : Text :=
  (arrangement.groups subCmds).flatMap fun g =>
    g.2.flatMap (cmdText httpGetCStyleString arrangement bJS g.1)

theorem takeWhile_identifier {c : Char} (start : isNameStart c = true) (rest : Text) :
    isIdentifier ((c :: rest).takeWhile isNamePart) = true := by
  have part : isNamePart c = true := Bool.or_eq_true_iff.mpr (.inr start)
  rw [List.takeWhile_cons_of_pos part]
  show (isNameStart c && (rest.takeWhile isNamePart).all isNamePart) = true
  rw [start, Bool.true_and]
  exact List.all_takeWhile

theorem clean_identifier (text : Text) :
    isIdentifier ((getCleanVariableName text).getD "VName".toList) = true := by
  cases text with
  | nil => decide
  | cons c rest =>
    show isIdentifier (((if isNameStart c then c else 'V') :: rest).takeWhile isNamePart) = true
    split
    · rename_i start
      exact takeWhile_identifier start rest
    · exact takeWhile_identifier rfl rest

/-- The name of a member for a key or a sub-command. -/
def memberName (text : Text) : Identifier :=
  ⟨(getCleanVariableName text).getD "VName".toList, clean_identifier text⟩

/-- A value, or the values of a repeated key. -/
def valueOf : List Text → Literal
  | [value] => .string (httpGetCStyleString value)
  | values => .list (values.map fun value => some (.string (httpGetCStyleString value)))

def objectOf (calls : Calls) : Literal :=
  .object ((arrangement.groups calls).map fun g =>
    (memberName g.1, valueOf httpGetCStyleString g.2))

/-- A sub-command, or the runs of a repeated one, of which those without a value are left out. -/
def runsOf : List Calls → Literal
  | [calls] => objectOf httpGetCStyleString arrangement calls
  | runs => .list (runs.map fun calls =>
      if calls = [] then none else some (objectOf httpGetCStyleString arrangement calls))

def replyObject (subCmds : List (Text × Calls)) : Literal :=
  .object ((arrangement.groups subCmds).map fun g =>
    (memberName g.1, runsOf httpGetCStyleString arrangement g.2))

/-- Every added pair is in the reply once under its own sub-command, the values of a key in the
order of the calls; an object reply is a literal that says so. -/
def Replies (request : Request) (returnType : ReturnType) : Prop :=
  let plSubXML := httpCommonReply request.subCmds
  ∃ arrangement : Arrangement,
    match returnType with
    | .txt => returnTypeEnd httpGetCStyleString plSubXML .txt =
        replyText httpGetCStyleString arrangement false request.subCmds
    | .jsVar pcName pcFun => returnTypeEnd httpGetCStyleString plSubXML (.jsVar pcName pcFun) =
        pcName ++ "=\"".toList ++
          replyText httpGetCStyleString arrangement true request.subCmds ++
          "\";\n".toList ++ onJs pcFun
    | .jsObj pcName pcFun => returnTypeEnd httpGetCStyleString plSubXML (.jsObj pcName pcFun) =
        pcName ++ "=\n".toList ++
          (objectTokens httpGetCStyleString plSubXML).flatMap Token.text ++
          ";\n".toList ++ onJs pcFun ∧
        IsLiteral (objectTokens httpGetCStyleString plSubXML)
          (replyObject httpGetCStyleString arrangement request.subCmds)

end Dump

/-- A sub-command that occurs once adds a value, no key is empty, and the key `Array`, where it
is used, keeps apart from repeated keys. -/
structure Regular (request : Request) : Prop where
  values : ∀ s ∈ request.subCmds, valuesOf s.1 request.subCmds = [s.2] → s.2 ≠ []
  keys : ∀ s ∈ request.subCmds, ∀ call ∈ s.2, call.1 ≠ []
  apart : ∀ s ∈ request.subCmds, Apart arrayName (s.2.map Prod.fst)

end Rovio.Reply
