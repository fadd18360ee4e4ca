import Rovio.Http.Accounts

/-! Request parameters of the HTTP library. As with the accounts only the
interface is in the repository. -/
namespace Rovio.Http

/-- Parameter lists and the readers of their values; `none` is a NULL string. -/
structure HttpParams where
  ParamList : Type
  httpParseString : CString → ParamList
  httpGetString : ParamList → String → Option CString
  httpIsExistParam : ParamList → String → Bool
  httpGetLong : ParamList → String → Int

/-! Parameters given as a name and value list, the first occurrence of a name counting. -/

def splitAtChar (c : Char) : CString → CString × CString
  | [] => ([], [])
  | d :: rest =>
    if d = c then ([], rest)
    else ((d :: (splitAtChar c rest).1), (splitAtChar c rest).2)

def splitPairs (c : Char) : CString → List CString
  | [] => [[]]
  | d :: rest =>
    match splitPairs c rest with
    | [] => [[d]]
    | first :: others => if d = c then [] :: first :: others else (d :: first) :: others

def decimal (s : CString) : Int :=
  s.foldl (fun n d => n * 10 + (d.toNat - '0'.toNat : Nat)) 0

abbrev PlainList := List (CString × CString)

def PlainList.value? (l : PlainList) (name : String) : Option CString :=
  (l.find? (fun nv => nv.1 = name.toList)).map Prod.snd

def plainParams : HttpParams where
  ParamList := PlainList
  httpParseString s := (splitPairs '&' s).map (splitAtChar '=')
  httpGetString l name := some ((l.value? name).getD [])
  httpIsExistParam l name := (l.value? name).isSome
  httpGetLong l name := ((l.value? name).map decimal).getD 0

end Rovio.Http
