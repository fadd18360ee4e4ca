import Mathlib
import Rovio.Kit.Simulation
import Rovio.Kit.Window
import Rovio.Mcu.Dump

/-! `WebCameraLog.c`: a table of log items used in a circle, where the oldest item makes room. A
client is told the latest items, as far as it may see them. -/
namespace Rovio.ClientLog

open Kit Rovio.Mcu

/-! ### The code -/

def MAX_LOG_ITEM : Nat := 500

def CL_PRIVILEGE_ADMIN : UInt8 := 0

def CL_NEW_CLIENT : UInt8 := 27

/-- So many bytes of memory. -/
abbrev Bytes (n : Nat) := { bytes : List UInt8 // bytes.length = n }

def zeros (n : Nat) : Bytes n := ⟨List.replicate n 0, List.length_replicate⟩

structure WEBCAMERA_LOG_T where
  ucValue : Bytes 4
  aucOpMAC : Bytes 6
  ucPrivilege : UInt8
  ucType : UInt8
  ulOpIP : Bytes 4
  tTime : UInt32

structure LogTable where
  g_LogTable : List WEBCAMERA_LOG_T
  g_iLogItemEnd : Nat
  g_iLogItemStart : Nat

/-- What `httpGetClientAddr` and `httpGetClientMac` tell of a connection. -/
structure Client where
  addr : Bytes 4
  mac : Bytes 6
  deriving DecidableEq

/-- The loop over the characters of the value, into the bytes that are there. -/
def copyValue : List UInt8 → List UInt8 → List UInt8
  | [], _ => []
  | _ :: places, [] => 0 :: places
  | _ :: places, c :: pcLogValue => c :: copyValue places pcLogValue

theorem copyValue_length (places pcLogValue : List UInt8) :
    (copyValue places pcLogValue).length = places.length := by
  induction places generalizing pcLogValue with
  | nil => rfl
  | cons place places ih =>
    cases pcLogValue with
    | nil => rfl
    | cons c pcLogValue => simp [copyValue, ih]

/-- `tTime` is `mytime() - tTimeServerStart`; without a value or a connection there are none. An
item outside the table leaves nothing. -/
def WebCameraLog (s : LogTable) (iViewerPrivilege iLogType : UInt8)
    (pcLogValue : Option (List UInt8)) (hConnection : Option Client) (tTime : UInt32) :
    Option LogTable :=
  let iNewEnd := nextOne MAX_LOG_ITEM s.g_iLogItemEnd
  let start :=
    if s.g_iLogItemStart = iNewEnd then nextOne MAX_LOG_ITEM s.g_iLogItemStart
    else s.g_iLogItemStart
  (s.g_LogTable[s.g_iLogItemEnd]?).bind fun old =>
    let value := copyValue old.ucValue.val (pcLogValue.getD [])
    let item : WEBCAMERA_LOG_T :=
      { ucPrivilege := iViewerPrivilege, ucType := iLogType, tTime
        ucValue := ⟨value, (copyValue_length ..).trans old.ucValue.property⟩
        ulOpIP := (hConnection.map Client.addr).getD (zeros 4)
        aucOpMAC := (hConnection.map Client.mac).getD (zeros 6) }
    (put s.g_LogTable s.g_iLogItemEnd [item]).map fun table => ⟨table, iNewEnd, start⟩

/-- The items from `i` up to the end, in so many rounds. -/
def LogTable.walk (s : LogTable) : Nat → Nat → Option (List WEBCAMERA_LOG_T)
  | 0, i => if i = s.g_iLogItemEnd then some [] else none
  | n + 1, i =>
    if i = s.g_iLogItemEnd then some []
    else
      (s.g_LogTable[i]?).bind fun item =>
        (s.walk n (nextOne MAX_LOG_ITEM i)).map fun items => item :: items

/-- `%0*lu`. -/
def padded (width n : Nat) : List Char :=
  List.replicate (width - (Nat.toDigits 10 n).length) '0' ++ Nat.toDigits 10 n

/-- A character of the value as the browser is given it. -/
def plain (c : UInt8) : Char :=
  let c := c &&& 0x7F
  if c < 0x20 then ' ' else Char.ofNat c.toNat

def shown (ucValue : List UInt8) : List UInt8 := (ucValue.take 4).takeWhile (· ≠ 0)

variable (lib : HexLib)

def logText (ucType : UInt8) (ucValue : List UInt8) (client : Client) (tTime : UInt32) :
    List Char :=
  padded 2 ucType.toNat ++
    ((shown ucValue).map plain ++ List.replicate (4 - (shown ucValue).length) ' ') ++
    client.addr.val.flatMap lib.digits ++ client.mac.val.flatMap lib.digits ++
    padded 10 tTime.toNat

/-- The text of an item in `acLog`, which has 64 places. -/
def WEBCAMERA_LOG_T.acLog (item : WEBCAMERA_LOG_T) : Option (List Char) :=
  let text := logText lib item.ucType item.ucValue.val ⟨item.ulOpIP, item.aucOpMAC⟩ item.tTime
  if text.length < 64 then some text else none

/-- The values of the answer: the time, and the items in turn. -/
def Config_GetLog (s : LogTable) (bSuperUser : Bool) (now : UInt32) : Option (List (List Char)) :=
  (s.walk MAX_LOG_ITEM s.g_iLogItemStart).bind fun items =>
    ((items.filter fun item => bSuperUser || item.ucPrivilege != 0).mapM
      (WEBCAMERA_LOG_T.acLog lib)).map fun lines => padded 10 now.toNat :: lines

/-- Where the search for a client stops. -/
def LogTable.search (s : LogTable) (client : Client) : Nat → Nat → Option Nat
  | 0, i => if i = s.g_iLogItemEnd then some i else none
  | n + 1, i =>
    if i = s.g_iLogItemEnd then some i
    else
      (s.g_LogTable[i]?).bind fun item =>
        if item.ulOpIP = client.addr ∧ item.aucOpMAC = client.mac then some i
        else s.search client n (nextOne MAX_LOG_ITEM i)

def OnRequestBegin (s : LogTable) (client : Client) (now : UInt32) : Option LogTable :=
  (s.search client MAX_LOG_ITEM s.g_iLogItemStart).bind fun i =>
    if i = s.g_iLogItemEnd then
      WebCameraLog s CL_PRIVILEGE_ADMIN CL_NEW_CLIENT none (some client) now
    else some s

inductive LogCall
  | log (iViewerPrivilege iLogType : UInt8) (pcLogValue : Option (List UInt8))
      (hConnection : Option Client) (now : UInt32)
  | getLog (bSuperUser : Bool) (now : UInt32)
  | onRequestBegin (client : Client) (now : UInt32)

inductive LogAnswer
  | done
  | page (values : List (List Char))

def LogTable.call (s : LogTable) : LogCall → Option (LogAnswer × LogTable)
  | .log iViewerPrivilege iLogType pcLogValue hConnection now =>
    (WebCameraLog s iViewerPrivilege iLogType pcLogValue hConnection now).map fun s => (.done, s)
  | .getLog bSuperUser now => (Config_GetLog lib s bSuperUser now).map fun values =>
      (.page values, s)
  | .onRequestBegin client now => (OnRequestBegin s client now).map fun s => (.done, s)

/-- Static storage. -/
def logInit : LogTable where
  g_LogTable := List.replicate MAX_LOG_ITEM ⟨zeros 4, zeros 6, 0, 0, zeros 4, 0⟩
  g_iLogItemEnd := 0
  g_iLogItemStart := 0

/-! ### What is expected of it -/

structure Entry where
  privilege : UInt8
  type : UInt8
  value : List UInt8
  client : Client
  time : UInt32

/-- The latest entries are kept, one fewer than the table has places. -/
def kept (logged : List Entry) : List Entry := latest 499 logged

def Entry.text (e : Entry) : List Char := logText lib e.type e.value e.client e.time

def expected : List Entry → List LogCall → List LogAnswer
  | _, [] => []
  | logged, .log iViewerPrivilege iLogType pcLogValue hConnection now :: cs =>
    .done :: expected (logged ++ [⟨iViewerPrivilege, iLogType, shown (pcLogValue.getD []),
      hConnection.getD ⟨zeros 4, zeros 6⟩, now⟩]) cs
  | logged, .getLog bSuperUser now :: cs =>
    .page (padded 10 now.toNat :: ((kept logged).filter fun e =>
      bSuperUser || e.privilege != 0).map (Entry.text lib)) :: expected logged cs
  | logged, .onRequestBegin client now :: cs =>
    .done :: expected
      (if ∃ e ∈ kept logged, e.client = client then logged
        else logged ++ [⟨CL_PRIVILEGE_ADMIN, CL_NEW_CLIENT, [], client, now⟩]) cs

/-! ### Texts -/

variable {lib}

theorem shown_length (ucValue : List UInt8) : (shown ucValue).length ≤ 4 :=
  Nat.le_trans (List.takeWhile_sublist _).length_le (List.length_take_le ..)

theorem shown_shown (ucValue : List UInt8) : shown (shown ucValue) = shown ucValue := by
  rw [shown, List.take_of_length_le (shown_length ucValue)]
  exact List.takeWhile_idem

/-- Only the bytes that were copied are shown, and not what was in the item before. -/
theorem shown_copyValue (places : Bytes 4) (pcLogValue : List UInt8) :
    shown (copyValue places.val pcLogValue) = shown pcLogValue := by
  obtain ⟨places, size⟩ := places
  have general : ∀ places pcLogValue : List UInt8,
      (copyValue places pcLogValue).takeWhile (· ≠ 0) =
        (pcLogValue.take places.length).takeWhile (· ≠ 0) := by
    intro places
    induction places with
    | nil => simp [copyValue]
    | cons place places ih =>
      intro pcLogValue
      cases pcLogValue with
      | nil => simp [copyValue]
      | cons c pcLogValue =>
        simp only [copyValue, List.length_cons, List.take_succ_cons, List.takeWhile_cons, ih]
  have whole : (copyValue places pcLogValue).take 4 = copyValue places pcLogValue :=
    List.take_of_length_le (Nat.le_of_eq ((copyValue_length ..).trans size))
  rw [shown, whole, general, size]
  rfl

theorem padded_length {width n : Nat} (small : n < 10 ^ width) (some : 0 < width) :
    (padded width n).length = width := by
  have digits := (Nat.length_toDigits_le_iff (n := n) (b := 10) (by decide) some).mpr small
  rw [padded, List.length_append, List.length_replicate]
  omega

theorem digits_length (bytes : List UInt8) :
    (bytes.flatMap lib.digits).length = 2 * bytes.length := by
  induction bytes with
  | nil => rfl
  | cons ch bytes ih =>
    obtain ⟨high, low, -, -, two, -⟩ := digits_two lib ch
    simp [two, ih]
    omega

theorem logText_length (ucType : UInt8) (ucValue : List UInt8) (client : Client)
    (tTime : UInt32) : (logText lib ucType ucValue client tTime).length < 64 := by
  have few := shown_length ucValue
  have time : (padded 10 tTime.toNat).length = 10 :=
    padded_length (Nat.lt_trans tTime.toNat_lt (by decide)) (by decide)
  have type : (padded 2 ucType.toNat).length ≤ 3 := by
    have digits := (Nat.length_toDigits_le_iff (n := ucType.toNat) (b := 10) (k := 3) (by decide)
      (by decide)).mpr (Nat.lt_trans ucType.toNat_lt (by decide))
    rw [padded, List.length_append, List.length_replicate]
    omega
  simp only [logText, List.length_append, List.length_map, List.length_replicate, digits_length,
    time, client.addr.property, client.mac.property]
  omega

def WEBCAMERA_LOG_T.entry (item : WEBCAMERA_LOG_T) : Entry :=
  ⟨item.ucPrivilege, item.ucType, shown item.ucValue.val, ⟨item.ulOpIP, item.aucOpMAC⟩, item.tTime⟩

theorem acLog_eq (item : WEBCAMERA_LOG_T) : item.acLog lib = some (item.entry.text lib) := by
  rw [WEBCAMERA_LOG_T.acLog, if_pos (logText_length ..), Entry.text, WEBCAMERA_LOG_T.entry]
  unfold logText
  rw [shown_shown]

theorem acLogs_eq (items : List WEBCAMERA_LOG_T) :
    items.mapM (WEBCAMERA_LOG_T.acLog lib) = some (items.map fun item => item.entry.text lib) := by
  induction items with
  | nil => rfl
  | cons item items ih =>
    rw [List.mapM_cons, acLog_eq, ih]
    rfl

/-! ### The table -/

variable {s s' : LogTable} {logged : List Entry}

/-- The items from the start to the end are the entries that are kept. -/
structure Holds (s : LogTable) (logged : List Entry) : Prop where
  size : s.g_LogTable.length = MAX_LOG_ITEM
  start : s.g_iLogItemStart < MAX_LOG_ITEM
  fin : s.g_iLogItemEnd < MAX_LOG_ITEM
  items : (window s.g_LogTable s.g_iLogItemStart s.g_iLogItemEnd).map WEBCAMERA_LOG_T.entry =
    kept logged

theorem holds_init : Holds logInit [] where
  size := List.length_replicate
  start := by decide
  fin := by decide
  items := by
    rw [logInit, window_self]
    rfl

theorem kept_length (logged : List Entry) : (kept logged).length ≤ 499 := by
  rw [kept, latest, List.length_drop]
  omega

theorem Holds.room (holds : Holds s logged) :
    (window s.g_LogTable s.g_iLogItemStart s.g_iLogItemEnd).length ≤ MAX_LOG_ITEM := by
  have few := kept_length logged
  rw [← holds.items, List.length_map] at few
  unfold MAX_LOG_ITEM
  omega

theorem Holds.log (holds : Holds s logged) (iViewerPrivilege iLogType : UInt8)
    (pcLogValue : Option (List UInt8)) (hConnection : Option Client) (now : UInt32) :
    ∃ s', WebCameraLog s iViewerPrivilege iLogType pcLogValue hConnection now = some s' ∧
      Holds s' (logged ++ [⟨iViewerPrivilege, iLogType, shown (pcLogValue.getD []),
        hConnection.getD ⟨zeros 4, zeros 6⟩, now⟩]) := by
  obtain ⟨size, start, fin, items⟩ := holds
  have inside : s.g_iLogItemEnd < s.g_LogTable.length := size ▸ fin
  have old : s.g_LogTable[s.g_iLogItemEnd]? = some s.g_LogTable[s.g_iLogItemEnd] :=
    List.getElem?_eq_getElem inside
  generalize s.g_LogTable[s.g_iLogItemEnd] = place at old
  unfold WebCameraLog
  rw [old, Option.bind_some]
  extract_lets value item
  obtain ⟨table, stored⟩ := @put_isSome _ s.g_LogTable [item] s.g_iLogItemEnd inside
  have pushed := window_push (size ▸ start) (by rw [size]; decide) stored
  rw [size] at pushed
  have entry : item.entry = ⟨iViewerPrivilege, iLogType, shown (pcLogValue.getD []),
      hConnection.getD ⟨zeros 4, zeros 6⟩, now⟩ := by
    cases hConnection <;> simp [item, value, WEBCAMERA_LOG_T.entry, shown_copyValue]
  rw [stored, Option.map_some]
  refine ⟨_, rfl, (put_length stored).trans size, ?_, nextOne_lt fin, ?_⟩
  · dsimp only
    split
    · exact nextOne_lt start
    · exact start
  · rw [pushed, latest_map, List.map_append, items, List.map_singleton, entry]
    exact latest_append 499 logged _

theorem Holds.walk (holds : Holds s logged) {n i : Nat} (inside : i < MAX_LOG_ITEM)
    (enough : (window s.g_LogTable i s.g_iLogItemEnd).length ≤ n) :
    s.walk n i = some (window s.g_LogTable i s.g_iLogItemEnd) := by
  have size := holds.size
  induction n generalizing i with
  | zero =>
    by_cases last : i = s.g_iLogItemEnd
    · rw [LogTable.walk, if_pos last, last, window_self]
    · obtain ⟨item, -, more⟩ := window_cons last (size ▸ inside) (size ▸ holds.fin)
      rw [more] at enough
      cases enough
  | succ n ih =>
    by_cases last : i = s.g_iLogItemEnd
    · rw [LogTable.walk, if_pos last, last, window_self]
    · obtain ⟨item, here, more⟩ := window_cons last (size ▸ inside) (size ▸ holds.fin)
      rw [size] at more
      rw [more] at enough ⊢
      rw [LogTable.walk, if_neg last, here, Option.bind_some,
        ih (nextOne_lt inside) (Nat.le_of_succ_le_succ enough)]
      rfl

theorem Holds.search (holds : Holds s logged) (client : Client) {n i : Nat}
    (inside : i < MAX_LOG_ITEM) (enough : (window s.g_LogTable i s.g_iLogItemEnd).length ≤ n) :
    ∃ j, s.search client n i = some j ∧ (j = s.g_iLogItemEnd ↔
      ¬ ∃ item ∈ window s.g_LogTable i s.g_iLogItemEnd, item.entry.client = client) := by
  have size := holds.size
  induction n generalizing i with
  | zero =>
    by_cases last : i = s.g_iLogItemEnd
    · exact ⟨i, if_pos last, by simp [last, window_self]⟩
    · obtain ⟨item, -, more⟩ := window_cons last (size ▸ inside) (size ▸ holds.fin)
      rw [more] at enough
      cases enough
  | succ n ih =>
    by_cases last : i = s.g_iLogItemEnd
    · exact ⟨i, by rw [LogTable.search, if_pos last], by simp [last, window_self]⟩
    · obtain ⟨item, here, more⟩ := window_cons last (size ▸ inside) (size ▸ holds.fin)
      rw [size] at more
      rw [more] at enough ⊢
      rw [LogTable.search, if_neg last, here, Option.bind_some]
      have same : item.entry.client = client ↔
          item.ulOpIP = client.addr ∧ item.aucOpMAC = client.mac := by
        obtain ⟨addr, mac⟩ := client
        simp [WEBCAMERA_LOG_T.entry]
      by_cases mine : item.ulOpIP = client.addr ∧ item.aucOpMAC = client.mac
      · rw [if_pos mine]
        exact ⟨i, rfl, iff_of_false last fun none => none ⟨item, by simp, same.mpr mine⟩⟩
      · rw [if_neg mine]
        obtain ⟨j, found, stops⟩ := ih (nextOne_lt inside) (Nat.le_of_succ_le_succ enough)
        refine ⟨j, found, stops.trans (not_congr ?_)⟩
        simp only [List.mem_cons, exists_eq_or_imp, same, mine, false_or]

theorem Holds.getLog (holds : Holds s logged) (bSuperUser : Bool) (now : UInt32) :
    Config_GetLog lib s bSuperUser now = some (padded 10 now.toNat :: ((kept logged).filter fun e =>
      bSuperUser || e.privilege != 0).map (Entry.text lib)) := by
  rw [Config_GetLog, holds.walk holds.start holds.room, Option.bind_some, acLogs_eq,
    Option.map_some, ← holds.items, List.filter_map, List.map_map]
  rfl

theorem Holds.onRequestBegin (holds : Holds s logged) (client : Client) (now : UInt32) :
    ∃ s', OnRequestBegin s client now = some s' ∧
      Holds s' (if ∃ e ∈ kept logged, e.client = client then logged
        else logged ++ [⟨CL_PRIVILEGE_ADMIN, CL_NEW_CLIENT, [], client, now⟩]) := by
  obtain ⟨j, found, stops⟩ := holds.search client holds.start holds.room
  have known : (∃ item ∈ window s.g_LogTable s.g_iLogItemStart s.g_iLogItemEnd,
      item.entry.client = client) ↔ ∃ e ∈ kept logged, e.client = client := by
    rw [← holds.items]
    simp
  rw [known] at stops
  rw [OnRequestBegin, found, Option.bind_some]
  by_cases here : ∃ e ∈ kept logged, e.client = client
  · rw [if_neg fun last => stops.mp last here, if_pos here]
    exact ⟨s, rfl, holds⟩
  · rw [if_pos (stops.mpr here), if_neg here]
    exact holds.log CL_PRIVILEGE_ADMIN CL_NEW_CLIENT none (some client) now

theorem Holds.calls (holds : Holds s logged) (calls : List LogCall) :
    ∃ s', callAll (LogTable.call lib) s calls = some (expected lib logged calls, s') := by
  induction calls generalizing s logged with
  | nil => exact ⟨s, rfl⟩
  | cons c calls ih =>
    cases c with
    | log iViewerPrivilege iLogType pcLogValue hConnection now =>
      obtain ⟨s', logs, after⟩ := holds.log iViewerPrivilege iLogType pcLogValue hConnection now
      obtain ⟨s'', rest⟩ := ih after
      exact ⟨s'', by simp [callAll, LogTable.call, logs, rest, expected]⟩
    | getLog bSuperUser now =>
      obtain ⟨s', rest⟩ := ih holds
      exact ⟨s', by simp only [callAll, LogTable.call, holds.getLog, Option.map_some,
        Option.bind_some, rest, expected]⟩
    | onRequestBegin client now =>
      obtain ⟨s', begins, after⟩ := holds.onRequestBegin client now
      obtain ⟨s'', rest⟩ := ih after
      exact ⟨s'', by simp only [callAll, LogTable.call, begins, Option.map_some,
        Option.bind_some, rest, expected]⟩

variable (lib) in
/-- Each answer lists the latest items in order, those the client may see, and a client is entered
when none of them is its own. Nothing outside the table is touched, the loops end, the texts fit. -/
theorem log_lists_latest (calls : List LogCall) :
    ∃ s, callAll (LogTable.call lib) logInit calls = some (expected lib [] calls, s) :=
  holds_init.calls calls

end Rovio.ClientLog
