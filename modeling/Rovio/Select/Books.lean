import Mathlib.Data.List.Nodup
import Rovio.Select.Sockets

/-! The books of the select thread: its list, its two sets and the sockets of its clients. -/
namespace Rovio.Select
open Kit

universe u
variable {Id : Type u} [DecidableEq Id]

/-- Each client is listed once. A client holds no socket but the one of its descriptor, and no
longer than it is listed; nothing is closed that is not held. What is passed to `select` is what
the listed clients ask for. -/
structure Booked (k : Clients Id) (s : SelectThread Id) : Prop where
  once : s.pFDList.Nodup
  closedOnce : s.world.sockets.stray = 0
  held : ∀ n c, s.world.sockets.owner n = some c → k.kind c ≠ .msg →
    c ∈ s.pFDList ∧ (s.world.fd c).iFD = n
  read : s.place = .top → ∀ n, passedRead s n = true ↔
    ∃ c ∈ s.pFDList, (s.world.fd c).iFD = n ∧ 0 ≤ n ∧ (s.world.fd c).bWantRead = true
  write : s.place = .top → ∀ n, passedWrite s n = true ↔
    ∃ c ∈ s.pFDList, (s.world.fd c).iFD = n ∧ 0 ≤ n ∧ (s.world.fd c).bWantWrite = true

/-- No listed client of these has a socket. -/
def Unheld (s : SelectThread Id) (removed : Id → Prop) : Prop :=
  ∀ c ∈ s.pFDList, removed c → (s.world.fd c).iFD = -1

/-- A client that is removed by a message, or left behind at the end of the loop, has no socket; a
bypass that was halted with one stays. -/
def Orderly (k : Clients Id) (s : SelectThread Id) : Action Id → Prop
  | .wait _ => True
  | .select .error => Unheld s (k.kind · ≠ .msg)
  | .select _ => True
  | .call a => ∀ c todo, s.place = .calls (c :: todo) → k.kind c = .bpLocal → Halts c s.world a
  | .message _ =>
    match s.world.pMsg with
    | some .quit => Unheld s (k.kind · ≠ .msg)
    | some (.customProc process) => Unheld s (removes k process · = true)
    | _ => True

def Place.todo : Place Id → List Id
  | .calls todo => todo
  | _ => []

structure Books (k : Clients Id) (s : SelectThread Id) : Prop where
  once : s.pFDList.Nodup
  stray : s.world.sockets.stray = 0
  proper : Proper k s.world
  fit : ∀ c ∈ s.pFDList, Fit c s.world
  none : ∀ c, c ∉ s.pFDList → k.kind c ≠ .msg → s.world.sockets.Sole c (-1)
  todoOnce : s.place.todo.Nodup
  todo : ∀ c ∈ s.place.todo, c ∈ s.pFDList
  brought : ∀ c ∈ s.pFDList, c ∈ s.brought
  queue : k.queue ∈ s.brought
  fresh : ∀ c, c ∉ s.brought → (s.world.fd c).iFD = -1
  read : Marks s.fdReadSet s.pFDList (fun c => (s.world.fd c).iFD) fun c => (s.world.fd c).bReadable
  write : Marks s.fdWriteSet s.pFDList (fun c => (s.world.fd c).iFD)
    fun c => (s.world.fd c).bWritable

variable {k : Clients Id} {s t : SelectThread Id} {c : Id} {todo : List Id}

omit [DecidableEq Id] in
/-- No two listed clients have one descriptor. -/
theorem Books.distinct (books : Books k s) :
    Distinct s.pFDList fun c => (s.world.fd c).iFD := by
  intro c listed d listed' same real
  dsimp only at same real
  have holds := ((books.fit c listed).sole (s.world.fd c).iFD).mpr ⟨rfl, real⟩
  have holds' := ((books.fit d listed').sole (s.world.fd c).iFD).mpr ⟨same, same ▸ real⟩
  rw [holds] at holds'
  exact Option.some.inj holds'

omit [DecidableEq Id] in
theorem Books.passed (books : Books k s) :
    Marks (passedRead s) s.pFDList (fun c => (s.world.fd c).iFD)
      (fun c => (s.world.fd c).bWantRead) ∧
    Marks (passedWrite s) s.pFDList (fun c => (s.world.fd c).iFD)
      (fun c => (s.world.fd c).bWantWrite) :=
  ⟨books.read.foldl_settle books.distinct books.once,
    books.write.foldl_settle books.distinct books.once⟩

omit [DecidableEq Id] in
theorem Books.booked (books : Books k s) : Booked k s where
  once := books.once
  closedOnce := books.stray
  held := by
    intro n c owns client
    by_cases listed : c ∈ s.pFDList
    · exact ⟨listed, (((books.fit c listed).sole n).mp owns).1.symm⟩
    · have real := (books.none c listed client n).mp owns
      omega
  read _ := books.passed.1
  write _ := books.passed.2

theorem start_books (k : Clients Id) : Books k (start k) := by
  have owner (n : Int) (c : Id) : (start k).world.sockets.owner n = some c ↔
      n = k.aiFD ∧ c = k.queue := by
    have real := k.queue_fd
    simp only [start, Handles.take, if_pos real]
    rcases eq_or_ne n k.aiFD with rfl | other
    · simp [eq_comm]
    · simp [other]
  have queue : (start k).world.fd k.queue = ⟨k.aiFD, .init, -1, false, false, true, false⟩ :=
    if_pos rfl
  have others (c : Id) (other : c ≠ k.queue) : (start k).world.fd c = newFD := if_neg other
  have empty (num : Id → Int) (flag : Id → Bool) (clear : ∀ c ∈ (start k).pFDList, flag c = false) :
      Marks (fun _ => false) (start k).pFDList num flag := by
    intro n
    constructor
    · intro on
      cases on
    · rintro ⟨c, listed, _, _, on⟩
      rw [clear c listed] at on
      cases on
  exact {
    once := List.nodup_singleton _
    stray := by
      simp only [start, Handles.take]
      split <;> rfl
    proper := by
      intro c
      rcases eq_or_ne c k.queue with rfl | other
      · rw [queue, (k.queue_iff _).mpr rfl]
        exact List.mem_singleton.mpr rfl
      · rw [others c other]
        cases k.kind c <;> decide
    fit := by
      intro c listed
      obtain rfl := List.mem_singleton.mp listed
      constructor
      · intro n
        rw [owner, queue]
        have real := k.queue_fd
        constructor
        · rintro ⟨rfl, _⟩
          exact ⟨rfl, real⟩
        · rintro ⟨rfl, _⟩
          exact ⟨rfl, rfl⟩
      · rw [queue]
        exact .inr k.queue_fd
    none := by
      intro c unlisted _ n
      rw [owner]
      constructor
      · rintro ⟨_, rfl⟩
        exact absurd (List.mem_singleton.mpr rfl) unlisted
      · omega
    todoOnce := List.nodup_nil
    todo := by
      intro c mem
      cases mem
    brought := fun _ listed => listed
    queue := List.mem_singleton.mpr rfl
    fresh := by
      intro c unknown
      have other : c ≠ k.queue := by
        rintro rfl
        exact unknown (List.mem_singleton.mpr rfl)
      rw [others c other]
      rfl
    read := by
      refine empty _ _ fun c listed => ?_
      obtain rfl := List.mem_singleton.mp listed
      rw [queue]
    write := by
      refine empty _ _ fun c listed => ?_
      obtain rfl := List.mem_singleton.mp listed
      rw [queue] }

omit [DecidableEq Id] in
/-- A message is taken, or the thread goes on to another place. -/
theorem Books.onward (books : Books k s) {place : Place Id} (pMsg : Option (Msg Id))
    (todo : place.todo = []) :
    Books k { s with world := { s.world with pMsg }, place } where
  once := books.once
  stray := books.stray
  proper := books.proper
  fit c listed := ⟨(books.fit c listed).sole, (books.fit c listed).real⟩
  none := books.none
  todoOnce := by
    dsimp only
    rw [todo]
    exact List.nodup_nil
  todo := by
    dsimp only
    rw [todo]
    intro c mem
    cases mem
  brought := books.brought
  queue := books.queue
  fresh := books.fresh
  read := books.read
  write := books.write

/-- Clients without a descriptor are removed. -/
theorem Books.filter (books : Books k s) {removed : Id → Bool}
    (unheld : Unheld s (removed · = true)) :
    Books k { s with pFDList := s.pFDList.filter fun c => !removed c, place := .top } := by
  have still (c : Id) : c ∈ s.pFDList.filter (fun c => !removed c) ↔
      c ∈ s.pFDList ∧ removed c = false := by
    simp
  have same (flag : Id → Bool) (c : Id) (real : 0 ≤ (s.world.fd c).iFD ∨ 0 ≤ (s.world.fd c).iFD) :
      c ∈ s.pFDList ∧ flag c = true ↔
        c ∈ s.pFDList.filter (fun c => !removed c) ∧ flag c = true := by
    rw [still]
    constructor
    · rintro ⟨listed, on⟩
      cases gone : removed c with
      | false => exact ⟨⟨listed, rfl⟩, on⟩
      | true =>
        have none := unheld c listed gone
        omega
    · rintro ⟨⟨listed, _⟩, on⟩
      exact ⟨listed, on⟩
  exact {
    once := books.once.filter _
    stray := books.stray
    proper := books.proper
    fit := fun c listed => books.fit c ((still c).mp listed).1
    none := by
      intro c unlisted client
      by_cases before : c ∈ s.pFDList
      · have gone : removed c = true := by
          by_contra stays
          exact unlisted ((still c).mpr ⟨before, by simpa using stays⟩)
        have sole := (books.fit c before).sole
        rwa [unheld c before gone] at sole
      · exact books.none c before client
    todoOnce := List.nodup_nil
    todo := by
      intro c mem
      cases mem
    brought := fun c listed => books.brought c ((still c).mp listed).1
    queue := books.queue
    fresh := books.fresh
    read := books.read.congr (same _) (fun _ _ => rfl) fun _ _ => rfl
    write := books.write.congr (same _) (fun _ _ => rfl) fun _ _ => rfl }

/-- The thread ends, and the sockets have been closed before. -/
theorem Books.leave (books : Books k s) (unheld : Unheld s (k.kind · ≠ .msg)) :
    Books k s.leave := by
  have empty (num : Id → Int) (flag : Id → Bool) : Marks (fun _ => false) [] num flag := by
    intro n
    simp
  exact {
    once := List.nodup_nil
    stray := books.stray
    proper := books.proper
    fit := by
      intro c listed
      cases listed
    none := by
      intro c _ client
      by_cases before : c ∈ s.pFDList
      · have sole := (books.fit c before).sole
        rwa [unheld c before client] at sole
      · exact books.none c before client
    todoOnce := List.nodup_nil
    todo := by
      intro c mem
      cases mem
    brought := by
      intro c listed
      cases listed
    queue := books.queue
    fresh := books.fresh
    read := empty _ _
    write := empty _ _ }

/-- The sets and the flags agree after `select`. -/
theorem Books.answered (books : Books k s) (read write : Int → Bool) :
    Books k (s.answered read write) := by
  let fd (c : Id) : FD := (s.answered read write).world.fd c
  have listed_fd (c : Id) (listed : c ∈ s.pFDList) :
      fd c = (s.world.fd c).answer (fun n => passedRead s n && read n)
        fun n => passedWrite s n && write n := if_pos listed
  have other_fd (c : Id) (unlisted : c ∉ s.pFDList) : fd c = s.world.fd c := if_neg unlisted
  have answer_iFD (f : FD) (r w : Int → Bool) : (f.answer r w).iFD = f.iFD ∧
      (f.answer r w).iState = f.iState := by
    unfold FD.answer FD.notReady
    split <;> exact ⟨rfl, rfl⟩
  have same (c : Id) : (fd c).iFD = (s.world.fd c).iFD ∧ (fd c).iState = (s.world.fd c).iState := by
    by_cases listed : c ∈ s.pFDList
    · rw [listed_fd c listed]
      exact answer_iFD ..
    · rw [other_fd c listed]
      exact ⟨rfl, rfl⟩
  have flags (c : Id) (listed : c ∈ s.pFDList) (real : 0 ≤ (s.world.fd c).iFD) :
      (fd c).bReadable = ((s.world.fd c).bWantRead &&
        (passedRead s (s.world.fd c).iFD && read (s.world.fd c).iFD)) ∧
      (fd c).bWritable = ((s.world.fd c).bWantWrite &&
        (passedWrite s (s.world.fd c).iFD && write (s.world.fd c).iFD)) := by
    rw [listed_fd c listed]
    unfold FD.answer
    rw [if_neg (by omega)]
    exact ⟨rfl, rfl⟩
  have iFDs : (fun c => (s.world.fd c).iFD) = fun c => (fd c).iFD := funext fun c => (same c).1.symm
  obtain ⟨passedReads, passedWrites⟩ := books.passed
  exact {
    once := books.once
    stray := books.stray
    proper := by
      intro c
      change (fd c).iState ∈ _
      rw [(same c).2]
      exact books.proper c
    fit := by
      intro c listed
      have fit := books.fit c listed
      constructor
      · change s.world.sockets.Sole c (fd c).iFD
        rw [(same c).1]
        exact fit.sole
      · change (fd c).iFD = -1 ∨ 0 ≤ (fd c).iFD
        rw [(same c).1]
        exact fit.real
    none := books.none
    todoOnce := books.once
    todo := fun _ listed => listed
    brought := books.brought
    queue := books.queue
    fresh := by
      intro c unknown
      change (fd c).iFD = -1
      rw [(same c).1]
      exact books.fresh c unknown
    read := by
      have marks : Marks (fun n => passedRead s n && read n) s.pFDList
          (fun c => (s.world.fd c).iFD) (fun c => (fd c).bReadable) :=
        passedReads.answered read fun c listed real => (flags c listed real).1
      rw [iFDs] at marks
      exact marks
    write := by
      have marks : Marks (fun n => passedWrite s n && write n) s.pFDList
          (fun c => (s.world.fd c).iFD) (fun c => (fd c).bWritable) :=
        passedWrites.answered write fun c listed real => (flags c listed real).2
      rw [iFDs] at marks
      exact marks }

/-- A new client is listed. -/
theorem Books.addFD (books : Books k s) (unknown : c ∉ s.brought) (appended : Bool) :
    Books k (s.addFD c appended) := by
  have unlisted : c ∉ s.pFDList := fun listed => unknown (books.brought c listed)
  have none : (s.world.fd c).iFD = -1 := books.fresh c unknown
  have client : k.kind c ≠ .msg := by
    intro msg
    rw [(k.queue_iff c).mp msg] at unknown
    exact unknown books.queue
  unfold SelectThread.addFD
  split
  · let fd (d : Id) : FD := Function.update s.world.fd c (s.world.fd c).notReady d
    have self : fd c = (s.world.fd c).notReady := Function.update_self ..
    have others (d : Id) (other : d ≠ c) : fd d = s.world.fd d := Function.update_of_ne other ..
    have same (d : Id) : (fd d).iFD = (s.world.fd d).iFD ∧
        (fd d).iState = (s.world.fd d).iState := by
      rcases eq_or_ne d c with rfl | other
      · rw [self]
        exact ⟨rfl, rfl⟩
      · rw [others d other]
        exact ⟨rfl, rfl⟩
    have marked (flag flag' : Id → Bool) (agree : ∀ d, d ≠ c → flag' d = flag d) (d : Id)
        (real : 0 ≤ (s.world.fd d).iFD ∨ 0 ≤ (fd d).iFD) :
        d ∈ s.pFDList ∧ flag d = true ↔ d ∈ s.pFDList ++ [c] ∧ flag' d = true := by
      rw [(same d).1, or_self] at real
      have other : d ≠ c := by
        rintro rfl
        omega
      rw [agree d other]
      simp [other]
    exact {
      once := by
        rw [List.nodup_append]
        refine ⟨books.once, List.nodup_singleton c, fun d listed e new => ?_⟩
        rw [List.mem_singleton.mp new]
        rintro rfl
        exact unlisted listed
      stray := books.stray
      proper := by
        intro d
        change (fd d).iState ∈ _
        rw [(same d).2]
        exact books.proper d
      fit := by
        intro d listed
        have sole : s.world.sockets.Sole d (s.world.fd d).iFD ∧
            ((s.world.fd d).iFD = -1 ∨ 0 ≤ (s.world.fd d).iFD) := by
          rcases List.mem_append.mp listed with before | new
          · exact ⟨(books.fit d before).sole, (books.fit d before).real⟩
          · rw [List.mem_singleton.mp new, none]
            exact ⟨books.none c unlisted client, .inl rfl⟩
        constructor
        · change s.world.sockets.Sole d (fd d).iFD
          rw [(same d).1]
          exact sole.1
        · change (fd d).iFD = -1 ∨ 0 ≤ (fd d).iFD
          rw [(same d).1]
          exact sole.2
      none := by
        intro d unlisted client
        refine books.none d (fun before => ?_) client
        exact unlisted (List.mem_append_left _ before)
      todoOnce := List.nodup_nil
      todo := by
        intro d mem
        cases mem
      brought := by
        intro d listed
        rcases List.mem_append.mp listed with before | new
        · exact List.mem_cons_of_mem _ (books.brought d before)
        · rw [List.mem_singleton.mp new]
          exact List.mem_cons_self
      queue := List.mem_cons_of_mem _ books.queue
      fresh := by
        intro d unknown
        change (fd d).iFD = -1
        rw [(same d).1]
        exact books.fresh d fun before => unknown (List.mem_cons_of_mem _ before)
      read := books.read.congr
        (marked _ (fun d => (fd d).bReadable) fun d other => by rw [others d other])
        (fun d _ => (same d).1) fun d _ => (same d).1
      write := books.write.congr
        (marked _ (fun d => (fd d).bWritable) fun d other => by rw [others d other])
        (fun d _ => (same d).1) fun d _ => (same d).1 }
  · exact {
      once := books.once
      stray := books.stray
      proper := books.proper
      fit := books.fit
      none := books.none
      todoOnce := List.nodup_nil
      todo := by
        intro d mem
        cases mem
      brought := fun d listed => List.mem_cons_of_mem _ (books.brought d listed)
      queue := List.mem_cons_of_mem _ books.queue
      fresh := fun d unknown => books.fresh d fun before =>
        unknown (List.mem_cons_of_mem _ before)
      read := books.read
      write := books.write }

/-- A client's function is called. -/
theorem Books.call (books : Books k s) (here : s.place = .calls (c :: todo)) {a : Answers Id}
    (halts : k.kind c = .bpLocal → Halts c s.world a) : Books k (s.call k c todo a) := by
  have ahead := books.todo
  have once := books.todoOnce
  rw [here] at ahead once
  simp only [Place.todo, List.mem_cons, forall_eq_or_imp, List.nodup_cons] at ahead once
  obtain ⟨listed, ahead⟩ := ahead
  obtain ⟨frame, stays, leaves⟩ := process_tends books.proper halts (books.fit c listed)
  have proper : Proper k (process k a c s.world).1 := process_proper books.proper
  have stray : (process k a c s.world).1.sockets.stray = 0 := by
    rw [frame.only.stray]
    exact books.stray
  have fresh (d : Id) (unknown : d ∉ s.brought) :
      ((process k a c s.world).1.fd d).iFD = -1 := by
    have other : d ≠ c := by
      rintro rfl
      exact unknown (books.brought d listed)
    rw [frame.iFD d other]
    exact books.fresh d unknown
  have fit (d : Id) (other : d ≠ c) (before : d ∈ s.pFDList) :
      Fit d (process k a c s.world).1 := by
    have fit := books.fit d before
    constructor
    · rw [frame.iFD d other]
      exact frame.only.sole other fit.sole
    · rw [frame.iFD d other]
      exact fit.real
  have none (d : Id) (unlisted : d ∉ s.pFDList) (client : k.kind d ≠ .msg) :
      (process k a c s.world).1.sockets.Sole d (-1) := by
    have other : d ≠ c := by
      rintro rfl
      exact unlisted listed
    exact frame.only.sole other (books.none d unlisted client)
  unfold SelectThread.call
  cases returned : process k a c s.world with
  | mk world stay =>
    rw [returned] at frame stays leaves proper stray fresh fit none
    dsimp only at frame stays leaves proper stray fresh fit none
    have readable : (fun d => (world.fd d).bReadable) = fun d => (s.world.fd d).bReadable :=
      funext frame.readable
    have writable : (fun d => (world.fd d).bWritable) = fun d => (s.world.fd d).bWritable :=
      funext frame.writable
    cases stay with
    | false =>
      have still (d : Id) : d ∈ s.pFDList.erase c ↔ d ≠ c ∧ d ∈ s.pFDList :=
        books.once.mem_erase_iff
      have kept (flag : Id → Bool) (d : Id)
          (_ : 0 ≤ (s.world.fd d).iFD ∨ 0 ≤ (world.fd d).iFD) :
          d ∈ s.pFDList.erase c ∧ flag d = true ↔ d ∈ s.pFDList.erase c ∧ flag d = true := Iff.rfl
      have numbers (d : Id) (mem : d ∈ s.pFDList.erase c) :
          (world.fd d).iFD = (s.world.fd d).iFD := frame.iFD d ((still d).mp mem).1
      dsimp only
      exact {
        once := books.once.erase c
        stray
        proper
        fit := fun d mem => fit d ((still d).mp mem).1 ((still d).mp mem).2
        none := by
          intro d gone client
          rcases eq_or_ne d c with rfl | other
          · exact leaves rfl client
          · exact none d (fun before => gone ((still d).mpr ⟨other, before⟩)) client
        todoOnce := once.2
        todo := by
          intro d mem
          have other : d ≠ c := by
            rintro rfl
            exact once.1 mem
          exact (still d).mpr ⟨other, ahead d mem⟩
        brought := fun d mem => books.brought d ((still d).mp mem).2
        queue := books.queue
        fresh
        read := by
          have marks := books.read.erase books.distinct books.once listed
          rw [← readable, ← frame.readable c] at marks
          exact marks.congr (kept _) numbers numbers
        write := by
          have marks := books.write.erase books.distinct books.once listed
          rw [← writable, ← frame.writable c] at marks
          exact marks.congr (kept _) numbers numbers }
    | true =>
      have fits (d : Id) (before : d ∈ s.pFDList) : Fit d world := by
        rcases eq_or_ne d c with rfl | other
        · exact stays rfl
        · exact fit d other before
      have todos (d : Id) (mem : d ∈ todo) : d ∈ s.pFDList := ahead d mem
      dsimp only
      split
      · exact {
          once := books.once
          stray
          proper
          fit := fits
          none
          todoOnce := once.2
          todo := todos
          brought := books.brought
          queue := books.queue
          fresh
          read := by
            have marks := books.read.move books.distinct listed frame.iFD
            rw [← readable, ← frame.readable c] at marks
            exact marks
          write := by
            have marks := books.write.move books.distinct listed frame.iFD
            rw [← writable, ← frame.writable c] at marks
            exact marks }
      · rename_i same
        have numbers : (fun d => (world.fd d).iFD) = fun d => (s.world.fd d).iFD := by
          funext d
          rcases eq_or_ne d c with rfl | other
          · exact (not_not.mp same).symm
          · exact frame.iFD d other
        exact {
          once := books.once
          stray
          proper
          fit := fits
          none
          todoOnce := once.2
          todo := todos
          brought := books.brought
          queue := books.queue
          fresh
          read := by
            have marks := books.read
            rw [← readable, ← numbers] at marks
            exact marks
          write := by
            have marks := books.write
            rw [← writable, ← numbers] at marks
            exact marks }

/-- The step lemma. -/
theorem Books.step {action : Action Id} (books : Books k s) (ok : Orderly k s action)
    (step : Step k s action t) : Books k t := by
  cases step with
  | waitFails => exact books
  | wait here => exact books.onward _ rfl
  | @select answer here =>
    cases answer with
    | error => exact books.leave ok
    | nothing => exact books.answered _ _
    | ready read write => exact books.answered read write
  | @call c todo a here => exact books.call here (ok c todo here)
  | called here => exact books.onward s.world.pMsg rfl
  | none here message => exact books.onward s.world.pMsg rfl
  | quit here message =>
    simp only [Orderly, message] at ok
    exact books.leave ok
  | addFD here message unknown => exact books.addFD unknown _
  | customProc here message =>
    simp only [Orderly, message] at ok
    exact books.filter ok

/-- Of every run in which the clients that messages remove have no socket. -/
theorem select_books (k : Clients Id) {actions : List (Action Id)}
    (run : Run (Guarded (Orderly k) (Step k)) (start k) actions s) : Booked k s := by
  have books : Books k s := run.invariant (Books k)
    (fun _ _ _ books step => books.step step.1 step.2) (start_books k)
  exact books.booked

/-! A client for dynamic DNS opens a socket, and is replaced while it waits for the
connection. -/

def ddnsClients : Clients Nat where
  kind c := if c = 0 then .msg else .ddnsHttp
  partner c := c
  connectType _ := .ctrl
  queue := 0
  aiFD := 3
  queue_iff c := by simp
  queue_fd := by decide
  local_partner c h := by
    split at h <;> cases h
  remote_partner c h := by
    split at h <;> cases h

def firstFree : Handles.Alloc Nat where
  val owner := if owner 5 = none then 5 else -1
  property owner := by
    dsimp only
    split
    · rename_i free
      exact .inr ⟨by decide, free⟩
    · exact .inl rfl

def promptAnswers (message : Msg Nat) : Answers Nat where
  message := some message
  resolved := true
  noMoreHosts := false
  socket := firstFree
  nonblocking := true
  connected := true
  late := false
  wrote := .again
  read := .again
  whole := false
  refused := false
  packet := false
  unreturned := true
  uDelayTime := 0

def idle : Action Nat := .select .nothing

def wakes : Action Nat := .select (.ready (fun n => n = 3) fun _ => false)

def calls (message : Msg Nat) : Action Nat := .call (promptAnswers message)

theorem ddns_calls {s : SelectThread Nat} (a : Answers Nat) : Orderly ddnsClients s (.call a) := by
  intro c todo _ bypass
  have other : ddnsClients.kind c ≠ .bpLocal := by
    simp only [ddnsClients]
    split <;> decide
  exact absurd bypass other

/-- The first client is listed, and has a socket of number 5. -/
def opened : List (Action Nat) :=
  [wakes, calls (.addFD 1), calls .quit, .message true,
    idle, calls .quit, calls .quit, calls .quit, .message true,
    idle, calls .quit, calls .quit, calls .quit, .message true]

theorem opened_run : ∃ s, Run (Guarded (Orderly ddnsClients) (Step ddnsClients))
    (start ddnsClients) opened s ∧ s.world.sockets.owner 5 = some 1 := by
  refine ⟨_, .cons ⟨trivial, .select rfl (by decide)⟩ (.cons ⟨ddns_calls _, .call rfl⟩ (.cons
    ⟨ddns_calls _, .called rfl⟩ (.cons ⟨trivial, .addFD rfl rfl (by decide)⟩ (.cons
    ⟨trivial, .select rfl (by decide)⟩ (.cons ⟨ddns_calls _, .call rfl⟩ (.cons
    ⟨ddns_calls _, .call rfl⟩ (.cons ⟨ddns_calls _, .called rfl⟩ (.cons
    ⟨trivial, .none rfl rfl⟩ (.cons ⟨trivial, .select rfl (by decide)⟩ (.cons
    ⟨ddns_calls _, .call rfl⟩ (.cons ⟨ddns_calls _, .call rfl⟩ (.cons
    ⟨ddns_calls _, .called rfl⟩ (.cons ⟨trivial, .none rfl rfl⟩ (.nil _)))))))))))))), rfl⟩

theorem select_books_ddns : ∃ s, s.world.sockets.owner 5 = some 1 ∧ Booked ddnsClients s := by
  obtain ⟨s, run, holds⟩ := opened_run
  exact ⟨s, holds, select_books ddnsClients run⟩

/-- The first client makes way for the second. -/
def replaced : List (Action Nat) :=
  opened ++ [wakes, calls (.customProc (.addDDNS 2)), calls .quit, calls .quit, .message true]

theorem addDDNS_leaks : ∃ s, Run (Step ddnsClients) (start ddnsClients) replaced s ∧
    ¬ Booked ddnsClients s := by
  refine ⟨_, .cons (.select rfl (by decide)) (.cons (.call rfl) (.cons (.called rfl) (.cons
    (.addFD rfl rfl (by decide)) (.cons (.select rfl (by decide)) (.cons (.call rfl) (.cons
    (.call rfl) (.cons (.called rfl) (.cons (.none rfl rfl) (.cons (.select rfl (by decide)) (.cons
    (.call rfl) (.cons (.call rfl) (.cons (.called rfl) (.cons (.none rfl rfl) (.cons
    (.select rfl (by decide)) (.cons (.call rfl) (.cons (.call rfl) (.cons (.called rfl) (.cons
    (.customProc rfl rfl) (.nil _))))))))))))))))))), fun booked => ?_⟩
  have gone := (booked.held 5 1 rfl (by decide)).1
  exact absurd gone (by decide)

end Rovio.Select
