import Mathlib.Data.List.Basic
import Mathlib.Data.List.Infix

/-! Pipes: a sender offers its data to the pipe behind it until all of it has been taken. -/
namespace Rovio.SoftPipe

universe u

/-- `fnOnData` of a pipe that receives: with `spGetLenRecv`, its own state and the data offered, how
much of them is taken; by softpipe.h no more than is offered. -/
structure Receiver (S : Type u) where
  fnOnData : Nat → S → List UInt8 → Nat × S
  bounded : ∀ uLenRecv s pData, (fnOnData uLenRecv s pData).1 ≤ pData.length

/-- What a send has done: `uLenSent`, `uDataSent` of the sender and the receiver's state. -/
structure Sent (S : Type u) where
  uLenSent : Nat
  uDataSent : Nat
  receiver : S

variable {S : Type u}

/-- The loop of `spSend`: each time the first `uLen` bytes at `pData` are offered. -/
def sendLoop (r : Receiver S) (pData : List UInt8) (uLen : Nat) (s : Sent S) : Sent S :=
  if 0 < uLen then
    let (uLenSentThis, receiver) := r.fnOnData s.uDataSent s.receiver (pData.take uLen)
    if 0 < uLenSentThis then
      sendLoop r pData (uLen - uLenSentThis)
        ⟨s.uLenSent + uLenSentThis, s.uDataSent + uLenSentThis, receiver⟩
    else { s with receiver }
  else s
termination_by uLen
decreasing_by omega

/-- `spSend` to a pipe; of no data it sends nothing. -/
def spSend (r : Receiver S) (pData : List UInt8) (uDataSent : Nat) (receiver : S) : Sent S :=
  sendLoop r pData pData.length ⟨0, uDataSent, receiver⟩

/-! ### The pipes of buffers -/

/-- `uLenThis` of `__spTargetBuffer` for a buffer of `size` bytes. -/
def targetThis (size uLenRecv uLen : Nat) : Nat :=
  let uLenThis := if size > uLenRecv then size - uLenRecv else 0
  if uLenThis > uLen then uLen else uLenThis

theorem targetThis_eq (size uLenRecv uLen : Nat) :
    targetThis size uLenRecv uLen = min (size - uLenRecv) uLen := by
  unfold targetThis
  dsimp only
  split <;> split <;> omega

theorem targetThis_le (size uLenRecv uLen : Nat) : targetThis size uLenRecv uLen ≤ uLen := by
  rw [targetThis_eq]
  exact Nat.min_le_right _ _

/-- `__spTargetBuffer`; the state is the buffer. -/
def targetBuffer : Receiver (List UInt8) where
  fnOnData uLenRecv pBuffer pData :=
    let uLenThis := targetThis pBuffer.length uLenRecv pData.length
    (uLenThis,
      pBuffer.take uLenRecv ++ pData.take uLenThis ++ pBuffer.drop (uLenRecv + uLenThis))
  bounded uLenRecv pBuffer pData := targetThis_le pBuffer.length uLenRecv pData.length

inductive OnData where
  | none
  | sourceBuffer (pBuffer : List UInt8)
  | targetBuffer (pBuffer : List UInt8)

/-- `SOFT_PIPE_T` with the fields of the pipe it is part of; pipes are known by their numbers. -/
structure Pipe where
  fnOnData : OnData
  uDataSent : Nat
  pspFrom : Option Nat
  pspTo : Option Nat

def spSourceBufferInit (pBuffer : List UInt8) : Pipe := ⟨.sourceBuffer pBuffer, 0, none, none⟩

def spTargetBufferInit (pBuffer : List UInt8) : Pipe := ⟨.targetBuffer pBuffer, 0, none, none⟩

abbrev Pipes := Nat → Pipe

def Pipes.set (pipes : Pipes) (n : Nat) (pipe : Pipe) : Pipes :=
  fun m => if m = n then pipe else pipes m

@[simp] theorem Pipes.set_same (pipes : Pipes) (n : Nat) (pipe : Pipe) :
    pipes.set n pipe n = pipe := if_pos rfl

@[simp] theorem Pipes.set_other (pipes : Pipes) {n m : Nat} (other : m ≠ n) (pipe : Pipe) :
    pipes.set n pipe m = pipes m := if_neg other

def spConnect (pipes : Pipes) (pspFrom pspTo : Nat) : Pipes :=
  let pipes := pipes.set pspFrom { pipes pspFrom with pspTo := some pspTo }
  pipes.set pspTo { pipes pspTo with pspFrom := some pspFrom }

/-- The first pipe of a group of at most `count` pipes. -/
def firstPipe (pipes : Pipes) : Nat → Nat → Option Nat
  | 0, _ => none
  | count + 1, p =>
    match (pipes p).pspFrom with
    | some q => firstPipe pipes count q
    | none => some p

/-- Clears what the pipes of the group have sent. -/
def clearPipes : Nat → Pipes → Nat → Option Pipes
  | 0, _, _ => none
  | count + 1, pipes, p =>
    let pipes := pipes.set p { pipes p with uDataSent := 0 }
    match (pipes p).pspTo with
    | some q => clearPipes count pipes q
    | none => some pipes

/-- `__spSourceBuffer` with the buffer `pBuffer`, to the pipe behind it. -/
def sourceBuffer (pipes : Pipes) (p : Nat) (pBuffer : List UInt8) : Pipes :=
  match (pipes p).pspTo with
  | some to_ =>
    match (pipes to_).fnOnData with
    | .targetBuffer target =>
      let sent := spSend targetBuffer pBuffer (pipes p).uDataSent target
      let pipes := pipes.set p { pipes p with uDataSent := sent.uDataSent }
      pipes.set to_ { pipes to_ with fnOnData := .targetBuffer sent.receiver }
    | _ => pipes
  | none => pipes

/-- `spTransfer` in a group of at most `count` pipes. -/
def spTransfer (count : Nat) (pipes : Pipes) (pspThis : Nat) : Option (Nat × Pipes) :=
  (firstPipe pipes count pspThis).bind fun pspFrom =>
    (clearPipes count pipes pspFrom).bind fun pipes =>
      match (pipes pspFrom).fnOnData with
      | .sourceBuffer pBuffer =>
        let pipes := sourceBuffer pipes pspFrom pBuffer
        some ((pipes pspFrom).uDataSent, pipes)
      | _ => none

/-! ### A receiver that takes any part -/

/-- At the n-th offer it takes so much as `answers n` says of what it is given, and keeps what it
took. -/
def taking (answers : Nat → Nat) : Receiver (Nat × List (List UInt8)) where
  fnOnData _ s pData :=
    (min (answers s.1) pData.length, s.1 + 1, s.2 ++ [pData.take (answers s.1)])
  bounded _ s pData := Nat.min_le_right (answers s.1) pData.length

/-- How far the sender has come after the first n offers. -/
def place (answers : Nat → Nat) : Nat → Nat
  | 0 => 0
  | n + 1 => place answers n + answers n

/-- The parts taken are the front of the data, and its length is returned. -/
def SendsFront (answers : Nat → Nat) (data : List UInt8) (uDataSent : Nat) : Prop :=
  let sent := spSend (taking answers) data uDataSent (0, [])
  sent.receiver.2.flatten <+: data ∧ sent.uLenSent = sent.receiver.2.flatten.length

/-- Whenever data are offered from `start` on, what the receiver takes of them is the same at their
beginning as at the place that has been reached. -/
def RepeatsFrom (answers : Nat → Nat) (data : List UInt8) (start : Nat) : Prop :=
  ∀ n, (∀ m < n, 0 < answers m) → start + place answers n < data.length →
    (data.take (data.length - (start + place answers n))).take (answers n) =
      (data.drop (start + place answers n)).take (answers n)

section Taking
variable {answers : Nat → Nat} {data : List UInt8} {start : Nat}

theorem taking_offer (answers : Nat → Nat) (uLenRecv n : Nat) (pieces : List (List UInt8))
    (pData : List UInt8) : (taking answers).fnOnData uLenRecv (n, pieces) pData =
      (min (answers n) pData.length, n + 1, pieces ++ [pData.take (answers n)]) := rfl

theorem place_succ (answers : Nat → Nat) (n : Nat) :
    place answers (n + 1) = answers 0 + place (fun m => answers (m + 1)) n := by
  induction n with
  | zero => exact Nat.add_comm _ _
  | succ n ih => rw [place, ih, place, Nat.add_assoc]

theorem RepeatsFrom.past (behind : data.length ≤ start) : RepeatsFrom answers data start := by
  intro n _ inside
  omega

/-- The first offer, and those behind it. -/
theorem repeatsFrom_iff (inside : start < data.length) :
    RepeatsFrom answers data start ↔
      (data.take (data.length - start)).take (answers 0) = (data.drop start).take (answers 0) ∧
      (0 < answers 0 → RepeatsFrom (fun m => answers (m + 1)) data (start + answers 0)) := by
  constructor
  · intro repeats
    refine ⟨repeats 0 (fun m less => absurd less (Nat.not_lt_zero m)) inside, ?_⟩
    intro some n all within
    have next := repeats (n + 1)
    rw [place_succ, ← Nat.add_assoc] at next
    refine next (fun m less => ?_) within
    match m with
    | 0 => exact some
    | m + 1 => exact all m (Nat.lt_of_succ_lt_succ less)
  · rintro ⟨first, later⟩ n all within
    match n with
    | 0 => exact first
    | n + 1 =>
      rw [place_succ, ← Nat.add_assoc] at within ⊢
      exact later (all 0 (Nat.succ_pos n)) n (fun m less => all (m + 1) (Nat.succ_lt_succ less))
        within

theorem append_prefix_iff {front other tail rest : List UInt8}
    (length : front.length = other.length) :
    front ++ tail <+: other ++ rest ↔ front = other ∧ tail <+: rest := by
  constructor
  · rintro ⟨more, same⟩
    rw [List.append_assoc] at same
    obtain ⟨first, behind⟩ := List.append_inj same length
    exact ⟨first, more, behind⟩
  · rintro ⟨rfl, inside⟩
    exact (List.prefix_append_right_inj front).mpr inside

/-- The loop with `uLen` bytes left: what it adds to the parts is the data behind the place reached
exactly when the offers from there on repeat it. -/
theorem sendLoop_taking (answers : Nat → Nat) (data : List UInt8) (uLen n sentLen uDataSent : Nat)
    (pieces : List (List UInt8)) (within : uLen ≤ data.length) :
    let sent := sendLoop (taking answers) data uLen ⟨sentLen, uDataSent, n, pieces⟩
    ∃ rest, sent.receiver.2 = pieces ++ rest ∧ sent.uLenSent = sentLen + rest.flatten.length ∧
      (rest.flatten <+: data.drop (data.length - uLen) ↔
        RepeatsFrom (fun m => answers (n + m)) data (data.length - uLen)) := by
  induction uLen using Nat.strongRecOn generalizing n sentLen uDataSent pieces with
  | ind uLen ih =>
    rw [sendLoop]
    rcases Nat.eq_zero_or_pos uLen with rfl | some
    · rw [if_neg (Nat.lt_irrefl 0)]
      refine ⟨[], (List.append_nil _).symm, rfl, fun _ => .past (Nat.le_refl _), fun _ => ?_⟩
      exact List.nil_prefix
    · rw [if_pos some]
      have offered : (data.take uLen).length = uLen := List.length_take_of_le within
      have inside : data.length - uLen < data.length := by omega
      have left : data.length - (data.length - uLen) = uLen := by omega
      rw [repeatsFrom_iff inside, left]
      rw [taking_offer, offered]
      dsimp only
      split
      · rename_i taken
        obtain ⟨rest, parts, length, front⟩ := ih (uLen - min (answers n) uLen) (by omega) (n + 1)
          (sentLen + min (answers n) uLen) (uDataSent + min (answers n) uLen)
          (pieces ++ [(data.take uLen).take (answers n)]) (by omega)
        have piece : ((data.take uLen).take (answers n)).length = min (answers n) uLen := by
          rw [List.length_take, offered]
        refine ⟨(data.take uLen).take (answers n) :: rest, ?_, ?_, ?_⟩
        · rw [parts, List.append_assoc]
          rfl
        · rw [length, List.flatten_cons, List.length_append, piece, Nat.add_assoc]
        · have shift : (fun m => answers (n + 1 + m)) = fun m => answers (n + (m + 1)) := by
            funext m
            rw [Nat.add_assoc, Nat.add_comm 1 m]
          have same : ((data.take uLen).take (answers n)).length =
              ((data.drop (data.length - uLen)).take (answers n)).length := by
            rw [piece, List.length_take, List.length_drop, left]
          have behind : data.drop (data.length - (uLen - min (answers n) uLen)) =
              (data.drop (data.length - uLen)).drop (answers n) := by
            rw [List.drop_drop]
            rcases Nat.le_total (answers n) uLen with less | more
            · rw [Nat.min_eq_left less]
              congr 1
              omega
            · rw [Nat.min_eq_right more, List.drop_eq_nil_of_le (by omega),
                List.drop_eq_nil_of_le (by omega)]
          have later : RepeatsFrom (fun m => answers (n + 1 + m)) data
              (data.length - (uLen - min (answers n) uLen)) ↔
              RepeatsFrom (fun m => answers (n + (m + 1))) data
                (data.length - uLen + answers n) := by
            rw [shift]
            rcases Nat.le_total (answers n) uLen with less | more
            · rw [Nat.min_eq_left less, show data.length - (uLen - answers n) =
                data.length - uLen + answers n by omega]
            · exact ⟨fun _ => .past (by omega), fun _ => .past (by omega)⟩
          have cut := @append_prefix_iff _ _ rest.flatten
            ((data.drop (data.length - uLen)).drop (answers n)) same
          rw [List.take_append_drop, ← behind, front, later] at cut
          rw [List.flatten_cons, cut]
          have positive : 0 < answers n := by omega
          exact and_congr_right fun _ => ⟨fun repeats _ => repeats, fun repeats => repeats positive⟩
      · rename_i refused
        have stopped : answers n = 0 := by omega
        refine ⟨[(data.take uLen).take (answers n)], rfl, ?_, ?_⟩
        · rw [stopped]
          rfl
        · rw [Nat.add_zero, stopped]
          exact ⟨fun _ => ⟨rfl, fun more => absurd more (Nat.lt_irrefl 0)⟩,
            fun _ => List.nil_prefix⟩

/-- `spSend` sends the front of the data exactly when what it offers again is what comes next. -/
theorem sendsFront_iff (answers : Nat → Nat) (data : List UInt8) (uDataSent : Nat) :
    SendsFront answers data uDataSent ↔ RepeatsFrom answers data 0 := by
  obtain ⟨rest, parts, length, front⟩ := sendLoop_taking answers data data.length 0 0 uDataSent []
    (Nat.le_refl _)
  have same : (fun m => answers (0 + m)) = answers := by
    funext m
    rw [Nat.zero_add]
  rw [List.nil_append] at parts
  rw [Nat.zero_add] at length
  rw [Nat.sub_self, List.drop_zero, same] at front
  unfold SendsFront spSend
  dsimp only
  rw [parts, length, front]
  exact and_iff_left rfl

end Taking

/-! ### From a buffer to a buffer -/

theorem target_offer (uLenRecv : Nat) (pBuffer pData : List UInt8) :
    targetBuffer.fnOnData uLenRecv pBuffer pData =
      (targetThis pBuffer.length uLenRecv pData.length, pBuffer.take uLenRecv ++
        pData.take (targetThis pBuffer.length uLenRecv pData.length) ++
          pBuffer.drop (uLenRecv + targetThis pBuffer.length uLenRecv pData.length)) := rfl

/-- A full buffer takes nothing. -/
theorem sendLoop_full (pData target : List UInt8) (uLen uLenSent : Nat) :
    sendLoop targetBuffer pData uLen ⟨uLenSent, target.length, target⟩ =
      ⟨uLenSent, target.length, target⟩ := by
  rw [sendLoop]
  split
  · rw [target_offer, targetThis_eq, Nat.sub_self, Nat.zero_min]
    dsimp only
    rw [if_neg (Nat.lt_irrefl 0), List.take_length, List.take_zero, List.append_nil,
      Nat.add_zero, List.drop_length, List.append_nil]
  · rfl

/-- A send to a target buffer: what fits is copied, and a second offer is refused. -/
theorem spSend_target (source target : List UInt8) :
    let sent := spSend targetBuffer source 0 target
    sent.uDataSent = min target.length source.length ∧
      sent.receiver = source.take target.length ++ target.drop source.length := by
  unfold spSend
  rw [sendLoop]
  split
  · rw [target_offer, List.take_length, targetThis_eq, Nat.sub_zero]
    dsimp only
    rw [List.take_zero, List.nil_append, Nat.zero_add]
    split
    · rcases Nat.le_total target.length source.length with small | large
      · have full : (source.take target.length).length = target.length :=
          List.length_take_of_le small
        have rest := sendLoop_full source (source.take target.length)
          (source.length - target.length) target.length
        rw [full] at rest
        rw [Nat.min_eq_left small, List.drop_length, List.append_nil, rest,
          List.drop_eq_nil_of_le small, List.append_nil]
        exact ⟨rfl, rfl⟩
      · rw [Nat.min_eq_right large, Nat.sub_self, sendLoop, if_neg (Nat.lt_irrefl 0),
          List.take_length, List.take_of_length_le large]
        exact ⟨rfl, rfl⟩
    · rename_i some none
      have empty : target = [] := List.eq_nil_of_length_eq_zero (by omega)
      rw [empty]
      simp
  · rename_i none
    have empty : source = [] := List.eq_nil_of_length_eq_zero (by omega)
    rw [empty]
    simp

/-- `spTransfer` on either pipe of a source buffer connected to a target buffer fills the target
with the front of the source and returns its length. -/
def BuffersDeliver : Prop :=
  ∀ (pipes : Pipes) (source target : List UInt8) (p q pspThis : Nat), p ≠ q →
    pspThis = p ∨ pspThis = q → pipes p = spSourceBufferInit source →
    pipes q = spTargetBufferInit target →
    ∃ after, spTransfer 2 (spConnect pipes p q) pspThis =
        some (min target.length source.length, after) ∧
      (after q).fnOnData =
        .targetBuffer (source.take target.length ++ target.drop source.length)

theorem buffersDeliver : BuffersDeliver := by
  intro pipes source target p q pspThis other among from_ to_
  have back : q ≠ p := other.symm
  have front : spConnect pipes p q p = ⟨.sourceBuffer source, 0, none, some q⟩ := by
    simp [spConnect, other, from_, spSourceBufferInit]
  have behind : spConnect pipes p q q = ⟨.targetBuffer target, 0, some p, none⟩ := by
    simp [spConnect, back, to_, spTargetBufferInit]
  generalize spConnect pipes p q = connected at front behind ⊢
  have first : firstPipe connected 2 pspThis = some p := by
    rcases among with rfl | rfl <;> simp [firstPipe, front, behind]
  let source' : Pipe := ⟨.sourceBuffer source, 0, none, some q⟩
  let target' : Pipe := ⟨.targetBuffer target, 0, some p, none⟩
  let cleared : Pipes := (connected.set p source').set q target'
  have clear : clearPipes 2 connected p = some cleared := by
    simp [clearPipes, front, behind, back, cleared, source', target']
  have atSource : cleared p = source' := by simp [cleared, other]
  have atTarget : cleared q = target' := by simp [cleared]
  obtain ⟨sent, receiver⟩ := spSend_target source target
  rw [spTransfer, first, Option.bind_some, clear, Option.bind_some, atSource]
  dsimp only
  refine ⟨sourceBuffer cleared p source, ?_, ?_⟩
  · simp [sourceBuffer, atSource, atTarget, source', target', other, sent]
  · simp [sourceBuffer, atSource, atTarget, source', target', back, receiver]

/-- What is sent is the front of the data exactly when what is offered again is what comes next;
buffers are always filled. -/
theorem softPipe_delivers_iff (answers : Nat → Nat) (data : List UInt8) (uDataSent : Nat) :
    SendsFront answers data uDataSent ∧ BuffersDeliver ↔ RepeatsFrom answers data 0 := by
  rw [and_iff_left buffersDeliver]
  exact sendsFront_iff answers data uDataSent

/-- A receiver that takes one byte at a time gets the first byte again. -/
theorem first_byte_again : ¬ ∀ (answers : Nat → Nat) (data : List UInt8),
    SendsFront answers data 0 := by
  intro all
  have front := (all (fun _ => 1) [1, 2]).1
  revert front
  decide +kernel

end Rovio.SoftPipe
