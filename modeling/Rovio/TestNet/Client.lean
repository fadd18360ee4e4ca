import Rovio.Kit.Buffer
import Rovio.Kit.Bytes

/-! A client of the wireless test server. It is sent integers and sends integers back, in turns; how
many bytes a read or a write moves is up to the socket. -/
namespace Rovio.TestNet

open Kit

def MAX_INT_NUM : Nat := 1024

/-- `MAX_IO_BUFFER - 4096`, the most that `my_read` and `my_write` ask for. -/
def MAX_IO_SIZE : Nat := 45904

inductive ClientState
  | CLIENT_WRITE
  | CLIENT_READ
  deriving DecidableEq

/-- `CLIENT_T` of one slot, `buffer` as its bytes. The last three fields are histories: the bytes
counted for a request with the length announced for it; the numbers announced, with whether the
client was closed for it; the numbers of the requests of which data has been stored. -/
structure Client where
  fd : Int
  state : ClientState
  total_length : Int
  io_length : Nat
  buffer : List UInt8
  counted : List (Nat × Int)
  announced : List (Int × Bool)
  stored : List Int

/-- What a read or a write returns: -1 with an `errno` that says to try again, -1 with another one,
or what the socket has to offer. -/
inductive Answer (α : Type)
  | again
  | error
  | done (offer : α)

/-- The integer in the first four bytes. -/
def leInt : List UInt8 → Int
  | b0 :: b1 :: b2 :: b3 :: _ => (leWord b0 b1 b2 b3).toInt
  | _ => 0

/-- `buffer.number`. -/
def Client.number (client : Client) : Int := leInt client.buffer

/-- `sizeof( number ) + number * sizeof( int )`, unsigned, and put into an int. -/
def totalLength (number : Int) : Int := Int.bmod (4 + number * 4) 4294967296

/-- `buffer.digit[i] = i`. -/
def putDigit (buffer : List UInt8) (i : Nat) : Option (List UInt8) :=
  put buffer (4 + 4 * i) (leBytes (BitVec.ofNat 32 i))

def Client.client_init_for_write (client : Client) (rand : Nat) : Option Client :=
  let number := rand % MAX_INT_NUM
  (put client.buffer 0 (leBytes (BitVec.ofNat 32 number))).bind fun buffer =>
    ((List.range number).foldlM putDigit buffer).map fun buffer => { client with
      state := .CLIENT_WRITE, total_length := totalLength number, io_length := 0, buffer }

def Client.client_init_for_read (client : Client) : Client :=
  { client with state := .CLIENT_READ, io_length := 0 }

def Client.client_init (client : Client) (fd : Int) (rand : Nat) : Option Client :=
  { client with fd, total_length := 0, io_length := 0 }.client_init_for_write rand

def Client.client_uninit (client : Client) : Client := { client with fd := -1 }

/-- The end of `do_client_write`. -/
def Client.writeFinished (client : Client) : Client :=
  if (client.io_length : Int) ≥ client.total_length then client.client_init_for_read else client

/-- None when bytes outside of the buffer are read. -/
def do_client_write (client : Client) (answer : Answer Nat) : Option Client :=
  if (client.io_length : Int) < client.total_length then
    match answer with
    | .again => some client
    | .error => some client.client_uninit
    | .done offer =>
      let length := (client.total_length - client.io_length).toNat
      let length_write := min offer (min length MAX_IO_SIZE)
      if length_write = 0 then some client.client_uninit
      else (fetch client.buffer client.io_length length_write).map fun _ =>
        { client with io_length := client.io_length + length_write }.writeFinished
  else some client.writeFinished

/-- The end of `do_client_read`. -/
def Client.readFinished (client : Client) (rand : Nat) : Option Client :=
  if (client.io_length : Int) ≥ client.total_length then client.client_init_for_write rand
  else some client

/-- Counts bytes as received. -/
def Client.count (client : Client) (buffer : List UInt8) (length_read : Nat) : Client :=
  let client := { client with buffer, io_length := client.io_length + length_read }
  if 4 ≤ client.io_length then
    { client with counted := (client.io_length, 4 + client.number * 4) :: client.counted }
  else client

/-- The read and the handling of what it returns, which both branches of `do_client_read` have. -/
def Client.receive (client : Client) (length : Nat) (answer : Answer (List UInt8))
    (next : Client → Option Client) : Option Client :=
  match answer with
  | .again => some client
  | .error => some client.client_uninit
  | .done offer =>
    let bytes := offer.take (min length MAX_IO_SIZE)
    if bytes = [] then some client.client_uninit
    else (put client.buffer client.io_length bytes).bind fun buffer =>
      next (client.count buffer bytes.length)

/-- The number has been read as far as it has come. -/
def Client.numberRead (client : Client) (rand : Nat) : Option Client :=
  if 4 ≤ client.io_length then
    if client.number > MAX_INT_NUM then
      some { client.client_uninit with announced := (client.number, true) :: client.announced }
    else { client with
      total_length := totalLength client.number
      announced := (client.number, false) :: client.announced }.readFinished rand
  else client.readFinished rand

/-- None when bytes outside of the buffer are stored. -/
def do_client_read (client : Client) (answer : Answer (List UInt8)) (rand : Nat) : Option Client :=
  if client.io_length < 4 then
    client.receive (4 - client.io_length) answer fun client => client.numberRead rand
  else if (client.io_length : Int) < client.total_length then
    client.receive (client.total_length - client.io_length).toNat answer fun client =>
      { client with stored := client.number :: client.stored }.readFinished rand
  else client.readFinished rand

def do_client (client : Client) (reading : Answer (List UInt8)) (writing : Answer Nat)
    (rand : Nat) : Option Client :=
  match client.state with
  | .CLIENT_WRITE => do_client_write client writing
  | .CLIENT_READ => do_client_read client reading rand

/-- What the loop of `WirelessTest_Test_Entry` does with a slot: it puts a new connection there,
gives up a client that has been idle for too long, or lets the client read or write. -/
inductive Turn
  | accepted (fd : Int) (rand : Nat)
  | expired
  | ready (reading : Answer (List UInt8)) (writing : Answer Nat) (rand : Nat)

def turn (client : Client) : Turn → Option Client
  | .accepted fd rand => if client.fd = -1 then client.client_init fd rand else some client
  | .expired => some (if client.fd ≠ -1 then client.client_uninit else client)
  | .ready reading writing rand =>
    if client.fd ≠ -1 then do_client client reading writing rand else some client

def turns (client : Client) (ts : List Turn) : Option Client := ts.foldlM turn client

/-- A slot of the new array, with whatever its memory holds. -/
def freeSlot (state : ClientState) (total_length : Int) (io_length : Nat) (buffer : List UInt8) :
    Client := ⟨-1, state, total_length, io_length, buffer, [], [], []⟩

/-- A number of integers that the buffer has room for. -/
def Acceptable (number : Int) : Prop := 0 ≤ number ∧ number ≤ MAX_INT_NUM

structure Client.Safe (client : Client) : Prop where
  counted : ∀ p ∈ client.counted, (p.1 : Int) ≤ p.2
  rejected : ∀ p ∈ client.announced, ¬ Acceptable p.1 → p.2 = true
  stored : ∀ number ∈ client.stored, Acceptable number

/-- The number that a turn completes, if it does. -/
def announces (client : Client) : Turn → Option Int
  | .ready (.done offer) _ _ =>
    if client.fd ≠ -1 ∧ client.state = .CLIENT_READ ∧ client.io_length < 4 then
      let bytes := offer.take (4 - client.io_length)
      if client.io_length + bytes.length = 4 then
        some (leInt (client.buffer.take client.io_length ++ bytes))
      else none
    else none
  | _ => none

/-- No client announces a negative number. -/
def NoneNegative : Client → List Turn → Prop
  | _, [] => True
  | client, t :: ts => (∀ number, announces client t = some number → 0 ≤ number) ∧
      ∀ next, turn client t = some next → NoneNegative next ts

/-! ### Buffers -/

theorem leInt_take (buffer : List UInt8) : leInt (buffer.take 4) = leInt buffer := by
  rcases buffer with _ | ⟨b0, _ | ⟨b1, _ | ⟨b2, _ | ⟨b3, rest⟩⟩⟩⟩ <;> rfl

theorem totalLength_eq {number : Int} (fits : Acceptable number) :
    totalLength number = 4 + number * 4 := by
  obtain ⟨low, high⟩ := fits
  rw [show ((MAX_INT_NUM : Nat) : Int) = 1024 from rfl] at high
  unfold totalLength
  rw [Int.bmod_def]
  omega

theorem digits_put (is : List Nat) {buffer : List UInt8} (size : buffer.length = 4100)
    (small : ∀ i ∈ is, i < 1024) :
    ∃ after, is.foldlM putDigit buffer = some after ∧ after.length = 4100 := by
  induction is generalizing buffer with
  | nil => exact ⟨buffer, rfl, size⟩
  | cons i is ih =>
    have low := small i (List.mem_cons_self ..)
    obtain ⟨next, stored⟩ := @put_isSome UInt8 buffer (leBytes (BitVec.ofNat 32 i)) (4 + 4 * i)
      (by rw [length_leBytes]; omega)
    rw [List.foldlM_cons]
    obtain ⟨after, run, length⟩ := ih ((put_length stored).trans size)
      (fun j mem => small j (List.mem_cons_of_mem i mem))
    refine ⟨after, ?_, length⟩
    rw [putDigit, stored]
    exact run

end Rovio.TestNet
