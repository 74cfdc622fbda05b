import V2lin.Queue.Extent
import V2lin.Queue.Code
import V2lin.Threads.Linearize

/-! What a message queue is for.

A box holds the messages of its senders, in the order in which they are to be taken out.
It has room for so many of so many bytes, and for one urgent message more. Senders that
find no room stand in one line and receivers in another, from which they are called by
arrival or by priority. -/
namespace V2lin.Queue
open Threads

section
variable {θ : Type} [DecidableEq θ]

structure Box (θ : Type) where
  listed : Bool
  killed : Bool
  capacity : ℕ
  limit : ℕ
  byPriority : Bool
  messages : List (List UInt8)
  receivers : List θ
  senders : List θ
  deriving DecidableEq

/-- What happens at a box, with what the caller gets. -/
inductive Deed (θ : Type) where
  | opens
  | refuse (t : θ) (op : Op)
  | sendTooLong (t : θ) (a : SendArgs)
  | sendFull (t : θ) (a : SendArgs)
  | post (t : θ) (a : SendArgs) (msg : List UInt8)
  | joinSenders (t : θ) (a : SendArgs)
  /-- By a sender that has stood in line. -/
  | postLate (t : θ) (a : SendArgs) (msg : List UInt8)
  | leaveSenders (t : θ) (a : SendArgs) (error : Status)
  | receiveTooShort (t : θ) (a : ReceiveArgs)
  | joinReceivers (t : θ) (a : ReceiveArgs)
  | fetch (t : θ) (a : ReceiveArgs) (msg : List UInt8)
  | leaveReceivers (t : θ) (a : ReceiveArgs) (error : Status)
  | count (t : θ) (n : ℤ)
  | kill (t : θ)
  | close (t : θ)
  deriving DecidableEq

/-- The call that a deed settles. -/
def Deed.settles : Deed θ → Option (θ × Op × Reply)
  | .refuse t op => some (t, op, notFound op)
  | .sendTooLong t a => some (t, .send a, .failed .invalidMsgLength)
  | .sendFull t a => some (t, .send a, .failed .objUnavailable)
  | .post t a _ => some (t, .send a, .ok)
  | .postLate t a _ => some (t, .send a, .ok)
  | .leaveSenders t a error => some (t, .send a, .failed error)
  | .receiveTooShort t a => some (t, .receive a, .failed .invalidMsgLength)
  | .fetch t a msg => some (t, .receive a, .received msg)
  | .leaveReceivers t a error => some (t, .receive a, .failed error)
  | .count t n => some (t, .numMsgs, .count n)
  | .close t => some (t, .delete, .ok)
  | _ => none

/-- A null pointer carries whatever bytes there are. -/
instance (msg : Msg) (m : List UInt8) : Decidable (Carries msg m) :=
  match msg with
  | .bytes l => inferInstanceAs (Decidable (m = l))
  | .null msglen => inferInstanceAs (Decidable (m.length = msglen))

namespace Box

def made (n l order : ℕ) : Box θ := ⟨false, false, n, l, order ≠ 0, [], [], []⟩

/-- Whether a message is let in without a wait. A box without any room lets a message in
for a receiver that stands in line. -/
def admits (d : Box θ) (pri : ℤ) : Bool :=
  if pri = msgPriUrgent then d.messages.length ≤ d.capacity
  else d.messages.length < d.capacity ∨ d.capacity = 0 ∧ d.messages = [] ∧ d.receivers ≠ []

def put (d : Box θ) (pri : ℤ) (msg : List UInt8) : List (List UInt8) :=
  if pri = msgPriUrgent then msg :: d.messages else d.messages ++ [msg]

/-- The receiver that is called next: the first one, or the first of those with the highest
priority. -/
def next (prio : θ → ℤ) (d : Box θ) : Option θ :=
  if d.byPriority then d.receivers.find? fun t => d.receivers.all fun u => prio u ≤ prio t else d.receivers.head?

/-- A message that is posted revives a box that has been killed. -/
def act (prio : θ → ℤ) : Deed θ → Box θ → Option (Box θ)
  | .opens, d => if d.listed then none else some {d with listed := true}
  | .refuse _ _, d => if d.listed then none else some d
  | .sendTooLong _ a, d => if d.limit < a.msg.msglen then some d else none
  | .sendFull _ a, d =>
    if a.msg.msglen ≤ d.limit ∧ d.admits a.pri = false ∧ a.wait = noWait then some d else none
  | .post _ a msg, d =>
    if Carries a.msg msg ∧ msg.length ≤ d.limit ∧ d.admits a.pri then
      some {d with messages := d.put a.pri msg, killed := false}
    else none
  | .joinSenders t a, d =>
    if a.msg.msglen ≤ d.limit ∧ d.admits a.pri = false ∧ a.wait ≠ noWait ∧ t ∉ d.senders then
      some {d with senders := d.senders ++ [t]}
    else none
  | .postLate t a msg, d =>
    if Carries a.msg msg ∧ msg.length ≤ d.limit ∧ t ∈ d.senders ∧ d.killed = false ∧
        d.messages.length ≤ d.capacity then
      some {d with messages := d.put a.pri msg, senders := d.senders.erase t}
    else none
  | .leaveSenders t a error, d =>
    if t ∈ d.senders ∧ (d.killed = true ∨ a.wait ≠ waitForever) ∧
        error = (if d.killed then .objDeleted else .objTimeout) then
      some {d with senders := d.senders.erase t}
    else none
  | .receiveTooShort _ a, d => if a.buflen < d.limit then some d else none
  | .joinReceivers t a, d =>
    if d.limit ≤ a.buflen ∧ t ∉ d.receivers then some {d with receivers := d.receivers ++ [t]} else none
  | .fetch t a msg, d =>
    match d.messages with
    | [] => none
    | m :: messages =>
      if d.killed = false ∧ d.next prio = some t ∧ m.length ≤ a.buflen ∧ msg = (if a.hasBuf then m else []) then
        some {d with messages := messages, receivers := d.receivers.erase t}
      else none
  | .leaveReceivers t a error, d =>
    if t ∈ d.receivers ∧ (d.killed = true ∨ a.maxWait ≠ waitForever) ∧
        error = (if d.killed then .objDeleted else if a.maxWait = noWait then .objUnavailable else .objTimeout) then
      some {d with receivers := d.receivers.erase t}
    else none
  | .count _ n, d => if n = d.messages.length then some d else none
  | .kill _, d => some {d with killed := true}
  | .close _, d => some {d with listed := false}

variable {prio : θ → ℤ} {d : Box θ} {t : θ}

theorem act_fetch {a : ReceiveArgs} {m msg : List UInt8} {messages : List (List UInt8)}
    (hm : d.messages = m :: messages) (hkilled : d.killed = false) (hnext : d.next prio = some t)
    (hlen : m.length ≤ a.buflen) (hmsg : msg = if a.hasBuf then m else []) :
    act prio (.fetch t a msg) d = some {d with messages := messages, receivers := d.receivers.erase t} := by
  simp only [act, hm]
  exact if_pos ⟨hkilled, hnext, hlen, hmsg⟩

end Box

end

end V2lin.Queue
