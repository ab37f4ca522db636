import FreeswitchEsl.Command
import Mathlib.Logic.Function.Basic

/-!
# Calls of `send_command`

Any number of calls run at the same time.  They share the writer, guarded by a
lock, and one slot for the sender of the awaited reply.  Every step of a call
ends at an await point of the source.
-/

namespace FreeswitchEsl

open Text

/-! ## State -/

inductive DisconnectReason where
  | serverNotice
  | heartbeatExpired
  | ioError (message : Str)
  | connectionClosed
  | clientRequested
  deriving DecidableEq

inductive ConnectionStatus where
  | connected
  | disconnected (reason : DisconnectReason)
  deriving DecidableEq

/-- The receiving end of the reply channel of a call. -/
inductive Oneshot where
  | pending
  | sent (message : EslMessage)
  | closed
  deriving DecidableEq

/-- Where a call of `send_command` is. -/
inductive CallState where
  | idle
  | locking
  | storing
  | writing (rest : Bytes)
  | awaiting (timeoutMs : UInt64)
  | timedOut (timeoutMs : UInt64)
  | returned (result : EslResult EslResponse)
  | cancelled
  deriving DecidableEq

def CallState.holdsWriter : CallState → Bool
  | .storing | .writing _ | .awaiting _ | .timedOut _ => true
  | _ => false

structure Call where
  state : CallState
  text : Bytes
  reply : Oneshot

/-- What the clones of a client share, with the history of the writer: the calls
in the order in which they got the lock, and those whose text is completely on
the wire. -/
structure Clients where
  calls : Nat → Call
  writerLock : Option Nat
  pendingReply : Option Nat
  commandTimeoutMs : UInt64
  wire : Bytes
  writeShutdown : Bool
  lockOrder : List Nat
  written : List Nat

inductive CallOp where
  | start (order : HashOrder) (command : EslCommand)
  | lock
  | store
  | write (count : Nat)
  | await
  | fail (error : Str)
  | resolve
  | expire
  | clear
  | cancel

namespace Clients

def DEFAULT_COMMAND_TIMEOUT_MS : UInt64 := 5000

def init : Clients where
  calls _ := ⟨.idle, [], .closed⟩
  writerLock := none
  pendingReply := none
  commandTimeoutMs := DEFAULT_COMMAND_TIMEOUT_MS
  wire := []
  writeShutdown := false
  lockOrder := []
  written := []

def setState (c : Clients) (id : Nat) (state : CallState) : Clients :=
  { c with calls := Function.update c.calls id { c.calls id with state := state } }

def setReply (c : Clients) (id : Nat) (reply : Oneshot) : Clients :=
  { c with calls := Function.update c.calls id { c.calls id with reply := reply } }

def finish (c : Clients) (id : Nat) (result : EslResult EslResponse) : Clients :=
  { c.setState id (.returned result) with writerLock := none }

/-- The slot gives up its sender, whose receiver sees the channel closed. -/
def dropSender (c : Clients) : Clients :=
  match c.pendingReply with
  | some id => { c.setReply id .closed with pendingReply := none }
  | none => c

/-- The reader hands a message to the sender in the slot, if there is one. -/
def deliver (c : Clients) (message : EslMessage) : Clients :=
  match c.pendingReply with
  | some id => { c.setReply id (.sent message) with pendingReply := none }
  | none => c

/-! ## Steps -/

/-- One step of the call `id`. -/
def step (status : ConnectionStatus) (c : Clients) (id : Nat) (op : CallOp) : Option Clients :=
  match (c.calls id).state, op with
  | .idle, .start order command =>
      if status ≠ .connected then some (c.setState id (.returned (.error .notConnected)))
      else match command.toWireFormat order with
        | .error e => some (c.setState id (.returned (.error e)))
        | .ok text => some { c with
            calls := Function.update c.calls id ⟨.locking, utf8Encode text, .closed⟩ }
  | .locking, .lock =>
      if c.writerLock = none then
        some { c.setState id .storing with writerLock := some id, lockOrder := c.lockOrder ++ [id] }
      else none
  | .storing, .store =>
      some { (c.dropSender.setReply id .pending).setState id (.writing (c.calls id).text) with
        pendingReply := some id }
  | .writing rest, .write count =>
      if 0 < count ∧ count ≤ rest.length ∧ c.writeShutdown = false then
        some { c.setState id (.writing (rest.drop count)) with
          wire := c.wire ++ rest.take count
          written := if count = rest.length then c.written ++ [id] else c.written }
      else none
  | .writing rest, .await =>
      if rest = [] then some (c.setState id (.awaiting c.commandTimeoutMs)) else none
  | .writing rest, .fail e => if rest = [] then none else some (c.finish id (.error (.io e)))
  | .awaiting _, .resolve =>
      match (c.calls id).reply with
      | .pending => none
      | .sent message => some (c.finish id (.ok message.intoResponse))
      | .closed => some (c.finish id (.error .connectionClosed))
  | .awaiting timeoutMs, .expire =>
      if (c.calls id).reply = .pending then some (c.setState id (.timedOut timeoutMs)) else none
  | .timedOut timeoutMs, .clear =>
      some (c.dropSender.finish id (.error (.timeout timeoutMs.toNat)))
  | .locking, .cancel => some (c.setState id .cancelled)
  | .storing, .cancel => some { c.setState id .cancelled with writerLock := none }
  | .writing _, .cancel => some { c.setState id .cancelled with writerLock := none }
  | .awaiting _, .cancel => some { c.setState id .cancelled with writerLock := none }
  | .timedOut _, .cancel => some { c.setState id .cancelled with writerLock := none }
  | _, _ => none

/-- `disconnect` shuts the write half down; it needs the lock for an instant. -/
def disconnect (c : Clients) : Option Clients :=
  if c.writerLock = none then some { c with writeShutdown := true } else none

/-- The rules that `step` follows. -/
inductive Effect (status : ConnectionStatus) (c : Clients) (id : Nat) : CallOp → Clients → Prop
  | notConnected {order command} : (c.calls id).state = .idle → status ≠ .connected →
      Effect status c id (.start order command)
        (c.setState id (.returned (.error .notConnected)))
  | invalid {order command e} : (c.calls id).state = .idle →
      command.toWireFormat order = .error e →
      Effect status c id (.start order command) (c.setState id (.returned (.error e)))
  | started {order command text} : (c.calls id).state = .idle → status = .connected →
      command.toWireFormat order = .ok text →
      Effect status c id (.start order command)
        { c with calls := Function.update c.calls id ⟨.locking, utf8Encode text, .closed⟩ }
  | locked : (c.calls id).state = .locking → c.writerLock = none →
      Effect status c id .lock
        { c.setState id .storing with writerLock := some id, lockOrder := c.lockOrder ++ [id] }
  | stored : (c.calls id).state = .storing →
      Effect status c id .store
        { (c.dropSender.setReply id .pending).setState id (.writing (c.calls id).text) with
          pendingReply := some id }
  | wrote {rest count} : (c.calls id).state = .writing rest → 0 < count → count ≤ rest.length →
      c.writeShutdown = false →
      Effect status c id (.write count)
        { c.setState id (.writing (rest.drop count)) with
          wire := c.wire ++ rest.take count
          written := if count = rest.length then c.written ++ [id] else c.written }
  | awaits : (c.calls id).state = .writing [] →
      Effect status c id .await (c.setState id (.awaiting c.commandTimeoutMs))
  | failed {rest e} : (c.calls id).state = .writing rest → rest ≠ [] →
      Effect status c id (.fail e) (c.finish id (.error (.io e)))
  | resolved {timeoutMs message} : (c.calls id).state = .awaiting timeoutMs →
      (c.calls id).reply = .sent message →
      Effect status c id .resolve (c.finish id (.ok message.intoResponse))
  | abandoned {timeoutMs} : (c.calls id).state = .awaiting timeoutMs →
      (c.calls id).reply = .closed →
      Effect status c id .resolve (c.finish id (.error .connectionClosed))
  | expired {timeoutMs} : (c.calls id).state = .awaiting timeoutMs →
      (c.calls id).reply = .pending →
      Effect status c id .expire (c.setState id (.timedOut timeoutMs))
  | cleared {timeoutMs} : (c.calls id).state = .timedOut timeoutMs →
      Effect status c id .clear (c.dropSender.finish id (.error (.timeout timeoutMs.toNat)))
  | cancelledWaiting : (c.calls id).state = .locking →
      Effect status c id .cancel (c.setState id .cancelled)
  | cancelledHolding : (c.calls id).state.holdsWriter = true →
      Effect status c id .cancel { c.setState id .cancelled with writerLock := none }

theorem effect_of_step {status : ConnectionStatus} {c d : Clients} {id : Nat} {op : CallOp}
    (h : c.step status id op = some d) : Effect status c id op d := by
  unfold step at h
  split at h
  · rename_i order command hstate
    split at h
    · rename_i hstatus
      obtain rfl := Option.some.inj h
      exact .notConnected hstate hstatus
    · rename_i hstatus
      split at h
      · rename_i e hwire
        obtain rfl := Option.some.inj h
        exact .invalid hstate hwire
      · rename_i text hwire
        obtain rfl := Option.some.inj h
        exact .started hstate (not_not.mp hstatus) hwire
  · rename_i hstate
    split at h
    · rename_i hlock
      obtain rfl := Option.some.inj h
      exact .locked hstate hlock
    · cases h
  · rename_i hstate
    obtain rfl := Option.some.inj h
    exact .stored hstate
  · rename_i rest count hstate
    split at h
    · rename_i hcount
      obtain rfl := Option.some.inj h
      exact .wrote hstate hcount.1 hcount.2.1 hcount.2.2
    · cases h
  · rename_i rest hstate
    split at h
    · rename_i hrest
      obtain rfl := Option.some.inj h
      exact .awaits (hrest ▸ hstate)
    · cases h
  · rename_i rest e hstate
    split at h
    · cases h
    · rename_i hrest
      obtain rfl := Option.some.inj h
      exact .failed hstate hrest
  · rename_i timeoutMs hstate
    split at h
    · cases h
    · rename_i message hreply
      obtain rfl := Option.some.inj h
      exact .resolved hstate hreply
    · rename_i hreply
      obtain rfl := Option.some.inj h
      exact .abandoned hstate hreply
  · rename_i timeoutMs hstate
    split at h
    · rename_i hreply
      obtain rfl := Option.some.inj h
      exact .expired hstate hreply
    · cases h
  · rename_i timeoutMs hstate
    obtain rfl := Option.some.inj h
    exact .cleared hstate
  · rename_i hstate
    obtain rfl := Option.some.inj h
    exact .cancelledWaiting hstate
  · rename_i hstate
    obtain rfl := Option.some.inj h
    exact .cancelledHolding (by rw [hstate]; rfl)
  · rename_i rest hstate
    obtain rfl := Option.some.inj h
    exact .cancelledHolding (by rw [hstate]; rfl)
  · rename_i timeoutMs hstate
    obtain rfl := Option.some.inj h
    exact .cancelledHolding (by rw [hstate]; rfl)
  · rename_i timeoutMs hstate
    obtain rfl := Option.some.inj h
    exact .cancelledHolding (by rw [hstate]; rfl)
  · cases h

end Clients

end FreeswitchEsl
