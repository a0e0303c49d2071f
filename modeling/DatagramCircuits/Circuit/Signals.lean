import DatagramCircuits.Circuit.Basic
/-!
# Messages of the protocol

Acknowledgements in datagrams of their own, pings, and the answers to pings. They are framed when they
are due, are not reliable, keep sequence number 0, and pass by the queues and the allowance.

Each of them has to fit into one datagram. Where the MTU is too small for that, pings are not sent,
and acknowledgements that were taken out of the account get lost.
-/

namespace DatagramCircuits

namespace Circuit

/-- Why a message of the protocol can not be sent. -/
inductive SignalError where
  /-- It can not be framed. -/
  | frame (e : Message.FrameError)
  /-- It would take several datagrams. -/
  | notSingle (id : MessageId)
deriving DecidableEq, Repr

/-- The wording of a refusal. -/
def SignalError.message : SignalError → String
  | frame e => e.message
  | notSingle id => s!"control message {id.text} does not fit into a single datagram"

/-- The datagram of a message of the protocol. -/
def signal (mtu : Nat) (m : Control) : Except SignalError Octets :=
  match m.message.frame false mtu with
  | .ok [d] => .ok d
  | .ok _ => .error (.notSingle m.id)
  | .error e => .error (.frame e)

/-! ### Acknowledgements -/

/-- How many acknowledgements go into one datagram: as many as fit, but at least one and no more than
can be counted. -/
def acksPerDatagram (mtu : Nat) : Nat :=
  let overhead := Header.fixedLength + MessageId.acks.encodedLength + Control.acksLength 0
  max 1 (min ((mtu - overhead) / 4) Control.maxAcks)

/-- Sends groups of acknowledgements out of the account, one datagram for each, up to the first that
can not be sent. -/
def sendAcks (mtu : Nat) : List (List UInt32) → Tracker → List Octets × Tracker
  | [], t => ([], t)
  | sequences :: rest, t =>
    let t := (t.takeAcks sequences.length).2
    match signal mtu (.acks sequences) with
    | .ok d =>
      let (l, t) := sendAcks mtu rest t
      (d :: l, t)
    | .error _ => ([], t)

/-- The datagrams with all acknowledgements of the account. -/
def ackDatagrams (mtu : Nat) (t : Tracker) : List Octets × Tracker :=
  sendAcks mtu (Octets.pieces (acksPerDatagram mtu) t.pendingAcks) t

/-- Sends all acknowledgements. -/
def flushAcks (c : Circuit) : List Octets × Circuit :=
  let (l, tracker) := ackDatagrams c.config.mtu c.tracker
  (l, { c with tracker, sent := c.sent + UInt64.ofNat l.length })

/-! ### Pings -/

/-- The message of a ping. It names the lowest sequence number that may still be sent again. -/
def pingMessage (c : Circuit) : Control :=
  .ping c.nextPing (c.tracker.oldest?.getD c.nextSequence)

/-- The datagram of a ping, which is outstanding from now on. An id is spent in any case. -/
def nextPingDatagram (now : Instant) (c : Circuit) : Option Octets × Circuit :=
  let next := { c with nextPing := c.nextPing + 1 }
  match signal c.config.mtu c.pingMessage with
  | .ok d => (some d, { next with outstandingPing := some (c.nextPing, now) })
  | .error _ => (none, next)

/-- Sends a ping. -/
def ping (now : Instant) (c : Circuit) : Option Octets × Circuit :=
  match c.nextPingDatagram now with
  | (some d, c) => (some d, { c with sent := c.sent + 1 })
  | (none, c) => (none, c)

/-- The datagram that answers a ping. -/
def answerPing (id : UInt8) (c : Circuit) : Except SignalError Octets :=
  signal c.config.mtu (.pong id)

/-- Takes the answer to a ping in, which is a sample of the round trip if it answers the outstanding
one. -/
def takePong (id : UInt8) (now : Instant) (c : Circuit) : Bool × Circuit :=
  match c.outstandingPing with
  | some (outstanding, since) =>
    if outstanding = id then
      (true, { c with outstandingPing := none, tracker := c.tracker.sample (now - since) })
    else (false, c)
  | none => (false, c)

end Circuit

end DatagramCircuits
