import SimpleRemote.Transport.Effects

namespace SimpleRemote
open ByteCodec Interaction

inductive Opened where
  | ready | closed | timedOut
  deriving DecidableEq, Repr

inductive Next where
  | msg (c : Control)
  | malformed
  | closed
  | timedOut
  deriving DecidableEq

structure Channel where
  pending : List Bytes
  remoteClosed : Bool
  localClosed : Bool
  deriving DecidableEq

namespace Channel

def new : Channel := ⟨[], false, false⟩

def absorbOne (ch : Channel) : PeerEvent → Channel
  | .channelOpen => ch
  | .data d => { ch with pending := ch.pending ++ [d] }
  | .closed => { ch with remoteClosed := true }
  | .connected => ch

def absorb (ch : Channel) (events : List PeerEvent) : Bool × Channel :=
  (events.contains .channelOpen, events.foldl absorbOne ch)

section
variable {In Out : Type}

-- the loops of the source stop after `fuel` rounds here: a finite run is a run for enough fuel
def waitOpen (deadline : Instant) : Nat → Channel →
    Conn In Out (Except TransportError Opened × Channel)
  | 0, _ => .halt
  | fuel + 1, ch =>
      if ch.remoteClosed then return (.ok .closed, ch)
      else do
        let now ← call .now
        if deadline ≤ now then return (.ok .timedOut, ch)
        else
          match ← call (.poll (deadline - now)) with
          | .error e => return (.error e, ch)
          | .ok events =>
              let (opened, ch') := ch.absorb events
              if opened then return (.ok .ready, ch') else waitOpen deadline fuel ch'

def next (deadline : Instant) : Nat → Channel →
    Conn In Out (Except TransportError Next × Channel)
  | 0, _ => .halt
  | fuel + 1, ch =>
      match ch.pending with
      | d :: rest =>
          let ch' := { ch with pending := rest }
          match Control.decode d with
          | .ok msg => return (.ok (.msg msg), ch')
          | .error _ => return (.ok .malformed, ch')
      | [] =>
          if ch.remoteClosed then return (.ok .closed, ch)
          else do
            let now ← call .now
            if deadline ≤ now then return (.ok .timedOut, ch)
            else
              match ← call (.poll (deadline - now)) with
              | .error e => return (.error e, ch)
              | .ok events => next deadline fuel (ch.absorb events).2

def send (msg : Control) : Conn In Out (Except TransportError Unit) :=
  call (.peerSend (Control.encode msg))

def close (ch : Channel) : Conn In Out Channel :=
  if ch.localClosed then return ch
  else do
    call .peerClose
    let _ ← call (.poll 0)
    return { ch with localClosed := true }

end

end Channel

def payloads : List PeerEvent → List Bytes
  | [] => []
  | .data d :: rest => d :: payloads rest
  | _ :: rest => payloads rest

theorem payloads_append (es es' : List PeerEvent) :
    payloads (es ++ es') = payloads es ++ payloads es' := by
  induction es with
  | nil => rfl
  | cons e es ih => cases e <;> simp [payloads, ih]

namespace Channel
variable {In Out : Type}

theorem absorb_pending (ch : Channel) (events : List PeerEvent) :
    (ch.absorb events).2.pending = ch.pending ++ payloads events := by
  simp only [absorb]
  induction events generalizing ch with
  | nil => simp [payloads]
  | cons e events ih =>
      rw [List.foldl_cons, ih]
      cases e <;> simp [absorbOne, payloads]

theorem absorb_remoteClosed (ch : Channel) (events : List PeerEvent) :
    (ch.absorb events).2.remoteClosed = (ch.remoteClosed || events.contains .closed) := by
  simp only [absorb]
  induction events generalizing ch with
  | nil => simp
  | cons e events ih =>
      rw [List.foldl_cons, ih]
      cases e <;> simp [absorbOne]

theorem waitOpen_uses (deadline : Instant) (fuel : Nat) (ch : Channel) :
    Waits (waitOpen deadline fuel ch : Conn In Out _) := by
  induction fuel generalizing ch with
  | zero => trivial
  | succ fuel ih =>
      rw [waitOpen]
      split
      · trivial
      · refine uses_bind (uses_call.mpr rfl) fun now => ?_
        split
        · trivial
        · refine uses_bind (uses_call.mpr rfl) fun r => ?_
          cases r with
          | error e => trivial
          | ok events =>
              dsimp only
              split
              · trivial
              · exact ih _

theorem next_uses (deadline : Instant) (fuel : Nat) (ch : Channel) :
    Waits (next deadline fuel ch : Conn In Out _) := by
  induction fuel generalizing ch with
  | zero => trivial
  | succ fuel ih =>
      rw [next]
      split
      · dsimp only
        split <;> trivial
      · split
        · trivial
        · refine uses_bind (uses_call.mpr rfl) fun now => ?_
          split
          · trivial
          · refine uses_bind (uses_call.mpr rfl) fun r => ?_
            cases r with
            | error e => trivial
            | ok events => exact ih _

theorem close_uses (ch : Channel) : Waits (close ch : Conn In Out _) := by
  rw [close]
  split
  · trivial
  · exact uses_bind (uses_call.mpr rfl) fun _ => uses_bind (uses_call.mpr rfl) fun _ => trivial

end Channel

end SimpleRemote
