import SimpleRemote.Transport.FakeSignal

namespace SimpleRemote
open ByteCodec

-- how a server learns that a client is gone
inductive Gone where
  | close (code : Nat)
  | error
  deriving DecidableEq

-- what the host, the viewers and the network do, viewers named in the order they came;
-- `echo` is a client's answer to the close it got from the server
inductive HubOp where
  | viewer
  | hostSend (m : HostToServer)
  | hostRecv
  | hostDrop (gone : Gone)
  | viewerSend (i : Nat) (m : ViewerToServer)
  | viewerRecv (i : Nat)
  | viewerDrop (i : Nat) (gone : Gone)
  | echo (i : Nat) (gone : Gone)
  deriving DecidableEq

inductive Delivery where
  | toHost (m : ServerToHost)
  | toViewer (i : Nat) (e : ViewerEnvelope)
  deriving DecidableEq

namespace Delivery

def host : Delivery → Option ServerToHost
  | toHost m => some m
  | toViewer _ _ => none

def viewer (i : Nat) : Delivery → Option ViewerEnvelope
  | toHost _ => none
  | toViewer j e => if j = i then some e else none

end Delivery

-- what a signaling server is for: it joins one host to one viewer at a time
structure Switchboard where
  joined : Nat
  current : Option Nat
  manned : Bool
  deriving DecidableEq

namespace Switchboard

def toCurrent (s : Switchboard) (es : List ViewerEnvelope) : List Delivery :=
  match s.current with
  | some i => es.map (.toViewer i)
  | none => []

def next (s : Switchboard) : HubOp → Switchboard
  | .viewer => ⟨s.joined + 1, some s.joined, s.manned⟩
  | .hostSend .kick => { s with current := none }
  | .hostDrop _ => { s with current := none, manned := false }
  | .viewerDrop i _ => if s.current = some i then { s with current := none } else s
  | _ => s

def delivers (s : Switchboard) : HubOp → List Delivery
  | .viewer => [.toViewer s.joined (.msg .joined), .toHost .viewerJoined]
  | .hostSend (.relay data) => s.toCurrent [.msg (.relay data)]
  | .hostSend .kick => s.toCurrent [.closed 4001]
  | .hostDrop _ => s.toCurrent [.msg .hostLeft, .closed 4002]
  | .viewerSend i (.relay data) => if s.current = some i then [.toHost (.relay data)] else []
  | .viewerDrop i _ => if s.current = some i then [.toHost .viewerLeft] else []
  | _ => []

def permits (s : Switchboard) : HubOp → Prop
  | .viewer => s.manned = true ∧ s.current = none
  | .hostSend m => s.manned = true ∧ ∀ sig, m ≠ .auth sig
  | .hostDrop _ => s.manned = true
  | .viewerSend i _ => i < s.joined
  | .viewerDrop i _ => i < s.joined
  | .echo i _ => i < s.joined ∧ s.current ≠ some i
  | _ => True

theorem host_toCurrent (s : Switchboard) (es : List ViewerEnvelope) :
    (s.toCurrent es).filterMap Delivery.host = [] := by
  rw [toCurrent]
  cases s.current with
  | none => rfl
  | some i =>
      rw [List.filterMap_map]
      exact List.filterMap_eq_nil_iff.mpr fun _ _ => rfl

theorem viewer_toCurrent (s : Switchboard) (es : List ViewerEnvelope) (i : Nat) :
    (s.toCurrent es).filterMap (Delivery.viewer i) = if s.current = some i then es else [] := by
  rw [toCurrent]
  cases s.current with
  | none => rfl
  | some j =>
      rw [List.filterMap_map]
      by_cases hj : j = i
      · subst hj
        rw [if_pos rfl]
        simp [Function.comp_def, Delivery.viewer]
      · rw [if_neg (by simpa using hj)]
        simp [Function.comp_def, Delivery.viewer, hj]

end Switchboard

end SimpleRemote
