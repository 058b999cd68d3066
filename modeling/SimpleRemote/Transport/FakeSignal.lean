import SimpleRemote.Transport.Effects

namespace SimpleRemote
open ByteCodec

inductive ViewerEnvelope where
  | msg (m : ServerToViewer)
  | closed (code : Nat)
  deriving DecidableEq

-- the hub with its host link and the link of the one viewer that joined: `seated` while the
-- viewer holds the slot, `closedCode` once its link has read the close
structure FakeHub where
  hostRx : List ServerToHost
  hostRelays : List Bytes
  viewerRx : List ViewerEnvelope
  seated : Bool
  closedCode : Option Nat
  deriving DecidableEq

namespace FakeHub

-- a viewer joins while `stale`, left by the viewers before it, is still unread
def viewer (stale : List ServerToHost) : FakeHub :=
  ⟨stale ++ [.viewerJoined], [], [.msg .joined], true, none⟩

-- `none` is the panic on a relay that is not hex
def hostSend (hub : FakeHub) : HostToServer → Option FakeHub
  | .auth _ => some hub
  | .relay data =>
      match hexDecode data with
      | none => none
      | some b => some { hub with
          hostRelays := hub.hostRelays ++ [b]
          viewerRx := if hub.seated then hub.viewerRx ++ [.msg (.relay data)] else hub.viewerRx }
  | .kick => some { hub with
      viewerRx := if hub.seated then hub.viewerRx ++ [.closed 4001] else hub.viewerRx
      seated := false }

-- `none` blocks
def hostRecv (hub : FakeHub) : Option (ServerToHost × FakeHub) :=
  match hub.hostRx with
  | m :: rest => some (m, { hub with hostRx := rest })
  | [] => none

def viewerSend (hub : FakeHub) : ViewerToServer → Except LinkError Unit × FakeHub
  | .relay data =>
      match hub.closedCode with
      | some code => (.error (.closed (some code)), hub)
      | none =>
          if hub.seated then (.ok (), { hub with hostRx := hub.hostRx ++ [.relay data] })
          else (.error (.closed (some 4001)), hub)

def viewerRecv (hub : FakeHub) : Option (Except LinkError (Option ServerToViewer) × FakeHub) :=
  match hub.closedCode with
  | some code => some (.error (.closed (some code)), hub)
  | none =>
      match hub.viewerRx with
      | .msg m :: rest => some (.ok (some m), { hub with viewerRx := rest })
      | .closed code :: rest =>
          some (.error (.closed (some code)), { hub with viewerRx := rest, closedCode := some code })
      | [] => none

def viewerDrop (hub : FakeHub) : FakeHub :=
  if hub.seated then { hub with seated := false, hostRx := hub.hostRx ++ [.viewerLeft] } else hub

end FakeHub

end SimpleRemote
