import SimpleRemote.Transport.FakeSignal
import SimpleRemote.Meeting.Viewer
import SimpleRemote.Meeting.Host

namespace SimpleRemote
open ByteCodec Interaction

-- the hub, and the events each peer still has to hand out
structure Lines where
  hub : FakeHub
  toHost : List PeerEvent
  toViewer : List PeerEvent

structure Meeting where
  viewer : ViewerM ConnectResult
  host : HostM (ServeResult × HostState)
  lines : Lines
  gone : Bool
  viewerTrace : List (Ev ViewerSig)
  hostTrace : List (Ev HostSig)

namespace Setting
variable (W : Setting)

-- a poll hands out what the other side sent in order, as much of it as has come, with the
-- events of its own connection in between
inductive ViewerAnswer : Lines → Ev ViewerSig → Lines → Prop
  | send (l : Lines) (m) :
      ViewerAnswer l ⟨.linkSend m, (l.hub.viewerSend m).1⟩ { l with hub := (l.hub.viewerSend m).2 }
  | recv (l : Lines) (t) {r hub} (h : l.hub.viewerRecv = some (r, hub)) :
      ViewerAnswer l ⟨.linkRecv t, r⟩ { l with hub := hub }
  | now (l : Lines) (now : Instant) : ViewerAnswer l ⟨.now, now⟩ l
  | partyAStart (l : Lines) (w idA idB aad) :
      ViewerAnswer l ⟨.partyAStart w idA idB aad, .ok (W.spake.startA ⟨w, idA, idB, aad⟩)⟩ l
  | finish (l : Lines) (st msg) : ViewerAnswer l ⟨.finish st msg, W.spake.finish st msg⟩ l
  | verify (l : Lines) (out mac) :
      ViewerAnswer l ⟨.verifyPeerConfirmation out mac, W.spake.verify out mac⟩ l
  | peerNew (l : Lines) (ips) : ViewerAnswer l ⟨.peerNew ips, .ok ()⟩ l
  | createOffer (l : Lines) : ViewerAnswer l ⟨.createOffer, .ok (W.offer, W.pending)⟩ l
  | acceptAnswer (l : Lines) (pending sdp) : ViewerAnswer l ⟨.acceptAnswer pending sdp, .ok ()⟩ l
  | poll (l : Lines) (d : Duration) {es rest : List PeerEvent}
      (h : es.filter PeerEvent.carried ++ rest = l.toViewer) :
      ViewerAnswer l ⟨.poll d, .ok es⟩ { l with toViewer := rest }
  | peerSend (l : Lines) (data) :
      ViewerAnswer l ⟨.peerSend data, .ok ()⟩ { l with toHost := l.toHost ++ [.data data] }
  | localFp (l : Lines) : ViewerAnswer l ⟨.localFingerprint, W.viewerFp⟩ l
  | remoteFp (l : Lines) : ViewerAnswer l ⟨.remoteFingerprint, some W.hostFp⟩ l
  | peerClose (l : Lines) :
      ViewerAnswer l ⟨.peerClose, ()⟩ { l with toHost := l.toHost ++ [.closed] }

inductive HostAnswer : Lines → Ev HostSig → Lines → Prop
  | send {l : Lines} {m hub} (h : l.hub.hostSend m = some hub) :
      HostAnswer l ⟨.linkSend m, .ok ()⟩ { l with hub := hub }
  | recv {l : Lines} (t) {m hub} (h : l.hub.hostRecv = some (m, hub)) :
      HostAnswer l ⟨.linkRecv t, .ok (some m)⟩ { l with hub := hub }
  | now (l : Lines) (now : Instant) : HostAnswer l ⟨.now, now⟩ l
  | generateCode (l : Lines) (code) : HostAnswer l ⟨.generateCode, code⟩ l
  | partyBStart (l : Lines) (w idA idB aad) :
      HostAnswer l ⟨.partyBStart w idA idB aad, .ok (W.spake.startB ⟨w, idA, idB, aad⟩)⟩ l
  | finish (l : Lines) (st msg) : HostAnswer l ⟨.finish st msg, W.spake.finish st msg⟩ l
  | verify (l : Lines) (out mac) :
      HostAnswer l ⟨.verifyPeerConfirmation out mac, W.spake.verify out mac⟩ l
  | peerNew (l : Lines) (ips) : HostAnswer l ⟨.peerNew ips, .ok ()⟩ l
  | acceptOffer (l : Lines) (sdp) : HostAnswer l ⟨.acceptOffer sdp, .ok W.answer⟩ l
  | poll (l : Lines) (d : Duration) {es rest : List PeerEvent}
      (h : es.filter PeerEvent.carried ++ rest = l.toHost) :
      HostAnswer l ⟨.poll d, .ok es⟩ { l with toHost := rest }
  | peerSend (l : Lines) (data) :
      HostAnswer l ⟨.peerSend data, .ok ()⟩ { l with toViewer := l.toViewer ++ [.data data] }
  | localFp (l : Lines) : HostAnswer l ⟨.localFingerprint, W.hostFp⟩ l
  | remoteFp (l : Lines) : HostAnswer l ⟨.remoteFingerprint, some W.viewerFp⟩ l
  | peerClose (l : Lines) :
      HostAnswer l ⟨.peerClose, ()⟩ { l with toViewer := l.toViewer ++ [.closed] }
  | approve (l : Lines) (req) (a : Option Bool) : HostAnswer l ⟨.approve req, a⟩ l

-- one operation of either side, or the end of `connect`, which drops its link
inductive Step : Meeting → Meeting → Prop
  | viewer {s : Meeting} {o k r lines} (hs : s.viewer = .act o k)
      (h : W.ViewerAnswer s.lines ⟨o, r⟩ lines) :
      Step s { s with viewer := k r, lines, viewerTrace := s.viewerTrace ++ [⟨o, r⟩] }
  | host {s : Meeting} {o k r lines} (hs : s.host = .act o k)
      (h : W.HostAnswer s.lines ⟨o, r⟩ lines) :
      Step s { s with host := k r, lines, hostTrace := s.hostTrace ++ [⟨o, r⟩] }
  | leave {s : Meeting} {r} (hs : s.viewer = .ret r) (hg : s.gone = false) :
      Step s { s with gone := true, lines := { s.lines with hub := s.lines.hub.viewerDrop } }

def meet (fuel : Nat) : Meeting where
  viewer := Viewer.connect W.C fuel W.viewerCfg
  host := serveNext W.C W.hostCfg W.st fuel
  lines := ⟨.viewer W.stale, [], []⟩
  gone := false
  viewerTrace := []
  hostTrace := []

-- the meetings that `n` steps lead to
inductive Reaches (fuel : Nat) : Nat → Meeting → Prop
  | start : Reaches fuel 0 (W.meet fuel)
  | step {n s s'} (h : Reaches fuel n s) (hs : W.Step s s') : Reaches fuel (n + 1) s'

end Setting

def linkSends {In Out : Type} (tr : List (Ev (conn In Out))) : List Out :=
  tr.filterMap fun
    | ⟨.linkSend m, _⟩ => some m
    | _ => none

def approvals (tr : List (Ev HostSig)) : List (Option Bool) :=
  tr.filterMap fun
    | ⟨.approve _, a⟩ => some a
    | _ => none

-- the instant at which the host asks its limiter
def checkedAt (tr : List (Ev HostSig)) : Option Instant :=
  tr.findSome? fun
    | ⟨.now, now⟩ => some now
    | _ => none

def isConfirm (m : ViewerToServer) : Prop := ∃ macA sealedOffer, m = Viewer.relayOf (.confirm macA sealedOffer)

def isSealedAnswer (m : HostToServer) : Prop := ∃ sealedAnswer, m = relayOf (.answer sealedAnswer)

end SimpleRemote
