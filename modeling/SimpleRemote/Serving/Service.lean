import SimpleRemote.Host.Session
import SimpleRemote.Library.Runs
import SimpleRemote.Signaling.Handling
import SimpleRemote.Signaling.Wire

namespace SimpleRemote

def WsLink.MAX_MESSAGE_BYTES : Nat := 128 * 1024

namespace Serving
open ByteCodec Json Interaction Signaling

-- `WsLink::recv` on a text frame
def readFrame (serde : SerdeJson) (text : Text) : Except LinkError ServerToHost :=
  if WsLink.MAX_MESSAGE_BYTES < (utf8 text).length then .error .protocol
  else
    match serde.readHost text with
    | some m => .ok m
    | none => .error .protocol

structure Deployment where
  subtle : SubtleVerify
  serde : SerdeJson
  C : Crypto
  cfg : HostConfig
  ws : Nat

-- a frame the room sent the host, with the socket that led to it
structure Coming where
  frame : ServerFrame
  cause : Nat
  deriving DecidableEq

-- a message the host sent, with the viewer whose attempt it was sent in
structure Going where
  message : HostToServer
  viewer : Option Nat
  deriving DecidableEq

-- the room, the host between two calls of its program, and what is in flight on the link;
-- `up` until the connection drops
structure Service where
  room : Room
  up : Bool
  toHost : List Coming
  toRoom : List Going
  host : HostM (ServeResult × HostState)
  viewer : Option Nat

inductive Turn where
  | room (e : Event)
  | arrive
  | host (e : Ev HostSig)
  | again (fuel : Nat)
  | drop

def Output.coming (ws : Nat) : Output → Option Coming
  | .sent ws' frame cause => if ws' = ws then some ⟨frame, cause⟩ else none
  | _ => none

def Event.messageOf (ws : Nat) : Event → Bool
  | .message ws' _ => ws' == ws
  | _ => false

-- `serve_next` returned `Ok`
def served : HostM (ServeResult × HostState) → Bool
  | .ret (.ok _, _) => true
  | _ => false

namespace Service

-- the attempt begins on the first viewer heard of since `serve_next` was called
def hear (s : Service) : Ev HostSig → Service
  | ⟨.linkSend m, .ok _⟩ => { s with toRoom := s.toRoom ++ [⟨m, s.viewer⟩] }
  | ⟨.linkRecv _, .ok (some m)⟩ => { s with
      toHost := s.toHost.tail
      viewer := s.viewer.or (if m = .viewerJoined then s.toHost.head?.map Coming.cause else none) }
  | _ => s

end Service

namespace Deployment
variable (d : Deployment)

def start (room : Room) (st : HostState) (fuel : Nat) : Service :=
  ⟨room, true, [], [], serveNext d.C d.cfg st fuel, none⟩

def connected (s : Service) : Bool := s.up && s.room.isOpen d.ws

def unread (s : Service) : Option (Except LinkError ServerToHost) :=
  s.toHost.head?.map fun c => readFrame d.serde c.frame.json

def roomStep (s : Service) (e : Event) : Service :=
  let room := s.room.handle d.subtle e
  { s with
    room := room
    toHost := s.toHost ++ (s.room.news room).filterMap (Output.coming d.ws) }

def arrival (m : HostToServer) : Event := .message d.ws (.text m.json)

def next (s : Service) : Turn → Service
  | .room e => d.roomStep s e
  | .arrive =>
      match s.toRoom with
      | g :: rest => d.roomStep { s with toRoom := rest } (d.arrival g.message)
      | [] => s
  | .host e =>
      match s.host.take e with
      | some p => { s.hear e with host := p }
      | none => s
  | .again fuel =>
      match s.host with
      | .ret (_, st) => { s with host := serveNext d.C d.cfg st fuel, viewer := none }
      | _ => s
  | .drop => { s with up := false }

-- a wait can end at any moment, and while the connection is up the link fails only on a frame
-- it cannot read
def answers (s : Service) : Ev HostSig → Bool
  | ⟨.linkRecv _, .ok (some m)⟩ => d.unread s = some (.ok m)
  | ⟨.linkRecv _, .error e⟩ => d.unread s = some (.error e) || !d.connected s
  | ⟨.linkSend _, .error _⟩ => !d.connected s
  | _ => true

def permits (s : Service) : Turn → Bool
  | .room e => s.room.delivers e && !Event.messageOf d.ws e
  | .arrive => s.room.awaits d.ws && !s.toRoom.isEmpty
  | .host e => (s.host.take e).isSome && d.answers s e
  | .again _ => served s.host
  | .drop => true

abbrev Permitted (s : Service) (t : Turn) : Prop := d.permits s t = true

end Deployment

end Serving

end SimpleRemote
