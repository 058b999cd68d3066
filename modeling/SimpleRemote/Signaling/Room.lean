import Mathlib.Logic.Relation
import SimpleRemote.Auth
import SimpleRemote.Library.Json

namespace SimpleRemote.Signaling
open ByteCodec Json

def fromHex (hex : Text) : Option Bytes := hexDecode hex

def toHex (b : Bytes) : Text := hexEncode b

-- `none` when importing the key or checking the signature throws
abbrev SubtleVerify := ByteArr 32 → ByteArr 64 → Bytes → Option Bool

variable (subtle : SubtleVerify)

def verifyEd25519 (pubHex : Text) (sigHex : Utf16) (msg : Bytes) : Bool :=
  match (fromHex pubHex).bind (toArr 32), ((toText sigHex).bind fromHex).bind (toArr 64) with
  | some pub, some sig => (subtle pub sig msg).getD false
  | _, _ => false

def AUTH_PREFIX : Bytes := utf8 "simple-remote signaling auth v1".toList

def MAX_MESSAGE_BYTES : Nat := 65536

def CLOSE_PROTOCOL : Nat := 4000

def CLOSE_KICKED : Nat := 4001

def CLOSE_HOST_LEFT : Nat := 4002

def CLOSE_AUTH : Nat := 4003

def CLOSE_REPLACED : Nat := 4010

def CLOSE_TOO_BIG : Nat := 4013

structure HostAttachment where
  authed : Bool
  nonce : Text
  key : Text
  id : Text
  deriving DecidableEq

structure ViewerAttachment where
  closedByServer : Bool
  deriving DecidableEq

inductive Attachment where
  | host (a : HostAttachment)
  | viewer (a : ViewerAttachment)
  deriving DecidableEq

-- `ended` once the runtime has delivered the socket's close or error event
structure Socket where
  attachment : Attachment
  isOpen : Bool
  ended : Bool
  deriving DecidableEq

def Socket.authedHost (s : Socket) : Bool :=
  match s.attachment with
  | .host a => s.isOpen && a.authed
  | .viewer _ => false

def Socket.openViewer (s : Socket) : Bool :=
  match s.attachment with
  | .host _ => false
  | .viewer _ => s.isOpen

inductive Frame where
  | text (s : Text)
  | binary (b : Bytes)
  deriving DecidableEq

def Frame.size : Frame → Nat
  | .text s => (utf8 s).length
  | .binary b => b.length

inductive ServerFrame where
  | challenge (nonce id : Text)
  | registered (id : Text)
  | joined
  | viewerJoined
  | viewerLeft
  | hostLeft
  | relay (data : Utf16)
  deriving DecidableEq

def typed (t : String) (fields : List (Text × Utf16)) : Text :=
  stringify (("t".toList, utf16 t.toList) :: fields)

def ServerFrame.json : ServerFrame → Text
  | .challenge nonce id => typed "challenge" [("nonce".toList, utf16 nonce), ("id".toList, utf16 id)]
  | .registered id => typed "registered" [("id".toList, utf16 id)]
  | .joined => typed "joined" []
  | .viewerJoined => typed "viewer_joined" []
  | .viewerLeft => typed "viewer_left" []
  | .hostLeft => typed "host_left" []
  | .relay data => typed "relay" [("data".toList, data)]

-- what the room has done, in order; `cause` is the socket whose event led to it, and
-- `viewerJoined`, `viewerLeft` and `relay` carry the viewer they are about there
inductive Output where
  | accepted (ws : Nat) (claim : Bool)
  | sent (ws : Nat) (frame : ServerFrame) (cause : Nat)
  | closed (ws : Nat) (code : Nat) (cause : Nat)
  | verified (ws : Nat) (sig : Utf16)
  | ownerPut (ws : Nat) (key : Text)
  deriving DecidableEq

-- `authenticate` suspended at the await
structure Pending where
  ws : Nat
  att : HostAttachment
  sig : Utf16
  signed : Bytes
  deriving DecidableEq

-- a socket `ws : Nat` is named by its place in `sockets`, which is the order of acceptance
structure Room where
  owner : Option Text
  sockets : List Socket
  pending : List Pending
  log : List Output
  deriving DecidableEq

structure Request where
  upgrade : Option Text
  pathname : Text
  id : Option Text
  key : Option Text
  claim : Option Text

inductive Response where
  | status (code : Nat) (text : Text)
  | webSocket (ws : Nat)
  deriving DecidableEq

def parse : Frame → Option Value
  | .binary _ => none
  | .text s =>
      match Json.parse s with
      | some (.obj ms) => some (.obj ms)
      | _ => none

def stringField (msg : Value) (key : String) : Option Utf16 :=
  match msg.get key.toList with
  | some (.str s) => some s
  | _ => none

def hasType (msg : Value) (t : String) : Bool := stringField msg "t" = some (utf16 t.toList)

def relayData (msg : Value) : Option Utf16 :=
  if hasType msg "relay" then stringField msg "data" else none

def authSig (msg : Value) : Option Utf16 :=
  if hasType msg "auth" then stringField msg "sig" else none

def signedMessage (nonce : Bytes) (id : Text) : Bytes := AUTH_PREFIX ++ nonce ++ utf8 id

namespace Room

def new : Room := ⟨none, [], [], []⟩

def attachment (r : Room) (ws : Nat) : Option Attachment := (r.sockets[ws]?).map Socket.attachment

def authedHost (r : Room) : Option Nat := r.sockets.findIdx? Socket.authedHost

def openViewer (r : Room) : Option Nat := r.sockets.findIdx? Socket.openViewer

def emit (r : Room) (o : Output) : Room := { r with log := r.log ++ [o] }

def update (r : Room) (ws : Nat) (f : Socket → Socket) : Room :=
  { r with sockets := r.sockets.modify ws f }

def setAttachment (r : Room) (ws : Nat) (a : Attachment) : Room :=
  r.update ws fun s => { s with attachment := a }

def isOpen (r : Room) (ws : Nat) : Bool := (r.sockets[ws]?).any Socket.isOpen

-- on a socket that is not open the call throws, after which no handler does anything
def send (r : Room) (ws : Nat) (frame : ServerFrame) (cause : Nat) : Room :=
  if r.isOpen ws then r.emit (.sent ws frame cause) else r

def close (r : Room) (ws : Nat) (code : Nat) (cause : Nat) : Room :=
  (r.update ws fun s => { s with isOpen := false }).emit (.closed ws code cause)

def closeFromServer (r : Room) (ws : Nat) (code : Nat) (cause : Nat) : Room :=
  match r.attachment ws with
  | some (.viewer _) => (r.setAttachment ws (.viewer ⟨true⟩)).close ws code cause
  | _ => r.close ws code cause

def hostGone (r : Room) (host cause : Nat) : Room :=
  match r.attachment host with
  | some (.host att) =>
      let r := r.setAttachment host (.host { att with authed := false })
      match r.openViewer with
      | none => r
      | some viewer =>
          (r.send viewer .hostLeft cause).closeFromServer viewer CLOSE_HOST_LEFT cause
  | _ => r

def onGone (r : Room) (ws : Nat) : Room :=
  match r.attachment ws with
  | some (.host att) => if att.authed then r.hostGone ws ws else r
  | some (.viewer att) =>
      if att.closedByServer then r
      else
        match r.authedHost with
        | some host => r.send host .viewerLeft ws
        | none => r
  | none => r

-- the runtime has closed the socket by the time its close or error event is handled
def finish (r : Room) (ws : Nat) : Room :=
  r.update ws fun s => { s with isOpen := false, ended := true }

def webSocketClose (r : Room) (ws : Nat) (code : Nat) : Room :=
  ((r.finish ws).onGone ws).close ws (if code = 1005 ∨ code = 1006 then 1000 else code) ws

def webSocketError (r : Room) (ws : Nat) : Room := (r.finish ws).onGone ws

def accept (r : Room) (a : Attachment) (claim : Bool) : Room :=
  { r with
    sockets := r.sockets ++ [⟨a, true, false⟩]
    log := r.log ++ [.accepted r.sockets.length claim] }

def acceptHost (r : Room) (id key : Text) (claim : Bool) (random : ByteArr 32) :
    Response × Room :=
  if r.owner = none ∧ claim = false then (.status 404 "unknown id".toList, r)
  else if r.owner ≠ none ∧ r.owner ≠ some key then
    (if claim then .status 409 "id taken".toList else .status 403 "key mismatch".toList, r)
  else
    let ws := r.sockets.length
    let nonce := toHex random.val
    (.webSocket ws,
      (r.accept (.host ⟨false, nonce, key, id⟩) claim).send ws (.challenge nonce id) ws)

def acceptViewer (r : Room) : Response × Room :=
  match r.authedHost with
  | none => (.status 404 "host offline".toList, r)
  | some host =>
      if r.openViewer ≠ none then (.status 409 "viewer already connected".toList, r)
      else
        let ws := r.sockets.length
        (.webSocket ws,
          ((r.accept (.viewer ⟨false⟩) false).send ws .joined ws).send host .viewerJoined ws)

def fetch (r : Room) (request : Request) (random : ByteArr 32) : Response × Room :=
  if request.upgrade ≠ some "websocket".toList then (.status 426 "expected websocket".toList, r)
  else if request.pathname = "/host".toList then
    r.acceptHost (request.id.getD []) (request.key.getD []) (request.claim = some ['1']) random
  else if request.pathname = "/viewer".toList then r.acceptViewer
  else (.status 404 "not found".toList, r)

def authenticate (r : Room) (ws : Nat) (att : HostAttachment) (sig : Utf16) : Room :=
  match fromHex att.nonce with
  | none => r.closeFromServer ws CLOSE_AUTH ws
  | some nonce => { r with pending := r.pending ++ [⟨ws, att, sig, signedMessage nonce att.id⟩] }

def replace (r : Room) (ws : Nat) : Room :=
  match r.authedHost with
  | some previous =>
      if previous ≠ ws then (r.hostGone previous ws).closeFromServer previous CLOSE_REPLACED ws
      else r
  | none => r

def mark (r : Room) (p : Pending) : Room :=
  (r.setAttachment p.ws (.host { p.att with authed := true })).send p.ws (.registered p.att.id) p.ws

def register (r : Room) (p : Pending) : Room := (r.replace p.ws).mark p

def putOwner (r : Room) (ws : Nat) (key : Text) : Room :=
  { r with owner := some key, log := r.log ++ [.ownerPut ws key] }

def bind (r : Room) (p : Pending) : Room :=
  match r.owner with
  | some owner =>
      if owner ≠ p.att.key then r.closeFromServer p.ws CLOSE_AUTH p.ws else r.register p
  | none => (r.putOwner p.ws p.att.key).register p

-- the rest of `authenticate` after the await
def resume (r : Room) (p : Pending) : Room :=
  if verifyEd25519 subtle p.att.key p.sig p.signed then (r.emit (.verified p.ws p.sig)).bind p
  else r.closeFromServer p.ws CLOSE_AUTH p.ws

def onHostMessage (r : Room) (ws : Nat) (att : HostAttachment) (msg : Value) : Room :=
  if att.authed then
    match relayData msg with
    | some data =>
        match r.openViewer with
        | some viewer => r.send viewer (.relay data) ws
        | none => r
    | none =>
        if hasType msg "kick" then
          match r.openViewer with
          | some viewer => r.closeFromServer viewer CLOSE_KICKED ws
          | none => r
        else r.closeFromServer ws CLOSE_PROTOCOL ws
  else
    match authSig msg with
    | some sig => r.authenticate ws att sig
    | none => r.closeFromServer ws CLOSE_AUTH ws

def onViewerMessage (r : Room) (ws : Nat) (msg : Value) : Room :=
  if r.openViewer = some ws then
    match relayData msg with
    | some data =>
        match r.authedHost with
        | some host => r.send host (.relay data) ws
        | none => r
    | none => r.closeFromServer ws CLOSE_PROTOCOL ws
  else r

def webSocketMessage (r : Room) (ws : Nat) (message : Frame) : Room :=
  if MAX_MESSAGE_BYTES < message.size then r.closeFromServer ws CLOSE_TOO_BIG ws
  else
    match parse message with
    | none => r.closeFromServer ws CLOSE_PROTOCOL ws
    | some msg =>
        match r.attachment ws with
        | some (.host att) => r.onHostMessage ws att msg
        | _ => r.onViewerMessage ws msg

end Room

inductive Event where
  | fetch (request : Request) (random : ByteArr 32)
  | message (ws : Nat) (frame : Frame)
  | verified (i : Nat)
  | close (ws : Nat) (code : Nat)
  | error (ws : Nat)

namespace Room

def handle (r : Room) : Event → Room
  | .fetch request random => (r.fetch request random).2
  | .message ws frame => r.webSocketMessage ws frame
  | .verified i =>
      match r.pending[i]? with
      | some p => { r with pending := r.pending.eraseIdx i }.resume subtle p
      | none => r
  | .close ws code => r.webSocketClose ws code
  | .error ws => r.webSocketError ws

def awaits (r : Room) (ws : Nat) : Bool := (r.sockets[ws]?).any fun s => !s.ended

-- what the runtime can deliver: a socket gets nothing after its close or error event
def delivers (r : Room) : Event → Bool
  | .fetch _ _ => true
  | .message ws _ => r.awaits ws
  | .verified i => i < r.pending.length
  | .close ws _ => r.awaits ws
  | .error ws => r.awaits ws

def Step (ok : Room → Event → Prop) (r r' : Room) : Prop :=
  ∃ e, r.delivers e = true ∧ ok r e ∧ r' = r.handle subtle e

abbrev Steps (ok : Room → Event → Prop) : Room → Room → Prop :=
  Relation.ReflTransGen (Step subtle ok)

abbrev anyEvent : Room → Event → Prop := fun _ _ => True

section
variable (ok : Room → Event → Prop) [∀ r e, Decidable (ok r e)]

def play (r : Room) : List Event → Option Room
  | [] => some r
  | e :: es => if r.delivers e = true ∧ ok r e then (r.handle subtle e).play es else none

theorem steps_of_play {r r' : Room} {es : List Event} (h : r.play subtle ok es = some r') :
    Steps subtle ok r r' := by
  induction es generalizing r with
  | nil =>
      cases h
      exact .refl
  | cons e es ih =>
      rw [play] at h
      split at h
      · rename_i hd
        exact .head ⟨e, hd.1, hd.2, rfl⟩ (ih h)
      · cases h

end

end Room

end SimpleRemote.Signaling
