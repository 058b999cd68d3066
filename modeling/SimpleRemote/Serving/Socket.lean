import SimpleRemote.Serving.Steady
import SimpleRemote.Transport.Link

namespace SimpleRemote
open ByteCodec Interaction

namespace Serving
open Signaling

abbrev SocketEv : Type := Ev (wire ServerToHost HostToServer)

abbrev WiredHost : Type := Wire ServerToHost HostToServer ((ServeResult × HostState) × WsLink)

-- one call of the host on its socket
abbrev OnSocket (o : Op HostToServer) : Type :=
  Wire ServerToHost HostToServer (Op.Res ServerToHost o × WsLink)

-- the host as it is deployed: its program runs on a `WsLink`, and what is in flight on the socket
-- is texts
structure Wired where
  room : Room
  up : Bool
  toHost : List Text
  toRoom : List Text
  host : WiredHost

inductive WiredTurn where
  | room (e : Event)
  | arrive
  | socket (e : SocketEv)
  | again (fuel : Nat)
  | drop

namespace Wired

def hear (w : Wired) : SocketEv → Wired
  | ⟨.read, .ok (.text _)⟩ => { w with toHost := w.toHost.tail }
  | ⟨.send t, .ok _⟩ => { w with toRoom := w.toRoom ++ [t] }
  | _ => w

def served (w : Wired) : Bool :=
  match w.host with
  | .ret ((.ok _, _), _) => true
  | _ => false

end Wired

namespace Deployment
variable (d : Deployment)

-- `serve_next` on a link whose `recv` goes at most `n` rounds
def onLink (n : Nat) (p : HostM (ServeResult × HostState)) (link : WsLink) : WiredHost :=
  p.handle (WsLink.linkCall HostToServer.json d.serde.readHost n) link

def wired (n : Nat) (room : Room) (st : HostState) (fuel : Nat) : Wired :=
  ⟨room, true, [], [], d.onLink n (serveNext d.C d.cfg st fuel) ⟨none⟩⟩

def online (w : Wired) : Bool := w.up && w.room.isOpen d.ws

def wiredRoom (w : Wired) (e : Event) : Wired :=
  let room := w.room.handle d.subtle e
  { w with
    room := room
    toHost := w.toHost ++ ((w.room.news room).filterMap (Output.coming d.ws)).map fun c =>
      c.frame.json }

def wiredNext (n : Nat) (w : Wired) : WiredTurn → Wired
  | .room e => d.wiredRoom w e
  | .arrive =>
      match w.toRoom with
      | t :: rest => d.wiredRoom { w with toRoom := rest } (.message d.ws (.text t))
      | [] => w
  | .socket e =>
      match w.host.take e with
      | some p => { w.hear e with host := p }
      | none => w
  | .again fuel =>
      match w.host with
      | .ret ((_, st), link) => { w with host := d.onLink n (serveNext d.C d.cfg st fuel) link }
      | _ => w
  | .drop => { w with up := false }

-- the socket brings the texts in order, larger ones as an error, with pings between them and time
-- limits running out at any moment; anything else ends the connection
def brings (w : Wired) : SocketEv → Bool
  | ⟨.read, .ok (.text t)⟩ =>
      decide (w.toHost.head? = some t ∧ (utf8 t).length ≤ WsLink.MAX_MESSAGE_BYTES)
  | ⟨.read, .ok .ping⟩ => true
  | ⟨.read, .ok .pong⟩ => true
  | ⟨.read, .ok _⟩ => !d.online w
  | ⟨.read, .error (.io kind)⟩ => WsLink.isTimeout kind || !d.online w
  | ⟨.read, .error .other⟩ =>
      w.toHost.head?.any (fun t => WsLink.MAX_MESSAGE_BYTES < (utf8 t).length) || !d.online w
  | ⟨.read, .error _⟩ => !d.online w
  | ⟨.send _, .error _⟩ => !d.online w
  | ⟨.setReadTimeout _, .error _⟩ => !d.online w
  | _ => true

def wiredPermits (w : Wired) : WiredTurn → Bool
  | .room e => w.room.delivers e && !Event.messageOf d.ws e
  | .arrive => w.room.awaits d.ws && !w.toRoom.isEmpty
  | .socket e => (w.host.take e).isSome && d.brings w e
  | .again _ => w.served
  | .drop => true

abbrev WiredPermitted (w : Wired) (t : WiredTurn) : Prop := d.wiredPermits w t = true

end Deployment

-- what shows of a turn: all but the waits, and the calls that the link fails
inductive Mark where
  | room (e : Event)
  | arrive
  | again (fuel : Nat)
  | drop
  | wrote (t : Text)
  | got (m : ServerToHost)
  | asked (e : Ev HostSig)

def markOf : Ev HostSig → Option Mark
  | ⟨.linkSend m, .ok _⟩ => some (.wrote m.json)
  | ⟨.linkSend _, .error _⟩ => none
  | ⟨.linkRecv _, .ok m⟩ => m.map .got
  | ⟨.linkRecv _, .error _⟩ => none
  | e => some (.asked e)

def Turn.mark : Turn → Option Mark
  | .room e => some (.room e)
  | .arrive => some .arrive
  | .host e => markOf e
  | .again fuel => some (.again fuel)
  | .drop => some .drop

namespace Deployment
variable (d : Deployment)

def wireMark : SocketEv → Option Mark
  | ⟨.send t, .ok _⟩ => some (.wrote t)
  | ⟨.read, .ok (.text t)⟩ => (d.serde.readHost t).map .got
  | ⟨.other o, r⟩ => some (.asked ⟨o, r⟩)
  | _ => none

def mark : WiredTurn → Option Mark
  | .room e => some (.room e)
  | .arrive => some .arrive
  | .socket e => d.wireMark e
  | .again fuel => some (.again fuel)
  | .drop => some .drop

def texts (s : Service) : List Text := s.toHost.map fun c => c.frame.json

def written (s : Service) : List Text := s.toRoom.map fun g => g.message.json

-- a link that is closed was connected no more
def Sound (s : Service) (link : WsLink) : Prop :=
  link.closed.isSome = true → d.connected s = false

-- the two stand at the same point; the texts after one that could not be read are of no use
structure Carried (w : Wired) (s : Service) : Prop where
  room : w.room = s.room
  up : w.up = s.up
  toRoom : w.toRoom = written s
  toHost : failed s.host = false → w.toHost = texts s
  returned : ∀ r, (∃ link, w.host = .ret (r, link)) ↔ s.host = .ret r

structure Abreast (w : Wired) (s : Service) : Prop where
  room : w.room = s.room
  up : w.up = s.up
  toRoom : w.toRoom = written s
  toHost : w.toHost = texts s

-- what the last event of a call on the socket has to do with the answer to the call
structure Settled (w : Wired) (s : Service) (e : SocketEv) (o : Op HostToServer)
    (x : Op.Res ServerToHost o × WsLink) : Prop where
  answers : d.answers s ⟨o, x.1⟩ = true
  toRoom : (w.hear e).toRoom = written (s.hear ⟨o, x.1⟩)
  toHost : linkCall ⟨o, x.1⟩ ≠ .unread → (w.hear e).toHost = texts (s.hear ⟨o, x.1⟩)
  mark : d.wireMark e = markOf ⟨o, x.1⟩
  sound : d.Sound s x.2

-- a call under way: each event leaves everything in its place, or settles the call
def Within (link : WsLink) (o : Op HostToServer) : OnSocket o → Prop
  | .ret _ => False
  | .halt => True
  | .act c k => ∀ r w s, Abreast w s → d.Sound s link → d.brings w ⟨c, r⟩ = true →
      (∃ x, k r = .ret x ∧ d.Settled w s ⟨c, r⟩ o x) ∨
        (w.hear ⟨c, r⟩ = w ∧ d.wireMark ⟨c, r⟩ = none ∧ Within link o (k r))

section
variable {d : Deployment} {w : Wired} {s : Service} {link link' : WsLink} {t : Duration}
  {e : SocketEv}

theorem Abreast.online (h : Abreast w s) : d.online w = d.connected s := by
  rw [Deployment.online, h.up, h.room]
  rfl

theorem Abreast.down (h : Abreast w s) (hoff : (!d.online w) = true) : d.connected s = false := by
  rw [← h.online]
  simpa using hoff

theorem Abreast.unread (h : Abreast w s) {text : Text} (ht : w.toHost.head? = some text) :
    d.unread s = some (readFrame d.serde text) := by
  rw [h.toHost, texts, List.head?_map] at ht
  obtain ⟨c, hc, rfl⟩ := Option.map_eq_some_iff.mp ht
  rw [Deployment.unread, hc]
  rfl

theorem settled_nothing (h : Abreast w s) (hlink : d.Sound s link) (hhear : w.hear e = w)
    (hmark : d.wireMark e = none) : d.Settled w s e (.linkRecv t) (.ok none, link) where
  answers := rfl
  toRoom := by rw [hhear]; exact h.toRoom
  toHost _ := by rw [hhear]; exact h.toHost
  mark := hmark
  sound := hlink

theorem settled_unread {err : LinkError} (h : Abreast w s)
    (hanswers : d.unread s = some (.error err) ∨ d.connected s = false)
    (hlink : d.Sound s link) (hhear : (w.hear e).toRoom = w.toRoom) (hmark : d.wireMark e = none) :
    d.Settled w s e (.linkRecv t) (.error err, link) where
  answers := by
    rcases hanswers with hunread | hdown
    · simp [answers, hunread]
    · simp [answers, hdown]
  toRoom := hhear.trans h.toRoom
  toHost hne := absurd rfl hne
  mark := hmark
  sound := hlink

theorem settled_down {err : LinkError} (h : Abreast w s) (hdown : d.connected s = false)
    (hhear : (w.hear e).toRoom = w.toRoom) (hmark : d.wireMark e = none) :
    d.Settled w s e (.linkRecv t) (.error err, link) :=
  settled_unread h (.inr hdown) (fun _ => hdown) hhear hmark

theorem readMessage_within
    {again : Wire ServerToHost HostToServer (Except LinkError (Option ServerToHost) × WsLink)}
    (hagain : d.Within link (.linkRecv t) again) :
    d.Within link (.linkRecv t) (link.readMessage d.serde.readHost again) := by
  intro got w s h hlink hbrings
  rcases got with e | (text | _ | _ | _ | code | _)
  case error =>
    cases e with
    | io kind =>
        left
        dsimp only [Prog.bind]
        split
        · exact ⟨_, rfl, settled_nothing h hlink rfl rfl⟩
        · rename_i hkind
          have hoff : (!d.online w) = true := by simpa [brings, hkind] using hbrings
          exact ⟨_, rfl, settled_down h (h.down hoff) rfl rfl⟩
    | other =>
        left
        rcases Bool.or_eq_true_iff.mp hbrings with hlarge | hoff
        · obtain ⟨text, htext, hlarge⟩ := (Option.any_eq_true ..).mp hlarge
          have hread : readFrame d.serde text = .error .protocol := if_pos (of_decide_eq_true hlarge)
          exact ⟨_, rfl, settled_unread h (.inl ((h.unread htext).trans (congrArg some hread)))
            hlink rfl rfl⟩
        · exact ⟨_, rfl, settled_down h (h.down hoff) rfl rfl⟩
    | _ => exact .inl ⟨_, rfl, settled_down h (h.down hbrings) rfl rfl⟩
  case ok.text =>
    left
    obtain ⟨htext, hsize⟩ := of_decide_eq_true hbrings
    have hread := (h.unread (d := d) htext).trans (congrArg some (if_neg (Nat.not_lt.mpr hsize)))
    dsimp only [Prog.bind]
    split
    · rename_i m hm
      rw [hm] at hread
      refine ⟨_, rfl, ?_, h.toRoom, fun _ => ?_, ?_, hlink⟩
      · simp [answers, hread]
      · change w.toHost.tail = (s.toHost.tail).map _
        rw [h.toHost, texts, List.map_tail]
      · exact congrArg (Option.map Mark.got) hm
    · rename_i hm
      rw [hm] at hread
      exact ⟨_, rfl, settled_unread h (.inl hread) hlink rfl (congrArg (Option.map Mark.got) hm)⟩
  case ok.ping => exact .inr ⟨rfl, rfl, hagain⟩
  case ok.pong => exact .inr ⟨rfl, rfl, hagain⟩
  all_goals exact .inl ⟨_, rfl, settled_down h (h.down hbrings) rfl rfl⟩

theorem recvLoop_within (deadline : Instant) (n : Nat) :
    d.Within link (.linkRecv t) (WsLink.recvLoop d.serde.readHost deadline n link) := by
  induction n with
  | zero => trivial
  | succ n ih =>
      intro now w s h hlink _
      dsimp only [Prog.bind]
      split
      · exact .inl ⟨_, rfl, settled_nothing h hlink rfl rfl⟩
      · refine .inr ⟨rfl, rfl, fun set w s h hlink hbrings => ?_⟩
        rcases set with (_ | _) | _
        · exact .inl ⟨_, rfl, settled_down h (h.down hbrings) rfl rfl⟩
        · exact .inl ⟨_, rfl, settled_down h (h.down hbrings) rfl rfl⟩
        · exact .inr ⟨rfl, rfl, readMessage_within ih⟩

theorem send_within (hopen : link.closed = none) (m : HostToServer) :
    d.Within link (.linkSend m) (link.send HostToServer.json m) := by
  rw [WsLink.send, hopen]
  intro sent w s h hlink hbrings
  left
  cases sent with
  | ok u =>
      refine ⟨_, rfl, rfl, ?_, fun _ => h.toHost, rfl, hlink⟩
      change w.toRoom ++ [m.json] = (s.toRoom ++ [(⟨m, s.viewer⟩ : Going)]).map fun g => g.message.json
      rw [h.toRoom, List.map_append]
      rfl
  | error e =>
      have hdown := h.down hbrings
      exact ⟨_, rfl, by simp [answers, hdown], h.toRoom, fun _ => h.toHost, rfl, fun _ => hdown⟩

-- a call that a `WsLink` does not refuse at once
theorem linkCall_within {o : Op HostToServer} (h : o.onLink = true → link.closed = none) (n : Nat) :
    d.Within link o (WsLink.linkCall HostToServer.json d.serde.readHost n o link) := by
  cases o with
  | linkSend m => exact send_within (h rfl) m
  | linkRecv t =>
      rw [WsLink.linkCall, WsLink.recv, h rfl]
      exact fun start w s h hlink _ => .inr ⟨rfl, rfl, recvLoop_within _ n⟩
  | _ => exact fun r w s h hlink _ => .inl ⟨_, rfl, rfl, h.toRoom, fun _ => h.toHost, rfl, hlink⟩

end

end Deployment

end Serving

end SimpleRemote
