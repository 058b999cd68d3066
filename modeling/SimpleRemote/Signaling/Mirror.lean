import SimpleRemote.Signaling.Handling
import SimpleRemote.Signaling.Wire
import SimpleRemote.Transport.Hub

namespace SimpleRemote

-- the frame the room writes for a message
def ServerToHost.frame : ServerToHost → Signaling.ServerFrame
  | .challenge nonce id => .challenge nonce id
  | .registered id => .registered id
  | .viewerJoined => .viewerJoined
  | .viewerLeft => .viewerLeft
  | .relay data => .relay (Json.utf16 data)

def ServerToViewer.frame : ServerToViewer → Signaling.ServerFrame
  | .joined => .joined
  | .relay data => .relay (Json.utf16 data)
  | .hostLeft => .hostLeft

-- what serde_json writes for a message to the server
def ViewerToServer.json : ViewerToServer → ByteCodec.Text
  | .relay data => Signaling.typed "relay" [("data".toList, Json.utf16 data)]

namespace Signaling
open ByteCodec Json

-- what a client reads from its socket
inductive Received where
  | frame (f : ServerFrame)
  | close (code : Nat)
  deriving DecidableEq

def Output.reaches (ws : Nat) : Output → Option Received
  | .sent ws' frame _ => if ws' = ws then some (.frame frame) else none
  | .closed ws' code _ => if ws' = ws then some (.close code) else none
  | _ => none

def viewerRequest (id : Text) : Request :=
  ⟨some "websocket".toList, "/viewer".toList, some id, none, none⟩

end Signaling

def ViewerEnvelope.received : ViewerEnvelope → Signaling.Received
  | .msg m => .frame m.frame
  | .closed code => .close code

-- what a client sends is within the limit of the room
def HubOp.Small : HubOp → Prop
  | .hostSend m => (Signaling.Frame.text m.json).size ≤ Signaling.MAX_MESSAGE_BYTES
  | .viewerSend _ m => (Signaling.Frame.text m.json).size ≤ Signaling.MAX_MESSAGE_BYTES
  | _ => True

instance (op : HubOp) : Decidable op.Small :=
  match op with
  | .hostSend _ => inferInstanceAs (Decidable (_ ≤ _))
  | .viewerSend _ _ => inferInstanceAs (Decidable (_ ≤ _))
  | .viewer | .hostRecv | .hostDrop _ => .isTrue trivial
  | .viewerRecv _ | .viewerDrop _ _ | .echo _ _ => .isTrue trivial

def Gone.event (ws : Nat) : Gone → Signaling.Event
  | .close code => .close ws code
  | .error => .error ws

namespace Signaling
open ByteCodec Json

-- the room's host socket, the number of sockets before the first viewer, and what the
-- viewers' requests carry
structure Seating where
  host : Nat
  first : Nat
  id : Text
  random : ByteArr 32

namespace Seating
variable (w : Seating)

def event : HubOp → Option Event
  | .viewer => some (.fetch (viewerRequest w.id) w.random)
  | .hostSend m => some (.message w.host (.text m.json))
  | .hostDrop gone => some (gone.event w.host)
  | .viewerSend i m => some (.message (w.first + i) (.text m.json))
  | .viewerDrop i gone => some (gone.event (w.first + i))
  | .echo i gone => some (gone.event (w.first + i))
  | .hostRecv => none
  | .viewerRecv _ => none

end Seating

namespace Room
variable (subtle : SubtleVerify) (w : Seating)

def perform (r : Room) (op : HubOp) : Room :=
  match w.event op with
  | some e => if r.delivers e then r.handle subtle e else r
  | none => r

-- a socket that has ended gets nothing any more
def hears (r r' : Room) (ws : Nat) : List Received :=
  if r'.awaits ws then (r.news r').filterMap (Output.reaches ws) else []

def inbox (ws : Nat) : Room → List HubOp → List Received :=
  Runs.trace (Room.perform subtle w) fun r op => r.hears (r.perform subtle w op) ws

end Room

section
variable {r r' : Room}

theorem Room.Plain.answer (hp : r.Plain) {e : Event} {ws : Nat} (he : e.ends = some ws)
    (h : r.isOpen ws = false) : (r.answer e).Plain := by
  cases e with
  | close ws' code =>
      obtain rfl : ws' = ws := Option.some.inj he
      exact hp.close h _ _
  | _ => exact hp

theorem Room.Plain.replace (hp : r.Plain) (ws : Nat) : (r.replace ws).Plain := by
  rw [Room.replace]
  split
  · split
    · exact (hp.hostGone _ _).closeFromServer _ _ _
    · exact hp
  · exact hp

theorem Outline.shuts {shut unmarked : Nat → Prop} {out : List Output}
    (h : Outline r r' shut unmarked out) {ws : Nat} (hws : shut ws) : r'.isOpen ws = false := by
  by_contra hopen
  exact ((h.isOpen ws).mp (Bool.not_eq_false _ ▸ hopen)).2 hws

theorem Did.plain {subtle : SubtleVerify} {e : Event} (h : Did subtle r e r') (hp : r.Plain) :
    r'.Plain := by
  cases h with
  | refused => exact hp
  | host nonce key id claim => exact (hp.accept (by simp) claim).of_sockets rfl
  | viewer _ _ =>
      refine (hp.accept (a := .viewer ⟨false⟩) (fun v hv => ?_) false).of_sockets rfl
      rw [← Attachment.viewer.inj hv]
  | dropped => exact hp
  | bad code => exact hp.closeFromServer _ _ _
  | down data => exact hp.of_sockets rfl
  | kicked => exact hp.closeFromServer _ _ _
  | up data => exact hp.of_sockets rfl
  | suspended => exact hp.of_sockets rfl
  | @failed i p out =>
      have hr : (r.resumed i r.owner out).Plain := hp.of_sockets rfl
      exact hr.closeFromServer _ _ _
  | @registered i p out =>
      have hr : (r.resumed i (some p.att.key) out).Plain := hp.of_sockets rfl
      exact ((hr.replace p.ws).setHost _ _).send _ _ _
  | hostEnded he hm =>
      exact ((hp.finish _).hostGone _ _).answer he ((fades_hostEnded hm).shuts (.inl rfl))
  | @viewerEnded _ ws host he =>
      have hr : ((r.finish ws).emit (.sent host .viewerLeft ws)).Plain := (hp.finish ws).of_sockets rfl
      exact hr.answer he ((fades_viewerEnded r _ _).shuts rfl)
  | ended he => exact (hp.finish _).answer he (fades_finish.shuts rfl)

theorem plain_steps {subtle : SubtleVerify} {ok : Room → Event → Prop}
    (h : Room.Steps subtle ok .new r) : r.Plain := by
  induction h with
  | refl =>
      intro ws s hs
      cases hs
  | tail _ hstep ih =>
      obtain ⟨e, hd, -, rfl⟩ := hstep
      exact (handle_did hd).plain ih

theorem Room.awaits_update (r : Room) (ws : Nat) {f : Socket → Socket}
    (hf : ∀ s, (f s).ended = s.ended) (ws' : Nat) : (r.update ws f).awaits ws' = r.awaits ws' := by
  rw [awaits, sockets_update, awaits]
  split
  · cases r.sockets[ws']? with
    | none => rfl
    | some s => simp [hf]
  · rfl

theorem Room.awaits_close (r : Room) (ws code cause ws' : Nat) :
    (r.close ws code cause).awaits ws' = r.awaits ws' :=
  r.awaits_update ws (f := fun s => { s with isOpen := false }) (fun _ => rfl) ws'

theorem Room.awaits_closeFromServer (r : Room) (ws code cause ws' : Nat) :
    (r.closeFromServer ws code cause).awaits ws' = r.awaits ws' := by
  rw [closeFromServer]
  split
  · rw [awaits_close, setAttachment, awaits_update]
    exact fun _ => rfl
  · exact r.awaits_close ..

theorem Room.awaits_send (r : Room) (ws : Nat) (frame : ServerFrame) (cause ws' : Nat) :
    (r.send ws frame cause).awaits ws' = r.awaits ws' := by
  rw [send]
  split <;> rfl

theorem Room.awaits_hostGone (r : Room) (host cause ws' : Nat) :
    (r.hostGone host cause).awaits ws' = r.awaits ws' := by
  have hset (a : Attachment) : (r.setAttachment host a).awaits ws' = r.awaits ws' :=
    r.awaits_update host (f := fun s => { s with attachment := a }) (fun _ => rfl) ws'
  rw [hostGone]
  split
  · dsimp only
    split
    · exact hset _
    · rw [awaits_closeFromServer, awaits_send, hset]
  · rfl

theorem Room.awaits_onGone (r : Room) (ws ws' : Nat) :
    (r.onGone ws).awaits ws' = r.awaits ws' := by
  rw [onGone]
  split
  · split
    · exact r.awaits_hostGone ..
    · rfl
  · split
    · rfl
    · split
      · exact r.awaits_send ..
      · rfl
  · rfl

theorem Room.awaits_finish (r : Room) (ws ws' : Nat) :
    (r.finish ws).awaits ws' = if ws = ws' then false else r.awaits ws' := by
  rw [awaits, finish, sockets_update]
  split
  · cases r.sockets[ws']? <;> rfl
  · rfl

theorem Room.awaits_gone (r : Room) {e : Event} {ws : Nat} (he : e.ends = some ws) (ws' : Nat) :
    (((r.finish ws).onGone ws).answer e).awaits ws' = if ws = ws' then false else r.awaits ws' := by
  cases e with
  | close w code =>
      rw [answer, awaits_close, awaits_onGone, awaits_finish]
  | error w =>
      change ((r.finish ws).onGone ws).awaits ws' = _
      rw [awaits_onGone, awaits_finish]
  | _ => cases he

theorem Room.handle_gone (subtle : SubtleVerify) {e : Event} {ws : Nat} (he : e.ends = some ws) :
    r.handle subtle e = ((r.finish ws).onGone ws).answer e := by
  cases e with
  | close w code =>
      obtain rfl := Option.some.inj he
      rfl
  | error w =>
      obtain rfl := Option.some.inj he
      rfl
  | _ => cases he

theorem Room.Plain.awaits (hp : r.Plain) {ws : Nat} (h : r.isOpen ws = true) :
    r.awaits ws = true := by
  rw [isOpen] at h
  rw [Room.awaits]
  cases hs : r.sockets[ws]? with
  | none => simp [hs] at h
  | some s =>
      have hopen : s.isOpen = true := by simpa [hs] using h
      cases hended : s.ended with
      | false => simp [hended]
      | true => simp [(hp ws s hs).1 hended] at hopen

theorem Room.authedHost_iff {h : Nat} : r.authedHost = some h ↔
    r.ready h = true ∧ ∀ j, j < h → r.ready j = false := by
  have hget {j : Nat} (hj : j < r.sockets.length) : r.ready j = (r.sockets[j]).authedHost := by
    rw [ready, List.getElem?_eq_getElem hj]
    rfl
  rw [authedHost, List.findIdx?_eq_some_iff_getElem]
  constructor
  · rintro ⟨hlt, hp, hbefore⟩
    exact ⟨(hget hlt).trans hp, fun j hj => by simpa [hget (hj.trans hlt)] using hbefore j hj⟩
  · rintro ⟨hp, hbefore⟩
    have hlt : h < r.sockets.length := Room.lt_of_isOpen (Room.isOpen_of_ready hp)
    exact ⟨hlt, (hget hlt).symm.trans hp, fun j hj => by simpa [hget (hj.trans hlt)] using hbefore j hj⟩

theorem Room.authedHost_kept {h : Nat} (hh : r.authedHost = some h) (hr : r'.ready h = true)
    (hless : ∀ j, r'.ready j = true → j < h → r.ready j = true) : r'.authedHost = some h := by
  refine Room.authedHost_iff.mpr ⟨hr, fun j hj => ?_⟩
  by_contra hready
  have := hless j (Bool.not_eq_false _ ▸ hready) hj
  simp [(Room.authedHost_iff.mp hh).2 j hj] at this

theorem Room.hears_eq {out : List Output} (hlog : r'.log = r.log ++ out) (ws : Nat) :
    r.hears r' ws = if r'.awaits ws then out.filterMap (Output.reaches ws) else [] := by
  rw [hears, news_eq hlog]

theorem Room.hears_of_awaits {out : List Output} (hlog : r'.log = r.log ++ out) {ws : Nat}
    (h : out.filterMap (Output.reaches ws) ≠ [] → r'.awaits ws = true) :
    r.hears r' ws = out.filterMap (Output.reaches ws) := by
  rw [hears_eq hlog]
  split
  · rfl
  · rename_i hnot
    by_contra hne
    exact hnot (h (Ne.symm hne))

end

-- the room has the host, and as viewers the sockets from `first` on
structure Seats (w : Seating) (d : Switchboard) (r : Room) : Prop where
  plain : r.Plain
  length : r.sockets.length = w.first + d.joined
  before : w.host < w.first
  viewers : ∀ i, i < d.joined → r.base (w.first + i) = none
  viewing : ∀ ws, r.viewing ws = true ↔ ∃ i, d.current = some i ∧ w.first + i = ws
  authed : d.manned = true → r.authedHost = some w.host
  held : ∀ i, d.current = some i → d.manned = true ∧ i < d.joined

-- the sockets get what the switchboard delivers
structure Mirrored (w : Seating) (d : Switchboard) (r r' : Room) (op : HubOp) : Prop where
  seats : Seats w (d.next op) r'
  host : r.hears r' w.host =
    ((d.delivers op).filterMap Delivery.host).map fun m => .frame m.frame
  viewer : ∀ i, r.hears r' (w.first + i) =
    ((d.delivers op).filterMap (Delivery.viewer i)).map ViewerEnvelope.received

section
variable {subtle : SubtleVerify} {w : Seating} {d : Switchboard} {r r' : Room}

theorem Seats.openViewer (hs : Seats w d r) : r.openViewer = d.current.map (w.first + ·) := by
  cases hv : r.openViewer with
  | some v =>
      obtain ⟨i, hi, rfl⟩ := (hs.viewing v).mp (Room.viewing_of_openViewer hv)
      rw [hi]
      rfl
  | none =>
      cases hc : d.current with
      | none => rfl
      | some i =>
          have := (hs.viewing (w.first + i)).mpr ⟨i, hc, rfl⟩
          simp [Room.not_viewing_of_openViewer hv] at this

theorem Seats.viewing_at (hs : Seats w d r) (i : Nat) :
    r.viewing (w.first + i) = true ↔ d.current = some i := by
  rw [hs.viewing]
  constructor
  · rintro ⟨j, hj, heq⟩
    rw [hj, Nat.add_left_cancel heq]
  · exact fun h => ⟨i, h, rfl⟩

theorem Seats.outline (hs : Seats w d r) {shut unmarked : Nat → Prop} {out : List Output}
    (ho : Outline r r' shut unmarked out) (hplain : r'.Plain) {d' : Switchboard}
    (hj : d'.joined = d.joined)
    (hc : ∀ i, d'.current = some i ↔ d.current = some i ∧ ¬ shut (w.first + i))
    (hm : d'.manned = true → d.manned = true ∧ ¬ shut w.host ∧ ¬ unmarked w.host)
    (hheld : ∀ i, d'.current = some i → d'.manned = true) : Seats w d' r' where
  plain := hplain
  length := by rw [ho.length, hs.length, hj]
  before := hs.before
  viewers i hi := by rw [ho.base, hs.viewers i (hj ▸ hi)]
  viewing ws := by
    rw [ho.viewing, hs.viewing]
    constructor
    · rintro ⟨⟨i, hi, rfl⟩, hshut⟩
      exact ⟨i, (hc i).mpr ⟨hi, hshut⟩, rfl⟩
    · rintro ⟨i, hi, rfl⟩
      obtain ⟨hi', hshut⟩ := (hc i).mp hi
      exact ⟨⟨i, hi', rfl⟩, hshut⟩
  authed h := by
    obtain ⟨hd, hshut, hunmarked⟩ := hm h
    have hhost := hs.authed hd
    refine Room.authedHost_kept hhost ?_ fun j hr _ => ((ho.ready j).mp hr).1
    exact (ho.ready w.host).mpr ⟨Room.ready_of_authedHost hhost, hshut, hunmarked⟩
  held i hi := ⟨hheld i hi, hj ▸ (hs.held i ((hc i).mp hi).1).2⟩

theorem Seats.ne_host (hs : Seats w d r) (i : Nat) : w.first + i ≠ w.host := by
  have := hs.before
  omega

theorem Seats.host_isOpen (hs : Seats w d r) (hm : d.manned = true) : r.isOpen w.host = true :=
  Room.isOpen_of_ready (Room.ready_of_authedHost (hs.authed hm))

theorem Seats.viewer_isOpen (hs : Seats w d r) {i : Nat} (hc : d.current = some i) :
    r.isOpen (w.first + i) = true := Room.isOpen_of_viewing ((hs.viewing_at i).mpr hc)

theorem Mirrored.silent {op : HubOp} {out : List Output} (hdel : d.delivers op = [])
    (hseats : Seats w (d.next op) r') (hlog : r'.log = r.log ++ out)
    (hout : ∀ ws, r'.awaits ws = true → out.filterMap (Output.reaches ws) = []) :
    Mirrored w d r r' op := by
  have hears (ws : Nat) : r.hears r' ws = [] := by
    rw [Room.hears_eq hlog]
    split
    · exact hout ws ‹_›
    · rfl
  refine ⟨hseats, ?_, fun i => ?_⟩
  · rw [hdel, hears]
    rfl
  · rw [hdel, hears]
    rfl

theorem Mirrored.quiet (hs : Seats w d r) {op : HubOp} (hnext : d.next op = d)
    (hdel : d.delivers op = []) : Mirrored w d r r op :=
  .silent hdel (hnext.symm ▸ hs) (List.append_nil _).symm fun _ _ => rfl

theorem fetch_viewer {h : Nat} (hhost : r.authedHost = some h) (hno : r.openViewer = none) :
    r.handle subtle (.fetch (viewerRequest w.id) w.random) = r.joined h := by
  have hs : ((r.accept (.viewer ⟨false⟩) false).emit
      (.sent r.sockets.length .joined r.sockets.length)).sockets =
      (r.accept (.viewer ⟨false⟩) false).sockets := rfl
  have hopen := Room.isOpen_of_ready (Room.ready_of_authedHost hhost)
  have hpath : (viewerRequest w.id).pathname ≠ "/host".toList := by
    change "/viewer".toList ≠ "/host".toList
    decide
  change (r.fetch (viewerRequest w.id) w.random).2 = _
  have hviewer : (viewerRequest w.id).pathname = "/viewer".toList := rfl
  rw [Room.fetch, if_neg (fun h => h rfl), if_neg hpath, if_pos hviewer, Room.acceptViewer, hhost]
  dsimp only
  rw [if_neg (fun h => h hno)]
  dsimp only
  rw [Room.send_accept, Room.send_eq]
  · rfl
  · rw [Room.isOpen_accepted hs, hopen]
    exact ite_self _

theorem perform_of_delivers {op : HubOp} {e : Event} (he : w.event op = some e)
    (hd : r.delivers e = true) : r.perform subtle w op = r.handle subtle e := by
  rw [Room.perform, he]
  exact if_pos hd

theorem perform_plain (subtle : SubtleVerify) (w : Seating) (hp : r.Plain) (op : HubOp) :
    (r.perform subtle w op).Plain := by
  rw [Room.perform]
  split
  · split
    · rename_i hd
      exact (handle_did hd).plain hp
    · exact hp
  · exact hp

theorem mirrored_viewer (hs : Seats w d r) (hp : d.permits .viewer) :
    Mirrored w d r (r.perform subtle w .viewer) .viewer := by
  obtain ⟨hm, hc⟩ := hp
  have hhost := hs.authed hm
  have hno : r.openViewer = none := by rw [hs.openViewer, hc, Option.map_none]
  have hplain := perform_plain subtle w hs.plain .viewer
  rw [perform_of_delivers rfl rfl, fetch_viewer hhost hno] at hplain ⊢
  have hsockets : (r.joined w.host).sockets = (r.accept (.viewer ⟨false⟩) false).sockets := rfl
  have hisOpen := Room.isOpen_accepted hsockets
  have hbase := Room.base_accepted hsockets
  have hready (j : Nat) (hj : j < r.sockets.length) : (r.joined w.host).ready j = r.ready j := by
    rw [Room.ready_eq, Room.ready_eq, hisOpen, Room.marked_accepted hsockets,
      if_neg hj.ne, if_neg hj.ne]
  have hlt : w.host < r.sockets.length := Room.lt_of_isOpen (hs.host_isOpen hm)
  have hawaits (ws : Nat) (h : ws = r.sockets.length ∨ r.isOpen ws = true) :
      (r.joined w.host).awaits ws = true := by
    refine hplain.awaits ?_
    rw [hisOpen]
    rcases h with rfl | h
    · exact if_pos rfl
    · rw [h]
      exact ite_self _
  refine ⟨⟨hplain, ?_, hs.before, fun i hi => ?_, fun ws => ?_, fun _ => ?_, fun i hi => ?_⟩, ?_,
    fun i => ?_⟩
  · rw [Room.length_accepted hsockets, hs.length]
    rfl
  · rw [hbase, hs.length]
    split
    · rfl
    · rename_i hne
      refine hs.viewers i ?_
      have : i < d.joined + 1 := hi
      omega
  · have hold : r.viewing ws = false := by
      cases hv : r.viewing ws with
      | false => rfl
      | true =>
          obtain ⟨i, hi, -⟩ := (hs.viewing ws).mp hv
          rw [hc] at hi
          cases hi
    rw [Room.viewing_eq] at hold
    rw [Room.viewing_eq, hisOpen, hbase]
    by_cases hws : ws = r.sockets.length
    · rw [if_pos hws, if_pos hws]
      exact iff_of_true rfl ⟨d.joined, rfl, by rw [hws, hs.length]⟩
    · rw [if_neg hws, if_neg hws, hold]
      refine iff_of_false (by simp) ?_
      rintro ⟨i, hi, rfl⟩
      obtain rfl : d.joined = i := Option.some.inj hi
      exact hws hs.length.symm
  · refine Room.authedHost_kept hhost ?_ fun j hj hlt' => ?_
    · rw [hready _ hlt]
      exact Room.ready_of_authedHost hhost
    · rwa [hready j (hlt'.trans hlt)] at hj
  · obtain rfl : d.joined = i := Option.some.inj hi
    exact ⟨hm, Nat.lt_succ_self _⟩
  · rw [Room.hears_of_awaits (r.joined_log w.host) fun _ => hawaits _ (.inr (hs.host_isOpen hm))]
    have hne : ¬ r.sockets.length = w.host := by omega
    simp [List.filterMap_cons, Output.reaches, hne, Switchboard.delivers, Delivery.host,
      ServerToHost.frame]
  · have hne : ¬ w.host = w.first + i := fun h => hs.ne_host i h.symm
    by_cases hi : i = d.joined
    · subst hi
      rw [Room.hears_of_awaits (r.joined_log w.host) fun _ => hawaits _ (.inl hs.length.symm)]
      simp [List.filterMap_cons, Output.reaches, hne, hs.length, Switchboard.delivers,
        Delivery.viewer, ViewerEnvelope.received, ServerToViewer.frame]
    · have hlen : ¬ r.sockets.length = w.first + i := by
        rw [hs.length]
        omega
      rw [Room.hears_eq (r.joined_log w.host)]
      simp [List.filterMap_cons, Output.reaches, hne, hlen, Switchboard.delivers, Delivery.viewer,
        Ne.symm hi]

theorem Seats.host_attachment (hs : Seats w d r) (hm : d.manned = true) :
    ∃ att, r.attachment w.host = some (.host att) ∧ att.authed = true := by
  have hmarked := (Room.ready_iff.mp (Room.ready_of_authedHost (hs.authed hm))).2
  obtain ⟨c, hc⟩ := Option.isSome_iff_exists.mp (Room.base_of_marked hmarked)
  obtain ⟨att, hatt⟩ := Room.attachment_of_base hc
  exact ⟨att, hatt, (Room.marked_of_attachment hatt).symm.trans hmarked⟩

theorem Seats.viewer_attachment (hs : Seats w d r) {i : Nat} (hi : i < d.joined) :
    ∃ s a, r.sockets[w.first + i]? = some s ∧ s.attachment = .viewer a := by
  have hlt : w.first + i < r.sockets.length := by
    rw [hs.length]
    omega
  have hget := List.getElem?_eq_getElem hlt
  have hbase := hs.viewers i hi
  rw [Room.base, hget, Option.bind_some, Socket.base] at hbase
  cases ha : r.sockets[w.first + i].attachment with
  | host a => simp [ha] at hbase
  | viewer a => exact ⟨_, a, hget, ha⟩

-- only the viewer in the seat is told something
theorem Mirrored.told {i : Nat} {op : HubOp} {es : List ViewerEnvelope} {out : List Output}
    (hs : Seats w d r) (hc : d.current = some i) (hdel : d.delivers op = d.toCurrent es)
    (hseats : Seats w (d.next op) r') (hlog : r'.log = r.log ++ out)
    (hes : out.filterMap (Output.reaches (w.first + i)) = es.map ViewerEnvelope.received)
    (hawaits : r'.awaits (w.first + i) = true)
    (hother : ∀ ws, w.first + i ≠ ws → r'.awaits ws = true →
      out.filterMap (Output.reaches ws) = []) : Mirrored w d r r' op where
  seats := hseats
  host := by
    rw [hdel, Switchboard.host_toCurrent, Room.hears_eq hlog]
    split
    · exact hother _ (hs.ne_host i) ‹_›
    · rfl
  viewer j := by
    rw [hdel, Switchboard.viewer_toCurrent, hc, Room.hears_eq hlog]
    by_cases hj : i = j
    · subst hj
      rw [if_pos hawaits, if_pos rfl, hes]
    · rw [if_neg (show ¬ some i = some j by simpa using hj)]
      split
      · exact hother _ (by omega) ‹_›
      · rfl

theorem host_message (subtle : SubtleVerify) (hs : Seats w d r) (hm : d.manned = true)
    {m : HostToServer} {msg : Value}
    (hsize : (Frame.text m.json).size ≤ MAX_MESSAGE_BYTES) (hmsg : parse (.text m.json) = some msg) :
    ∃ att, att.authed = true ∧
      r.perform subtle w (.hostSend m) = r.onHostMessage w.host att msg := by
  obtain ⟨att, hatt, hauthed⟩ := hs.host_attachment hm
  have hd : r.delivers (.message w.host (.text m.json)) = true :=
    hs.plain.awaits (hs.host_isOpen hm)
  refine ⟨att, hauthed, ?_⟩
  rw [perform_of_delivers rfl hd]
  change r.webSocketMessage w.host (.text m.json) = _
  rw [Room.webSocketMessage, if_neg (by omega), hmsg]
  dsimp only
  rw [hatt]

theorem mirrored_relay (hs : Seats w d r) (hm : d.manned = true) {data : Text}
    (hsize : (Frame.text (HostToServer.relay data).json).size ≤ MAX_MESSAGE_BYTES) :
    Mirrored w d r (r.perform subtle w (.hostSend (.relay data))) (.hostSend (.relay data)) := by
  obtain ⟨msg, hmsg, hrelay⟩ := hostFrame_parse (.relay data)
  obtain ⟨att, hauthed, hperform⟩ := host_message subtle hs hm hsize hmsg
  have hplain := perform_plain subtle w hs.plain (.hostSend (.relay data))
  rw [hperform, Room.onHostMessage, if_pos hauthed, hrelay, hs.openViewer] at hplain ⊢
  cases hc : d.current with
  | none => exact .quiet hs rfl (by rw [Switchboard.delivers, Switchboard.toCurrent, hc])
  | some i =>
      rw [hc] at hplain
      have ho := (Shape.send_of_isOpen (hs.viewer_isOpen hc) (.relay (utf16 data)) w.host).toOutline
      have hopen := (ho.isOpen _).mpr ⟨hs.viewer_isOpen hc, id⟩
      have hseats : Seats w d (r.send (w.first + i) (.relay (utf16 data)) w.host) :=
        hs.outline ho hplain rfl (by simp) (by simp) fun j hj => (hs.held j hj).1
      refine .told hs hc rfl hseats ho.log ?_ (Room.Plain.awaits hplain hopen) fun ws hne _ => ?_
      · simp [Output.reaches, ViewerEnvelope.received, ServerToViewer.frame]
      · simp [Output.reaches, hne]

theorem mirrored_kick (hs : Seats w d r) (hm : d.manned = true)
    (hsize : (Frame.text HostToServer.kick.json).size ≤ MAX_MESSAGE_BYTES) :
    Mirrored w d r (r.perform subtle w (.hostSend .kick)) (.hostSend .kick) := by
  obtain ⟨msg, hmsg, hnone, hkick⟩ := hostFrame_parse .kick
  obtain ⟨att, hauthed, hperform⟩ := host_message subtle hs hm hsize hmsg
  have hplain := perform_plain subtle w hs.plain (.hostSend .kick)
  rw [hperform, Room.onHostMessage, if_pos hauthed, hnone] at hplain ⊢
  dsimp only at hplain ⊢
  rw [if_pos hkick, hs.openViewer] at hplain ⊢
  cases hc : d.current with
  | none =>
      refine .quiet hs ?_ (by rw [Switchboard.delivers, Switchboard.toCurrent, hc])
      rw [Switchboard.next, ← hc]
  | some i =>
      rw [hc] at hplain
      have ho := (Shape.closeFromServer r (w.first + i) CLOSE_KICKED w.host).toOutline
      have hawaits : (r.closeFromServer (w.first + i) CLOSE_KICKED w.host).awaits (w.first + i) = true := by
        rw [Room.awaits_closeFromServer]
        exact hs.plain.awaits (hs.viewer_isOpen hc)
      have hseats : Seats w { d with current := none }
          (r.closeFromServer (w.first + i) CLOSE_KICKED w.host) := by
        refine hs.outline ho hplain rfl (fun j => ?_) (fun h => ⟨h, ?_, id⟩) (by simp)
        · rw [hc]
          simp only [reduceCtorEq, Option.some.injEq, false_iff, not_and, not_not]
          rintro rfl
          rfl
        · exact (hs.ne_host i).symm
      refine .told hs hc rfl hseats ho.log ?_ hawaits fun ws hne _ => ?_
      · simp [Output.reaches, ViewerEnvelope.received, CLOSE_KICKED]
      · simp [Output.reaches, hne]

-- only the host is told something
theorem Mirrored.heard {op : HubOp} {m : ServerToHost} {ws : Nat} {out : List Output}
    (hs : Seats w d r) (hdel : d.delivers op = [.toHost m]) (hseats : Seats w (d.next op) r')
    (hlog : r'.log = r.log ++ .sent w.host m.frame ws :: out) (hawaits : r'.awaits w.host = true)
    (hout : ∀ ws, r'.awaits ws = true → out.filterMap (Output.reaches ws) = []) :
    Mirrored w d r r' op where
  seats := hseats
  host := by
    rw [hdel, Room.hears_eq hlog, if_pos hawaits, List.filterMap_cons, hout _ hawaits]
    simp [Output.reaches, Delivery.host]
  viewer i := by
    have hne : ¬ w.host = w.first + i := fun h => hs.ne_host i h.symm
    rw [hdel, Room.hears_eq hlog]
    split
    · rename_i h
      rw [List.filterMap_cons, hout _ h]
      simp [Output.reaches, hne, Delivery.viewer]
    · rfl

theorem viewerFrame_parse (data : Text) : ∃ msg,
    parse (.text (ViewerToServer.relay data).json) = some msg ∧ relayData msg = some (utf16 data) := by
  refine ⟨_, parse_typed .., ?_⟩
  rw [relayData, hasType, stringField_fields, stringField_fields]
  rfl

theorem mirrored_viewerSend (hs : Seats w d r) {i : Nat} (hi : i < d.joined) {m : ViewerToServer}
    (hsize : (Frame.text m.json).size ≤ MAX_MESSAGE_BYTES) :
    Mirrored w d r (r.perform subtle w (.viewerSend i m)) (.viewerSend i m) := by
  obtain ⟨data⟩ := m
  obtain ⟨msg, hmsg, hrelay⟩ := viewerFrame_parse data
  obtain ⟨s, a, hget, ha⟩ := hs.viewer_attachment hi
  have hatt : r.attachment (w.first + i) = some (.viewer a) := by
    rw [Room.attachment, hget, Option.map_some, ha]
  have hhandle : r.handle subtle (.message (w.first + i) (.text (ViewerToServer.relay data).json)) =
      r.onViewerMessage (w.first + i) msg := by
    change r.webSocketMessage (w.first + i) (.text (ViewerToServer.relay data).json) = _
    rw [Room.webSocketMessage, if_neg (by omega), hmsg]
    dsimp only
    rw [hatt]
  have hseat : r.openViewer = some (w.first + i) ↔ d.current = some i := by
    rw [hs.openViewer]
    cases d.current <;> simp
  by_cases hc : d.current = some i
  · have hm := (hs.held i hc).1
    have hplain := perform_plain subtle w hs.plain (.viewerSend i (.relay data))
    have hd : r.delivers (.message (w.first + i) (.text (ViewerToServer.relay data).json)) = true :=
      hs.plain.awaits (hs.viewer_isOpen hc)
    rw [perform_of_delivers rfl hd, hhandle, Room.onViewerMessage, if_pos (hseat.mpr hc), hrelay,
      hs.authed hm] at hplain ⊢
    have ho := (Shape.send_of_isOpen (hs.host_isOpen hm) (.relay (utf16 data)) (w.first + i)).toOutline
    have hseats : Seats w d (r.send w.host (.relay (utf16 data)) (w.first + i)) :=
      hs.outline ho hplain rfl (by simp) (by simp) fun j hj => (hs.held j hj).1
    exact .heard hs (if_pos hc) hseats ho.log
      (Room.Plain.awaits hplain ((ho.isOpen _).mpr ⟨hs.host_isOpen hm, id⟩)) fun _ _ => rfl
  · have hsame : r.perform subtle w (.viewerSend i (.relay data)) = r := by
      change (if r.delivers _ then _ else _) = _
      rw [hhandle, Room.onViewerMessage, if_neg (fun h => hc (hseat.mp h)), ite_self]
    rw [hsame]
    exact .quiet hs rfl (if_neg hc)

theorem gone_ends (gone : Gone) (ws : Nat) : (gone.event ws).ends = some ws := by
  cases gone <;> rfl

theorem delivers_gone (r : Room) (gone : Gone) (ws : Nat) :
    r.delivers (gone.event ws) = r.awaits ws := by
  cases gone <;> rfl

theorem silent_reply {rest : List Output} {ws : Nat} (h : r'.awaits ws = false)
    (hrest : ∀ o ∈ rest, ∃ code, o = .closed ws code ws) (ws' : Nat) (hw : r'.awaits ws' = true) :
    rest.filterMap (Output.reaches ws') = [] := by
  refine List.filterMap_eq_nil_iff.mpr fun o ho => ?_
  obtain ⟨code, rfl⟩ := hrest o ho
  have hne : ws ≠ ws' := by
    rintro rfl
    simp [h] at hw
  exact if_neg hne

theorem mirrored_hostDrop (hs : Seats w d r) (hm : d.manned = true) (gone : Gone) :
    Mirrored w d r (r.perform subtle w (.hostDrop gone)) (.hostDrop gone) := by
  have hends := gone_ends gone w.host
  have hplain := perform_plain subtle w hs.plain (.hostDrop gone)
  have hhost : r.awaits w.host = true := hs.plain.awaits (hs.host_isOpen hm)
  have hawaits := r.awaits_gone hends
  obtain ⟨att, hatt, hauthed⟩ := hs.host_attachment hm
  have hgone : (r.finish w.host).onGone w.host = (r.finish w.host).hostGone w.host w.host := by
    rw [Room.onGone, Room.attachment_finish, hatt]
    exact if_pos hauthed
  rw [perform_of_delivers rfl ((delivers_gone r gone w.host).trans hhost),
    Room.handle_gone subtle hends, hgone] at hplain ⊢
  rw [hgone] at hawaits
  have hf := fades_hostEnded (Room.ready_iff.mp (Room.ready_of_authedHost (hs.authed hm))).2
  obtain ⟨rest, hfades, hrest⟩ := hf.answer hends (.inl rfl) (Room.lt_of_awaits hhost)
  have hself : (((r.finish w.host).hostGone w.host w.host).answer (gone.event w.host)).awaits
      w.host = false := by
    rw [hawaits, if_pos rfl]
  have hquiet := silent_reply hself hrest
  have hseats : Seats w { d with current := none, manned := false }
      (((r.finish w.host).hostGone w.host w.host).answer (gone.event w.host)) := by
    refine hs.outline hfades.toOutline hplain rfl (fun i => ?_) (fun h => by cases h) (by simp)
    simp only [reduceCtorEq, false_iff, not_and, not_not]
    intro hc
    exact .inr (by rw [hs.openViewer, hc]; rfl)
  have hlog := hfades.log
  rw [hs.openViewer] at hlog
  cases hc : d.current with
  | none =>
      rw [hc] at hlog
      exact .silent (by rw [Switchboard.delivers, Switchboard.toCurrent, hc]) hseats hlog hquiet
  | some i =>
      rw [hc] at hlog
      have hopen : (((r.finish w.host).hostGone w.host w.host).answer (gone.event w.host)).awaits
          (w.first + i) = true := by
        rw [hawaits, if_neg (hs.ne_host i).symm]
        exact hs.plain.awaits (hs.viewer_isOpen hc)
      refine .told hs hc rfl hseats hlog ?_ hopen fun ws hne hws => ?_
      · rw [List.filterMap_append, hquiet _ hopen]
        simp [Shape.goneOutput, Output.reaches, ViewerEnvelope.received, ServerToViewer.frame,
          CLOSE_HOST_LEFT]
      · rw [List.filterMap_append, hquiet ws hws]
        simp [Shape.goneOutput, Output.reaches, hne]

-- the close or error event of a viewer's socket
theorem viewer_gone (hs : Seats w d r) {i : Nat} (hi : i < d.joined)
    (hd : r.awaits (w.first + i) = true) {e : Event} (he : e.ends = some (w.first + i)) :
    r.handle subtle e = (if d.current = some i
      then (r.finish (w.first + i)).send w.host .viewerLeft (w.first + i)
      else r.finish (w.first + i)).answer e := by
  obtain ⟨s, a, hget, ha⟩ := hs.viewer_attachment hi
  have hended : s.ended = false := by simpa [Room.awaits, hget] using hd
  have hflag := (hs.plain _ s hget).2 a ha hended
  have hviewing : r.viewing (w.first + i) = s.isOpen := by
    simp [Room.viewing, hget, Socket.openViewer, ha]
  have hseat : s.isOpen = true ↔ d.current = some i := by rw [← hviewing, hs.viewing_at]
  have hatt : r.attachment (w.first + i) = some (.viewer a) := by
    rw [Room.attachment, hget, Option.map_some, ha]
  rw [Room.handle_gone subtle he, Room.onGone, Room.attachment_finish, hatt]
  dsimp only
  by_cases hc : d.current = some i
  · have hhost := hs.authed (hs.held i hc).1
    have hready := ((Shape.finish r (w.first + i)).ready w.host).mpr
      ⟨Room.ready_of_authedHost hhost, (hs.ne_host i).symm, id⟩
    have hkept : (r.finish (w.first + i)).authedHost = some w.host :=
      Room.authedHost_kept hhost hready fun j hj _ => (((Shape.finish r _).ready j).mp hj).1
    rw [if_pos hc, if_neg (by simp [hflag, hseat.mpr hc]), hkept]
  · have hclosed : s.isOpen = false := by simpa using fun h => hc (hseat.mp h)
    rw [if_neg hc, if_pos (by simp [hflag, hclosed])]

theorem mirrored_echo (hs : Seats w d r) {i : Nat} (hi : i < d.joined)
    (hc : d.current ≠ some i) {op : HubOp} (gone : Gone)
    (hop : w.event op = some (gone.event (w.first + i))) (hnext : d.next op = d)
    (hdel : d.delivers op = []) : Mirrored w d r (r.perform subtle w op) op := by
  have hends := gone_ends gone (w.first + i)
  cases hd : r.awaits (w.first + i) with
  | false =>
      have hsame : r.perform subtle w op = r := by
        rw [Room.perform, hop]
        exact if_neg (by simp [delivers_gone, hd])
      rw [hsame]
      exact .quiet hs hnext hdel
  | true =>
      have hplain := perform_plain subtle w hs.plain op
      have hawaits := r.awaits_gone hends (w.first + i)
      rw [← Room.handle_gone subtle hends, if_pos rfl, viewer_gone hs hi hd hends,
        if_neg hc] at hawaits
      rw [perform_of_delivers hop ((delivers_gone r gone _).trans hd),
        viewer_gone hs hi hd hends, if_neg hc] at hplain ⊢
      obtain ⟨rest, hfades, hrest⟩ := fades_finish.answer hends rfl (Room.lt_of_awaits hd)
      refine .silent hdel ?_ hfades.log (silent_reply hawaits hrest)
      rw [hnext]
      refine hs.outline hfades.toOutline hplain rfl (fun j => ?_) (fun h => ⟨h, ?_, id⟩)
        fun j hj => (hs.held j hj).1
      · refine ⟨fun hj => ⟨hj, fun heq => ?_⟩, And.left⟩
        exact hc (Nat.add_left_cancel heq ▸ hj)
      · exact (hs.ne_host i).symm

theorem mirrored_viewerDrop (hs : Seats w d r) {i : Nat} (hi : i < d.joined) (gone : Gone) :
    Mirrored w d r (r.perform subtle w (.viewerDrop i gone)) (.viewerDrop i gone) := by
  by_cases hc : d.current = some i
  · have hends := gone_ends gone (w.first + i)
    have hm := (hs.held i hc).1
    have hd := hs.plain.awaits (hs.viewer_isOpen hc)
    have hplain := perform_plain subtle w hs.plain (.viewerDrop i gone)
    have hawaits := r.awaits_gone hends
    simp only [← Room.handle_gone subtle hends, viewer_gone hs hi hd hends, if_pos hc]
      at hawaits
    rw [perform_of_delivers rfl ((delivers_gone r gone _).trans hd),
      viewer_gone hs hi hd hends, if_pos hc] at hplain ⊢
    have hopen : (r.finish (w.first + i)).isOpen w.host = true :=
      ((Shape.finish r _).isOpen _).mpr ⟨hs.host_isOpen hm, (hs.ne_host i).symm⟩
    rw [Room.send_eq hopen] at hplain hawaits ⊢
    obtain ⟨rest, hfades, hrest⟩ := (fades_viewerEnded r (w.first + i) w.host).answer hends rfl
      (Room.lt_of_awaits hd)
    refine .heard hs (if_pos hc) ?_ hfades.log ?_ (silent_reply ?_ hrest)
    · rw [Switchboard.next, if_pos hc]
      refine hs.outline hfades.toOutline hplain rfl (fun j => ?_) (fun h => ⟨h, ?_, id⟩) (by simp)
      · simp only [reduceCtorEq, false_iff, not_and, not_not]
        intro hj
        rw [Option.some.inj (hj.symm.trans hc)]
      · exact (hs.ne_host i).symm
    · rw [hawaits, if_neg (hs.ne_host i)]
      exact hs.plain.awaits (hs.host_isOpen hm)
    · rw [hawaits, if_pos rfl]
  · exact mirrored_echo hs hi hc gone rfl (if_neg hc) (if_neg hc)

theorem perform_mirrors (subtle : SubtleVerify) (hs : Seats w d r) {op : HubOp}
    (hp : d.permits op) (hsmall : op.Small) :
    Mirrored w d r (r.perform subtle w op) op := by
  cases op with
  | viewer => exact mirrored_viewer hs hp
  | hostSend m =>
      cases m with
      | auth sig => exact absurd rfl (hp.2 sig)
      | relay data => exact mirrored_relay hs hp.1 hsmall
      | kick => exact mirrored_kick hs hp.1 hsmall
  | hostRecv => exact .quiet hs rfl rfl
  | hostDrop gone => exact mirrored_hostDrop hs hp gone
  | viewerSend i m => exact mirrored_viewerSend hs hp hsmall
  | viewerRecv i => exact .quiet hs rfl rfl
  | viewerDrop i gone => exact mirrored_viewerDrop hs hp gone
  | echo i gone => exact mirrored_echo hs hp.1 hp.2 gone rfl rfl rfl

end

-- the links of the hub are sent what the sockets of the room are sent, and their readers get it
structure Mirrors (subtle : SubtleVerify) (w : Seating) (r : Room) (ops : List HubOp) : Prop where
  unbroken : Runs.Along Hub.next (fun hub op => (hub.step op).isSome = true) .new ops
  host : (ops.foldl Hub.next .new).host.rx.sent.map (fun m => .frame m.frame) =
    r.inbox subtle w w.host ops
  viewer : ∀ i, ((ops.foldl Hub.next .new).sentTo i).map ViewerEnvelope.received =
    r.inbox subtle w (w.first + i) ops
  reads : ∀ (i : Nat) (l : FakeViewerLink), (ops.foldl Hub.next .new).links[i]? = some l →
    l.dropped = false → ((ops.foldl Hub.next .new).viewerRecv i l).1 = l.upcoming

structure Alike (w : Seating) (r : Room) (hub : Hub) : Prop where
  sound : hub.Sound
  seats : Seats w hub.desk r

theorem alike_new {subtle : SubtleVerify} {w : Seating} {r : Room}
    (hr : Room.Steps subtle Room.anyEvent .new r) (hfirst : w.first = r.sockets.length)
    (hhost : r.authedHost = some w.host) (hvacant : r.openViewer = none) : Alike w r .new where
  sound := Hub.sound_new
  seats := by
    refine ⟨plain_steps hr, hfirst.symm, ?_, fun i hi => ?_, fun ws => ?_, fun _ => hhost,
      fun i hi => ?_⟩
    · rw [hfirst]
      exact Room.lt_of_isOpen (Room.isOpen_of_ready (Room.ready_of_authedHost hhost))
    · cases hi
    · rw [Room.not_viewing_of_openViewer hvacant]
      simp [Hub.desk, Hub.new]
    · cases hi

theorem Alike.step (subtle : SubtleVerify) {w : Seating} {r : Room} {hub : Hub}
    (h : Alike w r hub) {op : HubOp} (hp : hub.permits op) (hsmall : op.Small) :
    Alike w (r.perform subtle w op) (hub.next op) ∧ Hub.Moved hub (hub.next op) op ∧
      Mirrored w hub.desk r (r.perform subtle w op) op := by
  have hmoved := (Hub.next_moves h.sound hp).2
  have hmirrored := perform_mirrors subtle h.seats (Hub.desk_permits hp) hsmall
  exact ⟨⟨hmoved.sound, hmoved.desk ▸ hmirrored.seats⟩, hmoved, hmirrored⟩

theorem hub_mirrors_room {subtle : SubtleVerify} {w : Seating} {r : Room}
    (hr : Room.Steps subtle Room.anyEvent .new r) (hfirst : w.first = r.sockets.length)
    (hhost : r.authedHost = some w.host) (hvacant : r.openViewer = none) {ops : List HubOp}
    (hops : Runs.Along Hub.next (fun hub op => hub.permits op ∧ op.Small) .new ops) :
    Mirrors subtle w r ops := by
  have hstart := alike_new hr hfirst hhost hvacant
  have hpermits : Runs.Along Hub.next Hub.permits .new ops := hops.mono fun _ _ h => h.1
  have hsound : (ops.foldl Hub.next .new).Sound :=
    hpermits.invariant (fun hub _ (hs : hub.Sound) hp => (Hub.next_moves hs hp).2.sound)
      Hub.sound_new
  refine ⟨?_, ?_, fun i => ?_, fun i l hl hd => (hsound.reads hl hd).1⟩
  · refine hpermits.imp (fun hub op (hs : hub.Sound) hp => ?_) Hub.sound_new
    obtain ⟨hsome, hmoved⟩ := Hub.next_moves hs hp
    exact ⟨hmoved.sound, hsome⟩
  · refine Runs.gathers (fun hub : Hub => hub.host.rx.sent.map fun m => Received.frame m.frame)
      (fun r op => r.hears (r.perform subtle w op) w.host) (fun r hub op h hp => ?_) hstart hops
    obtain ⟨hnext, hmoved, hmirrored⟩ := h.step subtle hp.1 hp.2
    refine ⟨hnext, ?_⟩
    rw [hmoved.host, List.map_append, hmirrored.host]
  · refine Runs.gathers (fun hub : Hub => (hub.sentTo i).map ViewerEnvelope.received)
      (fun r op => r.hears (r.perform subtle w op) (w.first + i)) (fun r hub op h hp => ?_) hstart hops
    obtain ⟨hnext, hmoved, hmirrored⟩ := h.step subtle hp.1 hp.2
    refine ⟨hnext, ?_⟩
    rw [hmoved.viewer, List.map_append, hmirrored.viewer]

def sampleSeating : Seating := ⟨0, 1, "123456789".toList, filled 32 0⟩

-- one viewer is kicked and speaks on, one leaves, and the host leaves the third
def sampleOps : List HubOp :=
  [.hostSend (.relay "00".toList), .viewer, .hostSend (.relay "aBcd".toList),
    .viewerSend 0 (.relay "ef01".toList), .viewerRecv 0, .hostRecv, .hostSend .kick,
    .viewerSend 0 (.relay "02".toList), .viewer, .viewerSend 0 (.relay "03".toList),
    .echo 0 (.close 4001), .viewerSend 1 (.relay "04".toList), .viewerDrop 0 .error,
    .viewerDrop 1 (.close 1005), .hostSend .kick, .viewer, .viewerRecv 2, .hostDrop (.close 1006),
    .viewerRecv 2, .viewerRecv 2, .viewerRecv 2]

theorem sample_hub_mirrors_room :
    Mirrors sampleSubtle sampleSeating (roomAfter sampleRegister) sampleOps := by
  have hplay : Room.new.play sampleSubtle Room.anyEvent sampleRegister =
      some (roomAfter sampleRegister) := by
    decide +kernel
  exact hub_mirrors_room (Room.steps_of_play sampleSubtle Room.anyEvent hplay)
    (by decide +kernel) (by decide +kernel) (by decide +kernel) (by decide +kernel)

theorem relay_size (data : Text) : data.length < (Frame.text (ViewerToServer.relay data).json).size := by
  have hquote := length_lt_quote data
  have hlen : (quote (utf16 data)).length ≤ (ViewerToServer.relay data).json.length := by
    simp only [ViewerToServer.json, typed, stringify, stringifyFields, stringifyField,
      List.length_cons, List.length_append]
    omega
  exact hquote.trans_le (hlen.trans (length_le_utf8 _))

-- a relay beyond the limit of the room reaches the host of the hub only
theorem oversized_relay {subtle : SubtleVerify} {w : Seating} {r : Room}
    (hr : Room.Steps subtle Room.anyEvent .new r) (hfirst : w.first = r.sockets.length)
    (hhost : r.authedHost = some w.host) (hvacant : r.openViewer = none) {data : Text}
    (hsize : MAX_MESSAGE_BYTES < (Frame.text (ViewerToServer.relay data).json).size) :
    ¬ Mirrors subtle w r [.viewer, .viewerSend 0 (.relay data)] := by
  intro h
  have hpermits : Hub.new.permits .viewer := ⟨rfl, rfl⟩
  obtain ⟨halike, -, hviewer⟩ := (alike_new hr hfirst hhost hvacant).step subtle hpermits trivial
  have hseats := halike.seats
  have hopen := hseats.viewer_isOpen (i := 0) rfl
  have hd : (r.perform subtle w .viewer).delivers
      (.message (w.first + 0) (.text (ViewerToServer.relay data).json)) = true :=
    hseats.plain.awaits hopen
  have hclosed : (r.perform subtle w .viewer).perform subtle w (.viewerSend 0 (.relay data)) =
      (r.perform subtle w .viewer).closeFromServer (w.first + 0) CLOSE_TOO_BIG (w.first + 0) := by
    rw [perform_of_delivers rfl hd]
    exact if_pos hsize
  have hlog := (Shape.closeFromServer (r.perform subtle w .viewer) (w.first + 0) CLOSE_TOO_BIG
    (w.first + 0)).log
  have hnothing : (r.perform subtle w .viewer).hears
      ((r.perform subtle w .viewer).perform subtle w (.viewerSend 0 (.relay data))) w.host = [] := by
    have hne : ¬ w.first = w.host := hseats.ne_host 0
    rw [hclosed, Room.hears_eq hlog]
    simp [Output.reaches, hne]
  have hinbox : r.inbox subtle w w.host [.viewer, .viewerSend 0 (.relay data)] =
      [.frame .viewerJoined] := by
    rw [Room.inbox, Runs.trace, Runs.trace, Runs.trace, hnothing, hviewer.host]
    rfl
  have hhub := h.host
  rw [hinbox] at hhub
  have hlength : 2 = 1 := congrArg List.length hhub
  omega

theorem long_relay_diverges : ¬ ∀ (subtle : SubtleVerify) (w : Seating) (r : Room)
    (ops : List HubOp), Room.Steps subtle Room.anyEvent .new r → w.first = r.sockets.length →
    r.authedHost = some w.host → r.openViewer = none →
    Runs.Along Hub.next Hub.permits .new ops → Mirrors subtle w r ops := by
  intro h
  have hplay : Room.new.play sampleSubtle Room.anyEvent sampleRegister =
      some (roomAfter sampleRegister) := by
    decide +kernel
  have hr := Room.steps_of_play sampleSubtle Room.anyEvent hplay
  have hfirst : sampleSeating.first = (roomAfter sampleRegister).sockets.length := by decide +kernel
  have hhost : (roomAfter sampleRegister).authedHost = some sampleSeating.host := by decide +kernel
  have hvacant : (roomAfter sampleRegister).openViewer = none := by decide +kernel
  have hsize := relay_size (List.replicate MAX_MESSAGE_BYTES 'a')
  rw [List.length_replicate] at hsize
  exact oversized_relay hr hfirst hhost hvacant hsize
    (h sampleSubtle sampleSeating _ _ hr hfirst hhost hvacant ⟨⟨rfl, rfl⟩, rfl, trivial⟩)

end Signaling

end SimpleRemote
