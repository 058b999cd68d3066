import SimpleRemote.Library.Runs
import SimpleRemote.Signaling.Notices

namespace SimpleRemote.Signaling
open ByteCodec Json

def Delivered (r : Room) (e : Event) : Prop := r.delivers e = true

instance (r : Room) (e : Event) : Decidable (Delivered r e) := inferInstanceAs (Decidable (_ = _))

def Event.ends : Event → Option Nat
  | .close ws _ => some ws
  | .error ws => some ws
  | _ => none

namespace Room

def admits (subtle : SubtleVerify) (r : Room) (p : Pending) : Bool :=
  verifyEd25519 subtle p.att.key p.sig p.signed && (r.owner.all (· = p.att.key))

-- the reply to a close event
def answer (r : Room) : Event → Room
  | .close ws code => r.close ws (if code = 1005 ∨ code = 1006 then 1000 else code) ws
  | _ => r

-- the await of the `i`-th suspended authentication is over
def resumed (r : Room) (i : Nat) (owner : Option Text) (out : List Output) : Room :=
  ⟨owner, r.sockets, r.pending.eraseIdx i, r.log ++ out⟩

def news (r r' : Room) : List Output := r'.log.drop r.log.length

def challenged (r : Room) (nonce key id : Text) (claim : Bool) : Room :=
  (r.accept (.host ⟨false, nonce, key, id⟩) claim).emit
    (.sent r.sockets.length (.challenge nonce id) r.sockets.length)

def joined (r : Room) (host : Nat) : Room :=
  ((r.accept (.viewer ⟨false⟩) false).emit
    (.sent r.sockets.length .joined r.sockets.length)).emit
    (.sent host .viewerJoined r.sockets.length)

theorem challenged_log (r : Room) (nonce key id : Text) (claim : Bool) :
    (r.challenged nonce key id claim).log = r.log ++ [.accepted r.sockets.length claim,
      .sent r.sockets.length (.challenge nonce id) r.sockets.length] :=
  List.append_assoc ..

theorem joined_log (r : Room) (host : Nat) :
    (r.joined host).log = r.log ++ [.accepted r.sockets.length false,
      .sent r.sockets.length .joined r.sockets.length,
      .sent host .viewerJoined r.sockets.length] := by
  simp [joined, emit, accept]

theorem news_eq {r r' : Room} {out : List Output} (h : r'.log = r.log ++ out) :
    r.news r' = out := by
  rw [news, h, List.drop_left]

end Room

section
variable {r : Room}

theorem Room.viewing_challenged {nonce key id : Text} {claim : Bool} {v : Nat}
    (hv : (r.challenged nonce key id claim).viewing v = true) : r.viewing v = true := by
  have hs : (r.challenged nonce key id claim).sockets =
      (r.accept (.host ⟨false, nonce, key, id⟩) claim).sockets := rfl
  obtain ⟨ho, hbase⟩ := Room.viewing_iff.mp hv
  rw [Room.isOpen_accepted hs] at ho
  rw [Room.base_accepted hs] at hbase
  split at ho
  · rename_i heq
    rw [if_pos heq] at hbase
    cases hbase
  · rename_i hne
    rw [if_neg hne] at hbase
    exact Room.viewing_iff.mpr ⟨ho, hbase⟩

theorem Room.viewing_joined {host v : Nat} (hnone : r.openViewer = none)
    (hv : (r.joined host).viewing v = true) : v = r.sockets.length := by
  have hs : (r.joined host).sockets = (r.accept (.viewer ⟨false⟩) false).sockets := rfl
  obtain ⟨ho, hbase⟩ := Room.viewing_iff.mp hv
  by_contra hne
  rw [Room.isOpen_accepted hs, if_neg hne] at ho
  rw [Room.base_accepted hs, if_neg hne] at hbase
  have := Room.not_viewing_of_openViewer hnone v
  simp [Room.viewing_iff.mpr ⟨ho, hbase⟩] at this

end

-- what an authentication writes before it is accepted or refused
def Checked (p : Pending) (out : List Output) : Prop :=
  ∀ o ∈ out, o = .verified p.ws p.sig ∨ o = .ownerPut p.ws p.att.key

-- what a step of the room can be, case by case
inductive Did (subtle : SubtleVerify) (r : Room) : Event → Room → Prop
  | refused {request random} : Did subtle r (.fetch request random) r
  | host {request random} (nonce key id : Text) (claim : Bool) :
      Did subtle r (.fetch request random) (r.challenged nonce key id claim)
  | viewer {request random} {host : Nat} (hhost : r.authedHost = some host)
      (hnone : r.openViewer = none) :
      Did subtle r (.fetch request random) (r.joined host)
  | dropped {ws frame} (hidle : r.marked ws = true → r.openViewer = none ∨
      frame.isRelay = false ∧ frame.isKick = false) : Did subtle r (.message ws frame) r
  | bad {ws frame} (code : Nat) (hkick : code ≠ CLOSE_KICKED) (hcode : code ≠ CLOSE_REPLACED)
      (hframe : r.marked ws = true → frame.isRelay = false ∧ frame.isKick = false) :
      Did subtle r (.message ws frame) (r.closeFromServer ws code ws)
  | down {ws frame} {viewer : Nat} (data : Utf16) (hm : r.marked ws = true)
      (hframe : frame.isRelay = true) (hviewer : r.openViewer = some viewer) :
      Did subtle r (.message ws frame) (r.emit (.sent viewer (.relay data) ws))
  | kicked {ws frame} {viewer : Nat} (hm : r.marked ws = true) (hframe : frame.isKick = true)
      (hviewer : r.openViewer = some viewer) :
      Did subtle r (.message ws frame) (r.closeFromServer viewer CLOSE_KICKED ws)
  | up {ws frame} {host : Nat} (data : Utf16) (hviewer : r.openViewer = some ws)
      (hhost : r.authedHost = some host) :
      Did subtle r (.message ws frame) (r.emit (.sent host (.relay data) ws))
  | suspended {ws frame} {p : Pending} (hws : p.ws = ws) (hm : r.marked ws = false) :
      Did subtle r (.message ws frame) { r with pending := r.pending ++ [p] }
  | failed {i} {p : Pending} {out : List Output} (hp : r.pending[i]? = some p)
      (hbad : r.admits subtle p = false) (hout : Checked p out) :
      Did subtle r (.verified i) ((r.resumed i r.owner out).closeFromServer p.ws CLOSE_AUTH p.ws)
  | registered {i} {p : Pending} {out : List Output} (hp : r.pending[i]? = some p)
      (hgood : r.admits subtle p = true) (hout : Checked p out) :
      Did subtle r (.verified i) ((r.resumed i (some p.att.key) out).register p)
  | hostEnded {e ws} (he : e.ends = some ws) (hm : r.marked ws = true) :
      Did subtle r e (((r.finish ws).hostGone ws ws).answer e)
  | viewerEnded {e ws} {host : Nat} (he : e.ends = some ws) (hb : r.base ws = none)
      (hhost : (r.finish ws).authedHost = some host) :
      Did subtle r e (((r.finish ws).emit (.sent host .viewerLeft ws)).answer e)
  | ended {e ws} (he : e.ends = some ws) (hm : r.marked ws = false) :
      Did subtle r e ((r.finish ws).answer e)

section
variable {subtle : SubtleVerify} {r : Room}

theorem Room.send_eq {ws : Nat} (h : r.isOpen ws = true) (frame : ServerFrame) (cause : Nat) :
    r.send ws frame cause = r.emit (.sent ws frame cause) := by
  rw [Room.send, if_pos h]

theorem Room.isOpen_of_ready {h : Nat} (hr : r.ready h = true) : r.isOpen h = true :=
  (Room.ready_iff.mp hr).1

theorem did_fetch (request : Request) (random : ByteArr 32) :
    Did subtle r (.fetch request random) (r.fetch request random).2 := by
  rw [Room.fetch]
  split
  · exact .refused
  · split
    · rw [Room.acceptHost]
      split
      · exact .refused
      · split
        · exact .refused
        · dsimp only
          rw [Room.send_accept]
          exact .host _ _ _ _
    · split
      · rw [Room.acceptViewer]
        split
        · exact .refused
        · rename_i host hhost
          split
          · exact .refused
          · rename_i hno
            dsimp only
            rw [Room.send_accept, Room.send_eq]
            · exact .viewer hhost (not_not.mp hno)
            · have hs : ((r.accept (.viewer ⟨false⟩) false).emit
                  (.sent r.sockets.length .joined r.sockets.length)).sockets =
                  (r.accept (.viewer ⟨false⟩) false).sockets := rfl
              have hopen := Room.isOpen_of_ready (Room.ready_of_authedHost hhost)
              rw [Room.isOpen_accepted hs, hopen]
              exact ite_self _
      · exact .refused

theorem did_host {ws : Nat} {frame : Frame} {att : HostAttachment} {msg : Value}
    (hatt : r.attachment ws = some (.host att)) (hmsg : frameMessage frame = some msg) :
    Did subtle r (.message ws frame) (r.onHostMessage ws att msg) := by
  have hm : r.marked ws = att.authed := Room.marked_of_attachment hatt
  have hrelay : frame.isRelay = (relayData msg).isSome := by simp [Frame.isRelay, hmsg]
  have hkick : frame.isKick = hasType msg "kick" := by simp [Frame.isKick, hmsg]
  rw [Room.onHostMessage]
  split
  · rename_i hauthed
    split
    · rename_i data hdata
      split
      · rename_i viewer hviewer
        rw [Room.send_eq (Room.isOpen_of_viewing (Room.viewing_of_openViewer hviewer))]
        exact .down data (hm.trans hauthed) (by rw [hrelay, hdata]; rfl) hviewer
      · rename_i hnone
        exact .dropped fun _ => .inl hnone
    · rename_i hdata
      split
      · rename_i hk
        split
        · rename_i viewer hviewer
          exact .kicked (hm.trans hauthed) (hkick.trans hk) hviewer
        · rename_i hnone
          exact .dropped fun _ => .inl hnone
      · rename_i hk
        refine .bad _ (by decide) (by decide) fun _ => ⟨?_, ?_⟩
        · rw [hrelay, hdata]
          rfl
        · rw [hkick]
          simpa using hk
  · rename_i hauthed
    have hm' : r.marked ws = false := hm.trans (by simpa using hauthed)
    have hnot (h : r.marked ws = true) : frame.isRelay = false ∧ frame.isKick = false := by
      simp [hm'] at h
    split
    · rw [Room.authenticate]
      split
      · exact .bad _ (by decide) (by decide) hnot
      · exact .suspended rfl hm'
    · exact .bad _ (by decide) (by decide) hnot

theorem did_viewer {ws : Nat} {frame : Frame} {msg : Value} (hm : r.marked ws = false) :
    Did subtle r (.message ws frame) (r.onViewerMessage ws msg) := by
  have hnot (h : r.marked ws = true) : frame.isRelay = false ∧ frame.isKick = false := by
    simp [hm] at h
  rw [Room.onViewerMessage]
  split
  · rename_i hviewer
    split
    · rename_i data _
      split
      · rename_i host hhost
        rw [Room.send_eq (Room.isOpen_of_ready (Room.ready_of_authedHost hhost))]
        exact .up data hviewer hhost
      · exact .dropped fun h => .inr (hnot h)
    · exact .bad _ (by decide) (by decide) hnot
  · exact .dropped fun h => .inr (hnot h)

theorem Room.not_marked_of_viewer {ws : Nat} (h : ∀ a, r.attachment ws ≠ some (.host a)) :
    r.marked ws = false := by
  by_contra hm
  obtain ⟨c, hc⟩ := Option.isSome_iff_exists.mp (Room.base_of_marked (Bool.not_eq_false _ ▸ hm))
  obtain ⟨a, ha⟩ := Room.attachment_of_base hc
  exact h a ha

theorem did_message (ws : Nat) (frame : Frame) :
    Did subtle r (.message ws frame) (r.webSocketMessage ws frame) := by
  have hunread (hmsg : frameMessage frame = none) : frame.isRelay = false ∧ frame.isKick = false := by
    simp [Frame.isRelay, Frame.isKick, hmsg]
  rw [Room.webSocketMessage]
  split
  · rename_i hsize
    exact .bad _ (by decide) (by decide) fun _ => hunread (if_pos hsize)
  · rename_i hsize
    have hparse := frameMessage_eq hsize
    split
    · rename_i hnone
      exact .bad _ (by decide) (by decide) fun _ => hunread (hparse.trans hnone)
    · rename_i msg hmsg
      split
      · rename_i hatt
        exact did_host hatt (hparse.trans hmsg)
      · rename_i hnot
        exact did_viewer (Room.not_marked_of_viewer fun a ha => hnot a ha)

theorem did_verified {i : Nat} {p : Pending} (hp : r.pending[i]? = some p) :
    Did subtle r (.verified i) ({ r with pending := r.pending.eraseIdx i }.resume subtle p) := by
  rw [Room.resume]
  split
  · rename_i hv
    have hverified : Checked p [.verified p.ws p.sig] := by simp [Checked]
    rw [Room.bind]
    split
    · rename_i owner howner
      change r.owner = some owner at howner
      split
      · rename_i hne
        exact .failed hp (by simp [Room.admits, howner, hne]) hverified
      · rename_i heq
        obtain rfl := not_not.mp heq
        have hsame : ({ r with pending := r.pending.eraseIdx i }.emit (.verified p.ws p.sig)) =
            r.resumed i (some p.att.key) [.verified p.ws p.sig] := by
          rw [Room.resumed, ← howner, Room.emit]
        rw [hsame]
        exact .registered hp (by simp [Room.admits, howner, hv]) hverified
    · rename_i howner
      change r.owner = none at howner
      have hput : (({ r with pending := r.pending.eraseIdx i }.emit
            (.verified p.ws p.sig)).putOwner p.ws p.att.key) =
          r.resumed i (some p.att.key) [.verified p.ws p.sig, .ownerPut p.ws p.att.key] := by
        simp [Room.putOwner, Room.emit, Room.resumed]
      rw [hput]
      exact .registered hp (by simp [Room.admits, howner, hv]) (by simp [Checked])
  · rename_i hv
    have hsame : ({ r with pending := r.pending.eraseIdx i } : Room) =
        r.resumed i r.owner [] := by
      rw [Room.resumed, List.append_nil]
    rw [hsame]
    exact .failed hp (by simp [Room.admits, hv]) (by simp [Checked])

theorem did_gone {e : Event} {ws : Nat} (he : e.ends = some ws) :
    Did subtle r e (((r.finish ws).onGone ws).answer e) := by
  rw [Room.onGone, Room.attachment_finish]
  split
  · rename_i att hatt
    have hm := Room.marked_of_attachment hatt
    split
    · rename_i hauthed
      exact .hostEnded he (hm.trans hauthed)
    · rename_i hauthed
      exact .ended he (hm.trans (by simpa using hauthed))
  · rename_i att hatt
    have hm : r.marked ws = false := Room.not_marked_of_viewer (by simp [hatt])
    split
    · exact .ended he hm
    · split
      · rename_i host hhost
        rw [Room.send_eq (Room.isOpen_of_ready (Room.ready_of_authedHost hhost))]
        refine .viewerEnded he ?_ hhost
        obtain ⟨s, hs, ha⟩ := Option.map_eq_some_iff.mp hatt
        rw [Room.base, hs, Option.bind_some, Socket.base, ha]
      · exact .ended he hm
  · rename_i hnone
    exact .ended he (Room.not_marked_of_viewer (by simp [hnone]))

theorem handle_did {e : Event} (hd : r.delivers e = true) : Did subtle r e (r.handle subtle e) := by
  cases e with
  | fetch request random => exact did_fetch request random
  | message ws frame => exact did_message ws frame
  | verified i =>
      have hlt : i < r.pending.length := by simpa [Room.delivers] using hd
      have hp : r.pending[i]? = some r.pending[i] := List.getElem?_eq_getElem hlt
      rw [Room.handle, hp]
      exact did_verified hp
  | close ws code => exact did_gone rfl
  | error ws => exact did_gone rfl

end

section
variable {r : Room}

-- the registered host whose place `ws` takes
def Room.displaced (r : Room) (ws : Nat) : Option Nat := r.authedHost.filter (· ≠ ws)

theorem Room.displaced_eq {ws previous : Nat} :
    r.displaced ws = some previous ↔ r.authedHost = some previous ∧ previous ≠ ws := by
  rw [displaced, Option.filter_eq_some_iff]
  simp

theorem Room.ready_of_displaced {ws previous : Nat} (h : r.displaced ws = some previous) :
    r.ready previous = true := ready_of_authedHost (displaced_eq.mp h).1

def replaceOutput (displaced viewer : Option Nat) (ws : Nat) : List Output :=
  match displaced with
  | some previous => Shape.goneOutput viewer ws ++ [.closed previous CLOSE_REPLACED ws]
  | none => []

theorem Shape.replace (r : Room) (ws : Nat) : Shape r (r.replace ws)
    (fun w => ∃ previous, r.displaced ws = some previous ∧ (r.openViewer = some w ∨ w = previous))
    (fun h => r.displaced ws = some h) (replaceOutput (r.displaced ws) r.openViewer ws) := by
  rw [Room.replace]
  split
  · rename_i previous hprevious
    split
    · rename_i hne
      have hdisplaced : r.displaced ws = some previous := Room.displaced_eq.mpr ⟨hprevious, hne⟩
      obtain ⟨c, hc⟩ := Option.isSome_iff_exists.mp
        (Room.base_of_ready (Room.ready_of_authedHost hprevious))
      rw [hdisplaced]
      have hclosed := Shape.closeFromServer (r.hostGone previous ws) previous CLOSE_REPLACED ws
      exact ((Shape.hostGone hc ws).trans hclosed).congr (by simp) (by simp [eq_comm])
    · rename_i heq
      have hnone : r.displaced ws = none := by
        rw [Room.displaced, hprevious]
        simpa using heq
      rw [hnone]
      exact (Shape.refl r).congr (by simp) (by simp)
  · rename_i hnone
    have hnone : r.displaced ws = none := by rw [Room.displaced, hnone]; rfl
    rw [hnone]
    exact (Shape.refl r).congr (by simp) (by simp)

namespace Room
variable {p : Pending}

theorem isOpen_mark (ws : Nat) : (r.mark p).isOpen ws = r.isOpen ws := by
  obtain ⟨hs, -, -⟩ := r.mark_eq p
  rw [isOpen, hs]
  exact isOpen_setAttachment ..

variable (hbase : r.base p.ws = some p.att.base)
include hbase

theorem base_mark (ws : Nat) : (r.mark p).base ws = r.base ws := by
  obtain ⟨hs, -, -⟩ := r.mark_eq p
  rw [base, hs]
  exact base_setAttachment (a := { p.att with authed := true }) hbase ws

theorem viewing_mark (ws : Nat) : (r.mark p).viewing ws = r.viewing ws := by
  rw [viewing_eq, isOpen_mark, base_mark hbase, viewing_eq]

theorem marked_mark (ws : Nat) :
    (r.mark p).marked ws = true ↔ ws = p.ws ∨ r.marked ws = true := by
  obtain ⟨hs, -, -⟩ := r.mark_eq p
  rw [marked, hs]
  constructor
  · exact marked_setAttachment
  · intro h
    by_cases hws : p.ws = ws
    · rw [← hws, setAttachment, sockets_update_self, List.getElem?_eq_getElem (lt_of_base hbase)]
      rfl
    · rw [setAttachment, sockets_update_of_ne _ _ hws]
      exact h.resolve_left (Ne.symm hws)

theorem ready_mark (ws : Nat) :
    (r.mark p).ready ws = true ↔ (ws = p.ws ∧ r.isOpen p.ws = true) ∨ r.ready ws = true := by
  rw [ready_iff, ready_iff, isOpen_mark, marked_mark hbase]
  constructor
  · rintro ⟨ho, rfl | hm⟩
    · exact .inl ⟨rfl, ho⟩
    · exact .inr ⟨ho, hm⟩
  · rintro (⟨rfl, ho⟩ | ⟨ho, hm⟩)
    · exact ⟨ho, .inl rfl⟩
    · exact ⟨ho, .inr hm⟩

end Room

end

-- sockets are shut and hosts unmarked, and no viewer is announced
structure Fades (r r' : Room) (shut unmarked : Nat → Prop) (out : List Output) : Prop
    extends Outline r r' shut unmarked out where
  unmarks : ∀ h, unmarked h → shut h
  joins : NoJoin out
  closes : ∀ ws code cause, .closed ws code cause ∈ out → shut ws ∧ ws < r.sockets.length

section
variable {r r' r'' : Room} {shut shut' unmarked unmarked' : Nat → Prop} {out out' : List Output}

theorem Fades.trans (h : Fades r r' shut unmarked out) (h' : Fades r' r'' shut' unmarked' out') :
    Fades r r'' (fun ws => shut ws ∨ shut' ws) (fun ws => unmarked ws ∨ unmarked' ws)
      (out ++ out') where
  toOutline := h.toOutline.trans h'.toOutline
  unmarks w hw := hw.imp (h.unmarks w) (h'.unmarks w)
  joins w v hmem := (List.mem_append.mp hmem).elim (h.joins w v) (h'.joins w v)
  closes ws code cause hmem := by
    rcases List.mem_append.mp hmem with hmem | hmem
    · obtain ⟨hshut, hlt⟩ := h.closes ws code cause hmem
      exact ⟨.inl hshut, hlt⟩
    · obtain ⟨hshut, hlt⟩ := h'.closes ws code cause hmem
      exact ⟨.inr hshut, h.length ▸ hlt⟩

theorem fades_still (hs : r'.sockets = r.sockets) (hlog : r'.log = r.log ++ out)
    (hjoin : NoJoin out) (hclosed : ∀ ws code cause, .closed ws code cause ∉ out) :
    Fades r r' nobody nobody out where
  toOutline := .of_sockets hs hlog
  unmarks _ h := h
  joins := hjoin
  closes ws code cause hmem := (hclosed ws code cause hmem).elim

theorem fades_closeFromServer {ws : Nat} (hlt : ws < r.sockets.length) (code cause : Nat) :
    Fades r (r.closeFromServer ws code cause) (· = ws) nobody [.closed ws code cause] where
  toOutline := (Shape.closeFromServer r ws code cause).toOutline
  unmarks _ h := h.elim
  joins := by simp [NoJoin]
  closes ws' code' cause' hmem := by
    have heq := List.mem_singleton.mp hmem
    simp only [Output.closed.injEq] at heq
    exact ⟨heq.1, heq.1 ▸ hlt⟩

theorem Room.answer_log (r : Room) {e : Event} {ws : Nat} (he : e.ends = some ws) :
    ∃ out, (r.answer e).log = r.log ++ out ∧ ∀ o ∈ out, ∃ code, o = .closed ws code ws := by
  cases e with
  | close ws' code =>
      obtain rfl : ws' = ws := Option.some.inj he
      exact ⟨_, rfl, fun o ho => ⟨_, List.mem_singleton.mp ho⟩⟩
  | _ => exact ⟨[], (List.append_nil _).symm, by simp⟩

theorem fades_finish {ws : Nat} : Fades r (r.finish ws) (· = ws) nobody [] where
  toOutline := (Shape.finish r ws).toOutline
  unmarks _ h := h.elim
  joins := by simp [NoJoin]
  closes _ _ _ h := by cases h

theorem Fades.answer (h : Fades r r' shut unmarked out) {e : Event} {ws : Nat}
    (he : e.ends = some ws) (hshut : shut ws) (hlt : ws < r.sockets.length) :
    ∃ rest, Fades r (r'.answer e) shut unmarked (out ++ rest) ∧
      ∀ o ∈ rest, ∃ code, o = .closed ws code ws := by
  cases e with
  | close ws' code =>
      obtain rfl : ws' = ws := Option.some.inj he
      have hreply : Fades r' (r'.answer (.close ws' code)) (· = ws') nobody
          [.closed ws' (if code = 1005 ∨ code = 1006 then 1000 else code) ws'] := by
        refine ⟨(Shape.close r' ws' _ ws').toOutline, fun _ h => h.elim, by simp [NoJoin],
          fun w code cause hmem => ?_⟩
        have heq := List.mem_singleton.mp hmem
        simp only [Output.closed.injEq] at heq
        rw [heq.1, h.length]
        exact ⟨rfl, hlt⟩
      have hall := h.trans hreply
      refine ⟨_, ⟨hall.toOutline.congr (fun w => ?_) (by simp), h.unmarks, hall.joins,
        fun w code cause hmem => ?_⟩, fun o ho => ⟨_, List.mem_singleton.mp ho⟩⟩
      · constructor
        · exact .inl
        · rintro (hw | rfl)
          · exact hw
          · exact hshut
      · obtain ⟨hw, hlt'⟩ := hall.closes w code cause hmem
        refine ⟨?_, hlt'⟩
        rcases hw with hw | rfl
        · exact hw
        · exact hshut
  | _ => exact ⟨[], (List.append_nil out).symm ▸ h, by simp⟩

theorem mem_gone {viewer : Option Nat} {cause ws code cause' : Nat}
    (hmem : .closed ws code cause' ∈ Shape.goneOutput viewer cause) : viewer = some ws := by
  cases viewer with
  | none => cases hmem
  | some v =>
      simp only [Shape.goneOutput, List.mem_cons, reduceCtorEq, Output.closed.injEq,
        List.not_mem_nil, or_false, false_or] at hmem
      rw [hmem.1]

theorem no_join_gone (viewer : Option Nat) (cause : Nat) :
    NoJoin (Shape.goneOutput viewer cause) := by
  cases viewer <;> simp [NoJoin, Shape.goneOutput]

theorem Room.lt_of_openViewer {viewer : Nat} (h : r.openViewer = some viewer) :
    viewer < r.sockets.length :=
  Room.lt_of_isOpen (Room.isOpen_of_viewing (Room.viewing_of_openViewer h))

theorem fades_hostEnded {ws : Nat} (hm : r.marked ws = true) :
    Fades r ((r.finish ws).hostGone ws ws) (fun w => w = ws ∨ r.openViewer = some w) (· = ws)
      (Shape.goneOutput r.openViewer ws) := by
  have hb := Room.base_of_marked hm
  obtain ⟨c, hc⟩ := Option.isSome_iff_exists.mp hb
  have hfinish := Shape.finish r ws
  have hgone := Shape.hostGone ((hfinish.base ws).trans hc) ws
  rw [Room.openViewer_finish hb] at hgone
  refine ⟨(hfinish.trans hgone).toOutline.congr (fun _ => Iff.rfl) (by simp), fun _ => .inl,
    no_join_gone _ _, fun w code cause hmem => ?_⟩
  have hviewer := mem_gone hmem
  exact ⟨.inr hviewer, Room.lt_of_openViewer hviewer⟩

theorem fades_viewerEnded (r : Room) (ws host : Nat) :
    Fades r ((r.finish ws).emit (.sent host .viewerLeft ws)) (· = ws) nobody
      [.sent host .viewerLeft ws] := by
  have hsent : Fades (r.finish ws) ((r.finish ws).emit (.sent host .viewerLeft ws)) nobody nobody
      [.sent host .viewerLeft ws] := fades_still rfl rfl (by simp [NoJoin]) (by simp)
  have hall := fades_finish.trans hsent
  exact ⟨hall.toOutline.congr (by simp) (by simp), fun _ h => h.elim, hall.joins,
    fun _ _ _ hmem => (by simp at hmem)⟩

theorem fades_resumed {p : Pending} (r : Room) (i : Nat) (owner : Option Text)
    (hout : Checked p out) : Fades r (r.resumed i owner out) nobody nobody out := by
  refine fades_still rfl rfl (fun h v hmem => ?_) fun ws code cause hmem => ?_
  · rcases hout _ hmem with heq | heq <;> cases heq
  · rcases hout _ hmem with heq | heq <;> cases heq

theorem fades_failed {p : Pending} (i : Nat) (owner : Option Text) (hout : Checked p out)
    (hlt : p.ws < r.sockets.length) (code : Nat) :
    Fades r ((r.resumed i owner out).closeFromServer p.ws code p.ws) (· = p.ws) nobody
      (out ++ [.closed p.ws code p.ws]) := by
  have hlt' : p.ws < (r.resumed i owner out).sockets.length := hlt
  have hall := (fades_resumed r i owner hout).trans (fades_closeFromServer hlt' code p.ws)
  have ho : Outline r ((r.resumed i owner out).closeFromServer p.ws code p.ws) (· = p.ws) nobody
      (out ++ [.closed p.ws code p.ws]) := hall.toOutline.congr (by simp) (by simp)
  exact ⟨ho, fun _ h => h.elim, hall.joins, fun w code' cause hmem => by
    simpa using hall.closes w code' cause hmem⟩

theorem fades_replace (r : Room) (ws : Nat) : Fades r (r.replace ws)
    (fun w => ∃ previous, r.displaced ws = some previous ∧ (r.openViewer = some w ∨ w = previous))
    (fun h => r.displaced ws = some h) (replaceOutput (r.displaced ws) r.openViewer ws) where
  toOutline := (Shape.replace r ws).toOutline
  unmarks h hd := ⟨h, hd, .inr rfl⟩
  joins := by
    intro h v hmem
    cases hd : r.displaced ws with
    | none => simp [hd, replaceOutput] at hmem
    | some previous =>
        rw [hd, replaceOutput, List.mem_append] at hmem
        rcases hmem with hmem | hmem
        · exact no_join_gone _ _ h v hmem
        · simp at hmem
  closes := by
    intro w code cause hmem
    cases hd : r.displaced ws with
    | none => simp [hd, replaceOutput] at hmem
    | some previous =>
        rw [hd, replaceOutput, List.mem_append] at hmem
        rcases hmem with hmem | hmem
        · exact ⟨⟨previous, rfl, .inl (mem_gone hmem)⟩, Room.lt_of_openViewer (mem_gone hmem)⟩
        · have heq := List.mem_singleton.mp hmem
          simp only [Output.closed.injEq] at heq
          have ho := Room.isOpen_of_ready (Room.ready_of_displaced hd)
          exact ⟨⟨previous, rfl, .inr heq.1⟩, heq.1 ▸ Room.lt_of_isOpen ho⟩

theorem fades_replaced {p : Pending} (r : Room) (i : Nat) (owner : Option Text)
    (hout : Checked p out) : Fades r ((r.resumed i owner out).replace p.ws)
      (fun w => ∃ previous, r.displaced p.ws = some previous ∧
        (r.openViewer = some w ∨ w = previous))
      (fun h => r.displaced p.ws = some h)
      (out ++ replaceOutput (r.displaced p.ws) r.openViewer p.ws) := by
  have hall := (fades_resumed r i owner hout).trans (fades_replace (r.resumed i owner out) p.ws)
  simp only [nobody, false_or] at hall
  exact hall

theorem register_log {p : Pending} (r : Room) (i : Nat) (owner : Option Text)
    (hout : Checked p out) : ∃ rest, ((r.resumed i owner out).register p).log =
        r.log ++ (out ++ replaceOutput (r.displaced p.ws) r.openViewer p.ws ++ rest) ∧
      ∀ o ∈ rest, o = .sent p.ws (.registered p.att.id) p.ws := by
  obtain ⟨rest, hmark, hrest⟩ := ((r.resumed i owner out).replace p.ws).mark_log p
  refine ⟨rest, ?_, hrest⟩
  rw [Room.register, hmark, (fades_replaced r i owner hout).log, List.append_assoc]

theorem Room.lt_of_awaits {ws : Nat} (h : r.awaits ws = true) : ws < r.sockets.length := by
  by_contra hge
  rw [Room.awaits, List.getElem?_eq_none (by omega)] at h
  cases h

theorem Room.awaits_of_ends {e : Event} {ws : Nat} (he : e.ends = some ws)
    (hd : r.delivers e = true) : r.awaits ws = true := by
  cases e with
  | close ws' code =>
      obtain rfl : ws' = ws := Option.some.inj he
      exact hd
  | error ws' =>
      obtain rfl : ws' = ws := Option.some.inj he
      exact hd
  | _ => cases he

end

-- a step brings a new socket, registers a host, or only takes away
inductive Course (subtle : SubtleVerify) (r : Room) : Room → Prop
  | faded {r' : Room} {shut unmarked : Nat → Prop} {out : List Output}
      (h : Fades r r' shut unmarked out) : Course subtle r r'
  | challenged (nonce key id : Text) (claim : Bool) :
      Course subtle r (r.challenged nonce key id claim)
  | joined {host : Nat} (hhost : r.authedHost = some host) (hnone : r.openViewer = none) :
      Course subtle r (r.joined host)
  | registered {i : Nat} {p : Pending} {out : List Output} (hp : r.pending[i]? = some p)
      (hgood : r.admits subtle p = true) (hout : Checked p out) :
      Course subtle r ((r.resumed i (some p.att.key) out).register p)

theorem Did.course {subtle : SubtleVerify} {r r' : Room} {e : Event} (h : Did subtle r e r')
    (hb : Bound subtle r) (hd : r.delivers e = true) : Course subtle r r' := by
  have hstill {r' : Room} {out : List Output} (hs : r'.sockets = r.sockets)
      (hlog : r'.log = r.log ++ out) (hjoin : NoJoin out)
      (hclosed : ∀ ws code cause, .closed ws code cause ∉ out) : Course subtle r r' :=
    .faded (fades_still hs hlog hjoin hclosed)
  have hended {ws : Nat} (he : e.ends = some ws) : ws < r.sockets.length :=
    Room.lt_of_awaits (Room.awaits_of_ends he hd)
  cases h with
  | refused => exact hstill rfl (List.append_nil _).symm (by simp [NoJoin]) (by simp)
  | host nonce key id claim => exact .challenged nonce key id claim
  | viewer hhost hnone => exact .joined hhost hnone
  | dropped => exact hstill rfl (List.append_nil _).symm (by simp [NoJoin]) (by simp)
  | bad code => exact .faded (fades_closeFromServer (Room.lt_of_awaits hd) code _)
  | down data => exact hstill rfl rfl (by simp [NoJoin]) (by simp)
  | kicked _ _ hviewer => exact .faded (fades_closeFromServer (Room.lt_of_openViewer hviewer) _ _)
  | up data => exact hstill rfl rfl (by simp [NoJoin]) (by simp)
  | suspended => exact hstill rfl (List.append_nil _).symm (by simp [NoJoin]) (by simp)
  | @failed i p out hp hbad hout =>
      have hlt := Room.lt_of_base (hb.pending p (List.mem_of_getElem? hp)).1
      exact .faded (fades_failed i r.owner hout hlt CLOSE_AUTH)
  | registered hp hgood hout => exact .registered hp hgood hout
  | hostEnded he hm =>
      obtain ⟨rest, hfades, -⟩ := (fades_hostEnded hm).answer he (.inl rfl) (hended he)
      exact .faded hfades
  | @viewerEnded _ ws host he =>
      obtain ⟨rest, hfades, -⟩ := (fades_viewerEnded r ws host).answer he rfl (hended he)
      exact .faded hfades
  | ended he =>
      obtain ⟨rest, hfades, -⟩ := fades_finish.answer he rfl (hended he)
      exact .faded hfades

-- the suspended authentications after a step, `pending` being those before it
def Resumes (pending pending' : List Pending) : Event → Prop
  | .message ws _ => pending' = pending ∨ ∃ p, p.ws = ws ∧ pending' = pending ++ [p]
  | .verified i => pending' = pending.eraseIdx i
  | _ => pending' = pending

theorem Did.resumes {subtle : SubtleVerify} {r r' : Room} {e : Event} (h : Did subtle r e r') : Resumes r.pending r'.pending e := by
  have hended {r₁ : Room} {e : Event} {ws : Nat} (he : e.ends = some ws)
      (hp : r₁.pending = r.pending) : Resumes r.pending (r₁.answer e).pending e := by
    cases e with
    | close ws' code => exact hp
    | error ws' => exact hp
    | _ => cases he
  cases h with
  | refused => rfl
  | host => rfl
  | viewer => rfl
  | dropped => exact .inl rfl
  | bad code => exact .inl (Shape.closeFromServer ..).pending
  | down data => exact .inl rfl
  | kicked => exact .inl (Shape.closeFromServer ..).pending
  | up data => exact .inl rfl
  | suspended hws => exact .inr ⟨_, hws, rfl⟩
  | failed => exact (Shape.closeFromServer ..).pending
  | @registered i p out =>
      obtain ⟨-, -, hmark⟩ := (((r.resumed i (some p.att.key) out).replace p.ws).mark_eq p)
      exact hmark.trans (Shape.replace _ p.ws).pending
  | @hostEnded _ ws he hm =>
      obtain ⟨c, hc⟩ := Option.isSome_iff_exists.mp (Room.base_of_marked hm)
      exact hended he (Shape.hostGone (((Shape.finish r ws).base ws).trans hc) ws).pending
  | viewerEnded he => exact hended he rfl
  | ended he => exact hended he rfl

end SimpleRemote.Signaling
