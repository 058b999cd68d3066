import SimpleRemote.Library.Runs
import SimpleRemote.Transport.Switchboard

namespace SimpleRemote
open ByteCodec

-- what was sent into the channel, and how much of it the receiver has taken out
structure Mpsc (α : Type) where
  sent : List α
  taken : Nat
  deriving DecidableEq

namespace Mpsc
variable {α : Type}

def new : Mpsc α := ⟨[], 0⟩

def send (c : Mpsc α) (a : α) : Mpsc α := { c with sent := c.sent ++ [a] }

def recv (c : Mpsc α) : Option (α × Mpsc α) :=
  (c.sent[c.taken]?).map fun a => (a, { c with taken := c.taken + 1 })

end Mpsc

structure FakeHostLink where
  rx : Mpsc ServerToHost
  dropped : Bool
  deriving DecidableEq

structure FakeViewerLink where
  rx : Mpsc ViewerEnvelope
  generation : Nat
  closedCode : Option (Option Nat)
  dropped : Bool
  deriving DecidableEq

-- `tx` sends into the channel of the viewer link at that place
structure ViewerSlot where
  generation : Nat
  tx : Nat
  deriving DecidableEq

structure Inner where
  hostRelays : List Bytes
  viewer : Option ViewerSlot
  nextGeneration : Nat
  deriving DecidableEq

-- the hub with the links it gave out, viewer links in the order of the calls to `viewer`
structure Hub where
  inner : Inner
  host : FakeHostLink
  links : List FakeViewerLink
  deriving DecidableEq

-- a send after the receiver was dropped fails, which the hub ignores
def FakeHostLink.offer (l : FakeHostLink) (m : ServerToHost) : FakeHostLink :=
  if l.dropped then l else { l with rx := l.rx.send m }

namespace FakeViewerLink

def offer (l : FakeViewerLink) (e : ViewerEnvelope) : FakeViewerLink :=
  if l.dropped then l else { l with rx := l.rx.send e }

def isCurrent (l : FakeViewerLink) (inner : Inner) : Bool :=
  inner.viewer.map ViewerSlot.generation = some l.generation

-- `connected` while the hub still holds a sender of the link's channel
def recv (l : FakeViewerLink) (connected : Bool) :
    Except LinkError (Option ServerToViewer) × FakeViewerLink :=
  match l.closedCode with
  | some code => (.error (.closed code), l)
  | none =>
      match l.rx.recv with
      | some (.msg m, rx) => (.ok (some m), { l with rx := rx })
      | some (.closed code, rx) =>
          (.error (.closed (some code)), { l with rx := rx, closedCode := some (some code) })
      | none =>
          if connected then (.ok none, l)
          else (.error (.closed none), { l with closedCode := some none })

end FakeViewerLink

namespace Hub

def new : Hub := ⟨⟨[], none, 0⟩, ⟨.new, false⟩, []⟩

def sendHost (hub : Hub) (m : ServerToHost) : Hub := { hub with host := hub.host.offer m }

def update (hub : Hub) (i : Nat) (f : FakeViewerLink → FakeViewerLink) : Hub :=
  { hub with links := hub.links.modify i f }

def sendViewer (hub : Hub) (tx : Nat) (e : ViewerEnvelope) : Hub :=
  hub.update tx fun l => l.offer e

def setViewer (hub : Hub) (slot : Option ViewerSlot) : Hub :=
  { hub with inner := { hub.inner with viewer := slot } }

-- `next_generation` is a `u64`, which no run can use up
def viewer (hub : Hub) : Hub :=
  let generation := hub.inner.nextGeneration
  let tx := hub.links.length
  let evicted :=
    match hub.inner.viewer with
    | some old => hub.sendViewer old.tx (.closed 4001)
    | none => hub
  let inner := { evicted.inner with
    viewer := some ⟨generation, tx⟩
    nextGeneration := generation + 1 }
  let links := evicted.links ++ [⟨.new, generation, none, false⟩]
  (({ evicted with inner := inner, links := links }).sendHost .viewerJoined).sendViewer tx
    (.msg .joined)

-- `none` is the panic on a relay that is not hex
def hostSend (hub : Hub) : HostToServer → Option Hub
  | .auth _ => some hub
  | .relay data =>
      match hexDecode data with
      | none => none
      | some bytes =>
          let kept := { hub with
            inner := { hub.inner with hostRelays := hub.inner.hostRelays ++ [bytes] } }
          match hub.inner.viewer with
          | some viewer => some (kept.sendViewer viewer.tx (.msg (.relay data)))
          | none => some kept
  | .kick =>
      match hub.inner.viewer with
      | some viewer => some ((hub.setViewer none).sendViewer viewer.tx (.closed 4001))
      | none => some hub

-- `Inner` keeps a sender, so the host never finds its channel disconnected
def hostRecv (hub : Hub) : Option ServerToHost × Hub :=
  match hub.host.rx.recv with
  | some (m, rx) => (some m, { hub with host := { hub.host with rx := rx } })
  | none => (none, hub)

def hostDrop (hub : Hub) : Hub :=
  let left :=
    match hub.inner.viewer with
    | some viewer => ((hub.setViewer none).sendViewer viewer.tx (.msg .hostLeft)).sendViewer
        viewer.tx (.closed 4002)
    | none => hub
  { left with host := { left.host with dropped := true } }

def viewerSend (hub : Hub) (l : FakeViewerLink) : ViewerToServer → Except LinkError Unit × Hub
  | .relay data =>
      match l.closedCode with
      | some code => (.error (.closed code), hub)
      | none =>
          if l.isCurrent hub.inner then (.ok (), hub.sendHost (.relay data))
          else (.error (.closed (some 4001)), hub)

def connected (hub : Hub) (i : Nat) : Bool := hub.inner.viewer.any fun slot => slot.tx = i

def viewerRecv (hub : Hub) (i : Nat) (l : FakeViewerLink) :
    Except LinkError (Option ServerToViewer) × Hub :=
  ((l.recv (hub.connected i)).1, hub.update i fun _ => (l.recv (hub.connected i)).2)

def viewerDrop (hub : Hub) (i : Nat) (l : FakeViewerLink) : Hub :=
  let left := if l.isCurrent hub.inner then (hub.setViewer none).sendHost .viewerLeft else hub
  left.update i fun l => { l with dropped := true }

def step (hub : Hub) : HubOp → Option Hub
  | .viewer => some hub.viewer
  | .hostSend m => hub.hostSend m
  | .hostRecv => some hub.hostRecv.2
  | .hostDrop _ => some hub.hostDrop
  | .viewerSend i m => (hub.links[i]?).map fun l => (hub.viewerSend l m).2
  | .viewerRecv i => (hub.links[i]?).map fun l => (hub.viewerRecv i l).2
  | .viewerDrop i _ => (hub.links[i]?).map fun l => hub.viewerDrop i l
  | .echo _ _ => some hub

def next (hub : Hub) (op : HubOp) : Hub := (hub.step op).getD hub

-- the viewer link at that place is still in use
def holds (hub : Hub) (i : Nat) : Bool := (hub.links[i]?).any fun l => !l.dropped

def permits (hub : Hub) : HubOp → Prop
  | .viewer => hub.host.dropped = false ∧ hub.inner.viewer = none
  | .hostSend (.auth _) => False
  | .hostSend (.relay data) => hub.host.dropped = false ∧ (hexDecode data).isSome = true
  | .hostSend .kick => hub.host.dropped = false
  | .hostRecv => hub.host.dropped = false
  | .hostDrop _ => hub.host.dropped = false
  | .viewerSend i _ => hub.holds i = true
  | .viewerRecv i => hub.holds i = true
  | .viewerDrop i _ => hub.holds i = true
  | .echo i _ => hub.holds i = true ∧ hub.connected i = false

instance (hub : Hub) (op : HubOp) : Decidable (hub.permits op) :=
  match op with
  | .viewer => inferInstanceAs (Decidable (_ ∧ _))
  | .hostSend (.auth _) => .isFalse id
  | .hostSend (.relay _) => inferInstanceAs (Decidable (_ ∧ _))
  | .hostSend .kick => inferInstanceAs (Decidable (_ = _))
  | .hostRecv => inferInstanceAs (Decidable (_ = _))
  | .hostDrop _ => inferInstanceAs (Decidable (_ = _))
  | .viewerSend _ _ => inferInstanceAs (Decidable (_ = _))
  | .viewerRecv _ => inferInstanceAs (Decidable (_ = _))
  | .viewerDrop _ _ => inferInstanceAs (Decidable (_ = _))
  | .echo _ _ => inferInstanceAs (Decidable (_ ∧ _))

def desk (hub : Hub) : Switchboard :=
  ⟨hub.links.length, hub.inner.viewer.map ViewerSlot.tx, !hub.host.dropped⟩

def sentTo (hub : Hub) (i : Nat) : List ViewerEnvelope :=
  (hub.links[i]?).elim [] fun l => l.rx.sent

end Hub

namespace FakeViewerLink

-- the link is sent `ms`, then perhaps the close, which its reader keeps once it has seen it
structure Told (l : FakeViewerLink) (ms : List ServerToViewer) (close : Option Nat) : Prop where
  sent : l.rx.sent = ms.map .msg ++ (close.map .closed).toList
  taken : l.rx.taken ≤ l.rx.sent.length
  closedCode : l.closedCode = if l.rx.taken = l.rx.sent.length then close.map some else none

def Kept (l : FakeViewerLink) (current : Prop) : Prop :=
  ∃ ms close, l.Told ms close ∧ (current → l.dropped = false ∧ close = none) ∧
    (¬ current → l.dropped = false → close.isSome = true)

-- what the reader of the link gets next
def upcoming (l : FakeViewerLink) : Except LinkError (Option ServerToViewer) :=
  match l.rx.sent[l.rx.taken]?, l.rx.sent.getLast? with
  | some (.msg m), _ => .ok (some m)
  | some (.closed code), _ => .error (.closed (some code))
  | none, some (.closed code) => .error (.closed (some code))
  | none, _ => .ok none

section
variable {l : FakeViewerLink} {ms : List ServerToViewer} {close : Option Nat}

theorem offer_eq (h : l.dropped = false) (e : ViewerEnvelope) :
    l.offer e = { l with rx := l.rx.send e } := by
  rw [offer, if_neg (by simp [h])]

theorem Told.not_end (ht : l.Told ms close) (e : ViewerEnvelope) :
    l.rx.taken < (l.rx.sent ++ [e]).length := by
  rw [List.length_append]
  exact Nat.lt_succ_of_le ht.taken

theorem Told.offer_msg (ht : l.Told ms none) (hd : l.dropped = false) (m : ServerToViewer) :
    (l.offer (.msg m)).Told (ms ++ [m]) none := by
  have hlt := ht.not_end (.msg m)
  rw [offer_eq hd]
  refine ⟨?_, hlt.le, ?_⟩
  · simp [Mpsc.send, ht.sent]
  · have hcode := ht.closedCode
    rw [Option.map_none, ite_self] at hcode ⊢
    exact hcode

theorem Told.offer_closed (ht : l.Told ms none) (hd : l.dropped = false) (code : Nat) :
    (l.offer (.closed code)).Told ms (some code) := by
  have hlt := ht.not_end (.closed code)
  rw [offer_eq hd]
  refine ⟨?_, hlt.le, ?_⟩
  · simp [Mpsc.send, ht.sent]
  · have hcode := ht.closedCode
    rw [Option.map_none, ite_self] at hcode
    exact hcode.trans (if_neg hlt.ne).symm

theorem Told.closed_at (ht : l.Told ms close) {k code : Nat}
    (h : l.rx.sent[k]? = some (.closed code)) :
    close = some code ∧ k + 1 = l.rx.sent.length := by
  rw [ht.sent, List.getElem?_append] at h
  split at h
  · simp at h
  · cases close with
    | none => simp at h
    | some c =>
        obtain ⟨hlt, hc⟩ := List.getElem?_eq_some_iff.mp h
        have hk : k - (ms.map ViewerEnvelope.msg).length = 0 := by simpa using hlt
        rw [ht.sent, List.length_append]
        refine ⟨?_, ?_⟩
        · simpa [hk] using hc
        · rw [Option.map_some, Option.toList_some, List.length_singleton]
          omega

theorem Told.msg_at (ht : l.Told ms close) {k : Nat} {m : ServerToViewer}
    (h : l.rx.sent[k]? = some (.msg m)) (hlast : k + 1 = l.rx.sent.length) : close = none := by
  cases close with
  | none => rfl
  | some c =>
      have hsent := ht.sent
      have hk : k = ms.length := by
        rw [hsent] at hlast
        simpa using hlast
      rw [hsent, hk] at h
      simp at h

theorem Told.recv (ht : l.Told ms close) {connected : Bool}
    (hc : connected = true ∨ close.isSome = true) :
    (l.recv connected).1 = l.upcoming ∧ (l.recv connected).2.Told ms close := by
  have hcode := ht.closedCode
  rw [FakeViewerLink.recv, upcoming]
  cases hclosed : l.closedCode with
  | some code =>
      rw [hclosed] at hcode
      split at hcode
      · rename_i hend
        obtain ⟨c, hclose, rfl⟩ := Option.map_eq_some_iff.mp hcode.symm
        have hlast : l.rx.sent.getLast? = some (.closed c) := by
          rw [ht.sent, hclose]
          simp
        rw [List.getElem?_eq_none hend.ge, hlast]
        exact ⟨rfl, ht⟩
      · cases hcode
  | none =>
      rw [hclosed] at hcode
      rw [Mpsc.recv]
      cases hitem : l.rx.sent[l.rx.taken]? with
      | none =>
          have hend := le_antisymm ht.taken (List.getElem?_eq_none_iff.mp hitem)
          rw [if_pos hend] at hcode
          obtain rfl : close = none := Option.map_eq_none_iff.mp hcode.symm
          obtain rfl : connected = true := by simpa using hc
          refine ⟨?_, ht⟩
          cases hlast : l.rx.sent.getLast? with
          | none => rfl
          | some e =>
              have hmem := List.mem_of_getLast? hlast
              rw [ht.sent] at hmem
              obtain ⟨m, -, rfl⟩ := List.mem_map.mp (by simpa using hmem)
              rfl
      | some e =>
          have hlt := (List.getElem?_eq_some_iff.mp hitem).1
          cases e with
          | msg m =>
              refine ⟨rfl, ht.sent, hlt, ?_⟩
              dsimp only [Option.map_some]
              split
              · rename_i hend
                rw [ht.msg_at hitem hend]
                rfl
              · rfl
          | closed code =>
              obtain ⟨hclose, hend⟩ := ht.closed_at hitem
              refine ⟨rfl, ht.sent, hlt, ?_⟩
              dsimp only [Option.map_some]
              rw [if_pos hend, hclose]
              rfl

theorem recv_frame (l : FakeViewerLink) (connected : Bool) :
    (l.recv connected).2.rx.sent = l.rx.sent ∧ (l.recv connected).2.generation = l.generation ∧
      (l.recv connected).2.dropped = l.dropped := by
  rw [FakeViewerLink.recv]
  split
  · exact ⟨rfl, rfl, rfl⟩
  · rw [Mpsc.recv]
    cases l.rx.sent[l.rx.taken]? with
    | none =>
        dsimp only [Option.map_none]
        split <;> exact ⟨rfl, rfl, rfl⟩
    | some e => cases e <;> exact ⟨rfl, rfl, rfl⟩

end

end FakeViewerLink

namespace Hub

structure Sound (hub : Hub) : Prop where
  next : hub.inner.nextGeneration = hub.links.length
  generation : ∀ (i : Nat) (l : FakeViewerLink), hub.links[i]? = some l → l.generation = i
  slot : ∀ v, hub.inner.viewer = some v →
    v.generation = v.tx ∧ v.tx < hub.links.length ∧ hub.host.dropped = false
  kept : ∀ (i : Nat) (l : FakeViewerLink), hub.links[i]? = some l →
    l.Kept (hub.desk.current = some i)

-- the hub does to its links what the switchboard says
structure Moved (hub hub' : Hub) (op : HubOp) : Prop where
  sound : hub'.Sound
  desk : hub'.desk = hub.desk.next op
  host : hub'.host.rx.sent =
    hub.host.rx.sent ++ (hub.desk.delivers op).filterMap Delivery.host
  viewer : ∀ i, hub'.sentTo i =
    hub.sentTo i ++ (hub.desk.delivers op).filterMap (Delivery.viewer i)

theorem sound_new : new.Sound where
  next := rfl
  generation _ _ h := by cases h
  slot _ h := by cases h
  kept _ _ h := by cases h

section
variable {hub hub' : Hub} {i : Nat} {l : FakeViewerLink}

theorem current_of_slot {v : ViewerSlot} (h : hub.inner.viewer = some v) :
    hub.desk.current = some v.tx := by
  rw [desk, h, Option.map_some]

theorem slot_of_current (h : hub.desk.current = some i) :
    ∃ v, hub.inner.viewer = some v ∧ v.tx = i := Option.map_eq_some_iff.mp h

theorem connected_eq (hub : Hub) (i : Nat) : hub.connected i = decide (hub.desk.current = some i) := by
  rw [connected, desk]
  cases hub.inner.viewer <;> simp

theorem Sound.isCurrent (hs : hub.Sound) (h : hub.links[i]? = some l) :
    l.isCurrent hub.inner = true ↔ hub.desk.current = some i := by
  rw [FakeViewerLink.isCurrent, hs.generation i l h, desk, decide_eq_true_eq]
  cases hv : hub.inner.viewer with
  | none => simp
  | some v => simp [(hs.slot v hv).1]

theorem links_modify (hub : Hub) (i : Nat) (f : FakeViewerLink → FakeViewerLink) (j : Nat) :
    (hub.links.modify i f)[j]? = if i = j then (hub.links[j]?).map f else hub.links[j]? := by
  rw [List.getElem?_modify]
  split <;> simp

theorem sentTo_modify {f : FakeViewerLink → FakeViewerLink} (hl : hub'.links = hub.links.modify i f)
    (h : hub.links[i]? = some l) (es : List ViewerEnvelope) (hf : (f l).rx.sent = l.rx.sent ++ es)
    (j : Nat) : hub'.sentTo j = hub.sentTo j ++ if i = j then es else [] := by
  rw [sentTo, sentTo, hl, links_modify]
  by_cases hj : i = j
  · subst hj
    rw [if_pos rfl, if_pos rfl, h]
    exact hf
  · rw [if_neg hj, if_neg hj, List.append_nil]

theorem sentTo_same (hl : hub'.links = hub.links) (j : Nat) : hub'.sentTo j = hub.sentTo j := by
  rw [sentTo, sentTo, hl]

theorem Sound.still (hs : hub.Sound) (hl : hub'.links = hub.links)
    (hn : hub'.inner.nextGeneration = hub.inner.nextGeneration)
    (hv : hub'.inner.viewer = hub.inner.viewer) (hd : hub'.host.dropped = hub.host.dropped) :
    hub'.Sound where
  next := by rw [hn, hl, hs.next]
  generation i l h := hs.generation i l (hl ▸ h)
  slot v h := by
    rw [hl, hd]
    exact hs.slot v (hv ▸ h)
  kept i l h := by
    have := hs.kept i l (hl ▸ h)
    rwa [desk, hv]

-- one link changes, and the slot may be cleared when that link holds it
theorem Sound.modify (hs : hub.Sound) {f : FakeViewerLink → FakeViewerLink}
    (hl : hub'.links = hub.links.modify i f)
    (hn : hub'.inner.nextGeneration = hub.inner.nextGeneration)
    (hv : hub'.inner.viewer = hub.inner.viewer ∧ hub'.host.dropped = hub.host.dropped ∨
      hub.desk.current = some i ∧ hub'.inner.viewer = none)
    (hf : ∀ l, hub.links[i]? = some l → (f l).generation = l.generation ∧
      (f l).Kept (hub'.desk.current = some i)) : hub'.Sound := by
  have hlen : hub'.links.length = hub.links.length := by rw [hl, List.length_modify]
  have hother (j : Nat) (hj : i ≠ j) : hub'.desk.current = some j ↔ hub.desk.current = some j := by
    rcases hv with ⟨hsame, -⟩ | ⟨hcur, hnone⟩
    · rw [desk, hsame, desk]
    · rw [desk, hnone, hcur]
      simp [hj]
  refine ⟨by rw [hn, hs.next, hlen], fun j l' h => ?_, fun v h => ?_, fun j l' h => ?_⟩
  · rw [hl, links_modify] at h
    split at h
    · rename_i hj
      subst hj
      obtain ⟨l, hil, rfl⟩ := Option.map_eq_some_iff.mp h
      exact (hf l hil).1.trans (hs.generation i l hil)
    · exact hs.generation j l' h
  · rcases hv with ⟨hsame, hdropped⟩ | ⟨-, hnone⟩
    · rw [hlen, hdropped]
      exact hs.slot v (hsame ▸ h)
    · rw [hnone] at h
      cases h
  · rw [hl, links_modify] at h
    split at h
    · rename_i hj
      subst hj
      obtain ⟨l, hil, rfl⟩ := Option.map_eq_some_iff.mp h
      exact (hf l hil).2
    · rename_i hj
      rw [hother j hj]
      exact hs.kept j l' h

theorem Sound.current (hs : hub.Sound) (hcur : hub.desk.current = some i) :
    ∃ l ms, hub.links[i]? = some l ∧ l.dropped = false ∧ l.Told ms none := by
  obtain ⟨v, hv, rfl⟩ := slot_of_current hcur
  have hlt := (hs.slot v hv).2.1
  obtain ⟨ms, close, htold, hopen, -⟩ := hs.kept v.tx _ (List.getElem?_eq_getElem hlt)
  obtain ⟨hdropped, rfl⟩ := hopen hcur
  exact ⟨_, ms, List.getElem?_eq_getElem hlt, hdropped, htold⟩

theorem Moved.quiet (hs : hub.Sound) {op : HubOp} (hl : hub'.links = hub.links)
    (hn : hub'.inner.nextGeneration = hub.inner.nextGeneration)
    (hv : hub'.inner.viewer = hub.inner.viewer) (hd : hub'.host.dropped = hub.host.dropped)
    (hsent : hub'.host.rx.sent = hub.host.rx.sent) (hnext : hub.desk.next op = hub.desk)
    (hdel : hub.desk.delivers op = []) : Moved hub hub' op where
  sound := hs.still hl hn hv hd
  desk := by rw [hnext, Hub.desk, Hub.desk, hl, hv, hd]
  host := by rw [hdel, hsent, List.filterMap_nil, List.append_nil]
  viewer i := by rw [hdel, sentTo_same hl, List.filterMap_nil, List.append_nil]

theorem Moved.told (hs : hub.Sound) {op : HubOp} (hcur : hub.desk.current = some i)
    (f : FakeViewerLink → FakeViewerLink) (es : List ViewerEnvelope)
    (hl : hub'.links = hub.links.modify i f)
    (hn : hub'.inner.nextGeneration = hub.inner.nextGeneration)
    (hv : hub'.inner.viewer = hub.inner.viewer ∧ hub'.host.dropped = hub.host.dropped ∨
      hub'.inner.viewer = none)
    (hf : ∀ l ms, l.dropped = false → FakeViewerLink.Told l ms none →
      (f l).generation = l.generation ∧ (f l).rx.sent = l.rx.sent ++ es ∧
        (f l).Kept (hub'.desk.current = some i))
    (hdesk : hub'.desk = hub.desk.next op) (hsent : hub'.host.rx.sent = hub.host.rx.sent)
    (hdel : hub.desk.delivers op = hub.desk.toCurrent es) : Moved hub hub' op := by
  obtain ⟨l, ms, hil, hopen, htold⟩ := hs.current hcur
  obtain ⟨hgen, hes, hkept⟩ := hf l ms hopen htold
  refine ⟨hs.modify hl hn (hv.imp_right fun h => ⟨hcur, h⟩) fun l' hl' => ?_, hdesk, ?_,
    fun j => ?_⟩
  · obtain rfl := Option.some.inj (hil.symm.trans hl')
    exact ⟨hgen, hkept⟩
  · rw [hdel, Switchboard.host_toCurrent, hsent, List.append_nil]
  · rw [hdel, Switchboard.viewer_toCurrent, hcur, sentTo_modify hl hil es hes]
    simp

theorem desk_none (h : hub.inner.viewer = none) : hub.desk.current = none := by
  rw [desk, h, Option.map_none]

theorem toCurrent_none (h : hub.inner.viewer = none) (es : List ViewerEnvelope) :
    hub.desk.toCurrent es = [] := by
  rw [Switchboard.toCurrent, desk_none h]

theorem moved_relay (hs : hub.Sound) {data : Text} (hd : (hexDecode data).isSome = true) :
    ∃ hub', hub.step (.hostSend (.relay data)) = some hub' ∧
      Moved hub hub' (.hostSend (.relay data)) := by
  obtain ⟨bytes, hbytes⟩ := Option.isSome_iff_exists.mp hd
  rw [step, hostSend, hbytes]
  dsimp only
  split
  · rename_i v hv
    have hcur := current_of_slot hv
    refine ⟨_, rfl, .told hs hcur (fun l => l.offer (.msg (.relay data)))
      [.msg (.relay data)] rfl rfl (.inl ⟨rfl, rfl⟩) (fun l ms hopen htold => ?_) ?_ rfl rfl⟩
    · have htold' := htold.offer_msg hopen (.relay data)
      rw [FakeViewerLink.offer_eq hopen] at htold' ⊢
      exact ⟨rfl, rfl, _, none, htold', fun _ => ⟨hopen, rfl⟩, fun hne => absurd hcur hne⟩
    · simp [desk, sendViewer, update, Switchboard.next]
  · rename_i hv
    exact ⟨_, rfl, .quiet hs rfl rfl rfl rfl rfl rfl (toCurrent_none hv _)⟩

theorem moved_kick (hs : hub.Sound) :
    ∃ hub', hub.step (.hostSend .kick) = some hub' ∧ Moved hub hub' (.hostSend .kick) := by
  rw [step, hostSend]
  split
  · rename_i v hv
    have hcur := current_of_slot hv
    refine ⟨_, rfl, .told hs hcur (fun l => l.offer (.closed 4001)) [.closed 4001]
      rfl rfl (.inr rfl) (fun l ms hopen htold => ?_) ?_ rfl rfl⟩
    · have htold' := htold.offer_closed hopen 4001
      rw [FakeViewerLink.offer_eq hopen] at htold' ⊢
      exact ⟨rfl, rfl, _, _, htold', (fun h => by cases h), fun _ _ => rfl⟩
    · simp [desk, sendViewer, setViewer, update, Switchboard.next]
  · rename_i hv
    refine ⟨_, rfl, .quiet hs rfl rfl rfl rfl rfl ?_ (toCurrent_none hv _)⟩
    rw [Switchboard.next, ← desk_none hv]

theorem moved_hostDrop (hs : hub.Sound) (gone : Gone) :
    ∃ hub', hub.step (.hostDrop gone) = some hub' ∧ Moved hub hub' (.hostDrop gone) := by
  rw [step, hostDrop]
  split
  · rename_i v hv
    have hcur := current_of_slot hv
    refine ⟨_, rfl, .told hs hcur (fun l => (l.offer (.msg .hostLeft)).offer (.closed 4002))
      [.msg .hostLeft, .closed 4002] ?_ rfl (.inr rfl) (fun l ms hopen htold => ?_) ?_ rfl rfl⟩
    · exact List.modify_modify_eq ..
    · have hmsg := htold.offer_msg hopen .hostLeft
      have hopen' : (l.offer (.msg .hostLeft)).dropped = false := by
        rw [FakeViewerLink.offer_eq hopen]
        exact hopen
      have hclose := hmsg.offer_closed hopen' 4002
      rw [FakeViewerLink.offer_eq hopen', FakeViewerLink.offer_eq hopen] at hclose ⊢
      refine ⟨rfl, ?_, _, _, hclose, (fun h => by cases h), fun _ _ => rfl⟩
      exact List.append_assoc ..
    · simp [desk, sendViewer, setViewer, update, Switchboard.next]
  · rename_i hv
    refine ⟨_, rfl, ⟨hs.next, hs.generation, fun v h => ?_, hs.kept⟩, ?_, ?_, fun i => ?_⟩
    · rw [hv] at h
      cases h
    · rw [Switchboard.next, desk, desk, hv]
      rfl
    · rw [Switchboard.delivers, toCurrent_none hv]
      exact (List.append_nil _).symm
    · rw [Switchboard.delivers, toCurrent_none hv]
      exact (List.append_nil _).symm

theorem Sound.open_of_current (hs : hub.Sound) (hcur : hub.desk.current = some i) :
    hub.host.dropped = false := by
  obtain ⟨v, hv, rfl⟩ := slot_of_current hcur
  exact (hs.slot v hv).2.2

theorem offer_host (hub : Hub) (h : hub.host.dropped = false) (m : ServerToHost) :
    (hub.sendHost m).host = ⟨hub.host.rx.send m, false⟩ := by
  rw [sendHost, FakeHostLink.offer, if_neg (by simp [h]), h]

theorem moved_viewerSend (hs : hub.Sound) {l : FakeViewerLink} (hl : hub.links[i]? = some l)
    (m : ViewerToServer) : Moved hub (hub.viewerSend l m).2 (.viewerSend i m) := by
  obtain ⟨data⟩ := m
  obtain ⟨ms, close, htold, hopen, -⟩ := hs.kept i l hl
  rw [viewerSend]
  split
  · rename_i code hcode
    refine .quiet hs rfl rfl rfl rfl rfl rfl (if_neg fun hcur => ?_)
    obtain ⟨-, rfl⟩ := hopen hcur
    have := htold.closedCode
    rw [hcode, Option.map_none, ite_self] at this
    cases this
  · split
    · rename_i hc
      have hcur := (hs.isCurrent hl).mp hc
      have hhost := offer_host hub (hs.open_of_current hcur) (.relay data)
      refine ⟨hs.still rfl rfl rfl ?_, ?_, ?_, fun j => ?_⟩
      · rw [hhost, hs.open_of_current hcur]
      · change _ = hub.desk
        rw [desk, desk, hhost, hs.open_of_current hcur]
        rfl
      · rw [Switchboard.delivers, if_pos hcur, hhost]
        rfl
      · rw [Switchboard.delivers, if_pos hcur]
        exact (List.append_nil _).symm
    · rename_i hc
      exact .quiet hs rfl rfl rfl rfl rfl rfl (if_neg fun hcur => hc ((hs.isCurrent hl).mpr hcur))

theorem moved_hostRecv (hs : hub.Sound) : Moved hub hub.hostRecv.2 .hostRecv := by
  rw [hostRecv]
  split
  · rename_i m rx hrecv
    obtain ⟨a, -, hrx⟩ := Option.map_eq_some_iff.mp hrecv
    refine .quiet hs rfl rfl rfl rfl ?_ rfl rfl
    exact congrArg (fun p : ServerToHost × Mpsc ServerToHost => p.2.sent) hrx.symm
  · exact .quiet hs rfl rfl rfl rfl rfl rfl rfl

theorem Sound.reads (hs : hub.Sound) {l : FakeViewerLink} (hl : hub.links[i]? = some l)
    (hd : l.dropped = false) : (l.recv (hub.connected i)).1 = l.upcoming ∧
      (l.recv (hub.connected i)).2.Kept (hub.desk.current = some i) := by
  obtain ⟨ms, close, htold, hopen, hclosed⟩ := hs.kept i l hl
  have hc : hub.connected i = true ∨ close.isSome = true := by
    rw [connected_eq, decide_eq_true_eq]
    by_cases hcur : hub.desk.current = some i
    · exact .inl hcur
    · exact .inr (hclosed hcur hd)
  obtain ⟨hnext, hkept⟩ := htold.recv hc
  refine ⟨hnext, ms, close, hkept, fun hcur => ?_, fun hne _ => hclosed hne hd⟩
  rw [(FakeViewerLink.recv_frame l _).2.2]
  exact hopen hcur

theorem moved_viewerRecv (hs : hub.Sound) {l : FakeViewerLink} (hl : hub.links[i]? = some l)
    (hd : l.dropped = false) : Moved hub (hub.viewerRecv i l).2 (.viewerRecv i) where
  sound := by
    refine hs.modify (i := i) (f := fun _ => (l.recv (hub.connected i)).2) rfl rfl
      (.inl ⟨rfl, rfl⟩) fun l' hl' => ?_
    obtain rfl := Option.some.inj (hl.symm.trans hl')
    exact ⟨(FakeViewerLink.recv_frame l _).2.1, (hs.reads hl hd).2⟩
  desk := by
    simp [Hub.desk, viewerRecv, update, Switchboard.next]
  host := (List.append_nil _).symm
  viewer j := by
    have hes := (FakeViewerLink.recv_frame l (hub.connected i)).1
    rw [sentTo_modify (f := fun _ => (l.recv (hub.connected i)).2) rfl hl []
      (by rw [hes, List.append_nil]), ite_self]
    rfl

theorem moved_viewerDrop (hs : hub.Sound) {l : FakeViewerLink} (hl : hub.links[i]? = some l)
    (gone : Gone) : Moved hub (hub.viewerDrop i l) (.viewerDrop i gone) := by
  have hkept (l' : FakeViewerLink) (hl' : hub.links[i]? = some l') {current : Prop}
      (hnot : ¬ current) : ({ l' with dropped := true } : FakeViewerLink).Kept current := by
    obtain ⟨ms, close, htold, -⟩ := hs.kept i l' hl'
    exact ⟨ms, close, ⟨htold.sent, htold.taken, htold.closedCode⟩, fun h => absurd h hnot,
      fun _ h => by cases h⟩
  have hsent {hub' : Hub} (hlinks : hub'.links = hub.links.modify i fun l => { l with dropped := true })
      (j : Nat) : hub'.sentTo j = hub.sentTo j := by
    rw [sentTo_modify hlinks hl [] (List.append_nil _).symm, ite_self, List.append_nil]
  rw [viewerDrop]
  split
  · rename_i hc
    have hcur := (hs.isCurrent hl).mp hc
    have hopen := hs.open_of_current hcur
    have hhost := offer_host (hub.setViewer none) hopen .viewerLeft
    refine ⟨hs.modify (i := i) (f := fun l => { l with dropped := true }) rfl rfl (.inr ⟨hcur, rfl⟩)
      fun l' hl' => ⟨rfl, hkept l' hl' fun h => by cases h⟩, ?_, ?_, fun j => ?_⟩
    · rw [Switchboard.next, if_pos hcur, desk, desk, update, hhost, hopen, List.length_modify]
      rfl
    · rw [Switchboard.delivers, if_pos hcur, update, hhost]
      rfl
    · rw [Switchboard.delivers, if_pos hcur, hsent rfl]
      exact (List.append_nil _).symm
  · rename_i hc
    have hcur : hub.desk.current ≠ some i := fun hcur => hc ((hs.isCurrent hl).mpr hcur)
    refine ⟨hs.modify (i := i) (f := fun l => { l with dropped := true }) rfl rfl (.inl ⟨rfl, rfl⟩)
      fun l' hl' => ⟨rfl, hkept l' hl' hcur⟩, ?_, ?_, fun j => ?_⟩
    · rw [Switchboard.next, if_neg hcur, desk, desk, update, List.length_modify]
    · rw [Switchboard.delivers, if_neg hcur]
      exact (List.append_nil _).symm
    · rw [Switchboard.delivers, if_neg hcur, hsent rfl]
      exact (List.append_nil _).symm

theorem modify_last {α : Type} (xs : List α) (a : α) (f : α → α) :
    (xs ++ [a]).modify xs.length f = xs ++ [f a] := by
  induction xs with
  | nil => rfl
  | cons x xs ih => simpa using ih

-- the link a call to `viewer` returns
def fresh (hub : Hub) : FakeViewerLink := ⟨⟨[.msg .joined], 0⟩, hub.inner.nextGeneration, none, false⟩

theorem viewer_eq (hd : hub.host.dropped = false) (hv : hub.inner.viewer = none) :
    hub.viewer = ⟨{ hub.inner with
        viewer := some ⟨hub.inner.nextGeneration, hub.links.length⟩
        nextGeneration := hub.inner.nextGeneration + 1 },
      ⟨hub.host.rx.send .viewerJoined, false⟩, hub.links ++ [hub.fresh]⟩ := by
  simp [viewer, hv, sendViewer, update, sendHost, FakeHostLink.offer, hd, modify_last,
    FakeViewerLink.offer, fresh, Mpsc.send, Mpsc.new]

theorem moved_viewer (hs : hub.Sound) (hd : hub.host.dropped = false)
    (hv : hub.inner.viewer = none) : Moved hub hub.viewer .viewer := by
  rw [viewer_eq hd hv]
  have hget (j : Nat) : (hub.links ++ [hub.fresh])[j]? =
      if j = hub.links.length then some hub.fresh else hub.links[j]? := by
    rw [List.getElem?_append]
    split
    · rw [if_neg (by omega)]
    · split
      · rename_i hj
        rw [hj, Nat.sub_self]
        rfl
      · rw [List.getElem?_eq_none (by rw [List.length_singleton]; omega),
          List.getElem?_eq_none (by omega)]
  refine ⟨⟨?_, fun i l h => ?_, fun v h => ?_, fun i l h => ?_⟩, ?_, ?_, fun j => ?_⟩
  · rw [List.length_append, List.length_singleton, hs.next]
  · rw [hget] at h
    split at h
    · rename_i hi
      obtain rfl := Option.some.inj h
      rw [hi, fresh, hs.next]
    · exact hs.generation i l h
  · obtain rfl := Option.some.inj h
    rw [List.length_append]
    exact ⟨hs.next, Nat.lt_succ_self _, rfl⟩
  · rw [hget] at h
    split at h
    · rename_i hi
      obtain rfl := Option.some.inj h
      exact ⟨[.joined], none, ⟨rfl, by simp [fresh], by simp [fresh]⟩, fun _ => ⟨rfl, rfl⟩,
        fun hne => absurd (by rw [desk, hi]; rfl) hne⟩
    · rename_i hi
      have hne : ¬ hub.desk.current = some i := by simp [desk, hv]
      obtain ⟨ms, close, htold, -, hclosed⟩ := hs.kept i l h
      refine ⟨ms, close, htold, fun hcur => ?_, fun _ => hclosed hne⟩
      exact absurd (Option.some.inj hcur).symm hi
  · rw [Switchboard.next, desk, desk, List.length_append, hd]
    rfl
  · rfl
  · rw [sentTo, hget, Switchboard.delivers]
    split
    · rename_i hj
      have hnone : hub.links[j]? = none := List.getElem?_eq_none hj.ge
      rw [sentTo, hnone, hj]
      simp [Delivery.viewer, desk, fresh]
    · rename_i hj
      have hne : hub.desk.joined ≠ j := fun h => hj h.symm
      simp [Delivery.viewer, hne, sentTo]

theorem exists_of_holds (h : hub.holds i = true) :
    ∃ l, hub.links[i]? = some l ∧ l.dropped = false := by
  rw [holds] at h
  cases hl : hub.links[i]? with
  | none => simp [hl] at h
  | some l => exact ⟨l, rfl, by simpa [hl] using h⟩

theorem step_moves (hs : hub.Sound) {op : HubOp} (hp : hub.permits op) :
    ∃ hub', hub.step op = some hub' ∧ Moved hub hub' op := by
  cases op with
  | viewer => exact ⟨_, rfl, moved_viewer hs hp.1 hp.2⟩
  | hostSend m =>
      cases m with
      | auth sig => exact hp.elim
      | relay data => exact moved_relay hs hp.2
      | kick => exact moved_kick hs
  | hostRecv => exact ⟨_, rfl, moved_hostRecv hs⟩
  | hostDrop gone => exact moved_hostDrop hs gone
  | viewerSend i m =>
      obtain ⟨l, hl, -⟩ := exists_of_holds hp
      rw [step, hl]
      exact ⟨_, rfl, moved_viewerSend hs hl m⟩
  | viewerRecv i =>
      obtain ⟨l, hl, hd⟩ := exists_of_holds hp
      rw [step, hl]
      exact ⟨_, rfl, moved_viewerRecv hs hl hd⟩
  | viewerDrop i gone =>
      obtain ⟨l, hl, -⟩ := exists_of_holds hp
      rw [step, hl]
      exact ⟨_, rfl, moved_viewerDrop hs hl gone⟩
  | echo i gone => exact ⟨_, rfl, .quiet hs rfl rfl rfl rfl rfl rfl rfl⟩

theorem next_moves (hs : hub.Sound) {op : HubOp} (hp : hub.permits op) :
    (hub.step op).isSome = true ∧ Moved hub (hub.next op) op := by
  obtain ⟨hub', hnext, hmoved⟩ := step_moves hs hp
  rw [next, hnext]
  exact ⟨rfl, hmoved⟩

theorem desk_permits {op : HubOp} (hp : hub.permits op) : hub.desk.permits op := by
  have hlt {i : Nat} (h : hub.holds i = true) : i < hub.desk.joined := by
    obtain ⟨l, hl, -⟩ := exists_of_holds h
    exact (List.getElem?_eq_some_iff.mp hl).1
  have hmanned (h : hub.host.dropped = false) : hub.desk.manned = true := by rw [desk, h]; rfl
  cases op with
  | viewer => exact ⟨hmanned hp.1, desk_none hp.2⟩
  | hostSend m =>
      cases m with
      | auth sig => exact hp.elim
      | relay data => exact ⟨hmanned hp.1, by simp⟩
      | kick => exact ⟨hmanned hp, by simp⟩
  | hostRecv => trivial
  | hostDrop gone => exact hmanned hp
  | viewerSend i m => exact hlt hp
  | viewerRecv i => trivial
  | viewerDrop i gone => exact hlt hp
  | echo i gone => exact ⟨hlt hp.1, by simpa [connected_eq] using hp.2⟩

end

end Hub

end SimpleRemote
