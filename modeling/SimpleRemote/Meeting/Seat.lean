import SimpleRemote.Meeting.Step
import SimpleRemote.Transport.Hub

namespace SimpleRemote
open ByteCodec Interaction

-- what the host and the viewer that joined do on their links, with what they are answered
inductive Deed where
  | hostSend (m : HostToServer)
  | hostRecv (m : ServerToHost)
  | viewerSend (m : ViewerToServer) (r : Except LinkError Unit)
  | viewerRecv (r : Except LinkError (Option ServerToViewer))
  | viewerDrop

inductive FakeHub.Does : FakeHub → Deed → FakeHub → Prop
  | hostSend {hub hub' : FakeHub} {m} (h : hub.hostSend m = some hub') : Does hub (.hostSend m) hub'
  | hostRecv {hub hub' : FakeHub} {m} (h : hub.hostRecv = some (m, hub')) :
      Does hub (.hostRecv m) hub'
  | viewerSend (hub : FakeHub) (m) : Does hub (.viewerSend m (hub.viewerSend m).1) (hub.viewerSend m).2
  | viewerRecv {hub hub' : FakeHub} {r} (h : hub.viewerRecv = some (r, hub')) :
      Does hub (.viewerRecv r) hub'
  | viewerDrop (hub : FakeHub) : Does hub .viewerDrop hub.viewerDrop

-- the same of the whole hub, where the viewer has the link at place `i`
inductive Hub.Does (i : Nat) : Hub → Deed → Hub → Prop
  | hostSend {hub hub' : Hub} {m} (h : hub.hostSend m = some hub') : Does i hub (.hostSend m) hub'
  | hostRecv {hub hub' : Hub} {m} (h : hub.hostRecv = (some m, hub')) : Does i hub (.hostRecv m) hub'
  | viewerSend {hub : Hub} {l} (hl : hub.links[i]? = some l) (m) :
      Does i hub (.viewerSend m (hub.viewerSend l m).1) (hub.viewerSend l m).2
  | viewerRecv {hub : Hub} {l} (hl : hub.links[i]? = some l) :
      Does i hub (.viewerRecv (hub.viewerRecv i l).1) (hub.viewerRecv i l).2
  | viewerDrop {hub : Hub} {l} (hl : hub.links[i]? = some l) :
      Does i hub .viewerDrop (hub.viewerDrop i l)

namespace Mpsc
variable {α : Type} {c : Mpsc α} {unread : List α}

-- what the receiver has not taken out yet
def Holds (c : Mpsc α) (unread : List α) : Prop :=
  ∃ past, c.sent = past ++ unread ∧ c.taken = past.length

theorem Holds.send (h : c.Holds unread) (a : α) : (c.send a).Holds (unread ++ [a]) := by
  obtain ⟨past, hsent, htaken⟩ := h
  refine ⟨past, ?_, htaken⟩
  rw [Mpsc.send, hsent, List.append_assoc]

theorem Holds.recv {a : α} (h : c.Holds (a :: unread)) :
    ∃ c', c.recv = some (a, c') ∧ c'.Holds unread := by
  obtain ⟨past, hsent, htaken⟩ := h
  refine ⟨{ c with taken := c.taken + 1 }, ?_, past ++ [a], ?_, ?_⟩
  · rw [Mpsc.recv, hsent, htaken, List.getElem?_append_right (le_refl _), Nat.sub_self]
    rfl
  · rw [List.append_assoc]
    exact hsent
  · rw [List.length_append, htaken]
    rfl

end Mpsc

-- the hub as its host and the viewer at place `i` see it
structure Hub.Views (hub : Hub) (i : Nat) (fake : FakeHub) : Prop where
  manned : hub.host.dropped = false
  hostRx : hub.host.rx.Holds fake.hostRx
  hostRelays : ∃ before, hub.inner.hostRelays = before ++ fake.hostRelays
  link : ∃ l, hub.links[i]? = some l ∧ l.rx.Holds fake.viewerRx ∧
    l.closedCode = fake.closedCode.map some ∧
    (fake.seated = true → l.dropped = false ∧ hub.inner.viewer = some ⟨l.generation, i⟩)
  vacant : fake.seated = false → hub.inner.viewer = none

namespace Hub.Views
variable {hub : Hub} {i : Nat} {fake fake' : FakeHub}

theorem holds_offer (h : hub.Views i fake) (m : ServerToHost) :
    (hub.host.offer m).dropped = false ∧ (hub.host.offer m).rx.Holds (fake.hostRx ++ [m]) := by
  rw [FakeHostLink.offer, if_neg (by simp [h.manned])]
  exact ⟨h.manned, h.hostRx.send m⟩

theorem isCurrent (h : hub.Views i fake) {l : FakeViewerLink} (hl : hub.links[i]? = some l) :
    l.isCurrent hub.inner = fake.seated := by
  obtain ⟨l', hl', -, -, hseated⟩ := h.link
  obtain rfl := Option.some.inj (hl.symm.trans hl')
  rw [FakeViewerLink.isCurrent]
  cases hs : fake.seated with
  | true => simp [(hseated hs).2]
  | false => simp [h.vacant hs]

-- what the hub sends the viewer in the seat is what its link still has to bring
theorem told (h : hub.Views i fake) (hs : fake.seated = true) (e : ViewerEnvelope) :
    ∃ l, hub.inner.viewer = some ⟨l.generation, i⟩ ∧ (hub.sendViewer i e).links[i]? = some l ∧
      l.rx.Holds (fake.viewerRx ++ [e]) ∧ l.closedCode = fake.closedCode.map some ∧
      l.dropped = false := by
  obtain ⟨l, hl, hrx, hcode, hseated⟩ := h.link
  obtain ⟨hopen, hviewer⟩ := hseated hs
  have hoffer := FakeViewerLink.offer_eq hopen e
  refine ⟨l.offer e, ?_, ?_, ?_, ?_, ?_⟩
  · rw [hoffer]
    exact hviewer
  · rw [Hub.sendViewer, Hub.update, List.getElem?_modify_eq, hl]
    rfl
  · rw [hoffer]
    exact hrx.send e
  · rw [hoffer]
    exact hcode
  · rw [hoffer]
    exact hopen

theorem hostSend (h : hub.Views i fake) {m : HostToServer} (hm : fake.hostSend m = some fake') :
    ∃ hub', hub.hostSend m = some hub' ∧ hub'.Views i fake' := by
  cases m with
  | auth sig =>
      obtain rfl := Option.some.inj hm
      exact ⟨hub, rfl, h⟩
  | relay data =>
      obtain ⟨before, hbefore⟩ := h.hostRelays
      rw [FakeHub.hostSend] at hm
      split at hm
      · cases hm
      · rename_i b hb
        obtain rfl := Option.some.inj hm
        have hrelays : hub.inner.hostRelays ++ [b] = before ++ (fake.hostRelays ++ [b]) := by
          rw [hbefore, List.append_assoc]
        rw [Hub.hostSend, hb]
        cases hs : fake.seated with
        | true =>
            obtain ⟨l, hviewer, hl, hrx, hcode, hopen⟩ := h.told hs (.msg (.relay data))
            rw [hviewer]
            exact ⟨_, rfl, h.manned, h.hostRx, ⟨before, hrelays⟩,
              ⟨l, hl, hrx, hcode, fun _ => ⟨hopen, hviewer⟩⟩, fun hfalse => by cases hfalse⟩
        | false =>
            obtain ⟨l, hl, hrx, hcode, -⟩ := h.link
            rw [h.vacant hs]
            exact ⟨_, rfl, h.manned, h.hostRx, ⟨before, hrelays⟩,
              ⟨l, hl, hrx, hcode, fun htrue => by cases htrue⟩, fun _ => h.vacant hs⟩
  | kick =>
      obtain rfl := Option.some.inj hm
      rw [Hub.hostSend]
      cases hs : fake.seated with
      | true =>
          obtain ⟨l, hviewer, hl, hrx, hcode, -⟩ := h.told hs (.closed 4001)
          rw [hviewer]
          exact ⟨_, rfl, h.manned, h.hostRx, h.hostRelays,
            ⟨l, hl, hrx, hcode, fun htrue => by cases htrue⟩, fun _ => rfl⟩
      | false =>
          obtain ⟨l, hl, hrx, hcode, -⟩ := h.link
          rw [h.vacant hs]
          exact ⟨_, rfl, h.manned, h.hostRx, h.hostRelays,
            ⟨l, hl, hrx, hcode, fun htrue => by cases htrue⟩, fun _ => h.vacant hs⟩

theorem hostRecv (h : hub.Views i fake) {m : ServerToHost} (hm : fake.hostRecv = some (m, fake')) :
    ∃ hub', hub.hostRecv = (some m, hub') ∧ hub'.Views i fake' := by
  rw [FakeHub.hostRecv] at hm
  split at hm
  · rename_i m' rest hrx
    obtain ⟨rfl, rfl⟩ := Prod.mk.inj (Option.some.inj hm)
    obtain ⟨c, hc, hrest⟩ := (hrx ▸ h.hostRx).recv
    rw [Hub.hostRecv, hc]
    exact ⟨_, rfl, h.manned, hrest, h.hostRelays, h.link, h.vacant⟩
  · cases hm

theorem viewerSend (h : hub.Views i fake) {l : FakeViewerLink} (hl : hub.links[i]? = some l)
    (m : ViewerToServer) :
    (hub.viewerSend l m).1 = (fake.viewerSend m).1 ∧
      (hub.viewerSend l m).2.Views i (fake.viewerSend m).2 := by
  obtain ⟨data⟩ := m
  obtain ⟨l', hl', hrx, hcode, hseated⟩ := h.link
  obtain rfl := Option.some.inj (hl.symm.trans hl')
  rw [Hub.viewerSend, FakeHub.viewerSend, hcode, h.isCurrent hl]
  cases hclosed : fake.closedCode with
  | some code => exact ⟨rfl, h⟩
  | none =>
      dsimp only [Option.map_none]
      split
      · obtain ⟨hopen, hoffer⟩ := h.holds_offer (.relay data)
        refine ⟨rfl, hopen, hoffer, h.hostRelays, ⟨l, hl, hrx, ?_, hseated⟩, h.vacant⟩
        rw [hcode, hclosed]
      · exact ⟨rfl, h⟩

theorem viewerRecv (h : hub.Views i fake) {l : FakeViewerLink} (hl : hub.links[i]? = some l)
    {r : Except LinkError (Option ServerToViewer)} (hr : fake.viewerRecv = some (r, fake')) :
    (hub.viewerRecv i l).1 = r ∧ (hub.viewerRecv i l).2.Views i fake' := by
  obtain ⟨l', hl', hrx, hcode, hseated⟩ := h.link
  obtain rfl := Option.some.inj (hl.symm.trans hl')
  -- the link is left as `l'`
  have left {l' : FakeViewerLink} {fake' : FakeHub} (hlink : (l.recv (hub.connected i)).2 = l')
      (hgeneration : l'.generation = l.generation ∧ l'.dropped = l.dropped)
      (hrx' : l'.rx.Holds fake'.viewerRx) (hcode' : l'.closedCode = fake'.closedCode.map some)
      (hsame : fake'.hostRx = fake.hostRx ∧ fake'.hostRelays = fake.hostRelays ∧
        fake'.seated = fake.seated) : (hub.viewerRecv i l).2.Views i fake' := by
    obtain ⟨hhost, hrelays, hseat⟩ := hsame
    refine ⟨h.manned, hhost ▸ h.hostRx, hrelays ▸ h.hostRelays, ⟨l', ?_, hrx', hcode', ?_⟩, ?_⟩
    · rw [Hub.viewerRecv, Hub.update, List.getElem?_modify_eq, hl]
      exact congrArg some hlink
    · rw [hgeneration.1, hgeneration.2, hseat]
      exact hseated
    · rw [hseat]
      exact h.vacant
  rw [FakeHub.viewerRecv] at hr
  split at hr
  · rename_i code hclosed
    obtain ⟨rfl, rfl⟩ := Prod.mk.inj (Option.some.inj hr)
    have hrecv : l.recv (hub.connected i) = (.error (.closed (some code)), l) := by
      rw [FakeViewerLink.recv, hcode, hclosed]
      rfl
    exact ⟨congrArg Prod.fst hrecv,
      left (congrArg Prod.snd hrecv) ⟨rfl, rfl⟩ hrx hcode ⟨rfl, rfl, rfl⟩⟩
  · rename_i hnone
    rw [hnone, Option.map_none] at hcode
    split at hr
    · rename_i m rest hunread
      obtain ⟨rfl, rfl⟩ := Prod.mk.inj (Option.some.inj hr)
      obtain ⟨c, hc, hrest⟩ := (hunread ▸ hrx).recv
      have hrecv : l.recv (hub.connected i) = (.ok (some m), { l with rx := c }) := by
        rw [FakeViewerLink.recv, hcode]
        dsimp only
        rw [hc]
      refine ⟨congrArg Prod.fst hrecv,
        left (congrArg Prod.snd hrecv) ⟨rfl, rfl⟩ hrest ?_ ⟨rfl, rfl, rfl⟩⟩
      rw [hnone]
      exact hcode
    · rename_i code rest hunread
      obtain ⟨rfl, rfl⟩ := Prod.mk.inj (Option.some.inj hr)
      obtain ⟨c, hc, hrest⟩ := (hunread ▸ hrx).recv
      have hrecv : l.recv (hub.connected i) = (.error (.closed (some code)),
          { l with rx := c, closedCode := some (some code) }) := by
        rw [FakeViewerLink.recv, hcode]
        dsimp only
        rw [hc]
      exact ⟨congrArg Prod.fst hrecv,
        left (congrArg Prod.snd hrecv) ⟨rfl, rfl⟩ hrest rfl ⟨rfl, rfl, rfl⟩⟩
    · cases hr

theorem viewerDrop (h : hub.Views i fake) {l : FakeViewerLink} (hl : hub.links[i]? = some l) :
    (hub.viewerDrop i l).Views i fake.viewerDrop := by
  obtain ⟨l', hl', hrx, hcode, -⟩ := h.link
  obtain rfl := Option.some.inj (hl.symm.trans hl')
  have hleft (links : List FakeViewerLink) (hlinks : links = hub.links) :
      (links.modify i fun l => { l with dropped := true })[i]? = some { l with dropped := true } := by
    rw [hlinks, List.getElem?_modify_eq, hl]
    rfl
  rw [Hub.viewerDrop, FakeHub.viewerDrop, h.isCurrent hl]
  split
  · obtain ⟨hopen, hoffer⟩ := h.holds_offer .viewerLeft
    exact ⟨hopen, hoffer, h.hostRelays,
      ⟨_, hleft _ rfl, hrx, hcode, fun htrue => by cases htrue⟩, fun _ => rfl⟩
  · rename_i hs
    exact ⟨h.manned, h.hostRx, h.hostRelays,
      ⟨_, hleft _ rfl, hrx, hcode, fun htrue => absurd htrue hs⟩,
      fun _ => h.vacant (Bool.eq_false_of_not_eq_true hs)⟩

-- what an end does on the lean hub it can do on the whole one, and is answered the same
theorem does (h : hub.Views i fake) {d : Deed} (hd : fake.Does d fake') :
    ∃ hub', Hub.Does i hub d hub' ∧ hub'.Views i fake' := by
  obtain ⟨l, hl, -⟩ := h.link
  cases hd with
  | hostSend hm =>
      obtain ⟨hub', hsend, hviews⟩ := h.hostSend hm
      exact ⟨hub', .hostSend hsend, hviews⟩
  | hostRecv hm =>
      obtain ⟨hub', hrecv, hviews⟩ := h.hostRecv hm
      exact ⟨hub', .hostRecv hrecv, hviews⟩
  | viewerSend m =>
      obtain ⟨hanswer, hviews⟩ := h.viewerSend hl m
      exact ⟨_, hanswer ▸ .viewerSend hl m, hviews⟩
  | viewerRecv hr =>
      obtain ⟨rfl, hviews⟩ := h.viewerRecv hl hr
      exact ⟨_, .viewerRecv hl, hviews⟩
  | viewerDrop => exact ⟨_, .viewerDrop hl, h.viewerDrop hl⟩

-- a viewer that comes while the seat is free
theorem viewer (hmanned : hub.host.dropped = false) (hvacant : hub.inner.viewer = none)
    {stale : List ServerToHost} (hstale : hub.host.rx.Holds stale) :
    hub.viewer.Views hub.links.length (.viewer stale) := by
  rw [Hub.viewer_eq hmanned hvacant]
  refine ⟨rfl, hstale.send .viewerJoined, ⟨hub.inner.hostRelays, (List.append_nil _).symm⟩,
    ⟨hub.fresh, ?_, ⟨[], rfl, rfl⟩, rfl, fun _ => ⟨rfl, rfl⟩⟩, fun hfalse => by cases hfalse⟩
  rw [List.getElem?_append_right (le_refl _), Nat.sub_self]
  rfl

end Hub.Views

namespace Deed

def ofHost : Ev HostSig → Option Deed
  | ⟨.linkSend m, .ok _⟩ => some (.hostSend m)
  | ⟨.linkRecv _, .ok (some m)⟩ => some (.hostRecv m)
  | _ => none

def ofViewer : Ev ViewerSig → Option Deed
  | ⟨.linkSend m, r⟩ => some (.viewerSend m r)
  | ⟨.linkRecv _, r⟩ => some (.viewerRecv r)
  | _ => none

def byHost : Deed → Bool
  | hostSend _ => true
  | hostRecv _ => true
  | _ => false

-- what the program of the viewer did, not the end of it
def byViewer : Deed → Bool
  | viewerSend _ _ => true
  | viewerRecv _ => true
  | _ => false

end Deed

section
variable {W : Setting} {s s' : Meeting} {l l' : Lines}

-- `l'` is `l` after what an end did on its link, if it did anything there
def Lines.Moved (l l' : Lines) (d : Option Deed) : Prop :=
  match d with
  | some d => l.hub.Does d l'.hub
  | none => l'.hub = l.hub

theorem viewer_moves {e : Ev ViewerSig} (h : W.ViewerAnswer l e l') :
    l.Moved l' (Deed.ofViewer e) ∧ ∀ d ∈ Deed.ofViewer e, d.byViewer = true ∧ d.byHost = false := by
  cases h with
  | send m => exact ⟨.viewerSend l.hub m, fun d hd => by cases hd; exact ⟨rfl, rfl⟩⟩
  | recv t hr => exact ⟨.viewerRecv hr, fun d hd => by cases hd; exact ⟨rfl, rfl⟩⟩
  | _ => exact ⟨rfl, fun d hd => by cases hd⟩

theorem host_moves {e : Ev HostSig} (h : W.HostAnswer l e l') :
    l.Moved l' (Deed.ofHost e) ∧ ∀ d ∈ Deed.ofHost e, d.byHost = true ∧ d.byViewer = false := by
  cases h with
  | send hm => exact ⟨.hostSend hm, fun d hd => by cases hd; exact ⟨rfl, rfl⟩⟩
  | recv t hr => exact ⟨.hostRecv hr, fun d hd => by cases hd; exact ⟨rfl, rfl⟩⟩
  | _ => exact ⟨rfl, fun d hd => by cases hd⟩

theorem Lines.Moved.done {hub : FakeHub} {ds : List Deed} {d : Option Deed} (h : l.Moved l' d)
    (hds : Runs.Done FakeHub.Does hub ds l.hub) :
    Runs.Done FakeHub.Does hub (ds ++ d.toList) l'.hub := by
  cases d with
  | some d => exact .snoc hds h
  | none =>
      have hsame : l'.hub = l.hub := h
      rw [hsame, Option.toList_none, List.append_nil]
      exact hds

-- the deeds of a meeting: each end's are the calls it made on its link, in order
structure Meeting.Deeds (s : Meeting) (ds : List Deed) : Prop where
  byHost : ds.filter Deed.byHost = s.hostTrace.filterMap Deed.ofHost
  byViewer : ds.filter Deed.byViewer = s.viewerTrace.filterMap Deed.ofViewer

theorem filter_toList_true {P : Deed → Bool} {d : Option Deed} (h : ∀ a ∈ d, P a = true) :
    d.toList.filter P = d.toList :=
  List.filter_eq_self.mpr fun a ha => h a (Option.mem_toList.mp ha)

theorem filter_toList_false {P : Deed → Bool} {d : Option Deed} (h : ∀ a ∈ d, P a = false) :
    d.toList.filter P = [] :=
  List.filter_eq_nil_iff.mpr fun a ha => by simp [h a (Option.mem_toList.mp ha)]

theorem Setting.Step.deeds (h : W.Step s s') {hub : FakeHub} {ds : List Deed}
    (hds : Runs.Done FakeHub.Does hub ds s.lines.hub) (hs : s.Deeds ds) :
    ∃ ds', Runs.Done FakeHub.Does hub ds' s'.lines.hub ∧ s'.Deeds ds' := by
  cases h with
  | @viewer o k r lines hact ha =>
      obtain ⟨hmoved, hd⟩ := viewer_moves ha
      refine ⟨_, hmoved.done hds, ?_, ?_⟩
      · rw [List.filter_append, filter_toList_false fun d h => (hd d h).2, List.append_nil]
        exact hs.byHost
      · rw [List.filter_append, filter_toList_true fun d h => (hd d h).1, hs.byViewer,
          List.filterMap_append, filterMap_single]
  | @host o k r lines hact ha =>
      obtain ⟨hmoved, hd⟩ := host_moves ha
      refine ⟨_, hmoved.done hds, ?_, ?_⟩
      · rw [List.filter_append, filter_toList_true fun d h => (hd d h).1, hs.byHost,
          List.filterMap_append, filterMap_single]
      · rw [List.filter_append, filter_toList_false fun d h => (hd d h).2, List.append_nil]
        exact hs.byViewer
  | leave hret hgone =>
      refine ⟨ds ++ [.viewerDrop], .snoc hds (.viewerDrop _), ?_, ?_⟩
      · rw [List.filter_append]
        exact (List.append_nil _).trans hs.byHost
      · rw [List.filter_append]
        exact (List.append_nil _).trans hs.byViewer

-- every meeting takes place on the whole hub as well, whoever was there before
theorem Setting.Reaches.on_hub {fuel n : Nat} (h : W.Reaches fuel n s) {hub : Hub}
    (hmanned : hub.host.dropped = false) (hvacant : hub.inner.viewer = none)
    (hstale : hub.host.rx.Holds W.stale) :
    ∃ ds hub', Runs.Done (Hub.Does hub.links.length) hub.viewer ds hub' ∧
      hub'.Views hub.links.length s.lines.hub ∧ s.Deeds ds := by
  have hfake : ∃ ds, Runs.Done FakeHub.Does (.viewer W.stale) ds s.lines.hub ∧ s.Deeds ds := by
    induction h with
    | start => exact ⟨[], .nil _, rfl, rfl⟩
    | step _ hs ih =>
        obtain ⟨ds, hds, hdeeds⟩ := ih
        exact hs.deeds hds hdeeds
  obtain ⟨ds, hds, hdeeds⟩ := hfake
  have hstep (fake : FakeHub) (hub' : Hub) (d : Deed) (fake' : FakeHub)
      (hviews : hub'.Views hub.links.length fake) (hd : fake.Does d fake') :
      ∃ hub'', Hub.Does hub.links.length hub' d hub'' ∧ hub''.Views hub.links.length fake' :=
    hviews.does hd
  obtain ⟨hub', hrun, hviews⟩ := hds.carried hstep (Hub.Views.viewer hmanned hvacant hstale)
  exact ⟨ds, hub', hrun, hviews, hdeeds⟩

end

end SimpleRemote
