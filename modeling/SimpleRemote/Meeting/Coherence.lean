import SimpleRemote.Meeting.Step

namespace SimpleRemote
open ByteCodec Interaction

def ViewerToServer.toHost : ViewerToServer → ServerToHost
  | .relay data => .relay data

def HostToServer.envelope : HostToServer → Option ViewerEnvelope
  | .auth _ => none
  | .relay data => some (.msg (.relay data))
  | .kick => some (.closed 4001)

namespace ViewerAt
variable (W : Setting)

def sends : ViewerAt → List ViewerToServer
  | .outside | .joined | .begun => []
  | .confirmed | .answered | .linked _ | .greeted _ | .closing _ =>
      [Viewer.relayOf W.start, Viewer.relayOf W.confirm]
  | _ => [Viewer.relayOf W.start]

def heard : ViewerAt → List ViewerEnvelope
  | .outside => []
  | .joined | .begun | .asked => [.msg .joined]
  | .refused ms => [.msg .joined, .msg (.relay (relayText (.retryAfter ms)))]
  | .replied | .finished | .keyed | .wrong | .peered | .offered | .confirmed =>
      [.msg .joined, .msg (.relay (relayText W.reply))]
  | _ => [.msg .joined, .msg (.relay (relayText W.reply)), .msg (.relay (relayText W.answered))]

def data : ViewerAt → List PeerEvent
  | .greeted _ => [W.heardViewer]
  | .closing _ => [W.heardViewer, .closed]
  | _ => []

def got : ViewerAt → List PeerEvent
  | .linked got | .greeted got | .closing got => got
  | _ => []

def polls : ViewerAt → Bool
  | .closing _ => false
  | _ => true

def ended : ViewerAt → Prop
  | .refused _ | .wrong | .closing _ => True
  | .greeted got => 2 ≤ got.length
  | _ => False

-- what the viewer knows of the two inputs
def knows : ViewerAt → Prop
  | .keyed | .peered | .offered | .confirmed | .answered | .linked _ | .greeted _ =>
      W.viewerInput = W.hostInput
  | .closing got => W.viewerInput = W.hostInput ∧ 2 ≤ got.length
  | .wrong => W.viewerInput ≠ W.hostInput
  | _ => True

end ViewerAt

namespace HostAt
variable (W : Setting)

def sends : HostAt → List HostToServer
  | .refusing wait => [relayOf (.retryAfter (retryAfterMs wait))]
  | .refused wait => [relayOf (.retryAfter (retryAfterMs wait)), .kick]
  | .replied | .left | .confirmed | .verified | .peered | .accepted => [relayOf W.reply]
  | .linked _ | .greeted _ _ | .decided _ _ _ | .closing _ _ => [relayOf W.reply, relayOf W.answered]
  | .dismissed _ _ => [relayOf W.reply, relayOf W.answered, .kick]
  | _ => []

def heard : HostAt → List ServerToHost
  | .idle skipped => skipped
  | .joined | .waiting _ | .refusing _ | .refused _ | .ready => W.stale ++ [.viewerJoined]
  | .started | .chosen | .responding | .replied =>
      W.stale ++ [.viewerJoined, .relay (relayText W.start)]
  | .left => W.stale ++ [.viewerJoined, .relay (relayText W.start), .viewerLeft]
  | _ => W.stale ++ [.viewerJoined, .relay (relayText W.start), .relay (relayText W.confirm)]

def data : HostAt → List PeerEvent
  | .greeted _ _ => [W.heardHello]
  | .decided d _ _ => [W.heardHello, Setting.heardDecision d]
  | .closing d _ | .dismissed d _ => [W.heardHello, Setting.heardDecision d, .closed]
  | _ => []

def got : HostAt → List PeerEvent
  | .linked got | .greeted got _ | .decided _ got _ => got
  | _ => []

def polls : HostAt → Bool
  | .closing _ _ | .dismissed _ _ => false
  | _ => true

def kicked : HostAt → Bool
  | .refused _ | .dismissed _ _ => true
  | _ => false

def said : HostAt → List (Option Bool)
  | .greeted _ said | .decided _ _ said | .closing _ said | .dismissed _ said => said
  | _ => []

-- the decision sent
def decision : HostAt → Option Decision
  | .decided d _ _ | .closing d _ | .dismissed d _ => some d
  | _ => none

-- what the limiter said at the instant it was asked
def checked (h : HostAt) (now : Option Instant) : Prop :=
  match h with
  | .idle _ | .joined => now = none
  | .waiting wait | .refusing wait | .refused wait =>
      ∃ t, now = some t ∧ W.st.limiter.check t = .error wait
  | _ => ∃ t, now = some t ∧ W.st.limiter.check t = .ok ()

def knows : HostAt → Prop
  | .confirmed | .verified | .peered | .accepted | .linked _ | .greeted _ _ | .decided _ _ _ =>
      W.viewerInput = W.hostInput
  | .closing d _ | .dismissed d _ => W.viewerInput = W.hostInput ∧ d ≠ .accepted
  | _ => True

end HostAt

-- where the two ends are, and what is on the lines between them
structure Coherent (W : Setting) (v : ViewerAt) (h : HostAt) (s : Meeting) : Prop where
  viewerSends : linkSends s.viewerTrace = v.sends W
  hostSends : linkSends s.hostTrace = h.sends W
  said : approvals s.hostTrace = h.said
  checked : h.checked W (checkedAt s.hostTrace)
  viewerKnows : v.knows W
  hostKnows : h.knows W
  owes : ∀ d ∈ h.decision, W.Owes h.said d ∧ v.data W ≠ []
  seated : s.lines.hub.seated = (!s.gone && !h.kicked)
  noClose : s.lines.hub.closedCode = none
  ended : s.gone = true → v.ended
  hostLink : ∃ rest, h.heard W ++ rest = W.stale ++ (.viewerJoined ::
      (v.sends W).map ViewerToServer.toHost ++ if s.gone then [.viewerLeft] else []) ∧
    (h.kicked = false → rest = s.lines.hub.hostRx)
  viewerLink : ∃ rest, v.heard W ++ rest =
      .msg .joined :: (h.sends W).filterMap HostToServer.envelope ∧
    (s.gone = false → rest = s.lines.hub.viewerRx)
  hostData : ∃ rest, h.got ++ rest = v.data W ∧ (h.polls = true → rest = s.lines.toHost)
  viewerData : ∃ rest, v.got ++ rest = h.data W ∧ (v.polls = true → rest = s.lines.toViewer)

section
variable {W : Setting} {v v' : ViewerAt} {h h' : HostAt} {s : Meeting}

theorem coherent_meet (fuel : Nat) : Coherent W .outside (.idle []) (W.meet fuel) where
  viewerSends := rfl
  hostSends := rfl
  said := rfl
  checked := rfl
  viewerKnows := trivial
  hostKnows := trivial
  owes := nofun
  seated := rfl
  noClose := rfl
  ended := nofun
  hostLink := ⟨_, rfl, fun _ => rfl⟩
  viewerLink := ⟨_, rfl, fun _ => rfl⟩
  hostData := ⟨_, rfl, fun _ => rfl⟩
  viewerData := ⟨_, rfl, fun _ => rfl⟩

theorem linkSends_append {In Out : Type} (tr tr' : List (Ev (conn In Out))) :
    linkSends (tr ++ tr') = linkSends tr ++ linkSends tr' := List.filterMap_append

theorem approvals_append (tr tr' : List (Ev HostSig)) :
    approvals (tr ++ tr') = approvals tr ++ approvals tr' := List.filterMap_append

theorem checkedAt_append (tr tr' : List (Ev HostSig)) :
    checkedAt (tr ++ tr') = (checkedAt tr).or (checkedAt tr') := List.findSome?_append

-- a step of the viewer that leaves the lines as they are
structure ViewerAt.Like (W : Setting) (v v' : ViewerAt) : Prop where
  sends : v'.sends W = v.sends W
  heard : v'.heard W = v.heard W
  data : v'.data W = v.data W
  got : v'.got = v.got
  polls : v'.polls = v.polls

theorem Coherent.viewer_local (co : Coherent W v h s) (hgone : s.gone = false) (v' : ViewerAt)
    (hlike : v.Like W v') (hknows : v'.knows W) {q : ViewerM ConnectResult} {e : Ev ViewerSig}
    (he : linkSends [e] = [] := by rfl) :
    Coherent W v' h { s with viewer := q, viewerTrace := s.viewerTrace ++ [e] } where
  viewerSends := by
    rw [linkSends_append, he, List.append_nil, co.viewerSends, hlike.sends]
  hostSends := co.hostSends
  said := co.said
  checked := co.checked
  viewerKnows := hknows
  hostKnows := co.hostKnows
  owes d hd := by
    rw [hlike.data]
    exact co.owes d hd
  seated := co.seated
  noClose := co.noClose
  ended hg := by
    rw [show s.gone = true from hg] at hgone
    cases hgone
  hostLink := by
    rw [hlike.sends]
    exact co.hostLink
  viewerLink := by
    rw [hlike.heard]
    exact co.viewerLink
  hostData := by
    rw [hlike.data]
    exact co.hostData
  viewerData := by
    rw [hlike.got, hlike.polls]
    exact co.viewerData

theorem relayText_injective {m m' : PakeMsg} (hm : m.fits) (hm' : m'.fits)
    (h : relayText m = relayText m') : m = m' := by
  have hd := viewer_decodes hm
  rw [h, viewer_decodes hm'] at hd
  exact (Option.some.inj hd).symm

theorem reply_ne_retryAfter (ideal : W.Ideal) (ms : UInt64) :
    relayText W.reply ≠ relayText (.retryAfter ms) := by
  intro h
  have hfits : (PakeMsg.retryAfter ms).fits := trivial
  cases relayText_injective ideal.reply_fits hfits h

theorem envelope_relayOf (msg : PakeMsg) :
    (relayOf msg).envelope = some (.msg (.relay (relayText msg))) := rfl

-- the viewer's link hands out the next envelope
theorem Coherent.viewer_recv (co : Coherent W v h s) (hgone : s.gone = false)
    {r : Except LinkError (Option ServerToViewer)} {hub : FakeHub}
    (hr : s.lines.hub.viewerRecv = some (r, hub)) :
    ∃ e rest, s.lines.hub.viewerRx = e :: rest ∧ v.heard W ++ e :: rest =
        .msg .joined :: (h.sends W).filterMap HostToServer.envelope ∧
      ∀ m, e = .msg m → r = .ok (some m) ∧ hub = { s.lines.hub with viewerRx := rest } := by
  obtain ⟨rest, hlink, hrest⟩ := co.viewerLink
  obtain rfl := hrest hgone
  rw [FakeHub.viewerRecv, co.noClose] at hr
  dsimp only at hr
  cases hrx : s.lines.hub.viewerRx with
  | nil =>
      rw [hrx] at hr
      cases hr
  | cons e rest =>
      rw [hrx] at hlink hr
      refine ⟨e, rest, rfl, hlink, fun m hm => ?_⟩
      subst hm
      obtain ⟨rfl, rfl⟩ := Prod.mk.inj (Option.some.inj hr)
      exact ⟨rfl, by simp [co.noClose]⟩

theorem Coherent.viewer_hears (co : Coherent W v h s) (hgone : s.gone = false) (v' : ViewerAt)
    {m : ServerToViewer} {rest : List ViewerEnvelope} (hrx : s.lines.hub.viewerRx = .msg m :: rest)
    (hsends : v'.sends W = v.sends W) (hheard : v'.heard W = v.heard W ++ [.msg m])
    (hdata : v'.data W = v.data W) (hgot : v'.got = v.got) (hpolls : v'.polls = v.polls)
    (hknows : v'.knows W) {q : ViewerM ConnectResult} {t : Duration} :
    Coherent W v' h { s with
      viewer := q
      lines := { s.lines with hub := { s.lines.hub with viewerRx := rest } }
      viewerTrace := s.viewerTrace ++ [⟨.linkRecv t, .ok (some m)⟩] } where
  viewerSends := by
    rw [linkSends_append, co.viewerSends, hsends]
    exact List.append_nil _
  hostSends := co.hostSends
  said := co.said
  checked := co.checked
  viewerKnows := hknows
  hostKnows := co.hostKnows
  owes d hd := by
    rw [hdata]
    exact co.owes d hd
  seated := co.seated
  noClose := co.noClose
  ended hg := by
    rw [show s.gone = true from hg] at hgone
    cases hgone
  hostLink := by
    rw [hsends]
    exact co.hostLink
  viewerLink := by
    obtain ⟨rest', hlink, hrest⟩ := co.viewerLink
    obtain rfl := hrest hgone
    refine ⟨rest, ?_, fun _ => rfl⟩
    rw [hheard, ← hlink, hrx, List.append_assoc]
    rfl
  hostData := by
    rw [hdata]
    exact co.hostData
  viewerData := by
    rw [hgot, hpolls]
    exact co.viewerData

theorem viewer_hears_joined {e : ViewerEnvelope} {rest : List ViewerEnvelope}
    (hlink : ViewerAt.outside.heard W ++ e :: rest =
      .msg .joined :: (h.sends W).filterMap HostToServer.envelope) : e = .msg .joined :=
  (List.cons.inj hlink).1

theorem viewer_hears_first {e : ViewerEnvelope} {rest : List ViewerEnvelope}
    (hlink : ViewerAt.asked.heard W ++ e :: rest =
      .msg .joined :: (h.sends W).filterMap HostToServer.envelope) :
    (∃ ms, e = .msg (.relay (relayText (.retryAfter ms)))) ∨ e = .msg (.relay (relayText W.reply)) := by
  have htail := (List.cons.inj hlink).2
  cases h <;> simp [HostAt.sends, envelope_relayOf] at htail
  case refusing | refused => exact .inl ⟨_, htail.1⟩
  all_goals exact .inr htail.1

theorem viewer_hears_second (ideal : W.Ideal) {e : ViewerEnvelope} {rest : List ViewerEnvelope}
    (hlink : ViewerAt.confirmed.heard W ++ e :: rest =
      .msg .joined :: (h.sends W).filterMap HostToServer.envelope) :
    e = .msg (.relay (relayText W.answered)) := by
  have htail := (List.cons.inj hlink).2
  have hne := reply_ne_retryAfter ideal
  cases h <;> simp [HostAt.sends, envelope_relayOf, hne] at htail <;> exact htail.1

theorem Coherent.viewer_sends (co : Coherent W v h s) (hgone : s.gone = false) (v' : ViewerAt)
    {m : ViewerToServer} (hsends : v'.sends W = v.sends W ++ [m]) (hheard : v'.heard W = v.heard W)
    (hdata : v'.data W = v.data W) (hgot : v'.got = v.got) (hpolls : v'.polls = v.polls)
    (hknows : v'.knows W) {q : ViewerM ConnectResult} :
    Coherent W v' h { s with
      viewer := q
      lines := { s.lines with hub := (s.lines.hub.viewerSend m).2 }
      viewerTrace := s.viewerTrace ++ [⟨.linkSend m, (s.lines.hub.viewerSend m).1⟩] } := by
  have hhub : (s.lines.hub.viewerSend m).2 = if s.lines.hub.seated
      then { s.lines.hub with hostRx := s.lines.hub.hostRx ++ [m.toHost] } else s.lines.hub := by
    cases m
    simp only [FakeHub.viewerSend, co.noClose, ViewerToServer.toHost]
    split <;> rfl
  have hseated := co.seated
  rw [hgone] at hseated
  constructor
  case viewerSends =>
    rw [linkSends_append, co.viewerSends, hsends]
    rfl
  case hostSends => exact co.hostSends
  case said => exact co.said
  case checked => exact co.checked
  case viewerKnows => exact hknows
  case hostKnows => exact co.hostKnows
  case owes =>
    rw [hdata]
    exact co.owes
  case seated =>
    dsimp only
    rw [hhub, ← co.seated]
    split <;> rfl
  case noClose =>
    dsimp only
    rw [hhub, ← co.noClose]
    split <;> rfl
  case ended =>
    intro hg
    rw [show s.gone = true from hg] at hgone
    cases hgone
  case hostLink =>
    obtain ⟨rest, hlink, hrest⟩ := co.hostLink
    refine ⟨rest ++ [m.toHost], ?_, fun hkicked => ?_⟩
    · rw [hgone] at hlink
      dsimp only
      rw [← List.append_assoc, hlink, hsends, hgone]
      simp
    · dsimp only
      rw [hhub, hseated, hkicked, hrest hkicked]
      rfl
  case viewerLink =>
    rw [hheard]
    obtain ⟨rest, hlink, hrest⟩ := co.viewerLink
    refine ⟨rest, hlink, fun hg => (hrest hg).trans ?_⟩
    dsimp only
    rw [hhub]
    split <;> rfl
  case hostData =>
    rw [hdata]
    exact co.hostData
  case viewerData =>
    rw [hgot, hpolls]
    exact co.viewerData

theorem viewerSend_delivers {hub : FakeHub} (m : ViewerToServer) :
    Viewer.delivers (hub.viewerSend m).1 := by
  cases m
  rw [FakeHub.viewerSend]
  split
  · exact .inr ⟨_, rfl⟩
  · split
    · exact .inl rfl
    · exact .inr ⟨_, rfl⟩

theorem Coherent.viewerSend_ok (co : Coherent W v h s) (hgone : s.gone = false)
    (hkicked : h.kicked = false) (m : ViewerToServer) : (s.lines.hub.viewerSend m).1 = .ok () := by
  cases m
  rw [FakeHub.viewerSend, co.noClose, co.seated, hgone, hkicked]
  rfl

theorem Coherent.viewer_polls (co : Coherent W v h s) (hgone : s.gone = false) (v' : ViewerAt)
    {es rest : List PeerEvent} (hes : es.filter PeerEvent.carried ++ rest = s.lines.toViewer)
    (hpolls : v.polls = true) (hsends : v'.sends W = v.sends W) (hheard : v'.heard W = v.heard W)
    (hdata : v'.data W = v.data W) (hgot : v'.got = v.got ++ es.filter PeerEvent.carried)
    (hknows : v'.knows W) {q : ViewerM ConnectResult} {d : Duration} :
    Coherent W v' h { s with
      viewer := q
      lines := { s.lines with toViewer := rest }
      viewerTrace := s.viewerTrace ++ [⟨.poll d, .ok es⟩] } where
  viewerSends := by
    rw [linkSends_append, co.viewerSends, hsends]
    exact List.append_nil _
  hostSends := co.hostSends
  said := co.said
  checked := co.checked
  viewerKnows := hknows
  hostKnows := co.hostKnows
  owes := by
    rw [hdata]
    exact co.owes
  seated := co.seated
  noClose := co.noClose
  ended hg := by
    rw [show s.gone = true from hg] at hgone
    cases hgone
  hostLink := by
    rw [hsends]
    exact co.hostLink
  viewerLink := by
    rw [hheard]
    exact co.viewerLink
  hostData := by
    rw [hdata]
    exact co.hostData
  viewerData := by
    obtain ⟨rest', hdata', hrest⟩ := co.viewerData
    obtain rfl := hrest hpolls
    refine ⟨rest, ?_, fun _ => rfl⟩
    rw [hgot, List.append_assoc, hes, hdata']

-- a peer that is closed hands out nothing any more
theorem Coherent.viewer_drains (co : Coherent W v h s) (hpolls : v.polls = false)
    {es rest : List PeerEvent} {q : ViewerM ConnectResult} {d : Duration} :
    Coherent W v h { s with
      viewer := q
      lines := { s.lines with toViewer := rest }
      viewerTrace := s.viewerTrace ++ [⟨.poll d, .ok es⟩] } where
  viewerSends := by
    rw [linkSends_append, co.viewerSends]
    exact List.append_nil _
  hostSends := co.hostSends
  said := co.said
  checked := co.checked
  viewerKnows := co.viewerKnows
  hostKnows := co.hostKnows
  owes := co.owes
  seated := co.seated
  noClose := co.noClose
  ended := co.ended
  hostLink := co.hostLink
  viewerLink := co.viewerLink
  hostData := co.hostData
  viewerData := by
    obtain ⟨rest', hdata, -⟩ := co.viewerData
    exact ⟨rest', hdata, fun hp => by rw [hpolls] at hp; cases hp⟩

theorem Coherent.viewer_gives (co : Coherent W v h s) (hgone : s.gone = false) (v' : ViewerAt)
    {e : PeerEvent} {ev : Ev ViewerSig} (hsends : v'.sends W = v.sends W)
    (hheard : v'.heard W = v.heard W) (hdata : v'.data W = v.data W ++ [e]) (hgot : v'.got = v.got)
    (hpolls : v.polls = true) (hknows : v'.knows W) {q : ViewerM ConnectResult}
    (hev : linkSends [ev] = [] := by rfl) :
    Coherent W v' h { s with
      viewer := q
      lines := { s.lines with toHost := s.lines.toHost ++ [e] }
      viewerTrace := s.viewerTrace ++ [ev] } where
  viewerSends := by
    rw [linkSends_append, hev, co.viewerSends, hsends]
    exact List.append_nil _
  hostSends := co.hostSends
  said := co.said
  checked := co.checked
  viewerKnows := hknows
  hostKnows := co.hostKnows
  owes d hd := ⟨(co.owes d hd).1, by simp [hdata]⟩
  seated := co.seated
  noClose := co.noClose
  ended hg := by
    rw [show s.gone = true from hg] at hgone
    cases hgone
  hostLink := by
    rw [hsends]
    exact co.hostLink
  viewerLink := by
    rw [hheard]
    exact co.viewerLink
  hostData := by
    obtain ⟨rest, hgot', hrest⟩ := co.hostData
    refine ⟨rest ++ [e], ?_, fun hp => by rw [hrest hp]⟩
    rw [← List.append_assoc, hgot', hdata]
  viewerData := by
    obtain ⟨rest, hgot', hrest⟩ := co.viewerData
    exact ⟨rest, by rw [hgot, hgot'], fun _ => hrest hpolls⟩

theorem host_data_undecided (hd : h.decision = none) : h.data W <+: [W.heardHello] := by
  cases h <;> first | exact List.nil_prefix | exact List.prefix_rfl | cases hd

theorem host_data_prefix : ∃ d, h.data W <+: [W.heardHello, Setting.heardDecision d, .closed] := by
  cases h with
  | greeted got said => exact ⟨.accepted, ⟨_, rfl⟩⟩
  | decided d got said => exact ⟨d, ⟨_, rfl⟩⟩
  | closing d said => exact ⟨d, List.prefix_rfl⟩
  | dismissed d said => exact ⟨d, List.prefix_rfl⟩
  | _ => exact ⟨.accepted, List.nil_prefix⟩

theorem Coherent.undecided (co : Coherent W v h s) (hdata : v.data W = []) : h.decision = none := by
  by_contra hne
  obtain ⟨d, hd⟩ := Option.ne_none_iff_exists'.mp hne
  exact (co.owes d hd).2 hdata

theorem Coherent.not_kicked (ideal : W.Ideal) (co : Coherent W .offered h s) :
    h.kicked = false := by
  have hundecided := co.undecided rfl
  cases h with
  | refused wait =>
      obtain ⟨rest, hlink, -⟩ := co.viewerLink
      have htail := (List.cons.inj hlink).2
      simp [HostAt.sends, envelope_relayOf, reply_ne_retryAfter ideal] at htail
  | dismissed d said => cases hundecided
  | _ => rfl

theorem Coherent.viewer_step (ideal : W.Ideal) (co : Coherent W v h s) (hgone : s.gone = false)
    {o : Op ViewerToServer} {r₀ r : Op.Res ServerToViewer o} {v₀ : ViewerAt} {lines : Lines}
    (q : ViewerM ConnectResult) (hm : W.ViewerMove v ⟨o, r₀⟩ v₀)
    (ha : W.ViewerAnswer s.lines ⟨o, r⟩ lines) :
    ∃ v', W.ViewerMove v ⟨o, r⟩ v' ∧ Coherent W v' h
      { s with viewer := q, lines, viewerTrace := s.viewerTrace ++ [⟨o, r⟩] } := by
  cases hm with
  | join t =>
      cases ha with
      | recv _ hr =>
          obtain ⟨e, rest, hrx, hlink, hmsg⟩ := co.viewer_recv hgone hr
          obtain rfl := viewer_hears_joined hlink
          obtain ⟨rfl, rfl⟩ := hmsg _ rfl
          exact ⟨.joined, .join t, co.viewer_hears hgone .joined hrx rfl rfl rfl rfl rfl trivial⟩
  | refused t ms | replied t =>
      cases ha with
      | recv _ hr =>
          obtain ⟨e, rest, hrx, hlink, hmsg⟩ := co.viewer_recv hgone hr
          obtain ⟨ms, rfl⟩ | rfl := viewer_hears_first hlink
          · obtain ⟨rfl, rfl⟩ := hmsg _ rfl
            exact ⟨_, .refused t ms,
              co.viewer_hears hgone (.refused ms) hrx rfl rfl rfl rfl rfl trivial⟩
          · obtain ⟨rfl, rfl⟩ := hmsg _ rfl
            exact ⟨_, .replied t, co.viewer_hears hgone .replied hrx rfl rfl rfl rfl rfl trivial⟩
  | answered t =>
      cases ha with
      | recv _ hr =>
          obtain ⟨e, rest, hrx, hlink, hmsg⟩ := co.viewer_recv hgone hr
          obtain rfl := viewer_hears_second ideal hlink
          obtain ⟨rfl, rfl⟩ := hmsg _ rfl
          exact ⟨_, .answered t,
            co.viewer_hears hgone .answered hrx rfl rfl rfl rfl rfl co.viewerKnows⟩
  | begin =>
      cases ha
      exact ⟨.begun, .begin,
          co.viewer_local hgone .begun ⟨rfl, rfl, rfl, rfl, rfl⟩ trivial⟩
  | finish =>
      cases ha
      rw [ideal.exchanges.finishA]
      exact ⟨.finished, .finish,
          co.viewer_local hgone .finished ⟨rfl, rfl, rfl, rfl, rfl⟩ trivial⟩
  | keyed _ | wrong _ =>
      cases ha
      by_cases hsame : W.viewerInput = W.hostInput
      · rw [(ideal.exchanges.same hsame).2.1]
        exact ⟨.keyed, .keyed hsame,
          co.viewer_local hgone .keyed ⟨rfl, rfl, rfl, rfl, rfl⟩ hsame⟩
      · rw [ideal.exchanges.apart hsame]
        exact ⟨.wrong, .wrong hsame,
          co.viewer_local hgone .wrong ⟨rfl, rfl, rfl, rfl, rfl⟩ hsame⟩
  | peer ips =>
      cases ha
      exact ⟨.peered, .peer ips,
          co.viewer_local hgone .peered ⟨rfl, rfl, rfl, rfl, rfl⟩ co.viewerKnows⟩
  | offer =>
      cases ha
      exact ⟨.offered, .offer,
          co.viewer_local hgone .offered ⟨rfl, rfl, rfl, rfl, rfl⟩ co.viewerKnows⟩
  | accept =>
      cases ha
      exact ⟨.linked [], .accept,
          co.viewer_local hgone (.linked []) ⟨rfl, rfl, rfl, rfl, rfl⟩ co.viewerKnows⟩
  | nowLinked got =>
      cases ha
      exact ⟨.linked got, .nowLinked got _,
          co.viewer_local hgone (.linked got) ⟨rfl, rfl, rfl, rfl, rfl⟩ co.viewerKnows⟩
  | nowGreeted got =>
      cases ha
      exact ⟨.greeted got, .nowGreeted got _,
          co.viewer_local hgone (.greeted got) ⟨rfl, rfl, rfl, rfl, rfl⟩ co.viewerKnows⟩
  | localFp got =>
      cases ha
      exact ⟨.linked got, .localFp got,
          co.viewer_local hgone (.linked got) ⟨rfl, rfl, rfl, rfl, rfl⟩ co.viewerKnows⟩
  | remoteFp got =>
      cases ha
      exact ⟨.linked got, .remoteFp got,
          co.viewer_local hgone (.linked got) ⟨rfl, rfl, rfl, rfl, rfl⟩ co.viewerKnows⟩
  | ask hsent =>
      cases ha
      exact ⟨.asked, .ask (viewerSend_delivers _),
        co.viewer_sends hgone .asked rfl rfl rfl rfl rfl trivial⟩
  | confirm =>
      have hok := co.viewerSend_ok hgone (co.not_kicked ideal) (Viewer.relayOf W.confirm)
      cases ha
      refine ⟨.confirmed, ?_, co.viewer_sends hgone .confirmed rfl rfl rfl rfl rfl co.viewerKnows⟩
      rw [hok]
      exact .confirm
  | pollLinked got d _ =>
      cases ha with
      | poll _ hes =>
          have hpolled := co.viewer_polls hgone (.linked (got ++ _)) hes rfl rfl rfl rfl rfl co.viewerKnows
            (q := q) (d := d)
          obtain ⟨rest, hgot, -⟩ := hpolled.viewerData
          refine ⟨_, .pollLinked got d ?_, hpolled⟩
          exact List.IsPrefix.trans ⟨rest, hgot⟩ (host_data_undecided (co.undecided rfl))
  | pollGreeted got t d _ =>
      cases ha with
      | poll _ hes =>
          have hpolled := co.viewer_polls hgone (.greeted (got ++ _)) hes rfl rfl rfl rfl rfl co.viewerKnows
            (q := q) (d := t)
          obtain ⟨rest, hgot, -⟩ := hpolled.viewerData
          obtain ⟨d, hd⟩ := host_data_prefix (W := W) (h := h)
          exact ⟨_, .pollGreeted got t d (List.IsPrefix.trans ⟨rest, hgot⟩ hd), hpolled⟩
  | pollClosing got d es =>
      cases ha with
      | poll _ hes => exact ⟨_, .pollClosing got d _, co.viewer_drains rfl⟩
  | greet got =>
      cases ha
      exact ⟨.greeted got, .greet got,
        co.viewer_gives hgone (.greeted got) rfl rfl rfl rfl rfl co.viewerKnows⟩
  | close got hgot =>
      cases ha
      exact ⟨.closing got, .close got hgot,
        co.viewer_gives hgone (.closing got) rfl rfl rfl rfl rfl ⟨co.viewerKnows, hgot⟩⟩

end

end SimpleRemote
