import SimpleRemote.Meeting.Coherence

namespace SimpleRemote
open ByteCodec Interaction

section
variable {W : Setting} {v v' : ViewerAt} {h h' : HostAt} {s : Meeting}

-- a step of the host that sends, hears and says nothing new
structure HostAt.Like (W : Setting) (h h' : HostAt) : Prop where
  sends : h'.sends W = h.sends W
  heard : h'.heard W = h.heard W
  data : h'.data W = h.data W
  got : h'.got = h.got
  polls : h'.polls = h.polls
  kicked : h'.kicked = h.kicked
  said : h'.said = h.said
  decision : h'.decision = h.decision

theorem HostAt.Like.refl (h : HostAt) : h.Like W h := ⟨rfl, rfl, rfl, rfl, rfl, rfl, rfl, rfl⟩

theorem Coherent.host_local (co : Coherent W v h s) (h' : HostAt) (hlike : h.Like W h')
    (hknows : h'.knows W) {q : HostM (ServeResult × HostState)} {e : Ev HostSig}
    (hchecked : h'.checked W (checkedAt (s.hostTrace ++ [e])))
    (hsends : linkSends [e] = [] := by rfl) (hnone : approvals [e] = [] := by rfl) :
    Coherent W v h' { s with host := q, hostTrace := s.hostTrace ++ [e] } where
  viewerSends := co.viewerSends
  hostSends := by rw [linkSends_append, hsends, List.append_nil, co.hostSends, hlike.sends]
  said := by rw [approvals_append, hnone, List.append_nil, co.said, hlike.said]
  checked := hchecked
  viewerKnows := co.viewerKnows
  hostKnows := hknows
  owes := by
    rw [hlike.decision, hlike.said]
    exact co.owes
  seated := by
    rw [hlike.kicked]
    exact co.seated
  noClose := co.noClose
  ended := co.ended
  hostLink := by
    rw [hlike.heard, hlike.kicked]
    exact co.hostLink
  viewerLink := by
    rw [hlike.sends]
    exact co.viewerLink
  hostData := by
    rw [hlike.got, hlike.polls]
    exact co.hostData
  viewerData := by
    rw [hlike.data]
    exact co.viewerData

theorem checked_append {r : Except Duration Unit} {tr : List (Ev HostSig)} {e : Ev HostSig}
    (h : ∃ t, checkedAt tr = some t ∧ W.st.limiter.check t = r) :
    ∃ t, checkedAt (tr ++ [e]) = some t ∧ W.st.limiter.check t = r := by
  obtain ⟨t, ht, hcheck⟩ := h
  exact ⟨t, by rw [checkedAt_append, ht]; rfl, hcheck⟩

theorem unchecked_append {tr : List (Ev HostSig)} {e : Ev HostSig} (h : checkedAt tr = none)
    (he : checkedAt [e] = none := by rfl) : checkedAt (tr ++ [e]) = none := by
  rw [checkedAt_append, h, he]
  rfl

theorem checked_first {tr : List (Ev HostSig)} {now : Instant} {r : Except Duration Unit}
    (h : checkedAt tr = none) (hr : W.st.limiter.check now = r) :
    ∃ t, checkedAt (tr ++ [⟨.now, now⟩]) = some t ∧ W.st.limiter.check t = r :=
  ⟨now, by rw [checkedAt_append, h]; rfl, hr⟩

-- the host's link hands out the next message
theorem Coherent.host_recv (co : Coherent W v h s) (hkicked : h.kicked = false) {m : ServerToHost}
    {hub : FakeHub} (hr : s.lines.hub.hostRecv = some (m, hub)) :
    ∃ rest, s.lines.hub.hostRx = m :: rest ∧ hub = { s.lines.hub with hostRx := rest } ∧
      h.heard W ++ m :: rest = W.stale ++ (.viewerJoined ::
        (v.sends W).map ViewerToServer.toHost ++ if s.gone then [.viewerLeft] else []) := by
  obtain ⟨rest, hlink, hrest⟩ := co.hostLink
  obtain rfl := hrest hkicked
  rw [FakeHub.hostRecv] at hr
  cases hrx : s.lines.hub.hostRx with
  | nil =>
      rw [hrx] at hr
      cases hr
  | cons m' rest =>
      rw [hrx] at hr hlink
      obtain ⟨rfl, rfl⟩ := Prod.mk.inj (Option.some.inj hr)
      exact ⟨rest, rfl, rfl, hlink⟩

theorem Coherent.host_hears (co : Coherent W v h s) (h' : HostAt) {m : ServerToHost}
    {rest : List ServerToHost} (hkicked : h.kicked = false)
    (hrx : s.lines.hub.hostRx = m :: rest) (hsends : h'.sends W = h.sends W)
    (hheard : h'.heard W = h.heard W ++ [m]) (hdata : h'.data W = h.data W)
    (hgot : h'.got = h.got) (hpolls : h'.polls = h.polls) (hkicked' : h'.kicked = false)
    (hsaid : h'.said = h.said) (hdecision : h'.decision = none) (hknows : h'.knows W)
    {q : HostM (ServeResult × HostState)} {t : Duration}
    (hchecked : h'.checked W (checkedAt (s.hostTrace ++ [⟨.linkRecv t, .ok (some m)⟩]))) :
    Coherent W v h' { s with
      host := q
      lines := { s.lines with hub := { s.lines.hub with hostRx := rest } }
      hostTrace := s.hostTrace ++ [⟨.linkRecv t, .ok (some m)⟩] } where
  viewerSends := co.viewerSends
  hostSends := by
    rw [linkSends_append, co.hostSends, hsends]
    exact List.append_nil _
  said := by
    rw [approvals_append, co.said, hsaid]
    exact List.append_nil _
  checked := hchecked
  viewerKnows := co.viewerKnows
  hostKnows := hknows
  owes := by
    rw [hdecision]
    exact nofun
  seated := by
    rw [hkicked', ← hkicked]
    exact co.seated
  noClose := co.noClose
  ended := co.ended
  hostLink := by
    obtain ⟨rest', hlink, hrest⟩ := co.hostLink
    obtain rfl := hrest hkicked
    refine ⟨rest, ?_, fun _ => rfl⟩
    rw [hheard, ← hlink, hrx, List.append_assoc]
    rfl
  viewerLink := by
    rw [hsends]
    exact co.viewerLink
  hostData := by
    rw [hgot, hpolls]
    exact co.hostData
  viewerData := by
    rw [hdata]
    exact co.viewerData

theorem hostSend_relayOf (hub : FakeHub) (msg : PakeMsg) :
    hub.hostSend (relayOf msg) = some { hub with
      hostRelays := hub.hostRelays ++ [PakeMsg.encode msg]
      viewerRx := if hub.seated then hub.viewerRx ++ [.msg (.relay (relayText msg))]
        else hub.viewerRx } := by
  rw [relayOf, FakeHub.hostSend, hexDecode_hexEncode]
  rfl

theorem Coherent.host_relays (co : Coherent W v h s) (h' : HostAt) {msg : PakeMsg} {hub : FakeHub}
    (hsend : s.lines.hub.hostSend (relayOf msg) = some hub) (hkicked : h.kicked = false)
    (hsends : h'.sends W = h.sends W ++ [relayOf msg]) (hheard : h'.heard W = h.heard W)
    (hdata : h'.data W = h.data W) (hgot : h'.got = h.got) (hpolls : h'.polls = h.polls)
    (hkicked' : h'.kicked = false) (hsaid : h'.said = h.said) (hdecision : h'.decision = none)
    (hknows : h'.knows W) {q : HostM (ServeResult × HostState)}
    (hchecked : h'.checked W (checkedAt (s.hostTrace ++ [⟨.linkSend (relayOf msg), .ok ()⟩]))) :
    Coherent W v h' { s with
      host := q
      lines := { s.lines with hub }
      hostTrace := s.hostTrace ++ [⟨.linkSend (relayOf msg), .ok ()⟩] } := by
  rw [hostSend_relayOf] at hsend
  obtain rfl := Option.some.inj hsend
  constructor
  case viewerSends => exact co.viewerSends
  case hostSends =>
    rw [linkSends_append, co.hostSends, hsends]
    rfl
  case said =>
    rw [approvals_append, co.said, hsaid]
    exact List.append_nil _
  case checked => exact hchecked
  case viewerKnows => exact co.viewerKnows
  case hostKnows => exact hknows
  case owes =>
    rw [hdecision]
    exact nofun
  case seated =>
    rw [hkicked', ← hkicked]
    exact co.seated
  case noClose => exact co.noClose
  case ended => exact co.ended
  case hostLink =>
    obtain ⟨rest, hlink, hrest⟩ := co.hostLink
    exact ⟨rest, by rw [hheard, hlink], fun _ => hrest hkicked⟩
  case viewerLink =>
    obtain ⟨rest, hlink, hrest⟩ := co.viewerLink
    refine ⟨rest ++ [.msg (.relay (relayText msg))], ?_, fun hg => ?_⟩
    · rw [← List.append_assoc, hlink, hsends, List.filterMap_append]
      rfl
    · have hg : s.gone = false := hg
      rw [hrest hg, co.seated, hg, hkicked]
      rfl
  case hostData =>
    rw [hgot, hpolls]
    exact co.hostData
  case viewerData =>
    rw [hdata]
    exact co.viewerData

theorem Coherent.host_kicks (co : Coherent W v h s) (h' : HostAt) {hub : FakeHub}
    (hsend : s.lines.hub.hostSend .kick = some hub) (hkicked : h.kicked = false)
    (hsends : h'.sends W = h.sends W ++ [.kick]) (hheard : h'.heard W = h.heard W)
    (hdata : h'.data W = h.data W) (hgot : h'.got = h.got) (hpolls : h'.polls = true → h.polls = true)
    (hkicked' : h'.kicked = true) (hsaid : h'.said = h.said) (hdecision : h'.decision = h.decision)
    (hknows : h'.knows W) {q : HostM (ServeResult × HostState)}
    (hchecked : h'.checked W (checkedAt (s.hostTrace ++ [⟨.linkSend .kick, .ok ()⟩]))) :
    Coherent W v h' { s with
      host := q
      lines := { s.lines with hub }
      hostTrace := s.hostTrace ++ [⟨.linkSend .kick, .ok ()⟩] } := by
  rw [FakeHub.hostSend] at hsend
  obtain rfl := Option.some.inj hsend
  constructor
  case viewerSends => exact co.viewerSends
  case hostSends =>
    rw [linkSends_append, co.hostSends, hsends]
    rfl
  case said =>
    rw [approvals_append, co.said, hsaid]
    exact List.append_nil _
  case checked => exact hchecked
  case viewerKnows => exact co.viewerKnows
  case hostKnows => exact hknows
  case owes =>
    rw [hdecision, hsaid]
    exact co.owes
  case seated =>
    rw [hkicked', Bool.not_true, Bool.and_false]
  case noClose => exact co.noClose
  case ended => exact co.ended
  case hostLink =>
    obtain ⟨rest, hlink, -⟩ := co.hostLink
    exact ⟨rest, by rw [hheard, hlink], fun hk => by rw [hkicked'] at hk; cases hk⟩
  case viewerLink =>
    obtain ⟨rest, hlink, hrest⟩ := co.viewerLink
    refine ⟨rest ++ [.closed 4001], ?_, fun hg => ?_⟩
    · rw [← List.append_assoc, hlink, hsends, List.filterMap_append]
      rfl
    · have hg : s.gone = false := hg
      rw [hrest hg, co.seated, hg, hkicked]
      rfl
  case hostData =>
    obtain ⟨rest, hgot', hrest⟩ := co.hostData
    exact ⟨rest, by rw [hgot, hgot'], fun hp => hrest (hpolls hp)⟩
  case viewerData =>
    rw [hdata]
    exact co.viewerData

theorem Coherent.host_polls (co : Coherent W v h s) (h' : HostAt) {es rest : List PeerEvent}
    (hes : es.filter PeerEvent.carried ++ rest = s.lines.toHost) (hpolls : h.polls = true)
    (hsends : h'.sends W = h.sends W) (hheard : h'.heard W = h.heard W)
    (hdata : h'.data W = h.data W) (hgot : h'.got = h.got ++ es.filter PeerEvent.carried)
    (hkicked : h'.kicked = h.kicked) (hsaid : h'.said = h.said)
    (hdecision : h'.decision = h.decision) (hknows : h'.knows W)
    {q : HostM (ServeResult × HostState)} {d : Duration}
    (hchecked : h'.checked W (checkedAt (s.hostTrace ++ [⟨.poll d, .ok es⟩]))) :
    Coherent W v h' { s with
      host := q
      lines := { s.lines with toHost := rest }
      hostTrace := s.hostTrace ++ [⟨.poll d, .ok es⟩] } where
  viewerSends := co.viewerSends
  hostSends := by
    rw [linkSends_append, co.hostSends, hsends]
    exact List.append_nil _
  said := by
    rw [approvals_append, co.said, hsaid]
    exact List.append_nil _
  checked := hchecked
  viewerKnows := co.viewerKnows
  hostKnows := hknows
  owes := by
    rw [hdecision, hsaid]
    exact co.owes
  seated := by
    rw [hkicked]
    exact co.seated
  noClose := co.noClose
  ended := co.ended
  hostLink := by
    rw [hheard, hkicked]
    exact co.hostLink
  viewerLink := by
    rw [hsends]
    exact co.viewerLink
  hostData := by
    obtain ⟨rest', hdata', hrest⟩ := co.hostData
    obtain rfl := hrest hpolls
    refine ⟨rest, ?_, fun _ => rfl⟩
    rw [hgot, List.append_assoc, hes, hdata']
  viewerData := by
    rw [hdata]
    exact co.viewerData

-- a peer that is closed hands out nothing any more
theorem Coherent.host_drains (co : Coherent W v h s) (hpolls : h.polls = false)
    {es rest : List PeerEvent} {q : HostM (ServeResult × HostState)} {d : Duration}
    (hchecked : h.checked W (checkedAt (s.hostTrace ++ [⟨.poll d, .ok es⟩]))) :
    Coherent W v h { s with
      host := q
      lines := { s.lines with toHost := rest }
      hostTrace := s.hostTrace ++ [⟨.poll d, .ok es⟩] } where
  viewerSends := co.viewerSends
  hostSends := by
    rw [linkSends_append, co.hostSends]
    exact List.append_nil _
  said := by
    rw [approvals_append, co.said]
    exact List.append_nil _
  checked := hchecked
  viewerKnows := co.viewerKnows
  hostKnows := co.hostKnows
  owes := co.owes
  seated := co.seated
  noClose := co.noClose
  ended := co.ended
  hostLink := co.hostLink
  viewerLink := co.viewerLink
  hostData := by
    obtain ⟨rest', hdata, -⟩ := co.hostData
    exact ⟨rest', hdata, fun hp => by rw [hpolls] at hp; cases hp⟩
  viewerData := co.viewerData

theorem Coherent.host_gives (co : Coherent W v h s) (h' : HostAt) {e : PeerEvent} {ev : Ev HostSig}
    (hsends : h'.sends W = h.sends W) (hheard : h'.heard W = h.heard W)
    (hdata : h'.data W = h.data W ++ [e]) (hgot : ∃ rest, h'.got ++ rest = h.got)
    (hpolls : h'.polls = true → h.polls = true ∧ h'.got = h.got)
    (hkicked : h'.kicked = h.kicked) (hsaid : h'.said = h.said)
    (howes : ∀ d ∈ h'.decision, W.Owes h'.said d ∧ v.data W ≠ []) (hknows : h'.knows W)
    {q : HostM (ServeResult × HostState)}
    (hchecked : h'.checked W (checkedAt (s.hostTrace ++ [ev])))
    (hev : linkSends [ev] = [] := by rfl) (hnone : approvals [ev] = [] := by rfl) :
    Coherent W v h' { s with
      host := q
      lines := { s.lines with toViewer := s.lines.toViewer ++ [e] }
      hostTrace := s.hostTrace ++ [ev] } where
  viewerSends := co.viewerSends
  hostSends := by
    rw [linkSends_append, hev, co.hostSends, hsends]
    exact List.append_nil _
  said := by
    rw [approvals_append, hnone, co.said, hsaid]
    exact List.append_nil _
  checked := hchecked
  viewerKnows := co.viewerKnows
  hostKnows := hknows
  owes := howes
  seated := by
    rw [hkicked]
    exact co.seated
  noClose := co.noClose
  ended := co.ended
  hostLink := by
    rw [hheard, hkicked]
    exact co.hostLink
  viewerLink := by
    rw [hsends]
    exact co.viewerLink
  hostData := by
    obtain ⟨rest, hdata', hrest⟩ := co.hostData
    obtain ⟨rest', hgot'⟩ := hgot
    refine ⟨rest' ++ rest, by rw [← List.append_assoc, hgot', hdata'], fun hp => ?_⟩
    obtain ⟨hp, hsame⟩ := hpolls hp
    rw [hsame] at hgot'
    rw [List.append_right_eq_self.mp hgot', hrest hp]
    rfl
  viewerData := by
    obtain ⟨rest, hgot', hrest⟩ := co.viewerData
    refine ⟨rest ++ [e], by rw [← List.append_assoc, hgot', hdata], fun hp => by rw [hrest hp]⟩

theorem Coherent.host_says (co : Coherent W v h s) (h' : HostAt) {req : ApprovalRequest}
    (a : Option Bool) (hsends : h'.sends W = h.sends W) (hheard : h'.heard W = h.heard W)
    (hdata : h'.data W = h.data W) (hgot : h'.got = h.got) (hpolls : h'.polls = h.polls)
    (hkicked : h'.kicked = h.kicked) (hsaid : h'.said = h.said ++ [a])
    (hdecision : h'.decision = none) (hknows : h'.knows W) {q : HostM (ServeResult × HostState)}
    (hchecked : h'.checked W (checkedAt (s.hostTrace ++ [⟨.approve req, a⟩]))) :
    Coherent W v h' { s with host := q, hostTrace := s.hostTrace ++ [⟨.approve req, a⟩] } where
  viewerSends := co.viewerSends
  hostSends := by
    rw [linkSends_append, co.hostSends, hsends]
    exact List.append_nil _
  said := by
    rw [approvals_append, co.said, hsaid]
    rfl
  checked := hchecked
  viewerKnows := co.viewerKnows
  hostKnows := hknows
  owes := by
    rw [hdecision]
    exact nofun
  seated := by
    rw [hkicked]
    exact co.seated
  noClose := co.noClose
  ended := co.ended
  hostLink := by
    rw [hheard, hkicked]
    exact co.hostLink
  viewerLink := by
    rw [hsends]
    exact co.viewerLink
  hostData := by
    rw [hgot, hpolls]
    exact co.hostData
  viewerData := by
    rw [hdata]
    exact co.viewerData

theorem viewer_data_prefix : v.data W <+: [W.heardViewer, .closed] := by
  cases v <;> first | exact List.nil_prefix | exact List.prefix_rfl | exact ⟨_, rfl⟩

-- an honest viewer only closes its peer once it has the decision
theorem Coherent.viewer_still_there (co : Coherent W v h s) (hundecided : h.decision = none) :
    v.data W <+: [W.heardViewer] := by
  cases v with
  | greeted got => exact List.prefix_rfl
  | closing got =>
      obtain ⟨rest, hgot, -⟩ := co.viewerData
      have hlength := congrArg List.length hgot
      have hle := (host_data_undecided (W := W) hundecided).length_le
      have hread : 2 ≤ got.length := co.viewerKnows.2
      simp only [ViewerAt.got, List.length_append] at hlength
      simp only [List.length_singleton] at hle
      omega
  | _ => exact List.nil_prefix

theorem host_hears_next {gone : Bool} {skipped rest : List ServerToHost}
    {m₀ m : ServerToHost} {rest₀ : List ServerToHost} (hstale : W.stale = skipped ++ m₀ :: rest₀)
    (hlink : skipped ++ m :: rest = W.stale ++ (.viewerJoined ::
      (v.sends W).map ViewerToServer.toHost ++ if gone then [.viewerLeft] else [])) : m = m₀ := by
  rw [hstale, List.append_assoc, List.append_cancel_left_eq] at hlink
  exact (List.cons.inj hlink).1


theorem viewer_sends_cases (hknows : v.knows W) :
    (v.sends W = [] ∧ ¬ v.ended) ∨ v.sends W = [Viewer.relayOf W.start] ∨
      (v.sends W = [Viewer.relayOf W.start, Viewer.relayOf W.confirm] ∧
        W.viewerInput = W.hostInput) := by
  cases v with
  | outside | joined | begun => exact .inl ⟨rfl, id⟩
  | confirmed | answered | linked got | greeted got => exact .inr (.inr ⟨rfl, hknows⟩)
  | closing got => exact .inr (.inr ⟨rfl, hknows.1⟩)
  | _ => exact .inr (.inl rfl)

theorem Coherent.gone_sends (co : Coherent W v h s) (hsends : ¬ v.ended) : s.gone = false := by
  by_contra hgone
  exact hsends (co.ended (Bool.eq_true_of_not_eq_false hgone))

theorem Coherent.host_hears_start (co : Coherent W v h s) {m : ServerToHost}
    {rest : List ServerToHost}
    (hlink : HostAt.ready.heard W ++ m :: rest = W.stale ++ (.viewerJoined ::
      (v.sends W).map ViewerToServer.toHost ++ if s.gone then [.viewerLeft] else [])) :
    m = .relay (relayText W.start) := by
  rw [HostAt.heard, List.append_assoc, List.append_cancel_left_eq] at hlink
  have htail := (List.cons.inj hlink).2
  obtain ⟨hsends, hover⟩ | hsends | ⟨hsends, -⟩ := viewer_sends_cases co.viewerKnows
  · rw [hsends, co.gone_sends hover] at htail
    cases htail
  all_goals
    rw [hsends] at htail
    exact (List.cons.inj htail).1

theorem Coherent.host_hears_confirm (co : Coherent W v h s) {m : ServerToHost}
    {rest : List ServerToHost}
    (hlink : HostAt.replied.heard W ++ m :: rest = W.stale ++ (.viewerJoined ::
      (v.sends W).map ViewerToServer.toHost ++ if s.gone then [.viewerLeft] else [])) :
    m = .viewerLeft ∨ m = .relay (relayText W.confirm) ∧ W.viewerInput = W.hostInput := by
  rw [HostAt.heard, List.append_assoc, List.append_cancel_left_eq] at hlink
  have htail := (List.cons.inj hlink).2
  obtain ⟨hsends, hover⟩ | hsends | ⟨hsends, hsame⟩ := viewer_sends_cases co.viewerKnows
  · rw [hsends, co.gone_sends hover] at htail
    cases htail
  · rw [hsends] at htail
    have hleft := (List.cons.inj htail).2
    cases hgone : s.gone with
    | false =>
        rw [hgone] at hleft
        cases hleft
    | true =>
        rw [hgone] at hleft
        exact .inl (List.cons.inj hleft).1
  · rw [hsends] at htail
    exact .inr ⟨(List.cons.inj (List.cons.inj htail).2).1, hsame⟩

theorem Coherent.host_step (ideal : W.Ideal) (co : Coherent W v h s)
    {o : Op HostToServer} {r₀ r : Op.Res ServerToHost o} {h₀ : HostAt} {lines : Lines}
    (q : HostM (ServeResult × HostState)) (hm : W.HostMove h ⟨o, r₀⟩ h₀)
    (ha : W.HostAnswer s.lines ⟨o, r⟩ lines) :
    ∃ h', W.HostMove h ⟨o, r⟩ h' ∧ Coherent W v h'
      { s with host := q, lines, hostTrace := s.hostTrace ++ [⟨o, r⟩] } := by
  cases hm with
  | skip t hstale =>
      cases ha with
      | recv _ hr =>
          obtain ⟨rest, hrx, rfl, hlink⟩ := co.host_recv rfl hr
          obtain rfl := host_hears_next hstale hlink
          exact ⟨_, .skip t hstale, co.host_hears (.idle (_ ++ [_])) rfl hrx rfl rfl rfl rfl rfl rfl rfl rfl
            trivial (unchecked_append co.checked)⟩
  | join t =>
      cases ha with
      | recv _ hr =>
          obtain ⟨rest, hrx, rfl, hlink⟩ := co.host_recv rfl hr
          obtain rfl := (List.cons.inj (List.append_cancel_left hlink)).1
          exact ⟨_, .join t, co.host_hears .joined rfl hrx rfl rfl rfl rfl rfl rfl rfl rfl
            trivial (unchecked_append co.checked)⟩
  | ready _ | waiting _ =>
      cases ha with
      | now =>
          cases hcheck : W.st.limiter.check r with
          | ok u =>
              exact ⟨.ready, .ready hcheck, co.host_local .ready
                ⟨rfl, rfl, rfl, rfl, rfl, rfl, rfl, rfl⟩ trivial (checked_first co.checked hcheck)⟩
          | error wait =>
              exact ⟨.waiting wait, .waiting hcheck, co.host_local (.waiting wait)
                ⟨rfl, rfl, rfl, rfl, rfl, rfl, rfl, rfl⟩ trivial (checked_first co.checked hcheck)⟩
  | started t =>
      cases ha with
      | recv _ hr =>
          obtain ⟨rest, hrx, rfl, hlink⟩ := co.host_recv rfl hr
          obtain rfl := co.host_hears_start hlink
          exact ⟨_, .started t, co.host_hears .started rfl hrx rfl (by simp [HostAt.heard]) rfl rfl
            rfl rfl rfl rfl trivial (checked_append co.checked)⟩
  | left t | confirmed t _ =>
      cases ha with
      | recv _ hr =>
          obtain ⟨rest, hrx, rfl, hlink⟩ := co.host_recv rfl hr
          obtain rfl | ⟨rfl, hsame⟩ := co.host_hears_confirm hlink
          · exact ⟨_, .left t, co.host_hears .left rfl hrx rfl (by simp [HostAt.heard]) rfl rfl
              rfl rfl rfl rfl trivial (checked_append co.checked)⟩
          · exact ⟨_, .confirmed t hsame, co.host_hears .confirmed rfl hrx rfl
              (by simp [HostAt.heard]) rfl rfl rfl rfl rfl rfl hsame (checked_append co.checked)⟩
  | refuse wait =>
      cases ha with
      | send hsend =>
          exact ⟨_, .refuse wait, co.host_relays (.refusing wait) hsend rfl rfl rfl rfl rfl rfl rfl
            rfl rfl trivial (checked_append co.checked)⟩
  | reply =>
      cases ha with
      | send hsend =>
          exact ⟨_, .reply, co.host_relays .replied hsend rfl rfl rfl rfl rfl rfl rfl
            rfl rfl trivial (checked_append co.checked)⟩
  | answer =>
      cases ha with
      | send hsend =>
          exact ⟨_, .answer, co.host_relays (.linked []) hsend rfl rfl rfl rfl rfl rfl rfl
            rfl rfl co.hostKnows (checked_append co.checked)⟩
  | kickRefused wait =>
      cases ha with
      | send hsend =>
          exact ⟨_, .kickRefused wait, co.host_kicks (.refused wait) hsend rfl rfl rfl rfl rfl id
            rfl rfl rfl trivial (checked_append co.checked)⟩
  | kick d said =>
      cases ha with
      | send hsend =>
          exact ⟨_, .kick d said, co.host_kicks (.dismissed d said) hsend rfl rfl rfl rfl rfl nofun
            rfl rfl rfl co.hostKnows (checked_append co.checked)⟩
  | choose =>
      cases ha
      exact ⟨.chosen, .choose, co.host_local .chosen ⟨rfl, rfl, rfl, rfl, rfl, rfl, rfl, rfl⟩
        trivial (checked_append co.checked)⟩
  | finish =>
      cases ha
      rw [ideal.exchanges.finishB]
      exact ⟨.responding, .finish, co.host_local .responding
        ⟨rfl, rfl, rfl, rfl, rfl, rfl, rfl, rfl⟩ trivial (checked_append co.checked)⟩
  | nowResponding _ =>
      cases ha
      exact ⟨.responding, .nowResponding _, co.host_local .responding (.refl _) trivial
        (checked_append co.checked)⟩
  | newCode _ =>
      cases ha
      exact ⟨.responding, .newCode _, co.host_local .responding (.refl _) trivial
        (checked_append co.checked)⟩
  | verified =>
      cases ha
      rw [(ideal.exchanges.same co.hostKnows).2.2]
      exact ⟨.verified, .verified, co.host_local .verified
        ⟨rfl, rfl, rfl, rfl, rfl, rfl, rfl, rfl⟩ co.hostKnows (checked_append co.checked)⟩
  | peer ips =>
      cases ha
      exact ⟨.peered, .peer ips, co.host_local .peered
        ⟨rfl, rfl, rfl, rfl, rfl, rfl, rfl, rfl⟩ co.hostKnows (checked_append co.checked)⟩
  | accept =>
      cases ha
      exact ⟨.accepted, .accept, co.host_local .accepted
        ⟨rfl, rfl, rfl, rfl, rfl, rfl, rfl, rfl⟩ co.hostKnows (checked_append co.checked)⟩
  | nowLinked got _ =>
      cases ha
      exact ⟨.linked got, .nowLinked got _, co.host_local (.linked got) (.refl _) co.hostKnows
        (checked_append co.checked)⟩
  | localFp got =>
      cases ha
      exact ⟨.linked got, .localFp got, co.host_local (.linked got) (.refl _) co.hostKnows
        (checked_append co.checked)⟩
  | remoteFp got =>
      cases ha
      exact ⟨.linked got, .remoteFp got, co.host_local (.linked got) (.refl _) co.hostKnows
        (checked_append co.checked)⟩
  | nowGreeted got said _ =>
      cases ha
      exact ⟨.greeted got said, .nowGreeted got said _, co.host_local (.greeted got said) (.refl _)
        co.hostKnows (checked_append co.checked)⟩
  | nowDecided d got said _ =>
      cases ha
      exact ⟨.decided d got said, .nowDecided d got said _, co.host_local (.decided d got said)
        (.refl _) co.hostKnows (checked_append co.checked)⟩
  | newCodeDecided d got said _ =>
      cases ha
      exact ⟨.decided d got said, .newCodeDecided d got said _, co.host_local (.decided d got said)
        (.refl _) co.hostKnows (checked_append co.checked)⟩
  | pollLinked got d _ =>
      cases ha with
      | poll _ hes =>
          have hpolled := co.host_polls (.linked (got ++ _)) hes rfl rfl rfl rfl rfl rfl rfl rfl
            co.hostKnows (q := q) (d := d) (checked_append co.checked)
          obtain ⟨rest, hgot, -⟩ := hpolled.hostData
          refine ⟨_, .pollLinked got d ?_, hpolled⟩
          exact List.IsPrefix.trans ⟨rest, hgot⟩ (co.viewer_still_there rfl)
  | pollGreeted got said d _ =>
      cases ha with
      | poll _ hes =>
          have hpolled := co.host_polls (.greeted (got ++ _) said) hes rfl rfl rfl rfl rfl rfl rfl
            rfl co.hostKnows (q := q) (d := d) (checked_append co.checked)
          obtain ⟨rest, hgot, -⟩ := hpolled.hostData
          refine ⟨_, .pollGreeted got said d ?_, hpolled⟩
          exact List.IsPrefix.trans ⟨rest, hgot⟩ (co.viewer_still_there rfl)
  | pollDecided d got said t _ =>
      cases ha with
      | poll _ hes =>
          have hpolled := co.host_polls (.decided d (got ++ _) said) hes rfl rfl rfl rfl rfl rfl rfl
            rfl co.hostKnows (q := q) (d := t) (checked_append co.checked)
          obtain ⟨rest, hgot, -⟩ := hpolled.hostData
          exact ⟨_, .pollDecided d got said t (List.IsPrefix.trans ⟨rest, hgot⟩ viewer_data_prefix),
            hpolled⟩
  | pollClosing d said t _ =>
      cases ha with
      | poll _ hes =>
          exact ⟨_, .pollClosing d said t _, co.host_drains rfl (checked_append co.checked)⟩
  | greet got =>
      cases ha
      exact ⟨.greeted got [], .greet got, co.host_gives (.greeted got []) rfl rfl rfl
        ⟨[], List.append_nil _⟩ (fun hp => ⟨hp, rfl⟩) rfl rfl nofun co.hostKnows
        (checked_append co.checked)⟩
  | approve got said hversion hsilent _ =>
      cases ha with
      | approve =>
          exact ⟨.greeted got (said ++ [r]), .approve got said hversion hsilent r,
            co.host_says (.greeted got (said ++ [r])) r rfl rfl rfl rfl rfl rfl rfl rfl co.hostKnows
              (checked_append co.checked)⟩
  | decide howes hdata =>
      rename_i said d data
      cases ha
      subst hdata
      obtain ⟨rest, hgot, -⟩ := co.hostData
      have hheard : v.data W ≠ [] := by
        rw [← hgot]
        exact nofun
      refine ⟨.decided d [W.heardViewer] said, .decide howes rfl,
        co.host_gives (.decided d [W.heardViewer] said) rfl rfl rfl ⟨[], rfl⟩
          (fun hp => ⟨hp, rfl⟩) rfl rfl ?_ co.hostKnows (checked_append co.checked)⟩
      rintro d' hd'
      obtain rfl := Option.some.inj hd'
      exact ⟨howes, hheard⟩
  | close hne =>
      rename_i d got said
      cases ha
      exact ⟨.closing d said, .close hne, co.host_gives (.closing d said) rfl rfl rfl
        ⟨got, rfl⟩ nofun rfl rfl co.owes ⟨co.hostKnows, hne⟩ (checked_append co.checked)⟩


end

end SimpleRemote
