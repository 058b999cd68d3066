import Mathlib.Data.List.Induction
import SimpleRemote.Disclosure
import SimpleRemote.Meeting.Outcome

namespace SimpleRemote
open ByteCodec Interaction

section
variable {W : Setting} {v : ViewerAt} {h : HostAt} {s s' : Meeting} {fuel n : Nat}

-- only a viewer whose link is empty cannot go on
theorem viewer_goes {o : Op ViewerToServer} {k : Op.Res ServerToViewer o → ViewerM ConnectResult}
    (hs : s.viewer = .act o k) {r : Op.Res ServerToViewer o} {v' : ViewerAt}
    (hm : W.ViewerMove v ⟨o, r⟩ v') :
    (∃ s', W.Step s s') ∨ (∃ t, o = .linkRecv t) ∧ s.lines.hub.viewerRecv = none := by
  have hgoes {r lines} (ha : W.ViewerAnswer s.lines ⟨o, r⟩ lines) : ∃ s', W.Step s s' :=
    ⟨_, .viewer hs ha⟩
  have hpoll : ([] : List PeerEvent).filter PeerEvent.carried ++ s.lines.toViewer =
    s.lines.toViewer := rfl
  cases hm with
  | join t | refused t _ | replied t | answered t =>
      cases hr : s.lines.hub.viewerRecv with
      | none => exact .inr ⟨⟨t, rfl⟩, rfl⟩
      | some p => exact .inl (hgoes (.recv _ t hr))
  | begin => exact .inl (hgoes (.partyAStart _ _ _ _ _))
  | ask _ | confirm => exact .inl (hgoes (.send _ _))
  | finish => exact .inl (hgoes (.finish _ _ _))
  | keyed _ | wrong _ => exact .inl (hgoes (.verify _ _ _))
  | peer ips => exact .inl (hgoes (.peerNew _ _))
  | offer => exact .inl (hgoes (.createOffer _))
  | accept => exact .inl (hgoes (.acceptAnswer _ _ _))
  | nowLinked _ _ | nowGreeted _ _ => exact .inl (hgoes (.now _ (0 : Nat)))
  | pollLinked _ d _ | pollGreeted _ d _ _ | pollClosing _ d _ =>
      exact .inl (hgoes (.poll _ d hpoll))
  | localFp _ => exact .inl (hgoes (.localFp _))
  | remoteFp _ => exact .inl (hgoes (.remoteFp _))
  | greet _ => exact .inl (hgoes (.peerSend _ _))
  | close _ _ => exact .inl (hgoes (.peerClose _))

theorem host_goes {o : Op HostToServer}
    {k : Op.Res ServerToHost o → HostM (ServeResult × HostState)} (hs : s.host = .act o k)
    {r : Op.Res ServerToHost o} {h' : HostAt} (hm : W.HostMove h ⟨o, r⟩ h') :
    (∃ s', W.Step s s') ∨ (∃ t, o = .linkRecv t) ∧ s.lines.hub.hostRecv = none := by
  have hgoes {r lines} (ha : W.HostAnswer s.lines ⟨o, r⟩ lines) : ∃ s', W.Step s s' :=
    ⟨_, .host hs ha⟩
  have hpoll : ([] : List PeerEvent).filter PeerEvent.carried ++ s.lines.toHost =
    s.lines.toHost := rfl
  cases hm with
  | skip t _ | join t | started t | left t | confirmed t _ =>
      cases hr : s.lines.hub.hostRecv with
      | none => exact .inr ⟨⟨t, rfl⟩, rfl⟩
      | some p => exact .inl (hgoes (.recv t hr))
  | refuse _ | reply | answer => exact .inl (hgoes (.send (hostSend_relayOf _ _)))
  | kickRefused _ | kick _ _ => exact .inl (hgoes (.send rfl))
  | ready _ | waiting _ | nowResponding _ | nowLinked _ _ | nowGreeted _ _ _ | nowDecided _ _ _ _ =>
      exact .inl (hgoes (.now _ (0 : Nat)))
  | choose => exact .inl (hgoes (.partyBStart _ _ _ _ _))
  | finish => exact .inl (hgoes (.finish _ _ _))
  | newCode _ | newCodeDecided _ _ _ _ => exact .inl (hgoes (.generateCode _ W.st.code))
  | verified => exact .inl (hgoes (.verify _ _ _))
  | peer ips => exact .inl (hgoes (.peerNew _ _))
  | accept => exact .inl (hgoes (.acceptOffer _ _))
  | pollLinked _ d _ | pollGreeted _ _ d _ | pollDecided _ _ _ d _ | pollClosing _ _ d _ =>
      exact .inl (hgoes (.poll _ d hpoll))
  | localFp _ => exact .inl (hgoes (.localFp _))
  | remoteFp _ => exact .inl (hgoes (.remoteFp _))
  | greet _ | decide _ _ => exact .inl (hgoes (.peerSend _ _))
  | approve _ _ _ _ a => exact .inl (hgoes (.approve _ _ a))
  | close _ => exact .inl (hgoes (.peerClose _))

-- an empty link: everything sent on it has been read
theorem Coherent.viewer_heard_all (co : Coherent W v h s) (hgone : s.gone = false)
    (hr : s.lines.hub.viewerRecv = none) :
    v.heard W = .msg .joined :: (h.sends W).filterMap HostToServer.envelope := by
  obtain ⟨rest, hlink, hrest⟩ := co.viewerLink
  rw [FakeHub.viewerRecv, co.noClose] at hr
  have hrx : s.lines.hub.viewerRx = [] := by
    dsimp only at hr
    split at hr
    · cases hr
    · cases hr
    · assumption
  rw [← hlink, hrest hgone, hrx, List.append_nil]

theorem Coherent.host_heard_all (co : Coherent W v h s) (hkicked : h.kicked = false)
    (hr : s.lines.hub.hostRecv = none) :
    h.heard W = W.stale ++ (.viewerJoined ::
      (v.sends W).map ViewerToServer.toHost ++ if s.gone then [.viewerLeft] else []) := by
  obtain ⟨rest, hlink, hrest⟩ := co.hostLink
  rw [FakeHub.hostRecv] at hr
  have hrx : s.lines.hub.hostRx = [] := by
    split at hr
    · cases hr
    · assumption
  rw [← hlink, hrest hkicked, hrx, List.append_nil]

-- a host that waits on its link has answered everything, and its viewer is there
theorem Coherent.host_waits (co : Coherent W v h s) {t : Duration}
    {r : Except LinkError (Option ServerToHost)} {h' : HostAt} (hm : W.HostMove h ⟨.linkRecv t, r⟩ h')
    (hr : s.lines.hub.hostRecv = none) :
    s.gone = false ∧
      (h = .ready ∧ v.sends W = [] ∨ h = .replied ∧ v.sends W = [Viewer.relayOf W.start]) := by
  have hall := fun hkicked => co.host_heard_all hkicked hr
  have hcases := viewer_sends_cases co.viewerKnows
  cases hm with
  | skip t hstale =>
      have hlength := congrArg List.length (hall rfl)
      rw [hstale] at hlength
      simp only [HostAt.heard, List.length_append, List.length_cons] at hlength
      omega
  | join t =>
      have hlength := congrArg List.length (hall rfl)
      simp only [HostAt.heard, List.length_append, List.length_cons] at hlength
      omega
  | started t =>
      have htail := List.append_cancel_left (hall rfl)
      obtain ⟨hsends, hover⟩ | hsends | ⟨hsends, -⟩ := hcases
      · exact ⟨co.gone_sends hover, .inl ⟨rfl, hsends⟩⟩
      all_goals
        rw [hsends] at htail
        cases (List.cons.inj htail).2
  | left t | confirmed t _ =>
      have htail := List.append_cancel_left (hall rfl)
      obtain ⟨hsends, hover⟩ | hsends | ⟨hsends, -⟩ := hcases
      · rw [hsends, co.gone_sends hover] at htail
        cases (List.cons.inj htail).2
      · refine ⟨?_, .inr ⟨rfl, hsends⟩⟩
        cases hgone : s.gone with
        | false => rfl
        | true =>
            rw [hsends, hgone] at htail
            cases (List.cons.inj (List.cons.inj htail).2).2
      · rw [hsends] at htail
        cases (List.cons.inj (List.cons.inj htail).2).2

theorem Coherent.viewer_waits (ideal : W.Ideal) (co : Coherent W v h s) (hgone : s.gone = false)
    {t : Duration} {r : Except LinkError (Option ServerToViewer)} {v' : ViewerAt}
    (hm : W.ViewerMove v ⟨.linkRecv t, r⟩ v') (hr : s.lines.hub.viewerRecv = none) :
    (v.sends W = [Viewer.relayOf W.start] ∧ h.sends W = []) ∨
      (v.sends W = [Viewer.relayOf W.start, Viewer.relayOf W.confirm] ∧
        h.sends W = [relayOf W.reply]) := by
  have hall := co.viewer_heard_all hgone hr
  cases hm with
  | join t => cases hall
  | refused t _ | replied t =>
      refine .inl ⟨rfl, ?_⟩
      have htail := (List.cons.inj hall).2
      cases h <;> first | rfl | cases htail
  | answered t =>
      refine .inr ⟨rfl, ?_⟩
      have htail := (List.cons.inj hall).2
      have hne := reply_ne_retryAfter ideal
      cases h <;> simp [HostAt.sends, envelope_relayOf, hne] at htail <;> rfl

theorem host_ends_sends {r : ServeResult × HostState} (hend : W.hostEnds h r) :
    h = .left ∨ 2 ≤ (h.sends W).length := by
  cases h with
  | left => exact .inl rfl
  | refused wait => exact .inr (le_refl 2)
  | decided d got said => exact .inr (le_refl 2)
  | dismissed d said =>
      refine .inr ?_
      simp [HostAt.sends]
  | _ => exact hend.elim

-- a host never stops at a viewer that is there and waits
theorem Coherent.not_left (co : Coherent W v .left s) (hgone : s.gone = false) : False := by
  obtain ⟨rest, hlink, -⟩ := co.hostLink
  rw [HostAt.heard, hgone, List.append_assoc, List.append_cancel_left_eq] at hlink
  have htail := (List.cons.inj hlink).2
  obtain ⟨hsends, -⟩ | hsends | ⟨hsends, -⟩ := viewer_sends_cases co.viewerKnows
  all_goals
    rw [hsends] at htail
    simp [ViewerToServer.toHost, Viewer.relayOf] at htail

-- the two ends never wait for each other
theorem Coherent.both_return (ideal : W.Ideal) (co : Coherent W v h s)
    (hv : Viewer.Meets.Follows W (n + 1) v s.viewer) (hh : HostFollows W (n + 1) h s.host)
    (hviewer : ¬ Viewer.Meets.GivesUp s.viewer) (hhost : ¬ HostGivesUp s.host)
    (hgone : s.gone = true → ∃ r, s.viewer = .ret r)
    (hstuck : ∀ s', ¬ W.Step s s') :
    (∃ rv, s.viewer = .ret rv) ∧ ∃ rh, s.host = .ret rh := by
  have hstuck := not_exists.mpr hstuck
  have hends : (∃ rh, s.host = .ret rh ∧ W.hostEnds h rh) ∨
      s.gone = false ∧ (h = .ready ∧ v.sends W = [] ∨
        h = .replied ∧ v.sends W = [Viewer.relayOf W.start]) := by
    cases hs : s.host with
    | ret rh =>
        rw [hs] at hh
        exact .inl ⟨rh, rfl, hh.ret (Nat.succ_pos n) (by rw [← hs]; exact hhost)⟩
    | halt =>
        rw [hs] at hh
        exact absurd (hh.not_halt (Nat.succ_pos n)) (by rw [← hs]; exact hhost)
    | act o k =>
        rw [hs] at hh
        obtain ⟨⟨r, h', hm⟩, -⟩ := hh.act (by rw [← hs]; exact hhost)
        obtain hgoes | ⟨⟨t, rfl⟩, hr⟩ := host_goes hs hm
        · exact absurd hgoes hstuck
        · exact .inr (co.host_waits hm hr)
  cases hs : s.viewer with
  | ret rv =>
      refine ⟨⟨rv, rfl⟩, ?_⟩
      obtain ⟨rh, hret, -⟩ | ⟨hstays, -⟩ := hends
      · exact ⟨rh, hret⟩
      · exact absurd ⟨_, .leave hs hstays⟩ hstuck
  | halt =>
      rw [hs] at hv
      exact absurd (hv.not_halt (Nat.succ_pos n)) (by rw [← hs]; exact hviewer)
  | act o k =>
      rw [hs] at hv
      obtain ⟨⟨r, v', hm⟩, -⟩ := hv.act (by rw [← hs]; exact hviewer)
      have hstays : s.gone = false := by
        by_contra hne
        obtain ⟨r', hr'⟩ := hgone (Bool.eq_true_of_not_eq_false hne)
        rw [hs] at hr'
        cases hr'
      obtain hgoes | ⟨⟨t, rfl⟩, hr⟩ := viewer_goes hs hm
      · exact absurd hgoes hstuck
      have hwaits := co.viewer_waits ideal hstays hm hr
      obtain ⟨rh, -, hend⟩ | ⟨-, ⟨rfl, hsends⟩ | ⟨rfl, hsends⟩⟩ := hends
      · obtain rfl | hlength := host_ends_sends hend
        · exact (co.not_left hstays).elim
        · obtain ⟨-, hsent⟩ | ⟨-, hsent⟩ := hwaits
          all_goals
            rw [hsent] at hlength
            simp at hlength
      all_goals
        rw [hsends] at hwaits
        simp [HostAt.sends] at hwaits

end

namespace Setting
variable (W : Setting)

-- surroundings that answer at once: a clock that stands still, and an approver that says `said`
def viewerAnswer (l : Lines) : (o : Op ViewerToServer) → Option (Op.Res ServerToViewer o × Lines)
  | .linkSend m => some ((l.hub.viewerSend m).1, { l with hub := (l.hub.viewerSend m).2 })
  | .linkRecv _ => l.hub.viewerRecv.map fun (r, hub) => (r, { l with hub })
  | .now => some ((0 : Nat), l)
  | .partyAStart w idA idB aad => some (.ok (W.spake.startA ⟨w, idA, idB, aad⟩), l)
  | .finish st msg => some (W.spake.finish st msg, l)
  | .verifyPeerConfirmation out mac => some (W.spake.verify out mac, l)
  | .peerNew _ => some (.ok (), l)
  | .createOffer => some (.ok (W.offer, W.pending), l)
  | .acceptAnswer _ _ => some (.ok (), l)
  | .poll _ =>
      if l.toViewer.filter PeerEvent.carried = l.toViewer
      then some (.ok (.channelOpen :: l.toViewer), { l with toViewer := [] }) else none
  | .peerSend data => some (.ok (), { l with toHost := l.toHost ++ [.data data] })
  | .localFingerprint => some (W.viewerFp, l)
  | .remoteFingerprint => some (some W.hostFp, l)
  | .peerClose => some ((), { l with toHost := l.toHost ++ [.closed] })
  | _ => none

def hostAnswer (said : Option Bool) (l : Lines) :
    (o : Op HostToServer) → Option (Op.Res ServerToHost o × Lines)
  | .linkSend m => (l.hub.hostSend m).map fun hub => (.ok (), { l with hub })
  | .linkRecv _ => l.hub.hostRecv.map fun (m, hub) => (.ok (some m), { l with hub })
  | .now => some ((0 : Nat), l)
  | .generateCode => some (W.st.code, l)
  | .partyBStart w idA idB aad => some (.ok (W.spake.startB ⟨w, idA, idB, aad⟩), l)
  | .finish st msg => some (W.spake.finish st msg, l)
  | .verifyPeerConfirmation out mac => some (W.spake.verify out mac, l)
  | .peerNew _ => some (.ok (), l)
  | .acceptOffer _ => some (.ok W.answer, l)
  | .poll _ =>
      if l.toHost.filter PeerEvent.carried = l.toHost
      then some (.ok (.channelOpen :: l.toHost), { l with toHost := [] }) else none
  | .peerSend data => some (.ok (), { l with toViewer := l.toViewer ++ [.data data] })
  | .localFingerprint => some (W.hostFp, l)
  | .remoteFingerprint => some (some W.viewerFp, l)
  | .peerClose => some ((), { l with toViewer := l.toViewer ++ [.closed] })
  | .approve _ => some (said, l)
  | _ => none

def advance (said : Option Bool) (s : Meeting) : Side → Option Meeting
  | .viewer =>
      match s.viewer with
      | .act o k => (W.viewerAnswer s.lines o).map fun (r, lines) =>
          { s with viewer := k r, lines, viewerTrace := s.viewerTrace ++ [⟨o, r⟩] }
      | .ret _ =>
          if s.gone then none
          else some { s with gone := true, lines := { s.lines with hub := s.lines.hub.viewerDrop } }
      | .halt => none
  | .host =>
      match s.host with
      | .act o k => (W.hostAnswer said s.lines o).map fun (r, lines) =>
          { s with host := k r, lines, hostTrace := s.hostTrace ++ [⟨o, r⟩] }
      | _ => none

def play (said : Option Bool) (s : Meeting) (turns : List Side) : Option Meeting :=
  turns.foldl (fun s turn => s.bind fun s => W.advance said s turn) (some s)

variable {W}

theorem viewerAnswer_answers {l l' : Lines} {o : Op ViewerToServer} {r : Op.Res ServerToViewer o}
    (h : W.viewerAnswer l o = some (r, l')) : W.ViewerAnswer l ⟨o, r⟩ l' := by
  cases o with
  | linkRecv t =>
      obtain ⟨⟨r, hub⟩, hr, heq⟩ := Option.map_eq_some_iff.mp h
      obtain ⟨rfl, rfl⟩ := Prod.mk.inj heq
      exact .recv l t hr
  | poll d =>
      rw [viewerAnswer] at h
      split at h
      · rename_i hes
        obtain ⟨rfl, rfl⟩ := Prod.mk.inj (Option.some.inj h)
        exact .poll l d (by simpa [PeerEvent.carried] using hes)
      · cases h
  | generateCode | partyBStart w idA idB aad | acceptOffer sdp | approve req => cases h
  | _ =>
      obtain ⟨rfl, rfl⟩ := Prod.mk.inj (Option.some.inj h)
      constructor

theorem hostAnswer_answers {said : Option Bool} {l l' : Lines} {o : Op HostToServer}
    {r : Op.Res ServerToHost o} (h : W.hostAnswer said l o = some (r, l')) :
    W.HostAnswer l ⟨o, r⟩ l' := by
  cases o with
  | linkSend m =>
      obtain ⟨hub, hsend, heq⟩ := Option.map_eq_some_iff.mp h
      obtain ⟨rfl, rfl⟩ := Prod.mk.inj heq
      exact .send hsend
  | linkRecv t =>
      obtain ⟨⟨m, hub⟩, hr, heq⟩ := Option.map_eq_some_iff.mp h
      obtain ⟨rfl, rfl⟩ := Prod.mk.inj heq
      exact .recv t hr
  | poll d =>
      rw [hostAnswer] at h
      split at h
      · rename_i hes
        obtain ⟨rfl, rfl⟩ := Prod.mk.inj (Option.some.inj h)
        exact .poll l d (by simpa [PeerEvent.carried] using hes)
      · cases h
  | partyAStart w idA idB aad | createOffer | acceptAnswer pending sdp => cases h
  | _ =>
      obtain ⟨rfl, rfl⟩ := Prod.mk.inj (Option.some.inj h)
      constructor

theorem advance_step {said : Option Bool} {s s' : Meeting} {turn : Side}
    (h : W.advance said s turn = some s') : W.Step s s' := by
  cases turn with
  | viewer =>
      rw [advance] at h
      split at h
      · rename_i o k hs
        obtain ⟨⟨r, lines⟩, ha, rfl⟩ := Option.map_eq_some_iff.mp h
        exact .viewer hs (viewerAnswer_answers ha)
      · rename_i r hs
        split at h
        · cases h
        · rename_i hgone
          obtain rfl := Option.some.inj h
          exact .leave hs (Bool.eq_false_of_not_eq_true hgone)
      · cases h
  | host =>
      rw [advance] at h
      split at h
      · rename_i o k hs
        obtain ⟨⟨r, lines⟩, ha, rfl⟩ := Option.map_eq_some_iff.mp h
        exact .host hs (hostAnswer_answers ha)
      · cases h

theorem play_reaches {said : Option Bool} {fuel : Nat} {s : Meeting} {turns : List Side}
    (h : W.play said (W.meet fuel) turns = some s) : W.Reaches fuel turns.length s := by
  induction turns using List.reverseRecOn generalizing s with
  | nil =>
      obtain rfl := Option.some.inj h
      exact .start
  | append_singleton turns turn ih =>
      rw [play, List.foldl_concat] at h
      obtain ⟨s₁, h₁, hs⟩ := Option.bind_eq_some_iff.mp h
      rw [List.length_append]
      exact .step (ih h₁) (advance_step hs)

end Setting

section Sample

-- a party knows its scalar; the confirmation of the other end has to be made with the same one
def Spake2.sample : Spake2 where
  startA x := ([1], ⟨x.w % 256⟩)
  startB x := ([2], ⟨x.w % 256⟩)
  finish st _ := .ok ⟨st.handle, [UInt8.ofNat st.handle], filled 32 (UInt8.ofNat st.handle)⟩
  verify out mac :=
    if mac = filled 32 (UInt8.ofNat out.handle) then .ok () else .error .confirmationFailed

def sampleScalar (code : OneTimeCode) : Nat := fromBe (CODE_CONTEXT ++ utf8 code.digits)

def sampleSetting (code : OneTimeCode) (version : UInt32) : Setting where
  C := sampleAead
  spake := .sample
  viewerCfg := { Viewer.Config.sample with code }
  hostCfg := { HostConfig.sample with protocolVersion := version }
  st := .sample
  viewerScalar := sampleScalar code
  hostScalar := sampleScalar .sample
  viewerOutput := ⟨sampleScalar code % 256, [UInt8.ofNat (sampleScalar code % 256)],
    filled 32 (UInt8.ofNat (sampleScalar code % 256))⟩
  hostOutput := ⟨sampleScalar .sample % 256, [UInt8.ofNat (sampleScalar .sample % 256)],
    filled 32 (UInt8.ofNat (sampleScalar .sample % 256))⟩
  viewerFp := [2]
  hostFp := [1]
  offer := ['o']
  pending := ⟨0⟩
  answer := ['a']
  stale := [.viewerLeft]

def alternating (n : Nat) : List Side := (List.replicate n [.host, .viewer]).flatten

def sampleTurns : List Side :=
  .viewer :: alternating 2 ++ List.replicate 6 .host ++ List.replicate 6 .viewer ++
    List.replicate 4 .host ++ alternating 14

def Meeting.returned (s : Meeting) : Option (ConnectResult × ServeResult) :=
  match s.viewer, s.host with
  | .ret rv, .ret (rh, _) => some (rv, rh)
  | _, _ => none

theorem returned_eq {s : Meeting} {rv : ConnectResult} {rh : ServeResult}
    (h : s.returned = some (rv, rh)) : s.viewer = .ret rv ∧ ∃ st, s.host = .ret (rh, st) := by
  rw [Meeting.returned] at h
  split at h
  · rename_i rv' rh' st hv hh
    obtain ⟨rfl, rfl⟩ := Prod.mk.inj (Option.some.inj h)
    exact ⟨hv, st, hh⟩
  · cases h

theorem sample_signs (k : DeviceKeys) : Signs sampleAead k := ⟨rfl, fun _ => decide_eq_true rfl⟩

theorem sample_meeting : (sampleSetting .sample PROTOCOL_VERSION).Ideal where
  viewerScalar := rfl
  hostScalar := rfl
  scalars _ := rfl
  exchanges := {
    finishA := rfl
    finishB := rfl
    same := fun _ => ⟨rfl, rfl, rfl⟩
    apart := fun h => absurd rfl h }
  aead := aead_sample
  viewerSigns := sample_signs _
  hostSigns := sample_signs _
  startA := by decide
  startB := by decide
  offer := by decide
  answer := by decide
  stale := by decide

def OneTimeCode.other : OneTimeCode :=
  ⟨"123456".toList, by decide, List.all_eq_true.mp (by decide)⟩

example : (((sampleSetting .other PROTOCOL_VERSION).play none
    ((sampleSetting .other PROTOCOL_VERSION).meet 60)
    (alternating 3 ++ List.replicate 5 .host ++ List.replicate 4 .viewer ++ [.host])).bind
      Meeting.returned) = some (.error .wrongCode, .ok (.failed .noConfirm)) := by
  decide

end Sample

end SimpleRemote
