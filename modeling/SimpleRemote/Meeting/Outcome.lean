import SimpleRemote.Meeting.Clocks
import SimpleRemote.Meeting.Lockstep

namespace SimpleRemote
open ByteCodec Interaction

namespace Setting
variable (W : Setting)

-- the two ends use the same code and the same host id
def Alike : Prop := W.viewerCfg.code = W.st.code ∧ W.viewerCfg.hostId = W.hostCfg.hostId

-- the side with the smaller version
def Older : Side → Prop
  | .viewer => PROTOCOL_VERSION < W.hostCfg.protocolVersion
  | .host => W.hostCfg.protocolVersion < PROTOCOL_VERSION

-- the limiter let the attempt through
def Admitted (ht : List (Ev HostSig)) : Prop :=
  ∃ now, checkedAt ht = some now ∧ W.st.limiter.check now = .ok ()

-- the table of the results of the two ends, one row a configuration
inductive Outcome (vt : List (Ev ViewerSig)) (ht : List (Ev HostSig)) :
    ConnectResult → ServeResult → Prop
  | waiting {now wait d} (hnow : checkedAt ht = some now)
      (hwait : W.st.limiter.check now = .error wait) (hd : 0 < d) :
      Outcome vt ht (.error (.retryAfter d)) (.ok (.failed .waitRequired))
  | wrongCode (hadmitted : W.Admitted ht) (hunlike : ¬ W.Alike)
      (hconfirm : ∀ m ∈ linkSends vt, ¬ isConfirm m)
      (hanswer : ∀ m ∈ linkSends ht, ¬ isSealedAnswer m) :
      Outcome vt ht (.error .wrongCode) (.ok (.failed .noConfirm))
  | versionMismatch {older} (hadmitted : W.Admitted ht) (halike : W.Alike)
      (hversion : PROTOCOL_VERSION ≠ W.hostCfg.protocolVersion) (holder : W.Older older) :
      Outcome vt ht (.error (.versionMismatch PROTOCOL_VERSION W.hostCfg.protocolVersion older))
        (.ok (.failed .versionMismatch))
  | denied {said} (hadmitted : W.Admitted ht) (halike : W.Alike)
      (hversion : PROTOCOL_VERSION = W.hostCfg.protocolVersion)
      (hsaid : approvals ht = said ++ [some false]) (hsilent : silent said) :
      Outcome vt ht (.error (.rejected .denied)) (.ok (.failed .denied))
  | noResponse (hadmitted : W.Admitted ht) (halike : W.Alike)
      (hversion : PROTOCOL_VERSION = W.hostCfg.protocolVersion) (hsilent : silent (approvals ht)) :
      Outcome vt ht (.error (.rejected .noResponse)) (.ok (.failed .denied))
  | granted {said ch ch'} (hadmitted : W.Admitted ht) (halike : W.Alike)
      (hversion : PROTOCOL_VERSION = W.hostCfg.protocolVersion)
      (hsaid : approvals ht = said ++ [some true]) (hsilent : silent said) :
      Outcome vt ht (.ok ⟨W.host, ch, 0⟩) (.ok (.session ⟨W.viewer, ch'⟩))

end Setting

-- no timeout fires at either end, but for the host's approval limit, and the host can count one
-- more failure
structure Meeting.InTime (W : Setting) (s : Meeting) : Prop where
  viewer : (watch (Viewer.waits W.viewerCfg.t)).Valid .start s.viewerTrace
  host : (watch (hostWaits W.hostCfg.timeouts)).Valid .start s.hostTrace
  counts : W.st.limiter.Counts

instance (W : Setting) (s : Meeting) : Decidable (s.InTime W) :=
  decidable_of_iff
    ((watch (Viewer.waits W.viewerCfg.t)).Valid .start s.viewerTrace ∧
      (watch (hostWaits W.hostCfg.timeouts)).Valid .start s.hostTrace ∧
      W.st.limiter.consecutiveFailures + 1 < 2 ^ 32 ∧ W.st.limiter.failuresOnCode + 1 < 2 ^ 32)
    ⟨fun ⟨hv, hh, hconsecutive, honCode⟩ => ⟨hv, hh, hconsecutive, honCode⟩,
      fun h => ⟨h.viewer, h.host, h.counts.consecutiveFailures, h.counts.failuresOnCode⟩⟩

section
variable {W : Setting} {v : ViewerAt} {h : HostAt} {s s' : Meeting} {fuel n : Nat}

theorem viewer_ends_over {r : ConnectResult} (hend : W.viewerEnds v r) : v.ended := by
  cases v with
  | refused ms => trivial
  | wrong => trivial
  | greeted got =>
      obtain ⟨d, rest, rfl, -⟩ := hend
      change 2 ≤ (_ :: _ :: rest).length
      simp
  | closing got => trivial
  | _ => exact hend.elim

theorem Coherent.leaves (co : Coherent W v h s) (hgone : s.gone = false) (hover : v.ended) :
    Coherent W v h { s with gone := true, lines := { s.lines with hub := s.lines.hub.viewerDrop } }
    where
  viewerSends := co.viewerSends
  hostSends := co.hostSends
  said := co.said
  checked := co.checked
  viewerKnows := co.viewerKnows
  hostKnows := co.hostKnows
  owes := co.owes
  seated := by
    rw [FakeHub.viewerDrop]
    split
    · rfl
    · rename_i hseated
      exact Bool.eq_false_of_not_eq_true hseated
  noClose := by
    rw [FakeHub.viewerDrop]
    split <;> exact co.noClose
  ended _ := hover
  hostLink := by
    obtain ⟨rest, hlink, hrest⟩ := co.hostLink
    refine ⟨rest ++ [.viewerLeft], ?_, fun hkicked => ?_⟩
    · rw [← List.append_assoc, hlink, hgone]
      simp
    · have hseated : s.lines.hub.seated = true := by
        rw [co.seated, hgone, hkicked]
        rfl
      rw [FakeHub.viewerDrop, if_pos hseated, hrest hkicked]
  viewerLink := by
    obtain ⟨rest, hlink, -⟩ := co.viewerLink
    exact ⟨rest, hlink, nofun⟩
  hostData := co.hostData
  viewerData := co.viewerData

theorem viewer_gives_up_step {o : Op ViewerToServer} {k : Op.Res ServerToViewer o → ViewerM ConnectResult}
    (hq : Viewer.Meets.GivesUp (.act o k)) (r : Op.Res ServerToViewer o) :
    Viewer.Meets.GivesUp (k r) := hq.2 r trivial

theorem host_sends_ok {l l' : Lines} {e : Ev HostSig} (ha : W.HostAnswer l e l') : sendsOk e := by
  cases ha with
  | send => rfl
  | _ => trivial

-- either an end gives up, or both are where their programs and the lines say
def Together (W : Setting) (n : Nat) (s : Meeting) : Prop :=
  Viewer.Meets.GivesUp s.viewer ∨ HostGivesUp s.host ∨
    ∃ v h, Viewer.Meets.Follows W n v s.viewer ∧ HostFollows W n h s.host ∧ Coherent W v h s

theorem together_meet (ideal : W.Ideal) (hcounts : W.st.limiter.Counts) :
    Together W fuel (W.meet fuel) :=
  .inr (.inr ⟨.outside, .idle [], Viewer.Meets.connect_follows ideal (le_refl fuel),
    HostMeets.serveNext_follows ideal hcounts (le_refl fuel) List.nil_prefix, coherent_meet fuel⟩)

theorem Together.viewer (ideal : W.Ideal) (ht : Together W (n + 1) s)
    (hgone : s.gone = true → ∃ r, s.viewer = .ret r) {o : Op ViewerToServer}
    {k : Op.Res ServerToViewer o → ViewerM ConnectResult} {r : Op.Res ServerToViewer o}
    {lines : Lines} (hs : s.viewer = .act o k) (ha : W.ViewerAnswer s.lines ⟨o, r⟩ lines) :
    Together W n { s with viewer := k r, lines, viewerTrace := s.viewerTrace ++ [⟨o, r⟩] } := by
  obtain hup | hup | ⟨v, h, hv, hh, co⟩ := ht
  · rw [hs] at hup
    exact .inl (viewer_gives_up_step hup r)
  · exact .inr (.inl hup)
  · have hstays : s.gone = false := by
      by_contra hne
      obtain ⟨r', hr'⟩ := hgone (Bool.eq_true_of_not_eq_false hne)
      rw [hs] at hr'
      cases hr'
    rw [hs] at hv
    by_cases hup : Viewer.Meets.GivesUp (.act o k)
    · exact .inl (viewer_gives_up_step hup r)
    obtain ⟨⟨r₀, v₀, hm⟩, hnext⟩ := hv.act hup
    obtain ⟨v', hm', co'⟩ := co.viewer_step ideal hstays (k r) hm ha
    exact .inr (.inr ⟨v', h, hnext r v' hm', hh.pred, co'⟩)

theorem Together.host (ideal : W.Ideal) (ht : Together W (n + 1) s) {o : Op HostToServer}
    {k : Op.Res ServerToHost o → HostM (ServeResult × HostState)} {r : Op.Res ServerToHost o}
    {lines : Lines} (hs : s.host = .act o k) (ha : W.HostAnswer s.lines ⟨o, r⟩ lines) :
    Together W n { s with host := k r, lines, hostTrace := s.hostTrace ++ [⟨o, r⟩] } := by
  obtain hup | hup | ⟨v, h, hv, hh, co⟩ := ht
  · exact .inl hup
  · rw [hs] at hup
    exact .inr (.inl (hup.2 r (host_sends_ok ha)))
  · rw [hs] at hh
    by_cases hup : HostGivesUp (.act o k)
    · exact .inr (.inl (hup.2 r (host_sends_ok ha)))
    obtain ⟨⟨r₀, h₀, hm⟩, hnext⟩ := hh.act hup
    obtain ⟨h', hm', co'⟩ := co.host_step ideal (k r) hm ha
    exact .inr (.inr ⟨v, h', hv.pred, hnext r h' hm', co'⟩)

theorem Together.leave (ht : Together W (n + 1) s) {r : ConnectResult} (hs : s.viewer = .ret r)
    (hgone : s.gone = false) :
    Together W n { s with gone := true, lines := { s.lines with hub := s.lines.hub.viewerDrop } } := by
  obtain hup | hup | ⟨v, h, hv, hh, co⟩ := ht
  · exact .inl hup
  · exact .inr (.inl hup)
  · by_cases hup : Viewer.Meets.GivesUp s.viewer
    · exact .inl hup
    have hend : W.viewerEnds v r := by
      rw [hs] at hv hup
      exact hv.ret (Nat.succ_pos n) hup
    exact .inr (.inr ⟨v, h, hv.pred, hh.pred, co.leaves hgone (viewer_ends_over hend)⟩)

theorem Setting.Reaches.gone_returned (hr : W.Reaches fuel n s) (hgone : s.gone = true) :
    ∃ r, s.viewer = .ret r := by
  induction hr with
  | start => cases hgone
  | step hr hs ih =>
      cases hs with
      | viewer hs ha =>
          obtain ⟨r, hr⟩ := ih hgone
          rw [hs] at hr
          cases hr
      | host hs ha => exact ih hgone
      | leave hs hg => exact ⟨_, hs⟩

theorem Setting.Reaches.together (ideal : W.Ideal) (hcounts : W.st.limiter.Counts) {m : Nat}
    (hr : W.Reaches (n + m) n s) : Together W m s := by
  generalize hf : n + m = fuel at hr
  induction hr generalizing m with
  | start =>
      obtain rfl : m = fuel := by omega
      exact together_meet ideal hcounts
  | step hr hs ih =>
      have ht := ih (m := m + 1) (by omega)
      cases hs with
      | viewer hs ha => exact ht.viewer ideal hr.gone_returned hs ha
      | host hs ha => exact ht.host ideal hs ha
      | leave hs hg => exact ht.leave hs hg

theorem Setting.Reaches.viewer_path (hr : W.Reaches fuel n s) :
    Path (Viewer.connect W.C fuel W.viewerCfg) s.viewerTrace s.viewer := by
  induction hr with
  | start => exact .nil _
  | step hr hs ih =>
      cases hs with
      | @viewer o k r lines hs ha =>
          rw [hs] at ih
          exact ih.trans (.cons r (.nil _))
      | host hs ha => exact ih
      | leave hs hg => exact ih

theorem Setting.Reaches.host_path (hr : W.Reaches fuel n s) :
    Path (serveNext W.C W.hostCfg W.st fuel) s.hostTrace s.host := by
  induction hr with
  | start => exact .nil _
  | step hr hs ih =>
      cases hs with
      | viewer hs ha => exact ih
      | @host o k r lines hs ha =>
          rw [hs] at ih
          exact ih.trans (.cons r (.nil _))
      | leave hs hg => exact ih

theorem viewer_leaving (c : Clock) (o : Op ViewerToServer) (ho : o.leaving = true) :
    ∃ r : Op.Res ServerToViewer o, True ∧ (watch (Viewer.waits W.viewerCfg.t)).valid c ⟨o, r⟩ := by
  cases o with
  | linkSend m => exact ⟨.ok (), trivial, trivial⟩
  | poll d => exact ⟨.ok [], trivial, trivial⟩
  | peerClose => exact ⟨(), trivial, trivial⟩
  | _ => cases ho

theorem host_leaving (c : Clock) (o : Op HostToServer) (ho : o.leaving = true) :
    ∃ r : Op.Res ServerToHost o,
      sendsOk ⟨o, r⟩ ∧ (watch (hostWaits W.hostCfg.timeouts)).valid c ⟨o, r⟩ := by
  cases o with
  | linkSend m => exact ⟨.ok (), rfl, trivial⟩
  | poll d => exact ⟨.ok [], trivial, trivial⟩
  | peerClose => exact ⟨(), trivial, trivial⟩
  | _ => cases ho

-- an end that no deadline has passed is not left with its timeout
theorem Meeting.InTime.viewer_stays (htime : s.InTime W) (hr : W.Reaches fuel n s) :
    ¬ Viewer.Meets.GivesUp s.viewer := by
  intro hup
  obtain ⟨-, hq⟩ := wp_path Viewer.connect_onTime hr.viewer_path htime.viewer
  obtain ⟨c, r, hontime, stage, hlate⟩ := hup.wp viewer_leaving hq
  exact hontime stage hlate

theorem Meeting.InTime.host_stays (htime : s.InTime W) (hr : W.Reaches fuel n s) :
    ¬ HostGivesUp s.host := by
  intro hup
  obtain ⟨-, hq⟩ := wp_path HostMeets.serveNext_onTime hr.host_path htime.host
  obtain ⟨c, r, hontime, stage, hlate⟩ := hup.wp host_leaving hq
  exact hontime _ hlate _ rfl stage rfl

theorem start_not_confirm : ¬ isConfirm (Viewer.relayOf W.start) := by
  rintro ⟨macA, sealedOffer, hm⟩
  have hindex := PakeMsg.index_eq_of_encode_eq (hexEncode_injective (ViewerToServer.relay.inj hm))
  cases hindex

theorem reply_not_answer : ¬ isSealedAnswer (relayOf W.reply) := by
  rintro ⟨sealedAnswer, hm⟩
  have hindex := PakeMsg.index_eq_of_encode_eq (hexEncode_injective (HostToServer.relay.inj hm))
  cases hindex

theorem heardDecision_injective {d d' : Decision}
    (hd : Setting.heardDecision d = Setting.heardDecision d') : d = d' :=
  decision_encode_injective (PeerEvent.data.inj hd)

theorem retryAfter_pos {now wait : Nat} (hwait : W.st.limiter.check now = .error wait) :
    0 < Duration.fromMillis (retryAfterMs wait).toNat := by
  have hpos : 0 < wait := by
    rw [AttemptLimiter.check] at hwait
    split at hwait
    · split at hwait
      · rename_i hlt
        cases hwait
        exact Nat.sub_pos_of_lt hlt
      · cases hwait
    · cases hwait
  have hms : (retryAfterMs wait).toNat = min ((wait + 999999) / 1000000) (2 ^ 64 - 1) := by
    rw [retryAfterMs, UInt64.toNat_ofNat_of_lt']
    simp only [UInt64.size]
    omega
  rw [Duration.fromMillis, hms]
  exact Nat.mul_pos (by omega) (by omega)

-- the relay that a viewer at its end got first
def ViewerAt.first (W : Setting) : ViewerAt → PakeMsg
  | .refused ms => .retryAfter ms
  | _ => W.reply

theorem Coherent.first_relay (co : Coherent W v h s) {msg : PakeMsg} {rest : List HostToServer}
    (hsends : h.sends W = relayOf msg :: rest) (hover : v.ended) :
    relayText (v.first W) = relayText msg := by
  obtain ⟨rest', hlink, -⟩ := co.viewerLink
  rw [hsends] at hlink
  cases v with
  | refused ms | wrong | greeted got | closing got =>
      have hfirst := (List.cons.inj (List.cons.inj hlink).2).1
      exact ServerToViewer.relay.inj (ViewerEnvelope.msg.inj hfirst)
  | _ => exact hover.elim

theorem Coherent.outcome_refused (ideal : W.Ideal) {wait : Duration}
    (co : Coherent W v (.refused wait) s) {r : ConnectResult} (hend : W.viewerEnds v r) :
    W.Outcome s.viewerTrace s.hostTrace r (.ok (.failed .waitRequired)) := by
  obtain ⟨now, hnow, hwait⟩ := co.checked
  have hne := reply_ne_retryAfter ideal (retryAfterMs wait)
  have hfirst := co.first_relay rfl (viewer_ends_over hend)
  cases v with
  | refused ms =>
      have hfits (ms : UInt64) : (PakeMsg.retryAfter ms).fits := trivial
      obtain rfl := PakeMsg.retryAfter.inj (relayText_injective (hfits _) (hfits _) hfirst)
      obtain rfl : r = _ := hend
      exact .waiting hnow hwait (retryAfter_pos hwait)
  | _ => exact absurd hfirst hne

theorem Coherent.outcome_left (ideal : W.Ideal) (co : Coherent W v .left s) {r : ConnectResult}
    (hend : W.viewerEnds v r) :
    W.Outcome s.viewerTrace s.hostTrace r (.ok (.failed .noConfirm)) := by
  have hfirst := co.first_relay rfl (viewer_ends_over hend)
  obtain ⟨rest, hlink, -⟩ := co.hostLink
  rw [HostAt.heard, List.append_assoc, List.append_cancel_left_eq] at hlink
  have hviewer := co.viewerSends
  have hhost := co.hostSends
  cases v with
  | refused ms => exact absurd hfirst.symm (reply_ne_retryAfter ideal ms)
  | wrong =>
      obtain rfl : r = _ := hend
      refine .wrongCode co.checked (mt ideal.inputs_eq.mpr co.viewerKnows) ?_ ?_
      · rw [hviewer]
        simpa [ViewerAt.sends] using start_not_confirm
      · rw [hhost]
        simpa [HostAt.sends] using reply_not_answer
  | greeted got | closing got => cases (List.cons.inj (List.cons.inj (List.cons.inj hlink).2).2).1
  | _ => exact hend.elim

-- the viewer judges the decision the host has sent
theorem Coherent.judges (ideal : W.Ideal) (co : Coherent W v h s) {d : Decision}
    (hdecision : h.decision = some d) {rest : List PeerEvent}
    (hdata : h.data W = W.heardHello :: Setting.heardDecision d :: rest)
    {later : List HostToServer} (hsends : h.sends W = relayOf W.reply :: later)
    (hsame : W.viewerInput = W.hostInput) {r : ConnectResult} (hend : W.viewerEnds v r) :
    W.viewerJudges d r := by
  have hfirst := co.first_relay hsends (viewer_ends_over hend)
  obtain ⟨unread, hgot, -⟩ := co.viewerData
  rw [hdata] at hgot
  cases v with
  | refused ms => exact absurd hfirst.symm (reply_ne_retryAfter ideal ms)
  | wrong => exact absurd hsame co.viewerKnows
  | greeted got | closing got =>
      obtain ⟨d', rest', rfl, hjudges⟩ := hend
      obtain rfl := heardDecision_injective (List.cons.inj (List.cons.inj hgot).2).1
      exact hjudges
  | _ => exact hend.elim

theorem older_side {theirs : UInt32} (hne : PROTOCOL_VERSION ≠ theirs)
    (heq : theirs = W.hostCfg.protocolVersion) : W.Older (Viewer.olderSide theirs) := by
  subst heq
  rw [Viewer.olderSide]
  split
  · assumption
  · rename_i hle
    exact UInt32.lt_of_le_of_ne (UInt32.not_lt.mp hle) hne.symm

theorem outcome_denied {vt : List (Ev ViewerSig)} {ht : List (Ev HostSig)} {d : Decision}
    (hadmitted : W.Admitted ht) (halike : W.Alike) (howes : W.Owes (approvals ht) d)
    (hd : d ≠ .accepted) {r : ConnectResult} (hjudges : W.viewerJudges d r) :
    W.Outcome vt ht r (.ok (.failed (Setting.failureOf d))) := by
  generalize hsaid : approvals ht = said at howes
  cases howes with
  | version hversion =>
      obtain rfl : r = _ := hjudges
      exact .versionMismatch hadmitted halike hversion (older_side hversion rfl)
  | accepted => exact absurd rfl hd
  | denied hversion hsilent =>
      obtain rfl : r = _ := hjudges
      exact .denied hadmitted halike hversion hsaid hsilent
  | noResponse hversion hsilent =>
      obtain rfl : r = _ := hjudges
      exact .noResponse hadmitted halike hversion (by rw [hsaid]; exact hsilent)

theorem outcome_granted {vt : List (Ev ViewerSig)} {ht : List (Ev HostSig)}
    (hadmitted : W.Admitted ht) (halike : W.Alike) (howes : W.Owes (approvals ht) .accepted)
    {ch : Channel} {r : ConnectResult} (hjudges : W.viewerJudges .accepted r) :
    W.Outcome vt ht r (.ok (.session ⟨W.viewer, ch⟩)) := by
  generalize hsaid : approvals ht = said at howes
  obtain ⟨ch', rfl⟩ := hjudges
  cases howes with
  | accepted hversion hsilent => exact .granted hadmitted halike hversion hsaid hsilent

theorem Coherent.outcome (ideal : W.Ideal) (co : Coherent W v h s) {rv : ConnectResult}
    {rh : ServeResult × HostState} (hv : W.viewerEnds v rv) (hh : W.hostEnds h rh) :
    W.Outcome s.viewerTrace s.hostTrace rv rh.1 := by
  obtain ⟨rh, st⟩ := rh
  cases h with
  | refused wait =>
      obtain rfl : rh = _ := hh
      exact co.outcome_refused ideal hv
  | left =>
      obtain rfl : rh = _ := hh
      exact co.outcome_left ideal hv
  | decided d got said =>
      obtain ⟨rfl, ch, hch⟩ := hh
      obtain rfl : rh = _ := hch
      have howes := (co.owes _ rfl).1
      rw [← co.said] at howes
      exact outcome_granted co.checked (ideal.inputs_eq.mp co.hostKnows) howes
        (co.judges ideal rfl rfl rfl co.hostKnows hv)
  | dismissed d said =>
      obtain rfl : rh = _ := hh
      have howes := (co.owes _ rfl).1
      rw [← co.said] at howes
      exact outcome_denied co.checked (ideal.inputs_eq.mp co.hostKnows.1) howes co.hostKnows.2
        (co.judges ideal rfl rfl rfl co.hostKnows.1 hv)
  | _ => exact hh.elim

end

end SimpleRemote
