import SimpleRemote.Transport.Queue

namespace SimpleRemote
open ByteCodec Interaction Runs

namespace Peer

def output : Ev PeerSig → Option (Except Unit Output)
  | ⟨.pollOutput, r⟩ => some r
  | _ => none

def outputs (tr : List (Ev PeerSig)) : List (Except Unit Output) := tr.filterMap output

def gather (gathered : List RtcEvent) : Except Unit Output → List RtcEvent
  | .ok (.timeout _) => []
  | .ok (.event e) => gathered ++ [e]
  | _ => gathered

-- the events that came after the last `Timeout`
def sinceTimeout (os : List (Except Unit Output)) : List RtcEvent := os.foldl gather []

abbrev EndsInError (os : List (Except Unit Output)) : Prop := os.getLast? = some (.error ())

theorem outputs_append (tr tr' : List (Ev PeerSig)) :
    outputs (tr ++ tr') = outputs tr ++ outputs tr' := List.filterMap_append

theorem outputs_of_uses {α : Type} {p : PeerM α} {tr : List (Ev PeerSig)} {a : α}
    (hp : p.Uses fun o : PeerOp => o ≠ .pollOutput) (h : Exec p tr a) : outputs tr = [] := by
  refine List.filterMap_eq_nil_iff.mpr fun e he => ?_
  have hne := (hp.path h).1 e he
  obtain ⟨o, r⟩ := e
  cases o <;> first | rfl | exact absurd rfl hne

theorem received_eq_nil {control : Option ChannelId} {es : List RtcEvent} (h : dataOf es = []) :
    received control es = [] :=
  List.sublist_nil.mp (h ▸ received_sublist control es)

theorem received_append (control : Option ChannelId) (es es' : List RtcEvent) :
    received control (es ++ es') = received control es ++ received (es.foldl opens control) es' := by
  induction es generalizing control with
  | nil => rfl
  | cons e es ih =>
      cases e with
      | channelData id data =>
          rw [List.cons_append, received, received, ih]
          split <;> rfl
      | _ => exact ih _

-- events that the peer passes on nothing of carry no payload and open no channel of its own
theorem mapEvents_nil {peer : Peer} {es : List RtcEvent} (h : (peer.mapEvents es).1 = []) :
    dataOf es = [] ∧ es.foldl opens peer.control = peer.control := by
  induction es generalizing peer with
  | nil => exact ⟨rfl, rfl⟩
  | cons e es ih =>
      rw [mapEvents] at h
      obtain ⟨hmapped, hrest⟩ := List.append_eq_nil_iff.mp h
      have hsame : (peer.mapEvent e).2 = peer ∧ opens peer.control e = peer.control ∧
          dataOf (e :: es) = dataOf es := by
        cases e with
        | channelOpen id label =>
            dsimp only [mapEvent, opens] at hmapped ⊢
            split at hmapped
            · cases hmapped
            · rename_i hlabel
              rw [if_neg hlabel, if_neg hlabel]
              exact ⟨rfl, rfl, rfl⟩
        | channelClose id =>
            dsimp only [mapEvent, opens] at hmapped ⊢
            split at hmapped
            · cases hmapped
            · rename_i hid
              rw [if_neg hid]
              exact ⟨rfl, rfl, rfl⟩
        | other => exact ⟨rfl, rfl, rfl⟩
        | _ => cases hmapped
      obtain ⟨hpeer, hcontrol, hdata⟩ := hsame
      rw [hpeer] at hrest
      obtain ⟨hrest, hfold⟩ := ih hrest
      exact ⟨hdata.trans hrest, by rw [List.foldl_cons, hcontrol, hfold]⟩

-- what is left of the outputs after one drain
structure Drained (gathered : List RtcEvent) (tr : List (Ev PeerSig)) (ok : Bool) : Prop where
  events : ok = false → (outputs tr).foldl gather gathered = gathered ++ rtcEvents tr
  restart : ok = true → (outputs tr).foldl gather gathered = []
  last : (outputs tr).getLast? = some (.error ()) ↔ ok = false
  nonempty : outputs tr ≠ []

theorem Drained.cons {gathered gathered' : List RtcEvent} {o : Except Unit Output}
    {tr : List (Ev PeerSig)} {ok : Bool} (h : Drained gathered' tr ok)
    (hgather : gather gathered o = gathered')
    (hevents : gathered ++ rtcEvents (⟨.pollOutput, o⟩ :: tr) = gathered' ++ rtcEvents tr) :
    Drained gathered (⟨.pollOutput, o⟩ :: tr) ok := by
  have houtputs : outputs (⟨.pollOutput, o⟩ :: tr) = o :: outputs tr := rfl
  constructor
  · intro hok
    rw [houtputs, List.foldl_cons, hgather, h.events hok, hevents]
  · intro hok
    rw [houtputs, List.foldl_cons, hgather, h.restart hok]
  · rw [houtputs, List.getLast?_cons_of_ne_nil h.nonempty]
    exact h.last
  · rw [houtputs]
    exact List.cons_ne_nil _ _

theorem Drained.after {gathered : List RtcEvent} {tr tr' : List (Ev PeerSig)} {ok : Bool}
    (h : Drained gathered tr' ok) (houtputs : outputs tr = []) (hevents : rtcEvents tr = []) :
    Drained gathered (tr ++ tr') ok := by
  have houtputs' : outputs (tr ++ tr') = outputs tr' := by
    rw [outputs_append, houtputs, List.nil_append]
  have hevents' : rtcEvents (tr ++ tr') = rtcEvents tr' := by
    rw [rtcEvents_append, hevents, List.nil_append]
  constructor
  · rw [houtputs', hevents']
    exact h.events
  · rw [houtputs']
    exact h.restart
  · rw [houtputs']
    exact h.last
  · rw [houtputs']
    exact h.nonempty

theorem drainOutput_drained {fuel : Nat} {peer peer' : Peer} {acc : List PeerEvent}
    {gathered : List RtcEvent} {tr : List (Ev PeerSig)}
    {r : Except TransportError (List PeerEvent)}
    (h : Exec (drainOutput fuel peer acc) tr (r, peer')) : Drained gathered tr r.isOk := by
  induction fuel generalizing peer acc gathered tr with
  | zero => exact absurd h exec_halt
  | succ fuel ih =>
      obtain ⟨polled, rest, rfl, hrest⟩ := exec_call_bind.mp h
      rcases polled with e | o
      · obtain ⟨rfl, hret⟩ := exec_ret.mp hrest
        obtain ⟨rfl, -⟩ := Prod.mk.inj hret
        constructor
        · intro _
          exact (List.append_nil gathered).symm
        · intro hok
          cases hok
        · exact iff_of_true rfl rfl
        · exact List.cons_ne_nil _ _
      cases o with
      | timeout due =>
          obtain ⟨rfl, hret⟩ := exec_ret.mp hrest
          obtain ⟨rfl, -⟩ := Prod.mk.inj hret
          constructor
          · intro hok
            cases hok
          · intro _
            rfl
          · exact iff_of_false (fun h => by cases h) (fun h => by cases h)
          · exact List.cons_ne_nil _ _
      | transmit source destination contents =>
          obtain ⟨tr₁, u, tr₂, rfl, hsend, hdrain⟩ := exec_bind.mp hrest
          have huses := transmit_uses peer source destination contents
          have hlater : Drained gathered (tr₁ ++ tr₂) r.isOk :=
            (ih hdrain).after (outputs_of_uses huses hsend) (rtcEvents_of_uses huses hsend)
          exact hlater.cons rfl rfl
      | event e =>
          refine (ih hrest).cons rfl ?_
          exact (List.append_assoc gathered [e] (rtcEvents rest)).symm

-- what a poll leaves behind: an error of `poll_output` loses what came since the last `Timeout`,
-- and nothing else is lost
structure Leaves (peer : Peer) (tr : List (Ev PeerSig))
    (r : Except TransportError (List PeerEvent)) : Prop where
  ok : r.isOk = true → ¬ EndsInError (outputs tr)
  failed : r.isOk = false → EndsInError (outputs tr) →
    received peer.control (rtcEvents tr) = received peer.control (sinceTimeout (outputs tr))
  other : r.isOk = false → ¬ EndsInError (outputs tr) → received peer.control (rtcEvents tr) = []

theorem not_endsInError_nil : ¬ EndsInError [] := by
  intro h
  cases h

theorem leaves_quiet {peer : Peer} {tr : List (Ev PeerSig)}
    {r : Except TransportError (List PeerEvent)} (houtputs : outputs tr = [])
    (hevents : rtcEvents tr = []) : Leaves peer tr r := by
  constructor
  · intro _
    rw [houtputs]
    exact not_endsInError_nil
  · intro _ hends
    rw [houtputs] at hends
    exact absurd hends not_endsInError_nil
  · intro _ _
    rw [hevents]
    rfl

theorem Leaves.quiet {peer : Peer} {tr : List (Ev PeerSig)}
    {r : Except TransportError (List PeerEvent)} (pre : List (Ev PeerSig)) (h : Leaves peer tr r)
    (houtputs : outputs pre = []) (hevents : rtcEvents pre = []) : Leaves peer (pre ++ tr) r := by
  have houtputs' : outputs (pre ++ tr) = outputs tr := by
    rw [outputs_append, houtputs, List.nil_append]
  have hevents' : rtcEvents (pre ++ tr) = rtcEvents tr := by
    rw [rtcEvents_append, hevents, List.nil_append]
  constructor
  · rw [houtputs']
    exact h.ok
  · rw [houtputs', hevents']
    exact h.failed
  · rw [houtputs', hevents']
    exact h.other

-- a drain that ended at a `Timeout` with nothing to pass on
theorem Leaves.drained {peer : Peer} {tr tr' : List (Ev PeerSig)}
    {r : Except TransportError (List PeerEvent)} (hdrained : Drained [] tr true)
    (hnone : (peer.mapEvents (rtcEvents tr)).1 = [])
    (h : Leaves (peer.mapEvents (rtcEvents tr)).2 tr' r) : Leaves peer (tr ++ tr') r := by
  obtain ⟨hdata, hcontrol⟩ := mapEvents_nil hnone
  have hsame : (peer.mapEvents (rtcEvents tr)).2.control = peer.control :=
    (mapEvents_control peer (rtcEvents tr)).trans hcontrol
  have hsince : sinceTimeout (outputs (tr ++ tr')) = sinceTimeout (outputs tr') := by
    rw [outputs_append, sinceTimeout, List.foldl_append, hdrained.restart rfl]
    rfl
  have hreceived : received peer.control (rtcEvents (tr ++ tr')) =
      received peer.control (rtcEvents tr') := by
    rw [rtcEvents_append, received_append, received_eq_nil hdata, hcontrol]
    rfl
  have hends : EndsInError (outputs (tr ++ tr')) ↔ EndsInError (outputs tr') := by
    rw [EndsInError, outputs_append, List.getLast?_append]
    cases hlast : (outputs tr').getLast? with
    | none =>
        refine iff_of_false (fun herror => ?_) (fun herror => ?_)
        · exact absurd (hdrained.last.mp herror) (by decide)
        · rw [EndsInError, hlast] at herror
          cases herror
    | some o => rw [EndsInError, hlast, Option.some_or]
  constructor
  · intro hok herror
    exact h.ok hok (hends.mp herror)
  · intro hfailed herror
    rw [hreceived, hsince, ← hsame]
    exact h.failed hfailed (hends.mp herror)
  · intro hfailed herror
    rw [hreceived, ← hsame]
    exact h.other hfailed fun h => herror (hends.mpr h)

theorem pollLoop_leaves {accepts : Bytes → Bool} {deadline : Instant} {fuel : Nat}
    {peer peer' : Peer} {tr : List (Ev PeerSig)} {r : Except TransportError (List PeerEvent)}
    (h : Exec (pollLoop accepts deadline fuel peer) tr (r, peer')) : Leaves peer tr r := by
  induction fuel generalizing peer tr with
  | zero => exact absurd h exec_halt
  | succ fuel ih =>
      obtain ⟨tr₁, ⟨drained, peer₁⟩, tr₂, rfl, hdrain, hrest⟩ := exec_bind.mp h
      have hleft : Drained [] tr₁ _ := drainOutput_drained hdrain
      obtain ⟨hpeer, hevents⟩ := drainOutput_maps hdrain
      dsimp only at hpeer hevents
      subst hpeer
      rcases drained with e | events
      · obtain ⟨rfl, hret⟩ := exec_ret.mp hrest
        obtain ⟨rfl, -⟩ := Prod.mk.inj hret
        rw [List.append_nil]
        constructor
        · intro hok
          cases hok
        · intro _ _
          rw [sinceTimeout, hleft.events rfl]
          rfl
        · intro _ herror
          exact absurd (hleft.last.mpr rfl) herror
      obtain rfl := hevents events rfl
      dsimp only at hrest
      split at hrest
      · obtain ⟨rfl, hret⟩ := exec_ret.mp hrest
        obtain ⟨rfl, -⟩ := Prod.mk.inj hret
        rw [List.append_nil]
        constructor
        · intro _ herror
          cases hleft.last.mp herror
        · intro hok
          cases hok
        · intro hok
          cases hok
      rename_i hsome
      have hnone : (peer.mapEvents (rtcEvents tr₁)).1 = [] := by simpa using hsome
      apply Leaves.drained hleft hnone
      obtain ⟨now, tr₃, rfl, hwait⟩ := exec_call_bind.mp hrest
      apply Leaves.quiet [⟨.now, now⟩] _ rfl rfl
      split at hwait
      · obtain ⟨rfl, hret⟩ := exec_ret.mp hwait
        exact leaves_quiet rfl rfl
      obtain ⟨tr₄, pumped, tr₅, rfl, hpump, hfed⟩ := exec_bind.mp hwait
      have huses := pumpSockets_uses accepts (peer.mapEvents (rtcEvents tr₁)).2.sockets false
      apply Leaves.quiet tr₄ _ (outputs_of_uses huses hpump) (rtcEvents_of_uses huses hpump)
      rcases pumped with e | gotInput
      · obtain ⟨rfl, -⟩ := exec_ret.mp hfed
        exact leaves_quiet rfl rfl
      obtain ⟨later, tr₆, rfl, hlater⟩ := exec_call_bind.mp hfed
      obtain ⟨handled, tr₇, rfl, hhandled⟩ := exec_call_bind.mp hlater
      rcases handled with e | u
      · obtain ⟨rfl, -⟩ := exec_ret.mp hhandled
        exact leaves_quiet rfl rfl
      dsimp only at hhandled
      split at hhandled
      · exact Leaves.quiet [_, _] (ih hhandled) rfl rfl
      · obtain ⟨u, tr₈, rfl, hslept⟩ := exec_call_bind.mp hhandled
        exact Leaves.quiet [_, _, _] (ih hslept) rfl rfl

theorem poll_leaves {accepts : Bytes → Bool} {fuel : Nat} {peer peer' : Peer} {maxWait : Duration}
    {tr : List (Ev PeerSig)} {r : Except TransportError (List PeerEvent)}
    (h : Exec (poll accepts fuel peer maxWait) tr (r, peer')) : Leaves peer tr r := by
  obtain ⟨now, rest, rfl, hloop⟩ := exec_call_bind.mp h
  exact Leaves.quiet [_] (pollLoop_leaves hloop) rfl rfl

end Peer

-- every payload that came on the control channel during the poll is handed out by it
def Polled.keeps (control : Option ChannelId) (p : Polled) : Prop :=
  (received control (Peer.rtcEvents p.trace)).Sublist p.handsOut

-- no payload came between the last `Timeout` and an error
def Polled.spares (control : Option ChannelId) (p : Polled) : Prop :=
  Peer.EndsInError (Peer.outputs p.trace) →
    received control (Peer.sinceTimeout (Peer.outputs p.trace)) = []

theorem keeps_iff_spares {accepts : Bytes → Bool} {fuel : Nat} {peer peer' : Peer}
    {maxWait : Duration} {p : Polled}
    (h : Exec (peer.poll accepts fuel maxWait) p.trace (p.result, peer')) :
    p.keeps peer.control ↔ p.spares peer.control := by
  have hleaves := Peer.poll_leaves h
  rw [Polled.keeps, Polled.spares]
  cases hresult : p.result with
  | ok events =>
      rw [hresult] at hleaves h
      have hsublist := (handsOut_sublist (p := p) (hresult ▸ h)).1
      rw [Polled.receives, hresult] at hsublist
      exact iff_of_true hsublist fun herror => absurd herror (hleaves.ok rfl)
  | error e =>
      rw [hresult] at hleaves
      rw [Polled.handsOut, hresult]
      dsimp only
      rw [List.sublist_nil]
      by_cases herror : Peer.EndsInError (Peer.outputs p.trace)
      · rw [hleaves.failed rfl herror]
        exact (imp_iff_right herror).symm
      · exact iff_of_true (hleaves.other rfl herror) fun h => absurd h herror

theorem keeps_along {accepts : Bytes → Bool} {peer peer' : Peer} {run : List Polled}
    (h : PeerRun accepts peer run peer') :
    Along Polled.leaves Polled.keeps peer.control run ↔
      Along Polled.leaves Polled.spares peer.control run := by
  induction h with
  | nil peer => exact Iff.rfl
  | @cons fuel peer peer₁ peer₂ maxWait tr r run h rest ih =>
      have hleaves := leaves_control (p := ⟨tr, r⟩) h
      rw [hleaves] at ih
      exact and_congr (keeps_iff_spares (p := ⟨tr, r⟩) h) ih

theorem error_after_all {In Out : Type} {calls : List (ChannelCall In Out)} {ch ch' : Channel}
    {deadline : Instant} {fuel : Nat} {tr : List (Ev (conn In Out))} {e : TransportError}
    (run : ChannelRun calls ch) (h : Exec (ch.next deadline fuel) tr (.error e, ch')) :
    messagesOf calls = (Channel.polled (tracesOf calls ++ tr)).map decodes := by
  obtain ⟨popped, hpolled, hmessages⟩ := run.fifo.queue
  have hempty := (Channel.next_empties h fun n hn => by cases hn).1
  have hrest : ch.pending ++ Channel.polled tr = [] := by
    rcases Channel.next_pops h with ⟨data, -, he⟩ | ⟨hsame, -⟩
    · cases he
    · rw [hsame, hempty]
  rw [Channel.polled_append, hpolled, List.append_assoc, hrest, List.append_nil, hmessages]

theorem error_spares_payloads {accepts : Bytes → Bool} {peer peer' : Peer} {run : List Polled}
    (h : PeerRun accepts peer run peer') :
    (Along Polled.leaves Polled.keeps peer.control run ↔
      Along Polled.leaves Polled.spares peer.control run) ∧
    ∀ (In Out : Type) (calls : List (ChannelCall In Out)) ch deadline fuel tr e ch',
      ChannelRun calls ch → Exec (ch.next deadline fuel) tr (.error e, ch') →
      Channel.pollResults (tracesOf calls ++ tr) = run.map Polled.result →
      messagesOf calls = (handedOut run).map decodes := by
  refine ⟨keeps_along h, ?_⟩
  intro In Out calls ch deadline fuel tr e ch' hrun hnext hresults
  have hpolled : Channel.polled (tracesOf calls ++ tr) = handedOut run := by
    rw [Channel.polled, hresults, handedOut, List.flatMap_map]
    rfl
  rw [error_after_all hrun hnext, hpolled]

-- one poll in which `poll_output` gives the events `es` and then fails
def failingPoll (es : List RtcEvent) : Polled where
  trace := ⟨.now, (0 : Nat)⟩ :: es.map (fun e => (⟨.pollOutput, .ok (.event e)⟩ : Ev PeerSig)) ++
    [⟨.pollOutput, .error ()⟩]
  result := .error .rtc

theorem sample_error_spares_payloads :
    Along Polled.leaves Polled.keeps none [samplePolled controlEvents, failingPoll []] := by
  have hpoll : Exec (samplePeer.poll (fun _ => true) 6 9) (samplePolled controlEvents).trace
      ((samplePolled controlEvents).result, (samplePeer.mapEvents controlEvents).2) :=
    exec_of_replay rfl
  have hfails : Exec ((samplePeer.mapEvents controlEvents).2.poll (fun _ => true) 6 9)
      (failingPoll []).trace ((failingPoll []).result, (samplePeer.mapEvents controlEvents).2) :=
    exec_of_replay rfl
  refine (error_spares_payloads (.cons hpoll (.cons hfails (.nil _)))).1.mpr ⟨?_, ?_, trivial⟩
  · intro herror
    cases herror
  · intro _
    rfl

def lastWords : List RtcEvent :=
  [.channelOpen 1 CONTROL_LABEL, .channelData 1 (Control.encode (.decision .accepted))]

theorem decision_swallowed : ∃ peer',
    PeerRun (fun _ => true) samplePeer [failingPoll lastWords] peer' ∧
      ¬ Along Polled.leaves Polled.keeps none [failingPoll lastWords] ∧
      Exec (Channel.next 9 2 .new : Conn Unit Unit _)
        [⟨.now, (0 : Nat)⟩, ⟨.poll 9, (failingPoll lastWords).result⟩] (.error .rtc, .new) := by
  have hfails : Exec (samplePeer.poll (fun _ => true) 6 9) (failingPoll lastWords).trace
      ((failingPoll lastWords).result, (samplePeer.mapEvents lastWords).2) := exec_of_replay rfl
  refine ⟨_, .cons hfails (.nil _), ?_, exec_of_replay rfl⟩
  rintro ⟨hkeeps, -⟩
  cases hkeeps

end SimpleRemote
