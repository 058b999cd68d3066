import SimpleRemote.Library.Runs
import SimpleRemote.Transport.Peer

namespace SimpleRemote
open ByteCodec Interaction Runs

theorem eq_parts_of_sublist {α : Type} {s s' t t' : List α} (hs : s.Sublist t) (hs' : s'.Sublist t')
    (h : t ++ t' = s ++ s') : t = s ∧ t' = s' := by
  have hlength := congrArg List.length h
  simp only [List.length_append] at hlength
  have hle := hs.length_le
  have hle' := hs'.length_le
  exact ⟨(hs.eq_of_length (by omega)).symm, (hs'.eq_of_length (by omega)).symm⟩

-- the channel that the latest `ChannelOpen` labelled "control" named
def opens (control : Option ChannelId) : RtcEvent → Option ChannelId
  | .channelOpen id label => if label = CONTROL_LABEL then some id else control
  | _ => control

def received : Option ChannelId → List RtcEvent → List Bytes
  | _, [] => []
  | control, .channelData id data :: es =>
      if control = some id then data :: received control es else received control es
  | control, e :: es => received (opens control e) es

def carriesControl (control : Option ChannelId) : RtcEvent → Prop
  | .channelData id _ => control = some id
  | _ => True

abbrev OnControl (control : Option ChannelId) (es : List RtcEvent) : Prop :=
  Along opens carriesControl control es

def Polled.leaves (control : Option ChannelId) (p : Polled) : Option ChannelId :=
  (Peer.rtcEvents p.trace).foldl opens control

def Polled.handsOut (p : Polled) : List Bytes :=
  match p.result with
  | .ok events => payloads events
  | .error _ => []

def Polled.receives (control : Option ChannelId) (p : Polled) : List Bytes :=
  match p.result with
  | .ok _ => received control (Peer.rtcEvents p.trace)
  | .error _ => []

def Polled.onControl (control : Option ChannelId) (p : Polled) : Prop :=
  match p.result with
  | .ok _ => OnControl control (Peer.rtcEvents p.trace)
  | .error _ => True

def handedOut (run : List Polled) : List Bytes := run.flatMap Polled.handsOut

def controlReceived : Option ChannelId → List Polled → List Bytes
  | _, [] => []
  | control, p :: run => p.receives control ++ controlReceived (p.leaves control) run

def dataOf : List RtcEvent → List Bytes
  | [] => []
  | .channelData _ data :: es => data :: dataOf es
  | _ :: es => dataOf es

theorem received_sublist (control : Option ChannelId) (es : List RtcEvent) :
    (received control es).Sublist (dataOf es) := by
  induction es generalizing control with
  | nil => exact .slnil
  | cons e es ih =>
      cases e with
      | channelData id data =>
          rw [received, dataOf]
          split
          · exact (ih control).cons_cons data
          · exact (ih control).cons data
      | _ => exact ih _

theorem dataOf_eq_received (control : Option ChannelId) (es : List RtcEvent) :
    dataOf es = received control es ↔ OnControl control es := by
  induction es generalizing control with
  | nil => simp [dataOf, received, Along]
  | cons e es ih =>
      cases e with
      | channelData id data =>
          rw [received, dataOf, OnControl, Along]
          split
          · rename_i hid
            simp only [carriesControl, hid, true_and, List.cons.injEq]
            exact ih _
          · rename_i hid
            refine iff_of_false (fun heq => ?_) fun h => hid h.1
            have hle := (received_sublist control es).length_le
            rw [← heq, List.length_cons] at hle
            omega
      | _ => exact (ih _).trans (and_iff_right trivial).symm

namespace Peer

theorem mapEvent_control (peer : Peer) (e : RtcEvent) :
    (peer.mapEvent e).2.control = opens peer.control e := by
  cases e with
  | channelOpen id label =>
      dsimp only [mapEvent, opens]
      split <;> rfl
  | channelClose id =>
      dsimp only [mapEvent, opens]
      split <;> rfl
  | _ => rfl

theorem mapEvents_control (peer : Peer) (es : List RtcEvent) :
    (peer.mapEvents es).2.control = es.foldl opens peer.control := by
  induction es generalizing peer with
  | nil => rfl
  | cons e es ih =>
      rw [mapEvents, ih, mapEvent_control, List.foldl_cons]

theorem payloads_mapEvents (peer : Peer) (es : List RtcEvent) :
    payloads (peer.mapEvents es).1 = dataOf es := by
  induction es generalizing peer with
  | nil => rfl
  | cons e es ih =>
      rw [mapEvents]
      cases e with
      | channelData id data => exact congrArg (data :: ·) (ih _)
      | channelOpen id label =>
          dsimp only [mapEvent, dataOf]
          split <;> exact ih _
      | channelClose id =>
          dsimp only [mapEvent, dataOf]
          split <;> exact ih _
      | _ => exact ih _

end Peer

section
variable {accepts : Bytes → Bool}

theorem handsOut_sublist {fuel : Nat} {peer peer' : Peer} {maxWait : Duration} {p : Polled}
    (h : Exec (peer.poll accepts fuel maxWait) p.trace (p.result, peer')) :
    (p.receives peer.control).Sublist p.handsOut ∧
      (p.handsOut = p.receives peer.control ↔ p.onControl peer.control) := by
  obtain ⟨-, hevents⟩ := Peer.poll_maps h
  rw [Polled.receives, Polled.handsOut, Polled.onControl]
  split
  · rename_i events hr
    obtain rfl : events = (peer.mapEvents (Peer.rtcEvents p.trace)).1 := hevents events hr
    rw [Peer.payloads_mapEvents]
    exact ⟨received_sublist .., dataOf_eq_received ..⟩
  · exact ⟨.slnil, by simp⟩

theorem leaves_control {fuel : Nat} {peer peer' : Peer} {maxWait : Duration} {p : Polled}
    (h : Exec (peer.poll accepts fuel maxWait) p.trace (p.result, peer')) :
    peer'.control = p.leaves peer.control := by
  have hpeer : peer' = (peer.mapEvents (Peer.rtcEvents p.trace)).2 := (Peer.poll_maps h).1
  rw [hpeer, Peer.mapEvents_control, Polled.leaves]

theorem handedOut_sublist {peer peer' : Peer} {run : List Polled} (h : PeerRun accepts peer run peer') :
    (controlReceived peer.control run).Sublist (handedOut run) := by
  induction h with
  | nil peer => exact .slnil
  | cons h rest ih =>
      rw [leaves_control (p := ⟨_, _⟩) h] at ih
      exact (handsOut_sublist (p := ⟨_, _⟩) h).1.append ih

theorem handedOut_eq {peer peer' : Peer} {run : List Polled} (h : PeerRun accepts peer run peer') :
    handedOut run = controlReceived peer.control run ↔
      Along Polled.leaves Polled.onControl peer.control run := by
  induction h with
  | nil peer => simp [handedOut, controlReceived, Along]
  | @cons fuel peer peer₁ peer₂ maxWait tr r run h rest ih =>
      have hleaves := leaves_control (p := ⟨tr, r⟩) h
      obtain ⟨hsub, hiff⟩ := handsOut_sublist (p := ⟨tr, r⟩) h
      have hsub' := handedOut_sublist rest
      rw [hleaves] at ih hsub'
      rw [Along, ← hiff, ← ih, controlReceived]
      constructor
      · intro heq
        exact eq_parts_of_sublist hsub hsub' heq
      · rintro ⟨hp, hrest⟩
        exact congrArg₂ (· ++ ·) hp hrest

end

inductive Use where
  | waitOpen (deadline : Instant) (fuel : Nat)
  | next (deadline : Instant) (fuel : Nat)
  | send (msg : Control)

def decodes (data : Bytes) : Next :=
  match Control.decode data with
  | .ok msg => .msg msg
  | .error _ => .malformed

def Next.decoded : Next → Bool
  | .msg _ => true
  | .malformed => true
  | _ => false

namespace Channel
variable {In Out : Type}

-- a channel put to use until a call on it fails, with what its `next` calls returned
def perform : List Use → Channel → Conn In Out (List Next × Channel)
  | [], ch => return ([], ch)
  | .waitOpen deadline fuel :: uses, ch => do
      match ← waitOpen deadline fuel ch with
      | (.error _, ch) => return ([], ch)
      | (.ok _, ch) => perform uses ch
  | .next deadline fuel :: uses, ch => do
      match ← next deadline fuel ch with
      | (.error _, ch) => return ([], ch)
      | (.ok n, ch) =>
          let (ns, ch) ← perform uses ch
          return (n :: ns, ch)
  | .send msg :: uses, ch => do
      match ← send msg with
      | .error _ => return ([], ch)
      | .ok () => perform uses ch

def pollResult : Ev (conn In Out) → Option (Except TransportError (List PeerEvent))
  | ⟨.poll _, r⟩ => some r
  | _ => none

def pollResults (tr : List (Ev (conn In Out))) : List (Except TransportError (List PeerEvent)) :=
  tr.filterMap pollResult

def polledBytes : Except TransportError (List PeerEvent) → List Bytes
  | .ok events => payloads events
  | .error _ => []

def polled (tr : List (Ev (conn In Out))) : List Bytes := (pollResults tr).flatMap polledBytes

theorem polled_append (tr tr' : List (Ev (conn In Out))) :
    polled (tr ++ tr') = polled tr ++ polled tr' := by
  simp [polled, pollResults]

theorem waitOpen_keeps {deadline : Instant} {fuel : Nat} {ch ch' : Channel}
    {tr : List (Ev (conn In Out))} {r : Except TransportError Opened}
    (h : Exec (waitOpen deadline fuel ch) tr (r, ch')) :
    ch'.pending = ch.pending ++ polled tr := by
  induction fuel generalizing ch tr with
  | zero => exact absurd h exec_halt
  | succ fuel ih =>
      rw [waitOpen] at h
      split at h
      · obtain ⟨rfl, hret⟩ := exec_ret.mp h
        obtain ⟨-, rfl⟩ := Prod.mk.inj hret
        simp [polled, pollResults]
      obtain ⟨now, tr₁, rfl, hwait⟩ := exec_call_bind.mp h
      split at hwait
      · obtain ⟨rfl, hret⟩ := exec_ret.mp hwait
        obtain ⟨-, rfl⟩ := Prod.mk.inj hret
        exact (List.append_nil _).symm
      obtain ⟨polls, tr₂, rfl, hpolled⟩ := exec_call_bind.mp hwait
      cases polls with
      | error e =>
          obtain ⟨rfl, hret⟩ := exec_ret.mp hpolled
          obtain ⟨-, rfl⟩ := Prod.mk.inj hret
          exact (List.append_nil _).symm
      | ok events =>
          have hpolls : polled (⟨.now, now⟩ :: ⟨.poll (deadline - now), .ok events⟩ :: tr₂) =
              payloads events ++ polled tr₂ := rfl
          rw [hpolls, ← List.append_assoc, ← absorb_pending]
          dsimp only at hpolled
          split at hpolled
          · obtain ⟨rfl, hret⟩ := exec_ret.mp hpolled
            obtain ⟨-, rfl⟩ := Prod.mk.inj hret
            exact (List.append_nil _).symm
          · exact ih hpolled

theorem next_pops {deadline : Instant} {fuel : Nat} {ch ch' : Channel}
    {tr : List (Ev (conn In Out))} {r : Except TransportError Next}
    (h : Exec (next deadline fuel ch) tr (r, ch')) :
    (∃ data, ch.pending ++ polled tr = data :: ch'.pending ∧ r = .ok (decodes data)) ∨
      ch.pending ++ polled tr = ch'.pending ∧ ∀ n, r = .ok n → n.decoded = false := by
  induction fuel generalizing ch tr with
  | zero => exact absurd h exec_halt
  | succ fuel ih =>
      rw [next] at h
      split at h
      · rename_i data rest hpending
        have hdecodes : tr = [] ∧ (.ok (decodes data), { ch with pending := rest }) = (r, ch') := by
          rw [decodes]
          dsimp only at h
          cases hmsg : Control.decode data
          all_goals
            rw [hmsg] at h
            exact exec_ret.mp h
        obtain ⟨rfl, hret⟩ := hdecodes
        obtain ⟨rfl, rfl⟩ := Prod.mk.inj hret
        exact .inl ⟨data, by simp [hpending, polled, pollResults], rfl⟩
      rename_i hpending
      split at h
      · obtain ⟨rfl, hret⟩ := exec_ret.mp h
        obtain ⟨rfl, rfl⟩ := Prod.mk.inj hret
        exact .inr ⟨List.append_nil _, fun n hn => by cases hn; rfl⟩
      obtain ⟨now, tr₁, rfl, hwait⟩ := exec_call_bind.mp h
      split at hwait
      · obtain ⟨rfl, hret⟩ := exec_ret.mp hwait
        obtain ⟨rfl, rfl⟩ := Prod.mk.inj hret
        exact .inr ⟨List.append_nil _, fun n hn => by cases hn; rfl⟩
      obtain ⟨polls, tr₂, rfl, hpolled⟩ := exec_call_bind.mp hwait
      cases polls with
      | error e =>
          obtain ⟨rfl, hret⟩ := exec_ret.mp hpolled
          obtain ⟨rfl, rfl⟩ := Prod.mk.inj hret
          exact .inr ⟨List.append_nil _, fun n hn => by cases hn⟩
      | ok events =>
          have hpolls : polled (⟨.now, now⟩ :: ⟨.poll (deadline - now), .ok events⟩ :: tr₂) =
              payloads events ++ polled tr₂ := rfl
          rw [hpolls, ← List.append_assoc, ← absorb_pending]
          exact ih hpolled

theorem next_msg_pops {deadline : Instant} {fuel : Nat} {ch ch' : Channel}
    {tr : List (Ev (conn In Out))} {msg : Control}
    (h : Exec (next deadline fuel ch) tr (.ok (.msg msg), ch')) :
    ∃ data, ch.pending ++ polled tr = data :: ch'.pending ∧ Control.decode data = .ok msg := by
  obtain ⟨data, hdata, hmsg⟩ | ⟨-, hmsg⟩ := next_pops h
  · refine ⟨data, hdata, ?_⟩
    rw [decodes] at hmsg
    split at hmsg
    · rename_i msg' hdecode
      cases hmsg
      exact hdecode
    · cases hmsg
  · exact absurd (hmsg _ rfl) (by simp [Next.decoded])

theorem perform_decodes {uses : List Use} {ch ch' : Channel} {tr : List (Ev (conn In Out))}
    {ns : List Next} (h : Exec (perform uses ch) tr (ns, ch')) :
    ∃ popped, ch.pending ++ polled tr = popped ++ ch'.pending ∧
      ns.filter Next.decoded = popped.map decodes := by
  induction uses generalizing ch tr ns with
  | nil =>
      obtain ⟨rfl, hret⟩ := exec_ret.mp h
      obtain ⟨rfl, rfl⟩ := Prod.mk.inj hret
      exact ⟨[], List.append_nil _, rfl⟩
  | cons use uses ih =>
      cases use with
      | waitOpen deadline fuel =>
          obtain ⟨tr₁, ⟨r, ch₁⟩, tr₂, rfl, hopen, hrest⟩ := exec_bind.mp h
          have hkeeps := waitOpen_keeps hopen
          rw [polled_append, ← List.append_assoc, ← hkeeps]
          cases r with
          | error e =>
              obtain ⟨rfl, hret⟩ := exec_ret.mp hrest
              obtain ⟨rfl, rfl⟩ := Prod.mk.inj hret
              exact ⟨[], List.append_nil _, rfl⟩
          | ok opened => exact ih hrest
      | next deadline fuel =>
          obtain ⟨tr₁, ⟨r, ch₁⟩, tr₂, rfl, hnext, hrest⟩ := exec_bind.mp h
          have hpops := next_pops hnext
          rw [polled_append, ← List.append_assoc]
          cases r with
          | error e =>
              obtain ⟨rfl, hret⟩ := exec_ret.mp hrest
              obtain ⟨rfl, rfl⟩ := Prod.mk.inj hret
              obtain ⟨data, -, he⟩ | ⟨hsame, -⟩ := hpops
              · cases he
              · exact ⟨[], (List.append_nil _).trans hsame, rfl⟩
          | ok n =>
              obtain ⟨tr₃, ⟨ns₁, ch₂⟩, tr₄, rfl, hperform, hret⟩ := exec_bind.mp hrest
              obtain ⟨rfl, hout⟩ := exec_ret.mp hret
              obtain ⟨rfl, rfl⟩ := Prod.mk.inj hout
              obtain ⟨popped, hpopped, hdecoded⟩ := ih hperform
              rw [List.append_nil]
              obtain ⟨data, hdata, hn⟩ | ⟨hsame, hn⟩ := hpops
              · obtain rfl := Except.ok.inj hn
                refine ⟨data :: popped, ?_, ?_⟩
                · rw [hdata, List.cons_append, hpopped, List.cons_append]
                · have hmsg : (decodes data).decoded = true := by
                    rw [decodes]
                    split <;> rfl
                  rw [List.filter_cons_of_pos hmsg, hdecoded, List.map_cons]
              · refine ⟨popped, by rw [hsame, hpopped], ?_⟩
                rw [List.filter_cons_of_neg (by simp [hn n rfl]), hdecoded]
      | send msg =>
          obtain ⟨r, tr₁, rfl, hrest⟩ := exec_call_bind.mp h
          have hsame : polled (⟨.peerSend (Control.encode msg), r⟩ :: tr₁) = polled tr₁ := rfl
          rw [hsame]
          cases r with
          | error e =>
              obtain ⟨rfl, hret⟩ := exec_ret.mp hrest
              obtain ⟨rfl, rfl⟩ := Prod.mk.inj hret
              exact ⟨[], List.append_nil _, rfl⟩
          | ok u => exact ih hrest

end Channel

theorem control_payloads {accepts : Bytes → Bool} {peer peer' : Peer} {run : List Polled}
    (h : PeerRun accepts peer run peer') :
    (handedOut run = controlReceived peer.control run ↔
      Along Polled.leaves Polled.onControl peer.control run) ∧
    ∀ (In Out : Type) uses (tr : List (Ev (conn In Out))) ns ch,
      Exec (Channel.perform uses .new) tr (ns, ch) →
      Channel.pollResults tr = run.map Polled.result →
      ns.filter Next.decoded =
        ((handedOut run).take (ns.filter Next.decoded).length).map decodes := by
  refine ⟨handedOut_eq h, fun In Out uses tr ns ch hperform hresults => ?_⟩
  obtain ⟨popped, hpopped, hdecoded⟩ := Channel.perform_decodes hperform
  have hhanded : handedOut run = popped ++ ch.pending := by
    have hpolled : Channel.polled tr = handedOut run := by
      rw [Channel.polled, hresults, handedOut, List.flatMap_map]
      rfl
    rw [← hpolled]
    exact hpopped
  rw [hdecoded, hhanded, List.length_map, List.take_left]

def sampleSocket : SocketAddr := ⟨.v4 (filled 4 10), 5000⟩

def samplePeer : Peer := ⟨[sampleSocket], none, by simp⟩

-- one poll that reads the events `es` and nothing else
def samplePolled (es : List RtcEvent) : Polled where
  trace := ⟨.now, (0 : Nat)⟩ :: es.map (fun e => (⟨.pollOutput, .ok (.event e)⟩ : Ev PeerSig)) ++
    [⟨.pollOutput, .ok (.timeout 0)⟩]
  result := .ok (samplePeer.mapEvents es).1

def controlEvents : List RtcEvent :=
  [.channelOpen 1 CONTROL_LABEL, .channelOpen 2 "files".toList,
    .channelData 1 (Control.encode (.ping 7))]

def strayEvents : List RtcEvent :=
  [.channelOpen 1 CONTROL_LABEL, .channelOpen 2 "files".toList,
    .channelData 2 (Control.encode (.decision .accepted))]

def sampleNext (es : List RtcEvent) : List (Ev (conn Unit Unit)) :=
  [⟨.now, (0 : Nat)⟩, ⟨.poll 9, .ok (samplePeer.mapEvents es).1⟩]

theorem sample_control_payloads : handedOut [samplePolled controlEvents] =
    controlReceived none [samplePolled controlEvents] := by
  have hpoll : Exec (samplePeer.poll (fun _ => true) 6 9) (samplePolled controlEvents).trace
      ((samplePolled controlEvents).result, (samplePeer.mapEvents controlEvents).2) :=
    exec_of_replay rfl
  refine (control_payloads (.cons hpoll (.nil _))).1.mpr ⟨?_, trivial⟩
  exact ⟨trivial, trivial, rfl, trivial⟩

theorem stray_channel_decoded : ∃ peer' ch,
    PeerRun (fun _ => true) samplePeer [samplePolled strayEvents] peer' ∧
      handedOut [samplePolled strayEvents] ≠ controlReceived none [samplePolled strayEvents] ∧
      Exec (Channel.perform [.next 9 2] .new) (sampleNext strayEvents)
        ([.msg (.decision .accepted)], ch) := by
  have hpoll : Exec (samplePeer.poll (fun _ => true) 6 9) (samplePolled strayEvents).trace
      ((samplePolled strayEvents).result, (samplePeer.mapEvents strayEvents).2) :=
    exec_of_replay rfl
  refine ⟨_, ⟨[], false, false⟩, .cons hpoll (.nil _), by decide, exec_of_replay rfl⟩

end SimpleRemote
