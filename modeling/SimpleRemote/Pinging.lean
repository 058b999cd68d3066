import Mathlib.Data.List.Infix
import Mathlib.Logic.Relation
import SimpleRemote.Host.Pong
import SimpleRemote.Viewer.Ping

namespace SimpleRemote
open ByteCodec Interaction HostSession ViewerSession

-- the two ends of a session that has just begun: all that either has sent is read
structure SessionPair where
  viewer : ViewerSession
  host : HostSession
  viewerRead : viewer.ch.pending = []
  hostRead : host.ch.pending = []

structure PingCall where
  before : ViewerSession
  trace : List (Ev ViewerSig)
  result : Except ConnectError Duration
  after : ViewerSession

structure OpenCall where
  fuel : Nat
  trace : List (Ev ViewerSig)
  prog : ViewerM PingResult

structure Pinging where
  calls : List PingCall
  session : ViewerSession
  current : Option OpenCall
  hostTrace : List (Ev HostSig)
  host : HostM (Except HostError Unit × HostSession)

def finished (calls : List PingCall) : List (Ev ViewerSig) := calls.flatMap PingCall.trace

namespace Pinging

def viewerTrace (s : Pinging) : List (Ev ViewerSig) :=
  finished s.calls ++ s.current.elim [] OpenCall.trace

def start (fuel : Nat) (forAtMost : Duration) (p : SessionPair) : Pinging where
  calls := []
  session := p.viewer
  current := none
  hostTrace := []
  host := p.host.servePings fuel forAtMost

-- a poll hands out some of what the other side has sent and this side has not been given yet,
-- in the order it was sent
inductive Step : Pinging → Pinging → Prop
  | call {s : Pinging} (fuel : Nat) (timeout : Duration) (hidle : s.current = none) :
      Step s { s with current := some ⟨fuel, [], s.session.ping fuel timeout⟩ }
  | viewer {s : Pinging} {c : OpenCall} {o : Op ViewerToServer}
      {k : ViewerSig.Res o → ViewerM PingResult} {r : ViewerSig.Res o}
      (hcurrent : s.current = some c) (hprog : c.prog = .act o k)
      (hline : Channel.polled (s.viewerTrace ++ [⟨o, r⟩]) <+: Channel.delivered s.hostTrace) :
      Step s { s with current := some ⟨c.fuel, c.trace ++ [⟨o, r⟩], k r⟩ }
  | returned {s : Pinging} {c : OpenCall} {result : Except ConnectError Duration}
      {session : ViewerSession} (hcurrent : s.current = some c)
      (hprog : c.prog = .ret (result, session)) :
      Step s { s with
        calls := s.calls ++ [⟨s.session, c.trace, result, session⟩]
        session := session
        current := none }
  | host {s : Pinging} {o : Op HostToServer}
      {k : HostSig.Res o → HostM (Except HostError Unit × HostSession)} {r : HostSig.Res o}
      (hprog : s.host = .act o k)
      (hline : Channel.polled (s.hostTrace ++ [⟨o, r⟩]) <+: Channel.delivered s.viewerTrace) :
      Step s { s with host := k r, hostTrace := s.hostTrace ++ [⟨o, r⟩] }

inductive History (v : ViewerSession) : List PingCall → ViewerSession → Prop
  | nil : History v [] v
  | snoc {calls : List PingCall} {c : PingCall} (h : History v calls c.before) {fuel : Nat}
      {timeout : Duration} (hcall : Exec (c.before.ping fuel timeout) c.trace (c.result, c.after)) :
      History v (calls ++ [c]) c.after

structure Inv (fuel : Nat) (forAtMost : Duration) (p : SessionPair) (s : Pinging) : Prop where
  host : Path (p.host.servePings fuel forAtMost) s.hostTrace s.host
  history : History p.viewer s.calls s.session
  current : ∀ c, s.current = some c →
    ∃ timeout, Path (s.session.ping c.fuel timeout) c.trace c.prog
  toViewer : Channel.polled s.viewerTrace <+: Channel.delivered s.hostTrace
  toHost : Channel.polled s.hostTrace <+: Channel.delivered s.viewerTrace

variable {fuel : Nat} {forAtMost : Duration} {p : SessionPair} {s s' : Pinging}

theorem inv_start : Inv fuel forAtMost p (start fuel forAtMost p) where
  host := .nil _
  history := .nil
  current := by
    intro c hc
    cases hc
  toViewer := List.nil_prefix
  toHost := List.nil_prefix

theorem Inv.step (h : Inv fuel forAtMost p s) (hs : Step s s') : Inv fuel forAtMost p s' := by
  cases hs with
  | call fuel timeout hidle =>
      have hsame : s.viewerTrace = finished s.calls ++ [] := by rw [viewerTrace, hidle]; rfl
      have htoViewer := h.toViewer
      have htoHost := h.toHost
      rw [hsame] at htoViewer htoHost
      refine ⟨h.host, h.history, ?_, htoViewer, htoHost⟩
      intro c hc
      cases hc
      exact ⟨timeout, .nil _⟩
  | @viewer c o k r hcurrent hprog hline =>
      have hsame : s.viewerTrace = finished s.calls ++ c.trace := by rw [viewerTrace, hcurrent]; rfl
      obtain ⟨timeout, hpath⟩ := h.current c hcurrent
      rw [hprog] at hpath
      have hmore : Channel.delivered s.viewerTrace <+:
          Channel.delivered (s.viewerTrace ++ [⟨o, r⟩]) := by
        rw [Channel.delivered_append]
        exact List.prefix_append ..
      have htoHost := h.toHost.trans hmore
      rw [hsame, List.append_assoc] at hline htoHost
      refine ⟨h.host, h.history, ?_, hline, htoHost⟩
      intro c' hc
      cases hc
      exact ⟨timeout, hpath.trans (.cons r (.nil _))⟩
  | @returned c result session hcurrent hprog =>
      let call : PingCall := ⟨s.session, c.trace, result, session⟩
      have hsame : s.viewerTrace = finished (s.calls ++ [call]) ++ [] := by
        rw [viewerTrace, hcurrent]
        simp [finished, call]
      obtain ⟨timeout, hpath⟩ := h.current c hcurrent
      rw [hprog] at hpath
      have htoViewer := h.toViewer
      have htoHost := h.toHost
      rw [hsame] at htoViewer htoHost
      refine ⟨h.host, .snoc (c := call) h.history hpath, ?_, htoViewer, htoHost⟩
      intro c hc
      cases hc
  | @host o k r hprog hline =>
      have hpath := h.host
      rw [hprog] at hpath
      have hmore : Channel.delivered s.hostTrace <+:
          Channel.delivered (s.hostTrace ++ [⟨o, r⟩]) := by
        rw [Channel.delivered_append]
        exact List.prefix_append ..
      exact ⟨hpath.trans (.cons r (.nil _)), h.history, h.current, h.toViewer.trans hmore, hline⟩

theorem inv_reachable (h : Relation.ReflTransGen Step (start fuel forAtMost p) s) :
    Inv fuel forAtMost p s := by
  induction h with
  | refl => exact inv_start
  | tail _ hstep ih => exact ih.step hstep

structure Returned (c : PingCall) : Prop where
  nextSeq : c.after.nextSeq = c.before.nextSeq + 1
  fits : c.before.nextSeq.toNat + 1 < 2 ^ 64
  sent : Channel.delivered c.trace = [] ∨ Channel.delivered c.trace = [pingBytes c.before.nextSeq]
  popped : ∃ popped, c.before.ch.pending ++ Channel.polled c.trace = popped ++ c.after.ch.pending
  ok : ∀ d, c.result = .ok d → Channel.delivered c.trace = [pingBytes c.before.nextSeq] ∧
    ∃ skipped own,
      c.before.ch.pending ++ Channel.polled c.trace = skipped ++ own :: c.after.ch.pending ∧
      decodes own = .msg (.pong c.before.nextSeq)

theorem ping_returned {fuel : Nat} {timeout : Duration} {c : PingCall}
    (h : Exec (c.before.ping fuel timeout) c.trace (c.result, c.after)) : Returned c := by
  obtain ⟨before, trace, result, after⟩ := c
  dsimp only at h
  cases ping_called h with
  | starting hq => exact absurd rfl (hq _)
  | refused e hfits hpolled hdelivered =>
      refine ⟨rfl, hfits, .inl hdelivered, ⟨[], ?_⟩, fun d hd => by cases hd⟩
      rw [hpolled, List.append_nil]
      rfl
  | sent start hfits hdelivered hpoint =>
      generalize harrived : before.ch.pending ++ Channel.polled trace = arrived at hpoint
      cases hpoint with
      | waiting hs hq => exact absurd rfl (hq _)
      | @answered skipped own ch now hs hown =>
          exact ⟨rfl, hfits, .inr hdelivered, ⟨skipped ++ [own], by simpa using harrived⟩,
            fun d hd => ⟨hdelivered, skipped, own, harrived, hown⟩⟩
      | @failed skipped ch e hs hpending =>
          refine ⟨rfl, hfits, .inr hdelivered, ⟨arrived, ?_⟩, fun d hd => by cases hd⟩
          dsimp only
          rw [harrived, hpending, List.append_nil]
      | @malformed skipped bad ch e hs hbad =>
          exact ⟨rfl, hfits, .inr hdelivered, ⟨skipped ++ [bad], by simpa using harrived⟩,
            fun d hd => by cases hd⟩

theorem finished_snoc (calls : List PingCall) (c : PingCall) :
    finished (calls ++ [c]) = finished calls ++ c.trace := by
  simp [finished]

theorem History.split {v session : ViewerSession} {calls before after : List PingCall}
    {c : PingCall} (h : History v calls session) (hcalls : calls = before ++ c :: after) :
    History v before c.before ∧ Returned c := by
  induction h generalizing after with
  | nil => simp at hcalls
  | @snoc calls last h fuel timeout hcall ih =>
      rcases List.eq_nil_or_concat' after with rfl | ⟨after, last', rfl⟩
      · obtain ⟨rfl, hlast⟩ := List.append_inj' hcalls rfl
        cases hlast
        exact ⟨h, ping_returned hcall⟩
      · have hconcat : before ++ c :: (after ++ [last']) = (before ++ c :: after) ++ [last'] := by
          simp
        rw [hconcat] at hcalls
        exact ih (List.append_inj' hcalls rfl).1

theorem toNat_succ {n : UInt64} (h : n.toNat + 1 < 2 ^ 64) : (n + 1).toNat = n.toNat + 1 := by
  rw [UInt64.toNat_add]
  exact Nat.mod_eq_of_lt h

-- the numbers of the Pings that the peer took, each below the next one to be used
structure Pings (sent : List Bytes) (nextSeq : UInt64) (seqs : List UInt64) : Prop where
  sent : sent = seqs.map pingBytes
  below : ∀ seq ∈ seqs, seq.toNat < nextSeq.toNat
  nodup : seqs.Nodup

theorem Pings.more {sent : List Bytes} {nextSeq : UInt64} {seqs : List UInt64}
    (h : Pings sent nextSeq seqs) (hfits : nextSeq.toNat + 1 < 2 ^ 64) :
    Pings sent (nextSeq + 1) seqs ∧
      Pings (sent ++ [pingBytes nextSeq]) (nextSeq + 1) (seqs ++ [nextSeq]) := by
  have hnext := toNat_succ hfits
  have hbelow : ∀ seq ∈ seqs, seq.toNat < (nextSeq + 1).toNat := by
    intro seq hseq
    have := h.below seq hseq
    omega
  refine ⟨⟨h.sent, hbelow, h.nodup⟩, ⟨?_, ?_, ?_⟩⟩
  · rw [h.sent, List.map_append]
    rfl
  · rw [List.forall_mem_append]
    exact ⟨hbelow, by simp [hnext]⟩
  · rw [List.nodup_append]
    refine ⟨h.nodup, by simp, ?_⟩
    intro seq hseq next hmem heq
    have hlt := h.below seq hseq
    rw [heq, List.mem_singleton.mp hmem] at hlt
    exact absurd hlt (lt_irrefl _)

theorem History.pings {v session : ViewerSession} {calls : List PingCall}
    (h : History v calls session) :
    ∃ seqs, Pings (Channel.delivered (finished calls)) session.nextSeq seqs := by
  induction h with
  | nil => exact ⟨[], rfl, by simp, List.nodup_nil⟩
  | @snoc calls c h fuel timeout hcall ih =>
      obtain ⟨seqs, hseqs⟩ := ih
      have hreturned := ping_returned hcall
      obtain ⟨hsame, hmore⟩ := hseqs.more hreturned.fits
      rw [finished_snoc, Channel.delivered_append, hreturned.nextSeq]
      rcases hreturned.sent with hnone | hping
      · rw [hnone, List.append_nil]
        exact ⟨seqs, hsame⟩
      · rw [hping]
        exact ⟨_, hmore⟩

theorem History.popped {v session : ViewerSession} {calls : List PingCall}
    (h : History v calls session) :
    ∃ popped, v.ch.pending ++ Channel.polled (finished calls) = popped ++ session.ch.pending := by
  induction h with
  | nil => exact ⟨[], List.append_nil _⟩
  | @snoc calls c h fuel timeout hcall ih =>
      obtain ⟨popped, hpopped⟩ := ih
      obtain ⟨more, hmore⟩ := (ping_returned hcall).popped
      refine ⟨popped ++ more, ?_⟩
      rw [finished_snoc, Channel.polled_append, ← List.append_assoc, hpopped, List.append_assoc,
        hmore, List.append_assoc]

theorem decodes_ping (seq : UInt64) : decodes (pingBytes seq) = .msg (.ping seq) := by
  rw [decodes, pingBytes, (Control.decode_seq seq).1]

theorem decodes_pong (seq : UInt64) : decodes (pongBytes seq) = .msg (.pong seq) := by
  rw [decodes, pongBytes, (Control.decode_seq seq).2]

theorem pongsFor_pings (seqs : List UInt64) :
    pongsFor (seqs.map pingBytes) = seqs.map pongBytes := by
  induction seqs with
  | nil => rfl
  | cons seq seqs ih =>
      have hpong : pongFor (pingBytes seq) = some (pongBytes seq) := by
        rw [pongFor, decodes_ping]
        rfl
      rw [List.map_cons, List.map_cons, pongsFor, List.filterMap_cons, hpong]
      exact congrArg _ ih

theorem called_sends {fuel : Nat} {session : ViewerSession} {tr : List (Ev ViewerSig)}
    {q : ViewerM PingResult} (h : Called fuel session tr q) :
    Channel.delivered tr = [] ∨
      Channel.delivered tr = [pingBytes session.nextSeq] ∧ session.nextSeq.toNat + 1 < 2 ^ 64 := by
  cases h with
  | starting hq hpolled hdelivered => exact .inl hdelivered
  | refused e hfits hpolled hdelivered => exact .inl hdelivered
  | sent start hfits hdelivered hpoint hspent => exact .inr ⟨hdelivered, hfits⟩

theorem Inv.pings (h : Inv fuel forAtMost p s) :
    ∃ seqs : List UInt64, Channel.delivered s.viewerTrace = seqs.map pingBytes ∧ seqs.Nodup := by
  obtain ⟨seqs, hseqs⟩ := h.history.pings
  cases hcurrent : s.current with
  | none =>
      rw [viewerTrace, hcurrent, Option.elim_none, List.append_nil]
      exact ⟨seqs, hseqs.sent, hseqs.nodup⟩
  | some c =>
      obtain ⟨timeout, hpath⟩ := h.current c hcurrent
      rw [viewerTrace, hcurrent, Option.elim_some, Channel.delivered_append]
      rcases called_sends (ping_called hpath) with hnone | ⟨hping, hfits⟩
      · rw [hnone, List.append_nil]
        exact ⟨seqs, hseqs.sent, hseqs.nodup⟩
      · have hmore := (hseqs.more hfits).2
        rw [hping]
        exact ⟨_, hmore.sent, hmore.nodup⟩

theorem Inv.answers (h : Inv fuel forAtMost p s) :
    s.hostTrace = [] ∨ Answers (Channel.polled s.hostTrace) s.hostTrace s.host := by
  have hanswers := servePings_answers h.host
  rwa [p.hostRead, List.nil_append] at hanswers

theorem Inv.inOrder (h : Inv fuel forAtMost p s) :
    Channel.delivered s.hostTrace <+: pongsFor (Channel.delivered s.viewerTrace) := by
  rcases h.answers with hnil | ⟨⟨read, rest, unsent, harrived, hpongs, -⟩, hprefix⟩
  · rw [hnil]
    exact List.nil_prefix
  · have hoffered : Channel.offered s.hostTrace <+: pongsFor read := hpongs ▸ List.prefix_append ..
    have hread : read <+: Channel.polled s.hostTrace := harrived ▸ List.prefix_append ..
    exact (List.IsPrefix.trans hprefix hoffered).trans ((hread.trans h.toHost).filterMap pongFor)

theorem Inv.toViewerPongs (h : Inv fuel forAtMost p s) {seqs : List UInt64}
    (hseqs : Channel.delivered s.viewerTrace = seqs.map pingBytes) :
    Channel.polled s.viewerTrace <+: seqs.map pongBytes := by
  have hpongs := h.toViewer.trans h.inOrder
  rwa [hseqs, pongsFor_pings] at hpongs

theorem at_prefix {l r x : List Bytes} {a : Bytes} (h : l ++ a :: r <+: x) :
    x[l.length]? = some a := by
  obtain ⟨t, rfl⟩ := h
  simp

theorem seq_at {seqs : List UInt64} {f : UInt64 → Bytes} {l r : List Bytes} {a : Bytes}
    (h : l ++ a :: r <+: seqs.map f) : ∃ seq, seqs[l.length]? = some seq ∧ f seq = a := by
  have hat := at_prefix h
  rw [List.getElem?_map] at hat
  exact Option.map_eq_some_iff.mp hat

theorem Inv.own (h : Inv fuel forAtMost p s) {before after : List PingCall} {c : PingCall}
    (hcalls : s.calls = before ++ c :: after) {d : Duration} (hok : c.result = .ok d) :
    Channel.delivered c.trace = [pingBytes c.before.nextSeq] ∧
      ∃ popped, Channel.polled (finished (before ++ [c])) =
          popped ++ pongBytes c.before.nextSeq :: c.after.ch.pending ∧
        popped.length = (Channel.delivered (finished before)).length ∧
        (Channel.delivered s.hostTrace)[popped.length]? = some (pongBytes c.before.nextSeq) := by
  obtain ⟨hbefore, hreturned⟩ := h.history.split hcalls
  obtain ⟨hsent, skipped, own, harrived, hown⟩ := hreturned.ok d hok
  obtain ⟨popped, hpopped⟩ := hbefore.popped
  rw [p.viewerRead, List.nil_append] at hpopped
  obtain ⟨seqs, hseqs, hnodup⟩ := h.pings
  obtain ⟨later, htrace⟩ : ∃ later, s.viewerTrace = finished before ++ c.trace ++ later := by
    rw [viewerTrace, hcalls]
    exact ⟨finished after ++ s.current.elim [] OpenCall.trace, by simp [finished]⟩
  have hpolled : Channel.polled (finished before ++ c.trace) =
      (popped ++ skipped) ++ own :: c.after.ch.pending := by
    rw [Channel.polled_append, hpopped, List.append_assoc, harrived, List.append_assoc]
  have hgiven : (popped ++ skipped) ++ own :: c.after.ch.pending <+:
      Channel.polled s.viewerTrace := by
    rw [htrace, ← hpolled, Channel.polled_append _ later]
    exact List.prefix_append ..
  have htaken : Channel.delivered (finished before) ++
      pingBytes c.before.nextSeq :: Channel.delivered later <+: seqs.map pingBytes := by
    rw [← hseqs, htrace, Channel.delivered_append, Channel.delivered_append, hsent,
      List.append_assoc]
    exact List.prefix_rfl
  obtain ⟨seq, hseq, rfl⟩ := seq_at (hgiven.trans (h.toViewerPongs hseqs))
  obtain ⟨mine, hmine, hping⟩ := seq_at htaken
  rw [decodes_pong] at hown
  obtain rfl : seq = c.before.nextSeq := Control.pong.inj (Next.msg.inj hown)
  have hmineSeq : mine = c.before.nextSeq := by
    have hdecodes := congrArg decodes hping
    rw [decodes_ping, decodes_ping] at hdecodes
    exact Control.ping.inj (Next.msg.inj hdecodes)
  rw [hmineSeq] at hmine
  have hlength : (popped ++ skipped).length = (Channel.delivered (finished before)).length := by
    have hbound := (List.getElem?_eq_some_iff.mp hseq).1
    exact (List.getElem?_inj hbound hnodup).mp (hseq.trans hmine.symm)
  rw [finished_snoc]
  exact ⟨hsent, popped ++ skipped, hpolled, hlength, at_prefix (hgiven.trans h.toViewer)⟩

theorem Inv.inTime (h : Inv fuel forAtMost p s) {c : OpenCall} (hcurrent : s.current = some c)
    (harrived : pongBytes s.session.nextSeq ∈ s.session.ch.pending ++ Channel.polled c.trace)
    (harrivals : (s.session.ch.pending ++ Channel.polled c.trace).length < c.fuel)
    (hevents : c.trace.length < c.fuel) :
    c.prog.Must (fun o : Op ViewerToServer => o = .now) fun r => ∃ d, r.1 = .ok d := by
  obtain ⟨timeout, hpath⟩ := h.current c hcurrent
  obtain ⟨popped, hpopped⟩ := h.history.popped
  rw [p.viewerRead, List.nil_append] at hpopped
  obtain ⟨earlier, hearlier⟩ := h.history.pings
  have hgiven {seqs : List UInt64} (hseqs : Channel.delivered s.viewerTrace = seqs.map pingBytes) :
      ∀ data ∈ s.session.ch.pending ++ Channel.polled c.trace, data ∈ seqs.map pongBytes := by
    intro data hdata
    refine (h.toViewerPongs hseqs).subset ?_
    rw [viewerTrace, hcurrent, Option.elim_some, Channel.polled_append, hpopped, List.append_assoc]
    exact List.mem_append_right _ hdata
  have hunsent (hnone : Channel.delivered c.trace = []) : False := by
    have hseqs : Channel.delivered s.viewerTrace = earlier.map pingBytes := by
      rw [viewerTrace, hcurrent, Option.elim_some, Channel.delivered_append, hnone, List.append_nil]
      exact hearlier.sent
    obtain ⟨seq, hseq, hpong⟩ := List.mem_map.mp (hgiven hseqs _ harrived)
    have hdecodes := congrArg decodes hpong
    rw [decodes_pong, decodes_pong] at hdecodes
    have hbelow := hearlier.below seq hseq
    rw [Control.pong.inj (Next.msg.inj hdecodes)] at hbelow
    exact lt_irrefl _ hbelow
  obtain ⟨seqs, hseqs, -⟩ := h.pings
  have hpongs := hgiven hseqs
  obtain ⟨budget, trace, prog⟩ := c
  dsimp only at *
  cases ping_called hpath with
  | starting hq hpolled hdelivered => exact (hunsent hdelivered).elim
  | refused e hfits hpolled hdelivered => exact (hunsent hdelivered).elim
  | sent start hfits hdelivered hpoint hspent =>
      generalize s.session.ch.pending ++ Channel.polled trace = arrived at *
      cases hpoint with
      | waiting hs hq => exact absurd (decodes_pong _) (hs _ harrived)
      | elapsing hs hown => exact ⟨rfl, fun now => ⟨_, rfl⟩⟩
      | answered now hs hown => exact ⟨_, rfl⟩
      | failed e hs hpending => exact absurd (decodes_pong _) (hs _ harrived)
      | @malformed skipped bad ch e hs hbad =>
          obtain ⟨seq, -, hpong⟩ := List.mem_map.mp (hpongs bad (by simp))
          rw [← hpong, decodes_pong] at hbad
          cases hbad
      | spent arrived =>
          rcases hspent rfl with hle | hle
          · omega
          · omega

structure Matched (s : Pinging) : Prop where
  answers : s.hostTrace = [] ∨ Answers (Channel.polled s.hostTrace) s.hostTrace s.host
  inOrder : Channel.delivered s.hostTrace <+: pongsFor (Channel.delivered s.viewerTrace)
  own : ∀ before c after d, s.calls = before ++ c :: after → c.result = .ok d →
    Channel.delivered c.trace = [pingBytes c.before.nextSeq] ∧
      ∃ popped, Channel.polled (finished (before ++ [c])) =
          popped ++ pongBytes c.before.nextSeq :: c.after.ch.pending ∧
        popped.length = (Channel.delivered (finished before)).length ∧
        (Channel.delivered s.hostTrace)[popped.length]? = some (pongBytes c.before.nextSeq)
  inTime : ∀ c, s.current = some c →
    pongBytes s.session.nextSeq ∈ s.session.ch.pending ++ Channel.polled c.trace →
    (s.session.ch.pending ++ Channel.polled c.trace).length < c.fuel → c.trace.length < c.fuel →
    c.prog.Must (fun o : Op ViewerToServer => o = .now) fun r => ∃ d, r.1 = .ok d

theorem pings_match (h : Relation.ReflTransGen Step (start fuel forAtMost p) s) : Matched s where
  answers := (inv_reachable h).answers
  inOrder := (inv_reachable h).inOrder
  own _ _ _ _ hcalls hok := (inv_reachable h).own hcalls hok
  inTime _ := (inv_reachable h).inTime

inductive Move where
  | call (fuel : Nat) (timeout : Duration)
  | viewer (e : Ev ViewerSig)
  | returned
  | host (e : Ev HostSig)

def move (s : Pinging) : Move → Option Pinging
  | .call fuel timeout =>
      if s.current.isNone then
        some { s with current := some ⟨fuel, [], s.session.ping fuel timeout⟩ }
      else none
  | .viewer e =>
      if Channel.polled (s.viewerTrace ++ [e]) <+: Channel.delivered s.hostTrace then
        match s.current with
        | some c => (c.prog.take e).map fun prog =>
            { s with current := some ⟨c.fuel, c.trace ++ [e], prog⟩ }
        | none => none
      else none
  | .returned =>
      match s.current with
      | some ⟨_, trace, .ret (result, session)⟩ => some { s with
          calls := s.calls ++ [⟨s.session, trace, result, session⟩]
          session := session
          current := none }
      | _ => none
  | .host e =>
      if Channel.polled (s.hostTrace ++ [e]) <+: Channel.delivered s.viewerTrace then
        (s.host.take e).map fun host => { s with host, hostTrace := s.hostTrace ++ [e] }
      else none

theorem step_of_move {m : Move} (h : s.move m = some s') : Step s s' := by
  cases m with
  | call fuel timeout =>
      rw [move] at h
      split at h
      · rename_i hidle
        obtain rfl := Option.some.inj h
        exact .call fuel timeout (Option.isNone_iff_eq_none.mp hidle)
      · cases h
  | viewer e =>
      rw [move] at h
      split at h
      · rename_i hline
        cases hcurrent : s.current with
        | none =>
            rw [hcurrent] at h
            cases h
        | some c =>
            rw [hcurrent] at h
            obtain ⟨prog, htake, rfl⟩ := Option.map_eq_some_iff.mp h
            obtain ⟨o, k, r, hprog, rfl, rfl⟩ := take_act htake
            exact .viewer hcurrent hprog hline
      · cases h
  | returned =>
      rw [move] at h
      split at h
      · rename_i budget trace result session hcurrent
        obtain rfl := Option.some.inj h
        exact .returned hcurrent rfl
      · cases h
  | host e =>
      rw [move] at h
      split at h
      · rename_i hline
        obtain ⟨host, htake, rfl⟩ := Option.map_eq_some_iff.mp h
        obtain ⟨o, k, r, hprog, rfl, rfl⟩ := take_act htake
        exact .host hprog hline
      · cases h

theorem steps_of_moves {ms : List Move} (h : ms.foldlM move s = some s') :
    Relation.ReflTransGen Step s s' := by
  induction ms generalizing s with
  | nil =>
      obtain rfl := Option.some.inj h
      exact .refl
  | cons m ms ih =>
      rw [List.foldlM_cons] at h
      obtain ⟨s₁, hmove, hrest⟩ := Option.bind_eq_some_iff.mp h
      exact .head (step_of_move hmove) (ih hrest)

def samplePair : SessionPair where
  viewer := ⟨⟨filled 32 1, ['h'], filled 32 2⟩, .new, 0⟩
  host := ⟨⟨filled 32 3, ['v'], filled 32 4⟩, .new⟩
  viewerRead := rfl
  hostRead := rfl

-- the first call times out, and its Pong comes during the second
def sampleMoves : List Move :=
  [.call 5 10, .viewer ⟨.now, (0 : Nat)⟩, .viewer ⟨.peerSend (pingBytes 0), .ok ()⟩,
    .viewer ⟨.now, (1 : Nat)⟩, .viewer ⟨.poll 9, .ok []⟩, .viewer ⟨.now, (10 : Nat)⟩, .returned,
    .host ⟨.now, (2 : Nat)⟩, .host ⟨.now, (2 : Nat)⟩,
    .host ⟨.poll 1000, .ok [.data (pingBytes 0)]⟩, .host ⟨.peerSend (pongBytes 0), .ok ()⟩,
    .call 5 10, .viewer ⟨.now, (11 : Nat)⟩, .viewer ⟨.peerSend (pingBytes 1), .ok ()⟩,
    .viewer ⟨.now, (12 : Nat)⟩, .viewer ⟨.poll 9, .ok [.data (pongBytes 0)]⟩,
    .host ⟨.now, (13 : Nat)⟩, .host ⟨.poll 989, .ok [.data (pingBytes 1)]⟩,
    .host ⟨.peerSend (pongBytes 1), .ok ()⟩,
    .viewer ⟨.now, (14 : Nat)⟩, .viewer ⟨.poll 7, .ok [.data (pongBytes 1)]⟩,
    .viewer ⟨.now, (15 : Nat)⟩, .returned]

def samplePlayed : Option Pinging := sampleMoves.foldlM move (start 9 1000 samplePair)

theorem sample_pings_match :
    ∃ s, Matched s ∧ s.calls.map PingCall.result = [.error (.timeout .ping), .ok 4] := by
  have hplayed : samplePlayed.map (fun s => s.calls.map PingCall.result) =
      some [.error (.timeout .ping), .ok 4] := by decide
  obtain ⟨s, hs, hresults⟩ := Option.map_eq_some_iff.mp hplayed
  exact ⟨s, pings_match (steps_of_moves hs), hresults⟩

end Pinging

end SimpleRemote
