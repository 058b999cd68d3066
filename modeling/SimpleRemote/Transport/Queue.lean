import Mathlib.Data.List.Induction
import SimpleRemote.Transport.Control

namespace SimpleRemote
open ByteCodec Interaction

namespace Channel
variable {In Out : Type} {deadline : Instant} {fuel : Nat} {ch ch' : Channel}
  {tr : List (Ev (conn In Out))}

def batch : Except TransportError (List PeerEvent) → List PeerEvent
  | .ok events => events
  | .error _ => []

def polledEvents (tr : List (Ev (conn In Out))) : List PeerEvent := (pollResults tr).flatMap batch

theorem polledEvents_append (tr tr' : List (Ev (conn In Out))) :
    polledEvents (tr ++ tr') = polledEvents tr ++ polledEvents tr' := by
  simp [polledEvents, pollResults]

abbrev ClosedBy (ch : Channel) (tr : List (Ev (conn In Out))) (ch' : Channel) : Prop :=
  ch'.remoteClosed = (ch.remoteClosed || (polledEvents tr).contains .closed)

theorem closedBy_quiet (pending : List Bytes) (h : polledEvents tr = []) :
    ClosedBy ch tr { ch with pending := pending } := by
  rw [ClosedBy, h]
  exact (Bool.or_false _).symm

theorem ClosedBy.polled {events : List PeerEvent} {now wait : Nat}
    (h : ClosedBy (ch.absorb events).2 tr ch') :
    ClosedBy ch (⟨.now, now⟩ :: ⟨.poll wait, .ok events⟩ :: tr) ch' := by
  have hevents : polledEvents (⟨.now, now⟩ :: ⟨.poll wait, .ok events⟩ :: tr) =
      events ++ polledEvents tr := rfl
  rw [ClosedBy, hevents, List.contains_append, ← Bool.or_assoc, ← absorb_remoteClosed]
  exact h

theorem next_closedBy {r : Except TransportError Next}
    (h : Exec (next deadline fuel ch) tr (r, ch')) : ClosedBy ch tr ch' := by
  induction fuel generalizing ch tr with
  | zero => exact absurd h exec_halt
  | succ fuel ih =>
      rw [next] at h
      split at h
      · rename_i data rest hpending
        have hpopped : tr = [] ∧ { ch with pending := rest } = ch' := by
          dsimp only at h
          cases hmsg : Control.decode data
          all_goals
            rw [hmsg] at h
            obtain ⟨rfl, hret⟩ := exec_ret.mp h
            exact ⟨rfl, (Prod.mk.inj hret).2⟩
        obtain ⟨rfl, rfl⟩ := hpopped
        exact closedBy_quiet rest rfl
      split at h
      · obtain ⟨rfl, hret⟩ := exec_ret.mp h
        obtain ⟨-, rfl⟩ := Prod.mk.inj hret
        exact closedBy_quiet ch.pending rfl
      obtain ⟨now, tr₁, rfl, hwait⟩ := exec_call_bind.mp h
      split at hwait
      · obtain ⟨rfl, hret⟩ := exec_ret.mp hwait
        obtain ⟨-, rfl⟩ := Prod.mk.inj hret
        exact closedBy_quiet ch.pending rfl
      obtain ⟨polls, tr₂, rfl, hpolled⟩ := exec_call_bind.mp hwait
      cases polls with
      | error e =>
          obtain ⟨rfl, hret⟩ := exec_ret.mp hpolled
          obtain ⟨-, rfl⟩ := Prod.mk.inj hret
          exact closedBy_quiet ch.pending rfl
      | ok events => exact (ih hpolled).polled

-- a call of `next` that hands out no message leaves none behind
theorem next_empties {r : Except TransportError Next} (h : Exec (next deadline fuel ch) tr (r, ch'))
    (hr : ∀ n, r = .ok n → n.decoded = false) :
    ch'.pending = [] ∧ (r = .ok .closed → ch'.remoteClosed = true) := by
  induction fuel generalizing ch tr with
  | zero => exact absurd h exec_halt
  | succ fuel ih =>
      rw [next] at h
      split at h
      · rename_i data rest hpending
        dsimp only at h
        cases hmsg : Control.decode data
        all_goals
          rw [hmsg] at h
          obtain ⟨rfl, hret⟩ := exec_ret.mp h
          obtain ⟨rfl, -⟩ := Prod.mk.inj hret
          cases hr _ rfl
      rename_i hpending
      split at h
      · rename_i hclosed
        obtain ⟨rfl, hret⟩ := exec_ret.mp h
        obtain ⟨-, rfl⟩ := Prod.mk.inj hret
        exact ⟨hpending, fun _ => hclosed⟩
      obtain ⟨now, tr₁, rfl, hwait⟩ := exec_call_bind.mp h
      split at hwait
      · obtain ⟨rfl, hret⟩ := exec_ret.mp hwait
        obtain ⟨rfl, rfl⟩ := Prod.mk.inj hret
        exact ⟨hpending, fun hclosed => by cases hclosed⟩
      obtain ⟨polls, tr₂, rfl, hpolled⟩ := exec_call_bind.mp hwait
      cases polls with
      | error e =>
          obtain ⟨rfl, hret⟩ := exec_ret.mp hpolled
          obtain ⟨rfl, rfl⟩ := Prod.mk.inj hret
          exact ⟨hpending, fun hclosed => by cases hclosed⟩
      | ok events => exact ih hpolled

-- a call of `next` that has not returned has found nothing
theorem next_waits {p : Conn In Out (Except TransportError Next × Channel)}
    (h : Path (next deadline fuel ch) tr p) (hp : ∀ a, p ≠ .ret a) :
    (p ≠ .halt → ch.pending ++ polled tr = []) ∧ (p = .halt → fuel ≤ tr.length) := by
  induction fuel generalizing ch tr with
  | zero =>
      obtain ⟨rfl, rfl⟩ := path_halt h
      exact ⟨fun hne => absurd rfl hne, fun _ => le_rfl⟩
  | succ fuel ih =>
      rw [next] at h
      split at h
      · rename_i data rest hpending
        dsimp only at h
        cases hmsg : Control.decode data
        all_goals
          rw [hmsg] at h
          obtain ⟨-, rfl⟩ := path_ret h
          exact absurd rfl (hp _)
      rename_i hpending
      split at h
      · obtain ⟨-, rfl⟩ := path_ret h
        exact absurd rfl (hp _)
      rcases path_call h with ⟨rfl, rfl⟩ | ⟨now, tr₁, rfl, hwait⟩
      · exact ⟨fun _ => (List.append_nil _).trans hpending, fun hhalt => by cases hhalt⟩
      split at hwait
      · obtain ⟨-, rfl⟩ := path_ret hwait
        exact absurd rfl (hp _)
      rcases path_call hwait with ⟨rfl, rfl⟩ | ⟨polls, tr₂, rfl, hpolled⟩
      · exact ⟨fun _ => (List.append_nil _).trans hpending, fun hhalt => by cases hhalt⟩
      cases polls with
      | error e =>
          obtain ⟨-, rfl⟩ := path_ret hpolled
          exact absurd rfl (hp _)
      | ok events =>
          have hpolls : polled (⟨.now, now⟩ :: ⟨.poll (deadline - now), .ok events⟩ :: tr₂) =
              payloads events ++ polled tr₂ := rfl
          obtain ⟨hfound, hspent⟩ := ih hpolled
          rw [hpolls, ← List.append_assoc, ← absorb_pending]
          refine ⟨hfound, fun hhalt => ?_⟩
          have hlength := hspent hhalt
          simp only [List.length_cons]
          omega

theorem waitOpen_closedBy {r : Except TransportError Opened}
    (h : Exec (waitOpen deadline fuel ch) tr (r, ch')) : ClosedBy ch tr ch' := by
  induction fuel generalizing ch tr with
  | zero => exact absurd h exec_halt
  | succ fuel ih =>
      rw [waitOpen] at h
      split at h
      · obtain ⟨rfl, hret⟩ := exec_ret.mp h
        obtain ⟨-, rfl⟩ := Prod.mk.inj hret
        exact closedBy_quiet ch.pending rfl
      obtain ⟨now, tr₁, rfl, hwait⟩ := exec_call_bind.mp h
      split at hwait
      · obtain ⟨rfl, hret⟩ := exec_ret.mp hwait
        obtain ⟨-, rfl⟩ := Prod.mk.inj hret
        exact closedBy_quiet ch.pending rfl
      obtain ⟨polls, tr₂, rfl, hpolled⟩ := exec_call_bind.mp hwait
      cases polls with
      | error e =>
          obtain ⟨rfl, hret⟩ := exec_ret.mp hpolled
          obtain ⟨-, rfl⟩ := Prod.mk.inj hret
          exact closedBy_quiet ch.pending rfl
      | ok events =>
          dsimp only at hpolled
          split at hpolled
          · obtain ⟨rfl, hret⟩ := exec_ret.mp hpolled
            obtain ⟨-, rfl⟩ := Prod.mk.inj hret
            exact ClosedBy.polled (closedBy_quiet _ rfl)
          · exact (ih hpolled).polled

theorem waitOpen_ready (h : Exec (waitOpen deadline fuel ch) tr (.ok .ready, ch')) :
    ∃ before wait events, tr = before ++ [⟨.poll wait, .ok events⟩] ∧
      PeerEvent.channelOpen ∈ events := by
  induction fuel generalizing ch tr with
  | zero => exact absurd h exec_halt
  | succ fuel ih =>
      rw [waitOpen] at h
      split at h
      · obtain ⟨-, hret⟩ := exec_ret.mp h
        cases (Prod.mk.inj hret).1
      obtain ⟨now, tr₁, rfl, hwait⟩ := exec_call_bind.mp h
      split at hwait
      · obtain ⟨-, hret⟩ := exec_ret.mp hwait
        cases (Prod.mk.inj hret).1
      obtain ⟨polls, tr₂, rfl, hpolled⟩ := exec_call_bind.mp hwait
      cases polls with
      | error e =>
          obtain ⟨-, hret⟩ := exec_ret.mp hpolled
          cases (Prod.mk.inj hret).1
      | ok events =>
          dsimp only at hpolled
          split at hpolled
          · rename_i hopened
            obtain ⟨rfl, -⟩ := exec_ret.mp hpolled
            exact ⟨[⟨.now, now⟩], _, events, rfl, List.contains_iff_mem.mp hopened⟩
          · obtain ⟨before, wait, last, rfl, hopen⟩ := ih hpolled
            exact ⟨_ :: _ :: before, wait, last, rfl, hopen⟩

def sending : Ev (conn In Out) → Option Bytes
  | ⟨.peerSend data, _⟩ => some data
  | _ => none

def sent : Ev (conn In Out) → Option Bytes
  | ⟨.peerSend data, .ok _⟩ => some data
  | _ => none

-- what the peer was asked to send, and what of it the peer took
def offered (tr : List (Ev (conn In Out))) : List Bytes := tr.filterMap sending

def delivered (tr : List (Ev (conn In Out))) : List Bytes := tr.filterMap sent

@[simp] theorem offered_append (tr tr' : List (Ev (conn In Out))) :
    offered (tr ++ tr') = offered tr ++ offered tr' := List.filterMap_append ..

@[simp] theorem delivered_append (tr tr' : List (Ev (conn In Out))) :
    delivered (tr ++ tr') = delivered tr ++ delivered tr' := List.filterMap_append ..

@[simp] theorem polled_nil : polled ([] : List (Ev (conn In Out))) = [] := rfl

theorem sending_of_waiting {e : Ev (conn In Out)} (h : e.op.waiting = true) : sending e = none := by
  obtain ⟨o, r⟩ := e
  cases o <;> first | rfl | cases h

theorem sent_of_waiting {e : Ev (conn In Out)} (h : e.op.waiting = true) : sent e = none := by
  obtain ⟨o, r⟩ := e
  cases o <;> first | rfl | cases h

theorem offered_waits {α : Type} {p q : Conn In Out α} (hp : Waits p) (h : Path p tr q) :
    offered tr = [] :=
  List.filterMap_eq_nil_iff.mpr fun e he => sending_of_waiting ((hp.path h).1 e he)

theorem delivered_waits {α : Type} {p q : Conn In Out α} (hp : Waits p) (h : Path p tr q) :
    delivered tr = [] :=
  List.filterMap_eq_nil_iff.mpr fun e he => sent_of_waiting ((hp.path h).1 e he)

end Channel

inductive CallResult where
  | opened (o : Opened)
  | got (n : Next)

structure ChannelCall (In Out : Type) where
  trace : List (Ev (conn In Out))
  result : CallResult

-- one channel through calls of `wait_open` and `next` that return without error, in any order
inductive ChannelRun {In Out : Type} : List (ChannelCall In Out) → Channel → Prop
  | new : ChannelRun [] .new
  | waitOpen {calls : List (ChannelCall In Out)} {ch ch' : Channel} (run : ChannelRun calls ch)
      {deadline : Instant} {fuel : Nat} {tr : List (Ev (conn In Out))} {o : Opened}
      (h : Exec (ch.waitOpen deadline fuel) tr (.ok o, ch')) :
      ChannelRun (calls ++ [⟨tr, .opened o⟩]) ch'
  | next {calls : List (ChannelCall In Out)} {ch ch' : Channel} (run : ChannelRun calls ch)
      {deadline : Instant} {fuel : Nat} {tr : List (Ev (conn In Out))} {n : Next}
      (h : Exec (ch.next deadline fuel) tr (.ok n, ch')) :
      ChannelRun (calls ++ [⟨tr, .got n⟩]) ch'

section
variable {In Out : Type} {calls : List (ChannelCall In Out)} {ch : Channel}

def tracesOf (calls : List (ChannelCall In Out)) : List (Ev (conn In Out)) :=
  calls.flatMap ChannelCall.trace

def CallResult.message : CallResult → Option Next
  | .opened _ => none
  | .got n => if n.decoded then some n else none

def messagesOf (calls : List (ChannelCall In Out)) : List Next :=
  calls.filterMap fun c => c.result.message

@[simp] theorem tracesOf_append (calls calls' : List (ChannelCall In Out)) :
    tracesOf (calls ++ calls') = tracesOf calls ++ tracesOf calls' := List.flatMap_append ..

@[simp] theorem messagesOf_append (calls calls' : List (ChannelCall In Out)) :
    messagesOf (calls ++ calls') = messagesOf calls ++ messagesOf calls' := List.filterMap_append ..

@[simp] theorem tracesOf_single (c : ChannelCall In Out) : tracesOf [c] = c.trace :=
  List.append_nil _

structure Fifo (calls : List (ChannelCall In Out)) (ch : Channel) : Prop where
  queue : ∃ popped, Channel.polled (tracesOf calls) = popped ++ ch.pending ∧
    messagesOf calls = popped.map decodes
  closed : ch.remoteClosed = (Channel.polledEvents (tracesOf calls)).contains .closed

theorem fifo_new : Fifo ([] : List (ChannelCall In Out)) .new := ⟨⟨[], rfl, rfl⟩, rfl⟩

theorem Fifo.closedBy {ch' : Channel} {c : ChannelCall In Out} (h : Fifo calls ch)
    (hclosed : Channel.ClosedBy ch c.trace ch') :
    ch'.remoteClosed = (Channel.polledEvents (tracesOf (calls ++ [c]))).contains .closed := by
  rw [tracesOf_append, tracesOf_single, Channel.polledEvents_append, List.contains_append,
    ← h.closed]
  exact hclosed

theorem decoded_decodes (data : Bytes) : (decodes data).decoded = true := by
  rw [decodes]
  split <;> rfl

theorem ChannelRun.fifo (run : ChannelRun calls ch) : Fifo calls ch := by
  induction run with
  | new => exact fifo_new
  | @waitOpen calls ch ch' run deadline fuel tr o h ih =>
      obtain ⟨popped, hpolled, hmessages⟩ := ih.queue
      refine ⟨⟨popped, ?_, ?_⟩, ih.closedBy (Channel.waitOpen_closedBy h)⟩
      · rw [tracesOf_append, tracesOf_single, Channel.polled_append, hpolled, List.append_assoc,
          ← Channel.waitOpen_keeps h]
      · rw [messagesOf_append, hmessages]
        exact List.append_nil _
  | @next calls ch ch' run deadline fuel tr n h ih =>
      obtain ⟨popped, hpolled, hmessages⟩ := ih.queue
      have hall : Channel.polled (tracesOf (calls ++ [⟨tr, .got n⟩])) =
          popped ++ (ch.pending ++ Channel.polled tr) := by
        rw [tracesOf_append, tracesOf_single, Channel.polled_append, hpolled, List.append_assoc]
      refine ⟨?_, ih.closedBy (Channel.next_closedBy h)⟩
      rw [messagesOf_append, hmessages, hall]
      rcases Channel.next_pops h with ⟨data, hpops, hn⟩ | ⟨hpops, hn⟩
      · obtain rfl := Except.ok.inj hn
        refine ⟨popped ++ [data], ?_, ?_⟩
        · rw [hpops, List.append_assoc]
          rfl
        · simp [messagesOf, CallResult.message, decoded_decodes]
      · refine ⟨popped, by rw [hpops], ?_⟩
        simp [messagesOf, CallResult.message, hn n rfl]

-- what the last call of a run may have returned
structure LastCall (calls : List (ChannelCall In Out)) (c : ChannelCall In Out) : Prop where
  empties : ∀ n, c.result = .got n → n.decoded = false →
    messagesOf calls = (Channel.polled (tracesOf (calls ++ [c]))).map decodes
  closed : c.result = .got .closed →
    PeerEvent.closed ∈ Channel.polledEvents (tracesOf (calls ++ [c]))
  ready : c.result = .opened .ready → ∃ before wait events,
    c.trace = before ++ [⟨.poll wait, .ok events⟩] ∧ PeerEvent.channelOpen ∈ events

theorem ChannelRun.last {c : ChannelCall In Out} (run : ChannelRun (calls ++ [c]) ch) :
    LastCall calls c := by
  obtain ⟨⟨popped, hpolled, hmessages⟩, hclosed⟩ := run.fifo
  generalize hcalls : calls ++ [c] = all at run
  cases run with
  | new => cases (List.append_eq_nil_iff.mp hcalls).2
  | @waitOpen _ _ _ _ _ _ tr o h =>
      obtain ⟨-, hc⟩ := List.append_inj' hcalls rfl
      obtain rfl := List.singleton_inj.mp hc
      constructor
      · intro n hn
        cases hn
      · intro hn
        cases hn
      · intro ho
        cases ho
        exact Channel.waitOpen_ready h
  | @next _ _ _ _ _ _ tr n h =>
      obtain ⟨-, hc⟩ := List.append_inj' hcalls rfl
      obtain rfl := List.singleton_inj.mp hc
      constructor
      · intro n' hn hnone
        cases hn
        have hempty := (Channel.next_empties h fun m hm => Except.ok.inj hm ▸ hnone).1
        rw [hpolled, hempty, List.append_nil, ← hmessages]
        simp [messagesOf, CallResult.message, hnone]
      · intro hn
        cases hn
        have hremote := (Channel.next_empties h fun m hm => Except.ok.inj hm ▸ rfl).2 rfl
        rw [hremote] at hclosed
        exact List.contains_iff_mem.mp hclosed.symm
      · intro ho
        cases ho

theorem ChannelRun.before {later : List (ChannelCall In Out)}
    (run : ChannelRun (calls ++ later) ch) : ∃ ch₁, ChannelRun calls ch₁ := by
  induction later using List.reverseRecOn generalizing ch with
  | nil => exact ⟨ch, by simpa using run⟩
  | append_singleton later c ih =>
      rw [← List.append_assoc] at run
      generalize hcalls : calls ++ later ++ [c] = all at run
      cases run with
      | new => cases (List.append_eq_nil_iff.mp hcalls).2
      | waitOpen run _ =>
          obtain ⟨rfl, -⟩ := List.append_inj' hcalls rfl
          exact ih run
      | next run _ =>
          obtain ⟨rfl, -⟩ := List.append_inj' hcalls rfl
          exact ih run

theorem control_queue_fifo (run : ChannelRun calls ch) :
    (∃ popped, Channel.polled (tracesOf calls) = popped ++ ch.pending ∧
      messagesOf calls = popped.map decodes) ∧
    ∀ before c after, calls = before ++ c :: after → LastCall before c := by
  refine ⟨run.fifo.queue, ?_⟩
  intro before c after hsplit
  have hrun : ChannelRun (before ++ [c] ++ after) ch := by
    rw [List.append_assoc]
    exact hsplit ▸ run
  obtain ⟨ch₁, hbefore⟩ := hrun.before
  exact hbefore.last

end

def sampleUse : List (ChannelCall Unit Unit) :=
  [⟨sampleNext controlEvents, .opened .ready⟩, ⟨[], .got (.msg (.ping 7))⟩,
    ⟨[⟨.now, (3 : Nat)⟩, ⟨.poll 6, .ok [.closed]⟩], .got .closed⟩]

theorem sample_use : ChannelRun sampleUse ⟨[], true, false⟩ := by
  have hopen : Exec (Channel.new.waitOpen 9 1) (sampleNext controlEvents)
      (.ok .ready, ⟨[Control.encode (.ping 7)], false, false⟩) := exec_of_replay rfl
  have hmsg : Exec (Channel.next 9 1 ⟨[Control.encode (.ping 7)], false, false⟩)
      ([] : List (Ev (conn Unit Unit))) (.ok (.msg (.ping 7)), .new) := exec_of_replay rfl
  have hclosed : Exec (Channel.next 9 2 .new)
      ([⟨.now, (3 : Nat)⟩, ⟨.poll 6, .ok [.closed]⟩] : List (Ev (conn Unit Unit)))
      (.ok .closed, ⟨[], true, false⟩) := exec_of_replay rfl
  exact ((ChannelRun.new.waitOpen hopen).next hmsg).next hclosed

theorem sample_control_queue_fifo :
    LastCall (sampleUse.take 2) (⟨[⟨.now, (3 : Nat)⟩, ⟨.poll 6, .ok [.closed]⟩], .got .closed⟩) :=
  (control_queue_fifo sample_use).2 _ _ [] rfl

end SimpleRemote
