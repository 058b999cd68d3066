import SimpleRemote.Viewer.Connect
import SimpleRemote.Transport.Queue

namespace SimpleRemote
open ByteCodec Interaction

namespace ViewerSession

abbrev PingResult := Except ConnectError Duration × ViewerSession

def pingLoop (fuel : Nat) (seq : UInt64) (start deadline : Instant) :
    Nat → ViewerSession → ViewerM PingResult
  | 0, _ => .halt
  | n + 1, s => do
      match ← Viewer.nextControl fuel s.ch deadline .ping with
      | (.ok (.pong got), ch) =>
          if got = seq then
            let now ← call .now
            return (.ok (now - start), { s with ch := ch })
          else pingLoop fuel seq start deadline n { s with ch := ch }
      | (.ok _, ch) => pingLoop fuel seq start deadline n { s with ch := ch }
      | (.error e, ch) => return (.error e, { s with ch := ch })

-- `halt` is the panic of the overflowing u64 counter
def ping (fuel : Nat) (timeout : Duration) (s : ViewerSession) : ViewerM PingResult :=
  if s.nextSeq.toNat + 1 < 2 ^ 64 then do
    let seq := s.nextSeq
    let s := { s with nextSeq := seq + 1 }
    let start ← call .now
    match ← Channel.send (.ping seq) with
    | .error e => return (.error (.transport e), s)
    | .ok () => pingLoop fuel seq start (start + timeout) fuel s
  else .halt

def Skips (seq : UInt64) (skipped : List Bytes) : Prop :=
  ∀ data ∈ skipped, decodes data ≠ .msg (.pong seq)

-- how far a call has come that waits for the Pong `seq`, given the payloads that have arrived
inductive PingPoint (host : PeerIdentity) (nextSeq seq : UInt64) (start : Instant) :
    List Bytes → ViewerM PingResult → Prop
  | waiting {skipped : List Bytes} {q : ViewerM PingResult} (hs : Skips seq skipped)
      (hq : ∀ r, q ≠ .ret r) : PingPoint host nextSeq seq start skipped q
  | elapsing {skipped : List Bytes} {own : Bytes} {ch : Channel} (hs : Skips seq skipped)
      (hown : decodes own = .msg (.pong seq)) :
      PingPoint host nextSeq seq start (skipped ++ own :: ch.pending)
        (.act .now fun now : Instant => .ret (.ok (now - start), ⟨host, ch, nextSeq⟩))
  | answered {skipped : List Bytes} {own : Bytes} {ch : Channel} (now : Instant)
      (hs : Skips seq skipped) (hown : decodes own = .msg (.pong seq)) :
      PingPoint host nextSeq seq start (skipped ++ own :: ch.pending)
        (.ret (.ok (now - start), ⟨host, ch, nextSeq⟩))
  | failed {skipped : List Bytes} {ch : Channel} (e : ConnectError) (hs : Skips seq skipped)
      (hpending : ch.pending = []) :
      PingPoint host nextSeq seq start skipped (.ret (.error e, ⟨host, ch, nextSeq⟩))
  | malformed {skipped : List Bytes} {bad : Bytes} {ch : Channel} (e : ConnectError)
      (hs : Skips seq skipped) (hbad : decodes bad = .malformed) :
      PingPoint host nextSeq seq start (skipped ++ bad :: ch.pending)
        (.ret (.error e, ⟨host, ch, nextSeq⟩))
  | spent (arrived : List Bytes) : PingPoint host nextSeq seq start arrived .halt

section
variable {host : PeerIdentity} {nextSeq seq : UInt64} {start : Instant}

theorem Skips.cons {data : Bytes} {skipped : List Bytes} (h : Skips seq skipped)
    (hdata : decodes data ≠ .msg (.pong seq)) : Skips seq (data :: skipped) :=
  List.forall_mem_cons.mpr ⟨hdata, h⟩

theorem PingPoint.cons {data : Bytes} {arrived : List Bytes} {q : ViewerM PingResult}
    (h : PingPoint host nextSeq seq start arrived q) (hdata : decodes data ≠ .msg (.pong seq)) :
    PingPoint host nextSeq seq start (data :: arrived) q := by
  cases h with
  | waiting hs hq => exact .waiting (hs.cons hdata) hq
  | elapsing hs hown => exact .elapsing (hs.cons hdata) hown
  | answered now hs hown => exact .answered now (hs.cons hdata) hown
  | failed e hs hpending => exact .failed e (hs.cons hdata) hpending
  | malformed e hs hbad => exact .malformed e (hs.cons hdata) hbad
  | spent arrived => exact .spent _

theorem skips_nil : Skips seq [] := by
  intro data hdata
  cases hdata

theorem pingLoop_point {fuel n : Nat} {deadline : Instant} {ch : Channel}
    {tr : List (Ev ViewerSig)} {q : ViewerM PingResult}
    (h : Path (pingLoop fuel seq start deadline n ⟨host, ch, nextSeq⟩) tr q) :
    PingPoint host nextSeq seq start (ch.pending ++ Channel.polled tr) q ∧
      (q = .halt → n ≤ (ch.pending ++ Channel.polled tr).length ∨ fuel ≤ tr.length) := by
  induction n generalizing ch tr with
  | zero =>
      obtain ⟨rfl, rfl⟩ := path_halt h
      exact ⟨.spent _, fun _ => .inl (Nat.zero_le _)⟩
  | succ n ih =>
      rw [pingLoop, Viewer.nextControl, Prog.bind_assoc] at h
      rcases Path.bind_cases h with ⟨p, hp, hne, rfl⟩ | ⟨tr₁, ⟨r, ch'⟩, tr₂, rfl, hnext, h₁⟩
      · obtain ⟨hfound, hspent⟩ := Channel.next_waits hp hne
        by_cases hhalt : p = .halt
        · subst hhalt
          exact ⟨.spent _, fun _ => .inr (hspent rfl)⟩
        · rw [hfound hhalt]
          refine ⟨.waiting skips_nil (bind_ne_ret hne _), fun hq => ?_⟩
          cases p with
          | ret a => exact absurd rfl (hne a)
          | halt => exact absurd rfl hhalt
          | act o k => cases hq
      · rw [Channel.polled_append, ← List.append_assoc]
        rcases Channel.next_pops hnext with ⟨data, hpopped, rfl⟩ | ⟨hkept, hnone⟩
        · rw [hpopped, List.cons_append]
          have again (hdata : decodes data ≠ .msg (.pong seq))
              (h₂ : Path (pingLoop fuel seq start deadline n ⟨host, ch', nextSeq⟩) tr₂ q) :
              PingPoint host nextSeq seq start (data :: (ch'.pending ++ Channel.polled tr₂)) q ∧
                (q = .halt → n + 1 ≤ (data :: (ch'.pending ++ Channel.polled tr₂)).length ∨
                  fuel ≤ (tr₁ ++ tr₂).length) := by
            obtain ⟨hpoint, hspent⟩ := ih h₂
            refine ⟨hpoint.cons hdata, fun hhalt => ?_⟩
            rcases hspent hhalt with hn | hfuel
            · exact .inl (Nat.succ_le_succ hn)
            · exact .inr (le_trans hfuel (by simp))
          cases hdata : decodes data with
          | msg m =>
              rw [hdata] at h₁
              cases m with
              | pong got =>
                  by_cases hgot : got = seq
                  · subst hgot
                    simp only [Prog.pure_eq, Prog.ret_bind, if_true] at h₁
                    rcases path_call h₁ with ⟨rfl, rfl⟩ | ⟨now, tr₃, rfl, h₂⟩
                    · refine ⟨?_, fun hq => by cases hq⟩
                      rw [Channel.polled_nil, List.append_nil]
                      exact .elapsing skips_nil hdata
                    · obtain ⟨rfl, rfl⟩ := path_ret h₂
                      have hsilent : Channel.polled ([⟨.now, now⟩] : List (Ev ViewerSig)) = [] := rfl
                      refine ⟨?_, fun hq => by cases hq⟩
                      rw [hsilent, List.append_nil]
                      exact .answered now skips_nil hdata
                  · simp only [Prog.pure_eq, Prog.ret_bind, if_neg hgot] at h₁
                    exact again (by simpa [hdata] using hgot) h₁
              | _ => exact again (by simp [hdata]) h₁
          | malformed =>
              rw [hdata] at h₁
              obtain ⟨rfl, rfl⟩ := path_ret h₁
              refine ⟨?_, fun hq => by cases hq⟩
              rw [Channel.polled_nil, List.append_nil]
              exact .malformed _ skips_nil hdata
          | _ =>
              have hdecoded := decoded_decodes data
              rw [hdata] at hdecoded
              cases hdecoded
        · have hempty := (Channel.next_empties hnext hnone).1
          rw [hkept, hempty, List.nil_append]
          have stops {e : ConnectError}
              (hret : Path (Prog.ret (.error e, (⟨host, ch', nextSeq⟩ : ViewerSession)) :
                ViewerM PingResult) tr₂ q) :
              PingPoint host nextSeq seq start (Channel.polled tr₂) q ∧
                (q = .halt → n + 1 ≤ (Channel.polled tr₂).length ∨ fuel ≤ (tr₁ ++ tr₂).length) := by
            obtain ⟨rfl, rfl⟩ := path_ret hret
            exact ⟨.failed e skips_nil hempty, fun hq => by cases hq⟩
          rcases r with e | (c | _ | _ | _)
          · exact stops h₁
          · cases hnone _ rfl
          · cases hnone _ rfl
          · exact stops h₁
          · exact stops h₁

theorem nextControl_waits (fuel : Nat) (ch : Channel) (deadline : Instant) (stage : Stage) :
    Waits (Viewer.nextControl fuel ch deadline stage) := by
  refine uses_bind (Channel.next_uses _ _ _) fun r => ?_
  obtain ⟨r, ch'⟩ := r
  rcases r with e | (_ | _ | _ | _) <;> trivial

theorem pingLoop_waits (fuel n : Nat) (deadline : Instant) (s : ViewerSession) :
    Waits (pingLoop fuel seq start deadline n s) := by
  induction n generalizing s with
  | zero => trivial
  | succ n ih =>
      refine uses_bind (nextControl_waits _ _ _ _) fun r => ?_
      obtain ⟨r, ch⟩ := r
      rcases r with e | m
      · trivial
      · cases m with
        | pong got =>
            dsimp only
            split
            · exact ⟨rfl, fun _ => trivial⟩
            · exact ih _
        | _ => exact ih _

end

def pinged (s : ViewerSession) : ViewerSession := { s with nextSeq := s.nextSeq + 1 }

def pingBytes (seq : UInt64) : Bytes := Control.encode (.ping seq)

def pongBytes (seq : UInt64) : Bytes := Control.encode (.pong seq)

-- the three stages of a call: before its Ping is out, refused by the peer, waiting for its Pong
inductive Called (fuel : Nat) (s : ViewerSession) :
    List (Ev ViewerSig) → ViewerM PingResult → Prop
  | starting {tr : List (Ev ViewerSig)} {q : ViewerM PingResult} (hq : ∀ r, q ≠ .ret r)
      (hpolled : Channel.polled tr = []) (hdelivered : Channel.delivered tr = []) :
      Called fuel s tr q
  | refused {tr : List (Ev ViewerSig)} (e : TransportError) (hfits : s.nextSeq.toNat + 1 < 2 ^ 64)
      (hpolled : Channel.polled tr = []) (hdelivered : Channel.delivered tr = []) :
      Called fuel s tr (.ret (.error (.transport e), s.pinged))
  | sent {tr : List (Ev ViewerSig)} {q : ViewerM PingResult} (start : Instant)
      (hfits : s.nextSeq.toNat + 1 < 2 ^ 64)
      (hdelivered : Channel.delivered tr = [pingBytes s.nextSeq])
      (hpoint : PingPoint s.host s.pinged.nextSeq s.nextSeq start
        (s.ch.pending ++ Channel.polled tr) q)
      (hspent : q = .halt → fuel ≤ (s.ch.pending ++ Channel.polled tr).length ∨
        fuel ≤ tr.length) : Called fuel s tr q

theorem ping_called {fuel : Nat} {timeout : Duration} {s : ViewerSession}
    {tr : List (Ev ViewerSig)} {q : ViewerM PingResult} (h : Path (ping fuel timeout s) tr q) :
    Called fuel s tr q := by
  rw [ping] at h
  split at h
  · rename_i hfits
    rcases path_call h with ⟨rfl, rfl⟩ | ⟨start, tr₁, rfl, h₁⟩
    · exact .starting (fun r hr => by cases hr) rfl rfl
    rcases path_call h₁ with ⟨rfl, rfl⟩ | ⟨result, tr₂, rfl, h₂⟩
    · exact .starting (fun r hr => by cases hr) rfl rfl
    cases result with
    | error e =>
        obtain ⟨rfl, rfl⟩ := path_ret h₂
        exact .refused e hfits rfl rfl
    | ok u =>
        obtain ⟨hpoint, hspent⟩ := pingLoop_point h₂
        have hsilent := Channel.delivered_waits (pingLoop_waits _ _ _ _) h₂
        refine .sent start hfits ?_ hpoint fun hhalt => (hspent hhalt).imp_right fun hle => ?_
        · exact congrArg (List.cons _) hsilent
        · simp only [List.length_cons]
          omega
  · obtain ⟨rfl, rfl⟩ := path_halt h
    exact .starting (fun r hr => by cases hr) rfl rfl

end ViewerSession

end SimpleRemote
