import SimpleRemote.Host.Session
import SimpleRemote.Transport.Queue

namespace SimpleRemote
open ByteCodec Interaction

namespace HostSession

-- one round of the loop, given what `next` returned; `again` is the rest of the loop
def serveControl (again : Channel → HostM (Except HostError Unit × Channel)) :
    Except TransportError Next × Channel → HostM (Except HostError Unit × Channel)
  | (.ok (.msg (.ping seq)), ch) => do
      match ← Channel.send (.pong seq) with
      | .error e => return (.error (.transport e), ch)
      | .ok () => again ch
  | (.ok (.msg _), ch) => again ch
  | (.ok .malformed, ch) => do
      let ch ← ch.close
      return (.ok (), ch)
  | (.ok _, ch) => return (.ok (), ch)
  | (.error e, ch) => return (.error (.transport e), ch)

def servePingsLoop (fuel : Nat) (deadline : Instant) :
    Nat → Channel → HostM (Except HostError Unit × Channel)
  | 0, _ => .halt
  | n + 1, ch => do
      let r ← ch.next deadline fuel
      serveControl (servePingsLoop fuel deadline n) r

def servePings (fuel : Nat) (forAtMost : Duration) (s : HostSession) :
    HostM (Except HostError Unit × HostSession) := do
  let start ← call .now
  let (r, ch) ← servePingsLoop fuel (start + forAtMost) fuel s.ch
  return (r, { s with ch := ch })

def pongFor (data : Bytes) : Option Bytes :=
  match decodes data with
  | .msg (.ping seq) => some (Control.encode (.pong seq))
  | _ => none

def pongsFor (read : List Bytes) : List Bytes := read.filterMap pongFor

-- what has arrived and is not read (`rest`), and the Pong on its way out
inductive Unread {α : Type} (read : List Bytes) (tr : List (Ev HostSig)) (q : HostM α) :
    List Bytes → List Bytes → Prop
  | none : Unread read tr q [] []
  | answering {rest : List Bytes} {pong : Bytes} {k : HostSig.Res (.peerSend pong) → HostM α}
      (hq : q = .act (.peerSend pong) k) : Unread read tr q rest [pong]
  | malformed {rest earlier : List Bytes} {bad : Bytes} (hread : read = earlier ++ [bad])
      (hbad : decodes bad = .malformed) : Unread read tr q rest []
  | failed {rest : List Bytes} {earlier : List (Ev HostSig)} {data : Bytes} {e : TransportError}
      (htr : tr = earlier ++ [⟨.peerSend data, .error e⟩]) : Unread read tr q rest []
  | spent {rest : List Bytes} (hq : q = .halt) : Unread read tr q rest []

structure Answers {α : Type} (arrived : List Bytes) (tr : List (Ev HostSig)) (q : HostM α) :
    Prop where
  pongs : ∃ read rest unsent, arrived = read ++ rest ∧
    Channel.offered tr ++ unsent = pongsFor read ∧ Unread read tr q rest unsent
  delivered : Channel.delivered tr <+: Channel.offered tr

section
variable {α : Type} {arrived read : List Bytes} {tr : List (Ev HostSig)} {q : HostM α}

theorem Unread.later {rest unsent earlier : List Bytes} {pre : List (Ev HostSig)}
    (h : Unread read tr q rest unsent) : Unread (earlier ++ read) (pre ++ tr) q rest unsent := by
  cases h with
  | none => exact .none
  | answering hq => exact .answering hq
  | malformed hread hbad => exact .malformed (by rw [hread, List.append_assoc]) hbad
  | failed htr => exact .failed (by rw [htr, List.append_assoc])
  | spent hq => exact .spent hq

theorem Answers.later (data : List Bytes) (pre : List (Ev HostSig)) (h : Answers arrived tr q)
    (hoffered : Channel.offered pre = pongsFor data)
    (hdelivered : Channel.delivered pre = pongsFor data) :
    Answers (data ++ arrived) (pre ++ tr) q := by
  obtain ⟨⟨read, rest, unsent, rfl, hpongs, hunread⟩, hprefix⟩ := h
  refine ⟨⟨data ++ read, rest, unsent, (List.append_assoc ..).symm, ?_, hunread.later⟩, ?_⟩
  · rw [Channel.offered_append, List.append_assoc, hpongs, hoffered, pongsFor, pongsFor, pongsFor,
      List.filterMap_append]
  · rw [Channel.offered_append, Channel.delivered_append, hoffered, hdelivered]
    exact (List.prefix_append_right_inj _).mpr hprefix

theorem delivered_nil (h : Channel.offered tr = []) : Channel.delivered tr = [] := by
  refine List.filterMap_eq_nil_iff.mpr fun e he => ?_
  have hsending := List.filterMap_eq_nil_iff.mp h e he
  obtain ⟨o, r⟩ := e
  cases o <;> first | rfl | cases hsending

theorem answers_nothing (h : Channel.offered tr = []) : Answers [] tr q where
  pongs := ⟨[], [], [], rfl, by rw [h]; rfl, .none⟩
  delivered := delivered_nil h ▸ List.nil_prefix

theorem answers_spent (arrived : List Bytes) (h : Channel.offered tr = []) :
    Answers arrived tr (.halt : HostM α) where
  pongs := ⟨[], arrived, [], rfl, by rw [h]; rfl, .spent rfl⟩
  delivered := delivered_nil h ▸ List.nil_prefix

theorem answers_last {data : Bytes} {rest unsent : List Bytes}
    (hpongs : Channel.offered tr ++ unsent = pongsFor [data])
    (hdelivered : Channel.delivered tr = []) (hunread : Unread [data] tr q rest unsent) :
    Answers (data :: rest) tr q where
  pongs := ⟨[data], rest, unsent, rfl, hpongs, hunread⟩
  delivered := hdelivered ▸ List.nil_prefix

theorem servePingsLoop_answers {fuel n : Nat} {deadline : Instant} {ch : Channel}
    {tr : List (Ev HostSig)} {q : HostM (Except HostError Unit × Channel)}
    (h : Path (servePingsLoop fuel deadline n ch) tr q) :
    Answers (ch.pending ++ Channel.polled tr) tr q := by
  induction n generalizing ch tr with
  | zero =>
      obtain ⟨rfl, rfl⟩ := path_halt h
      exact answers_spent _ rfl
  | succ n ih =>
      rw [servePingsLoop] at h
      rcases Path.bind_cases h with ⟨p, hp, hne, rfl⟩ | ⟨tr₁, ⟨r, ch'⟩, tr₂, rfl, hnext, h₁⟩
      · have hsilent := Channel.offered_waits (Channel.next_uses _ _ _) hp
        obtain ⟨hfound, -⟩ := Channel.next_waits hp hne
        by_cases hhalt : p = .halt
        · subst hhalt
          exact answers_spent _ hsilent
        · rw [hfound hhalt]
          exact answers_nothing hsilent
      · have hsilent := Channel.offered_waits (Channel.next_uses _ _ _) hnext
        have hdelivered := delivered_nil hsilent
        rw [Channel.polled_append, ← List.append_assoc]
        rcases Channel.next_pops hnext with ⟨data, hpopped, rfl⟩ | ⟨hkept, hnone⟩
        · rw [hpopped, List.cons_append]
          have hread : pongsFor [data] = (pongFor data).toList := by
            rw [pongsFor, List.filterMap_cons]
            cases pongFor data <;> rfl
          cases hdata : decodes data with
          | msg m =>
              rw [hdata] at h₁
              cases m with
              | ping seq =>
                  have hpong : pongFor data = some (Control.encode (.pong seq)) := by
                    rw [pongFor, hdata]
                  rw [hpong] at hread
                  rcases path_call h₁ with ⟨rfl, rfl⟩ | ⟨sent, tr₃, rfl, h₂⟩
                  · rw [Channel.polled_nil, List.append_nil, List.append_nil]
                    exact answers_last (by rw [hsilent, hread]; rfl) (delivered_nil hsilent)
                      (.answering rfl)
                  · let sends : List (Ev HostSig) := [⟨.peerSend (Control.encode (.pong seq)), sent⟩]
                    have hoffered : Channel.offered (tr₁ ++ sends) = pongsFor [data] := by
                      rw [Channel.offered_append, hsilent, hread]
                      rfl
                    cases sent with
                    | error e =>
                        obtain ⟨rfl, rfl⟩ := path_ret h₂
                        have hsilent : Channel.polled sends = [] := rfl
                        rw [hsilent, List.append_nil]
                        refine answers_last ((List.append_nil _).trans hoffered) ?_ (.failed rfl)
                        rw [Channel.delivered_append, hdelivered]
                        rfl
                    | ok u =>
                        have hlater := Answers.later [data] (tr₁ ++ sends) (ih h₂) hoffered (by
                          rw [Channel.delivered_append, hdelivered, hread]
                          rfl)
                        rw [List.append_assoc] at hlater
                        exact hlater
              | _ =>
                  have hpong : pongFor data = none := by rw [pongFor, hdata]
                  have hnone : pongsFor [data] = [] := by rw [hread, hpong]; rfl
                  exact Answers.later [data] tr₁ (ih h₁) (by rw [hsilent, hnone])
                    (by rw [hdelivered, hnone])
          | malformed =>
              have hpong : pongFor data = none := by rw [pongFor, hdata]
              rw [hdata] at h₁
              have hclosed : Channel.offered tr₂ = [] := by
                refine Channel.offered_waits ?_ h₁
                exact uses_bind (Channel.close_uses ch') fun _ => trivial
              refine answers_last ?_ ?_ (.malformed (List.nil_append _).symm hdata)
              · rw [hread, hpong, Channel.offered_append, hsilent, hclosed]
                rfl
              · rw [Channel.delivered_append, hdelivered, delivered_nil hclosed]
                rfl
          | _ =>
              have hdecoded := decoded_decodes data
              rw [hdata] at hdecoded
              cases hdecoded
        · have hempty := (Channel.next_empties hnext hnone).1
          rw [hkept, hempty, List.nil_append]
          have stops {r : Except HostError Unit × Channel} (hret : Path (.ret r) tr₂ q) :
              Answers (Channel.polled tr₂) (tr₁ ++ tr₂) q := by
            obtain ⟨rfl, rfl⟩ := path_ret hret
            rw [List.append_nil]
            exact answers_nothing hsilent
          rcases r with e | (c | _ | _ | _)
          · exact stops h₁
          · cases hnone _ rfl
          · cases hnone _ rfl
          · exact stops h₁
          · exact stops h₁

theorem Answers.bind {β : Type} {f : α → HostM β} (h : Answers arrived tr q) :
    Answers arrived tr (q >>= f) := by
  obtain ⟨⟨read, rest, unsent, harrived, hpongs, hunread⟩, hdelivered⟩ := h
  refine ⟨⟨read, rest, unsent, harrived, hpongs, ?_⟩, hdelivered⟩
  cases hunread with
  | none => exact .none
  | answering hq =>
      subst hq
      exact .answering rfl
  | malformed hread hbad => exact .malformed hread hbad
  | failed htr => exact .failed htr
  | spent hq =>
      subst hq
      exact .spent rfl

theorem servePings_answers {fuel : Nat} {forAtMost : Duration} {s : HostSession}
    {q : HostM (Except HostError Unit × HostSession)}
    (h : Path (servePings fuel forAtMost s) tr q) :
    tr = [] ∨ Answers (s.ch.pending ++ Channel.polled tr) tr q := by
  rcases path_call h with ⟨rfl, rfl⟩ | ⟨start, tr', rfl, h₁⟩
  · exact .inl rfl
  · refine .inr ?_
    have hanswers : Answers (s.ch.pending ++ Channel.polled tr') tr' q := by
      rcases Path.bind_cases h₁ with ⟨p, hp, -, rfl⟩ | ⟨tr₁, r, tr₂, rfl, hr, h₂⟩
      · exact (servePingsLoop_answers hp).bind
      · obtain ⟨rfl, rfl⟩ := path_ret h₂
        rw [List.append_nil]
        exact (servePingsLoop_answers hr).bind (f := fun r => pure (r.1, { s with ch := r.2 }))
    exact hanswers.later [] [⟨.now, start⟩] rfl rfl

end

end HostSession

end SimpleRemote
