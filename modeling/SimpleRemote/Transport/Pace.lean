import SimpleRemote.Library.Clocked
import SimpleRemote.Transport.Control

namespace SimpleRemote
open ByteCodec Interaction

section
variable {In Out : Type}

-- what the calls of a connection cost: `send` is how long a message to the server may take to be
-- sent, and `slack` is what a call may take beyond what it is asked to wait; a peer is opened on
-- `bindIps` only
structure Costs where
  bindIps : List IpAddr
  send : Nat
  slack : Nat

def Costs.pace (c : Costs) : Pace (conn In Out) Unit where
  asks
    | .peerNew ips => ips = c.bindIps
    | _ => True
  slack := c.slack
  wait
    | _, .linkSend _ => c.send
    | _, .linkRecv timeout => timeout
    | _, .poll maxWait => maxWait
    | _, _ => 0
  reads
    | ⟨.now, t⟩ => some t
    | _ => none
  valid _ _ := True
  next _ _ := ()

instance (c : Costs) (s : Unit) (e : Ev (conn In Out)) : Decidable (c.pace.valid s e) :=
  instDecidableTrue

variable {α : Type} {c : Costs} {Q : Unit → Nat → α → Prop} {s : Unit} {t limit : Nat}

theorem ends_now {k : Instant → Conn In Out α} (hfits : t + c.slack ≤ limit)
    (hk : ∀ (now : Nat) n, t ≤ now → now ≤ n → n ≤ t + c.slack → (k now).Ends c.pace Q () n limit) :
    (.act .now k : Conn In Out α).Ends c.pace Q s t limit :=
  ends_act trivial hfits fun now n hr =>
    hk now n (hr.reads now rfl).1 (hr.reads now rfl).2 hr.soon

def Op.quick : Op Out → Bool
  | .linkSend _ => false
  | .linkRecv _ => false
  | .poll _ => false
  | .peerNew _ => false
  | _ => true

theorem ends_quick {o : Op Out} {k : Op.Res In o → Conn In Out α} (ho : o.quick = true)
    (hfits : t + c.slack ≤ limit)
    (hk : ∀ r n, t ≤ n → n ≤ t + c.slack → (k r).Ends c.pace Q () n limit) :
    (.act o k : Conn In Out α).Ends c.pace Q s t limit := by
  cases o <;> first
    | exact (Bool.false_ne_true ho).elim
    | exact ends_act trivial hfits fun r n hr => hk r n hr.later hr.soon

theorem within_quick {o : Op Out} {k : Op.Res In o → Conn In Out α} {w n : Nat}
    (ho : o.quick = true) (hk : ∀ r, (k r).Within c.pace w n) :
    (call o >>= k).Within c.pace w (n + 1) := by
  have hcall : (call o : Conn In Out _).Within c.pace 0 1 := fun s t =>
    ends_quick ho (by change _ ≤ t + 0 + 1 * c.slack; omega) fun r n _ hn =>
      ends_ret (by change _ ≤ t + 0 + 1 * c.slack; omega) trivial
  exact within_bind hcall hk (Nat.le_of_eq (Nat.zero_add w)) (Nat.le_of_eq (Nat.add_comm 1 n))

theorem within_peer {k : Except TransportError Unit → Conn In Out α} {w n : Nat} {ips : List IpAddr}
    (hips : ips = c.bindIps) (hk : ∀ r, (k r).Within c.pace w n) :
    (call (.peerNew ips) >>= k).Within c.pace w (n + 1) :=
  within_bind (within_call hips fun _ => Nat.le_refl 0) hk (Nat.le_of_eq (Nat.zero_add w))
    (Nat.le_of_eq (Nat.add_comm 1 n))

section
variable {β : Type} {f : Instant → Conn In Out α} {lim early late w n : Nat}

theorem within_from_now
    (hf : ∀ start : Nat, (f start).Until c.pace (start + lim) early late) :
    (call .now >>= f : Conn In Out α).Within c.pace lim (1 + early + late) :=
  within_deadline trivial (fun _ => rfl) (fun _ => rfl) hf

theorem within_from_now_bind {g : Instant → α → Conn In Out β} {total overruns : Nat}
    (hf : ∀ start : Nat, (f start).Until c.pace (start + lim) early late)
    (hg : ∀ start a, (g start a).Within c.pace w n) (hw : lim + w ≤ total)
    (hn : 1 + early + late + n ≤ overruns) :
    (call .now >>= fun start => f start >>= g start : Conn In Out β).Within c.pace total overruns :=
  within_deadline_bind trivial (fun _ => rfl) (fun _ => rfl) hf hg hw hn

end

-- a poll that waits till `deadline`
theorem ends_poll {now deadline : Nat} {k : Except TransportError (List PeerEvent) → Conn In Out α}
    (hearly : ¬ deadline ≤ now) (hfits : t + deadline + c.slack ≤ limit + now)
    (hk : ∀ r n, t ≤ n → n + now ≤ t + deadline + c.slack → (k r).Ends c.pace Q () n limit) :
    (.act (.poll (deadline - now)) k : Conn In Out α).Ends c.pace Q s t limit := by
  refine ends_act trivial ?_ fun r n hr => hk r n hr.later ?_
  · change t + (deadline - now) + c.slack ≤ limit
    omega
  · have hsoon : n ≤ t + (deadline - now) + c.slack := hr.soon
    omega

end

namespace Channel
variable {In Out : Type} {c : Costs}

-- a message is handed on without a look at the clock
theorem next_ends {deadline t limit : Nat} (fuel : Nat) (ch : Channel) {s : Unit} (ht : t ≤ limit)
    (hlimit : deadline + 2 * c.slack ≤ limit) : (next deadline fuel ch : Conn In Out _).Ends c.pace
      (fun _ t' r => ∀ m, r.1 = .ok m → m.decoded = true → t' ≤ limit) s t (limit + c.slack) := by
  induction fuel generalizing ch s t with
  | zero => exact ends_halt
  | succ fuel ih =>
      rw [next]
      split
      · dsimp only
        split <;> exact ends_ret (by omega) fun _ _ _ => ht
      · split
        · exact ends_ret (by omega) fun _ hm hdecoded => by cases hm; cases hdecoded
        · refine ends_now (by omega) fun now n hlater hread hsoon => ?_
          dsimp only [Prog.bind]
          split
          · exact ends_ret (by omega) fun _ hm hdecoded => by cases hm; cases hdecoded
          · rename_i hearly
            refine ends_poll hearly (by omega) fun r n' hlater' hsoon' => ?_
            cases r with
            | error e => exact ends_ret (by omega) fun _ hm => by cases hm
            | ok events => exact ih _ (by omega)

theorem next_until (deadline fuel : Nat) (ch : Channel) :
    (next deadline fuel ch : Conn In Out _).Until c.pace deadline 2 1 := by
  intro s t limit ht hlimit
  change Prog.Ends _ _ _ _ _ (limit + 1 * c.slack)
  rw [Nat.one_mul]
  exact (next_ends fuel ch ht hlimit).mono (Nat.le_refl _) fun _ _ _ _ _ _ => trivial

theorem waitOpen_until (deadline fuel : Nat) (ch : Channel) :
    (waitOpen deadline fuel ch : Conn In Out _).Until c.pace deadline 2 1 := by
  intro s t limit ht hlimit
  change deadline + 2 * c.slack ≤ limit at hlimit
  change Prog.Ends _ _ _ _ _ (limit + 1 * c.slack)
  induction fuel generalizing ch s t with
  | zero => exact ends_halt
  | succ fuel ih =>
      rw [waitOpen]
      split
      · exact ends_ret (by omega) trivial
      · refine ends_now (by omega) fun now n hlater hread hsoon => ?_
        dsimp only [Prog.bind]
        split
        · exact ends_ret (by omega) trivial
        · rename_i hearly
          refine ends_poll hearly (by omega) fun r n' hlater' hsoon' => ?_
          cases r with
          | error e => exact ends_ret (by omega) trivial
          | ok events =>
              dsimp only [Prog.bind]
              split
              · exact ends_ret (by omega) trivial
              · exact ih _ _ _ (by omega)

theorem close_within (ch : Channel) : (close ch : Conn In Out _).Within c.pace 0 2 := by
  rw [close]
  split
  · exact within_ret
  · refine within_quick rfl fun _ => ?_
    exact within_bind (v := 0) (m := 0) (within_call trivial fun _ => Nat.le_refl 0)
      (fun _ => within_ret) (Nat.le_refl _) (Nat.le_refl _)

end Channel

end SimpleRemote
