import SimpleRemote.Library.Handlers

namespace Interaction

-- the calls of a signature, each answered together with the moment of its return
def Sig.stamped (S : Sig) : Sig := ⟨S.Op, fun o => S.Res o × Nat⟩

section
variable {S : Sig} {α β σ : Type}

def Prog.stamp : Prog S α → Prog S.stamped α
  | .ret a => .ret a
  | .halt => .halt
  | .act o k => .act (S := S.stamped) o fun r => (k r.1).stamp

theorem stamp_bind (p : Prog S α) (f : α → Prog S β) :
    (p >>= f).stamp = p.stamp >>= fun a => (f a).stamp := by
  induction p with
  | ret a => rfl
  | halt => rfl
  | act o k ih => exact congrArg (Prog.act (S := S.stamped) o) (funext fun r => ih r.1)

def Ev.at (e : Ev S.stamped) : Nat := e.res.2

def Ev.bare (e : Ev S.stamped) : Ev S := ⟨e.op, e.res.1⟩

-- how long the calls of a signature take: each no longer than what it is asked to wait for and
-- `slack`, where what is asked may depend on the calls before it; `asks` are the calls meant
structure Pace (S : Sig) (σ : Type) where
  asks : S.Op → Prop
  slack : Nat
  wait : σ → S.Op → Nat
  reads : Ev S → Option Nat
  valid : σ → Ev S → Prop
  next : σ → Ev S → σ

-- a call made at `t`; a clock is read between the call and its return
structure Pace.Takes (P : Pace S σ) (s : σ) (t : Nat) (e : Ev S.stamped) : Prop where
  valid : P.valid s e.bare
  later : t ≤ e.at
  soon : e.at ≤ t + P.wait s e.op + P.slack
  reads : ∀ n ∈ P.reads e.bare, t ≤ n ∧ n ≤ e.at

def Pace.Timed (P : Pace S σ) : σ → Nat → List (Ev S.stamped) → Prop
  | _, _, [] => True
  | s, t, e :: tr => P.Takes s t e ∧ P.Timed (P.next s e.bare) e.at tr

section Decide
variable (P : Pace S σ) [∀ s e, Decidable (P.valid s e)]

instance (s : σ) (t : Nat) (e : Ev S.stamped) : Decidable (P.Takes s t e) :=
  decidable_of_iff (P.valid s e.bare ∧ t ≤ e.at ∧ e.at ≤ t + P.wait s e.op + P.slack ∧
      ∀ n ∈ (P.reads e.bare).toList, t ≤ n ∧ n ≤ e.at)
    ⟨fun ⟨hvalid, hlater, hsoon, hreads⟩ =>
      ⟨hvalid, hlater, hsoon, fun n hn => hreads n (Option.mem_toList.mpr hn)⟩,
      fun h => ⟨h.valid, h.later, h.soon, fun n hn => h.reads n (Option.mem_toList.mp hn)⟩⟩

instance Pace.decideTimed (s : σ) (t : Nat) : (tr : List (Ev S.stamped)) → Decidable (P.Timed s t tr)
  | [] => instDecidableTrue
  | e :: tr => @instDecidableAnd _ _ _ (Pace.decideTimed (P.next s e.bare) e.at tr)

end Decide

def Pace.clock (P : Pace S σ) (limit : Nat) : Monitor S.stamped (σ × Nat) where
  allow s o := P.asks o ∧ s.2 + P.wait s.1 o + P.slack ≤ limit
  valid s e := P.Takes s.1 s.2 e
  next s e := (P.next s.1 e.bare, e.at)

-- started at `t`, the program makes no call that could take beyond `limit`, and is through by then
def Prog.Ends (P : Pace S σ) (p : Prog S α) (Q : σ → Nat → α → Prop) (s : σ) (t limit : Nat) : Prop :=
  ∀ late, limit ≤ late →
    p.stamp.wp (P.clock late) (fun s' a => s'.2 ≤ limit ∧ Q s'.1 s'.2 a) (s, t)

section
variable {P : Pace S σ} {p : Prog S α} {Q R : σ → Nat → α → Prop} {s : σ} {t limit : Nat}

theorem clock_valid {tr : List (Ev S.stamped)} (late : Nat) (h : P.Timed s t tr) :
    (P.clock late).Valid (s, t) tr := by
  induction tr generalizing s t with
  | nil => trivial
  | cons e tr ih => exact ⟨h.1, ih h.2⟩

theorem allowed_le {late : Nat} {tr : List (Ev S.stamped)} (h : P.Timed s t tr)
    (hallowed : (P.clock late).Allowed (s, t) tr) : ∀ e ∈ tr, e.at ≤ late := by
  induction tr generalizing s t with
  | nil => exact nofun
  | cons e tr ih =>
      intro e' he'
      rcases List.mem_cons.mp he' with rfl | he'
      · exact Nat.le_trans h.1.soon hallowed.1.2
      · exact ih h.2 hallowed.2 e' he'

theorem Pace.Timed.later {tr : List (Ev S.stamped)} (h : P.Timed s t tr) : ∀ e ∈ tr, t ≤ e.at := by
  induction tr generalizing s t with
  | nil => exact nofun
  | cons e tr ih =>
      intro e' he'
      rcases List.mem_cons.mp he' with rfl | he'
      · exact h.1.later
      · exact Nat.le_trans h.1.later (ih h.2 e' he')

theorem wp_later {late : Nat} {Q : σ × Nat → α → Prop} (h : p.stamp.wp (P.clock late) Q (s, t)) :
    p.stamp.wp (P.clock late) (fun s' a => t ≤ s'.2 ∧ Q s' a) (s, t) := by
  induction p generalizing s t with
  | ret a => exact ⟨(Nat.le_refl _), h⟩
  | halt => trivial
  | act o k ih =>
      refine ⟨h.1, fun r hr => Prog.wp_mono (ih r.1 (h.2 r hr)) fun s' a ha => ?_⟩
      exact ⟨Nat.le_trans hr.later ha.1, ha.2⟩

theorem Prog.Ends.path {q : Prog S.stamped α} {tr : List (Ev S.stamped)}
    (h : p.Ends P Q s t limit) (hp : Path p.stamp tr q) (ht : P.Timed s t tr) :
    (∀ e ∈ tr, e.at ≤ limit) ∧ ∀ a, q = .ret a → ∃ s' t', t' ≤ limit ∧ Q s' t' a := by
  obtain ⟨hallowed, hq⟩ := wp_path (h limit (Nat.le_refl _)) hp (clock_valid limit ht)
  refine ⟨allowed_le ht hallowed, fun a ha => ?_⟩
  subst ha
  exact ⟨_, _, hq⟩

theorem ends_ret {a : α} (ht : t ≤ limit) (ha : Q s t a) : (Prog.ret a : Prog S α).Ends P Q s t limit :=
  fun _ _ => ⟨ht, ha⟩

theorem ends_halt : (Prog.halt : Prog S α).Ends P Q s t limit := fun _ _ => trivial

theorem ends_act {o : S.Op} {k : S.Res o → Prog S α} (ho : P.asks o)
    (hfits : t + P.wait s o + P.slack ≤ limit)
    (hk : ∀ r n, P.Takes s t ⟨o, (r, n)⟩ → (k r).Ends P Q (P.next s ⟨o, r⟩) n limit) :
    (Prog.act o k).Ends P Q s t limit := by
  exact fun late hlate => ⟨⟨ho, Nat.le_trans hfits hlate⟩, fun r hr => hk r.1 r.2 hr late hlate⟩

theorem Prog.Ends.mono {limit' : Nat} (h : p.Ends P Q s t limit) (hle : limit ≤ limit')
    (hQ : ∀ s' t' a, t ≤ t' → t' ≤ limit → Q s' t' a → R s' t' a) : p.Ends P R s t limit' :=
  fun late hlate => Prog.wp_mono (wp_later (h late (Nat.le_trans hle hlate))) fun s' a ha =>
    ⟨Nat.le_trans ha.2.1 hle, hQ s'.1 s'.2 a ha.1 ha.2.1 ha.2.2⟩

theorem ends_bind {f : α → Prog S β} {R : σ → Nat → β → Prop} {mid : Nat}
    (hp : p.Ends P Q s t mid) (hmid : mid ≤ limit)
    (hf : ∀ s' t' a, t ≤ t' → t' ≤ mid → Q s' t' a → (f a).Ends P R s' t' limit) :
    (p >>= f).Ends P R s t limit := by
  intro late hlate
  rw [stamp_bind]
  refine wp_bind.mpr (Prog.wp_mono (wp_later (hp late (Nat.le_trans hmid hlate))) fun s' a ha => ?_)
  exact hf s'.1 s'.2 a ha.1 ha.2.1 ha.2.2 late hlate

end

abbrev anyhow : σ → Nat → α → Prop := fun _ _ _ => True

-- whenever it is started, the program takes no longer than `waits` and `overruns` times the slack
def Prog.Within (P : Pace S σ) (p : Prog S α) (waits overruns : Nat) : Prop :=
  ∀ s t, p.Ends P anyhow s t (t + waits + overruns * P.slack)

-- started no later than `limit`, and that at least `early` times the slack after `deadline`, the
-- program ends no later than `late` times the slack after `limit`
def Prog.Until (P : Pace S σ) (p : Prog S α) (deadline early late : Nat) : Prop :=
  ∀ s t limit, t ≤ limit → deadline + early * P.slack ≤ limit →
    p.Ends P anyhow s t (limit + late * P.slack)

section
variable {P : Pace S σ} {p : Prog S α} {w n : Nat}

theorem within_ret {a : α} : (Prog.ret a : Prog S α).Within P w n := fun _ t =>
  ends_ret (Nat.le_trans (Nat.le_add_right t w) (Nat.le_add_right ..)) trivial

theorem within_halt : (Prog.halt : Prog S α).Within P w n := fun _ _ => ends_halt

theorem Prog.Within.mono {w' n' : Nat} (h : p.Within P w n) (hw : w ≤ w') (hn : n ≤ n') :
    p.Within P w' n' := fun s t => (h s t).mono
  (Nat.add_le_add (Nat.add_le_add_left hw t) (Nat.mul_le_mul_right _ hn)) fun _ _ _ _ _ _ => trivial

theorem Prog.Within.path {q : Prog S.stamped α} {tr : List (Ev S.stamped)} {s : σ} {t : Nat}
    (h : p.Within P w n) (hp : Path p.stamp tr q) (ht : P.Timed s t tr) :
    ∀ e ∈ tr, e.at ≤ t + w + n * P.slack :=
  ((h s t).path hp ht).1

theorem within_bind {f : α → Prog S β} {v m total overruns : Nat} (hp : p.Within P w n)
    (hf : ∀ a, (f a).Within P v m) (hw : w + v ≤ total) (hn : n + m ≤ overruns) :
    (p >>= f).Within P total overruns := by
  intro s t
  have hslack : n * P.slack + m * P.slack ≤ overruns * P.slack :=
    Nat.add_mul n m P.slack ▸ Nat.mul_le_mul_right P.slack hn
  refine ends_bind (hp s t) (by omega) fun s' t' a _ hle _ => ?_
  exact (hf a s' t').mono (by omega) fun _ _ _ _ _ _ => trivial

theorem within_return {g : α → β} (hp : p.Within P w n) : (p >>= fun a => .ret (g a)).Within P w n :=
  within_bind (v := 0) (m := 0) hp (fun _ => within_ret) (Nat.le_refl w) (Nat.le_refl n)

theorem within_call {o : S.Op} (ho : P.asks o) (hwait : ∀ s, P.wait s o ≤ w) :
    (Prog.call o).Within P w 1 := by
  intro s t
  have hw := hwait s
  refine ends_act ho (by omega) fun r n hr => ends_ret ?_ trivial
  have hsoon : n ≤ t + P.wait s o + P.slack := hr.soon
  omega

-- a call, and then nothing more that takes time
theorem within_call_bind {o : S.Op} {k : S.Res o → Prog S α} (ho : P.asks o)
    (hwait : ∀ s, P.wait s o ≤ w) (hk : ∀ r, (k r).Within P 0 0) :
    (Prog.call o >>= k).Within P w 1 :=
  within_bind (within_call ho hwait) hk (Nat.le_refl w) (Nat.le_refl 1)

section Deadline
variable {o : S.Op} {read : S.Res o → Nat} {f : S.Res o → Prog S α} {lim early late : Nat}

-- the time read first, and then a part that keeps to a deadline so far from it
theorem ends_deadline {Q : σ → Nat → β → Prop} {k : S.Res o → Prog S β} {s : σ} {t limit : Nat}
    (ho : P.asks o) (hwait : ∀ s, P.wait s o = 0) (hread : ∀ r, P.reads ⟨o, r⟩ = some (read r))
    (hf : ∀ r, (f r).Until P (read r + lim) early late) (hfits : t + P.slack ≤ limit)
    (hk : ∀ r n, n ≤ t + P.slack →
      (∀ s, (f r).Ends P anyhow s n (n + lim + early * P.slack + late * P.slack)) →
        (k r).Ends P Q (P.next s ⟨o, r⟩) n limit) : (Prog.act o k).Ends P Q s t limit := by
  refine ends_act ho (by rw [hwait]; exact hfits) fun r n hr => ?_
  have hsoon : n ≤ t + P.wait s o + P.slack := hr.soon
  have hnow : read r ≤ n := (hr.reads (read r) (hread r)).2
  rw [hwait] at hsoon
  exact hk r n hsoon fun s => hf r s n _ (by omega) (by omega)

theorem within_deadline (ho : P.asks o) (hwait : ∀ s, P.wait s o = 0)
    (hread : ∀ r, P.reads ⟨o, r⟩ = some (read r))
    (hf : ∀ r, (f r).Until P (read r + lim) early late) :
    (Prog.call o >>= f).Within P lim (1 + early + late) := by
  intro s t
  have hslack : (1 + early + late) * P.slack = P.slack + early * P.slack + late * P.slack := by
    rw [Nat.add_mul, Nat.add_mul, Nat.one_mul]
  refine ends_deadline ho hwait hread hf (by omega) fun r n hn hends => ?_
  exact (hends _).mono (by omega) fun _ _ _ _ _ _ => trivial

theorem within_deadline_bind {g : S.Res o → α → Prog S β} {total overruns : Nat}
    (ho : P.asks o) (hwait : ∀ s, P.wait s o = 0) (hread : ∀ r, P.reads ⟨o, r⟩ = some (read r))
    (hf : ∀ r, (f r).Until P (read r + lim) early late) (hg : ∀ r a, (g r a).Within P w n)
    (hw : lim + w ≤ total) (hn : 1 + early + late + n ≤ overruns) :
    (Prog.call o >>= fun r => f r >>= g r).Within P total overruns := by
  intro s t
  have hslack : P.slack + early * P.slack + late * P.slack + n * P.slack ≤ overruns * P.slack := by
    have hle := Nat.mul_le_mul_right P.slack hn
    rwa [Nat.add_mul, Nat.add_mul, Nat.add_mul, Nat.one_mul] at hle
  refine ends_deadline ho hwait hread hf (by omega) fun r m hm hends => ?_
  change (f r >>= g r).Ends P anyhow _ m _
  refine ends_bind (hends _) (by omega) fun s' t' a _ hle _ => ?_
  exact (hg r a s' t').mono (by omega) fun _ _ _ _ _ _ => trivial

end Deadline

end

-- a run in which time passes only when the clock is read
def Pace.stamps (P : Pace S σ) : Nat → List (Ev S) → List (Ev S.stamped)
  | _, [] => []
  | t, e :: tr =>
      let at' := (P.reads e).getD t
      ⟨e.op, (e.res, at')⟩ :: P.stamps at' tr

theorem path_stamps (P : Pace S σ) (t : Nat) {p q : Prog S α} {tr : List (Ev S)} (h : Path p tr q) :
    Path p.stamp (P.stamps t tr) q.stamp := by
  induction h generalizing t with
  | nil p => exact .nil _
  | cons r _ ih => exact .cons (S := S.stamped) (r, _) (ih _)

end

end Interaction
