import SimpleRemote.Library.Interaction

namespace Interaction

-- how the calls of one signature are carried out over another, with a state kept in between
abbrev Handler (S T : Sig) (σ : Type) : Type := (o : S.Op) → σ → Prog T (S.Res o × σ)

section
variable {S T : Sig} {α β σ : Type}

def Prog.handle (H : Handler S T σ) : Prog S α → σ → Prog T (α × σ)
  | .ret a, s => .ret (a, s)
  | .halt, _ => .halt
  | .act o k, s => H o s >>= fun r => (k r.1).handle H r.2

variable {H : Handler S T σ}

-- a program that meets its specification still does once its calls are carried out, when each
-- call keeps the two monitors related
theorem wp_handle {μ ν : Type} {M : Monitor S μ} {N : Monitor T ν} {R : μ → σ → ν → Prop}
    (hcall : ∀ m s n o, R m s n → M.allow m o → (H o s).wp N
      (fun n' r => M.valid m ⟨o, r.1⟩ ∧ R (M.next m ⟨o, r.1⟩) r.2 n') n)
    {p : Prog S α} {Q : μ → α → Prop} {m : μ} {s : σ} {n : ν} (h : p.wp M Q m) (hR : R m s n) :
    (p.handle H s).wp N (fun n' r => ∃ m', Q m' r.1 ∧ R m' r.2 n') n := by
  induction p generalizing m s n with
  | ret a => exact ⟨m, h, hR⟩
  | halt => trivial
  | act o k ih =>
      refine wp_bind.mpr (Prog.wp_mono (hcall m s n o hR h.1) fun n' r hr => ?_)
      exact ih r.1 (h.2 r.1 hr.1) hr.2

-- calls that have each been carried out to the end
inductive Handled (H : Handler S T σ) : σ → List (Ev S) → List (Ev T) → σ → Prop
  | nil (s : σ) : Handled H s [] [] s
  | cons {s s' s'' : σ} {o : S.Op} {r : S.Res o} {tr down : List (Ev T)} {up : List (Ev S)}
      (h : Exec (H o s) tr (r, s')) (hrest : Handled H s' up down s'') :
      Handled H s (⟨o, r⟩ :: up) (tr ++ down) s''

-- a run of the handled program carries out a run of the program, and perhaps a part of one more call
theorem path_handle {p : Prog S α} {s : σ} {down : List (Ev T)} {q : Prog T (α × σ)}
    (h : Path (p.handle H s) down q) :
    ∃ up down' s' p', Path p up p' ∧ Handled H s up down' s' ∧
      (down = down' ∧ q = p'.handle H s' ∧ (∀ o k, p' ≠ .act o k) ∨ ∃ o k tr q', p' = .act o k ∧ down = down' ++ tr ∧
        Path (H o s') tr q' ∧ (∀ a, q' ≠ .ret a) ∧ q = q' >>= fun r => (k r.1).handle H r.2) := by
  induction p generalizing s down with
  | ret a =>
      obtain ⟨rfl, rfl⟩ := path_ret h
      exact ⟨[], [], s, .ret a, .nil _, .nil s, .inl ⟨rfl, rfl, nofun⟩⟩
  | halt =>
      obtain ⟨rfl, rfl⟩ := path_halt h
      exact ⟨[], [], s, .halt, .nil _, .nil s, .inl ⟨rfl, rfl, nofun⟩⟩
  | act o k ih =>
      rcases Path.bind_cases h with ⟨q', hq, hne, rfl⟩ | ⟨tr, ⟨r, s'⟩, down', rfl, hr, hrest⟩
      · exact ⟨[], [], s, .act o k, .nil _, .nil s, .inr ⟨o, k, down, q', rfl, rfl, hq, hne, rfl⟩⟩
      · obtain ⟨up, done, s'', p', hp, hdone, hlast⟩ := ih r hrest
        refine ⟨⟨o, r⟩ :: up, tr ++ done, s'', p', .cons r hp, .cons hr hdone, ?_⟩
        rcases hlast with ⟨rfl, rfl, hdone⟩ | ⟨o', k', tr', q', rfl, rfl, hq, hne, hlast⟩
        · exact .inl ⟨rfl, rfl, hdone⟩
        · exact .inr ⟨o', k', tr', q', rfl, (List.append_assoc ..).symm, hq, hne, hlast⟩

end

-- the monitor that remembers every call and its answer
def Monitor.history {S : Sig} (allow : List (Ev S) → S.Op → Prop) : Monitor S (List (Ev S)) where
  allow := allow
  valid _ _ := True
  next past e := past ++ [e]

section
variable {S : Sig} {α : Type} {allow : List (Ev S) → S.Op → Prop}

theorem history_run (past tr : List (Ev S)) : (Monitor.history allow).run past tr = past ++ tr := by
  induction tr generalizing past with
  | nil => exact (List.append_nil past).symm
  | cons e tr ih =>
      rw [Monitor.run_cons, ih]
      exact List.append_assoc past [e] tr

theorem history_valid (past tr : List (Ev S)) : (Monitor.history allow).Valid past tr := by
  induction tr generalizing past with
  | nil => trivial
  | cons e tr ih => exact ⟨trivial, ih _⟩

theorem history_path {p q : Prog S α} {tr : List (Ev S)} {Q : List (Ev S) → α → Prop}
    (h : p.wp (.history allow) Q []) (hp : Path p tr q) :
    (∀ pre e post, tr = pre ++ e :: post → allow pre e.op) ∧ ∀ a, q = .ret a → Q tr a := by
  obtain ⟨hallowed, hq⟩ := wp_path h hp (history_valid [] tr)
  rw [history_run] at hq
  refine ⟨fun pre e post htr => ?_, fun a ha => ?_⟩
  · rw [htr] at hallowed
    have hat := hallowed.at
    rwa [history_run] at hat
  · subst ha
    exact hq

-- what is known of the runs of a program is a specification of it
theorem wp_history {p : Prog S α} {Q : List (Ev S) → α → Prop} {past : List (Ev S)}
    (hcall : ∀ tr o k, Path p tr (.act o k) → allow (past ++ tr) o)
    (hret : ∀ tr a, Exec p tr a → Q (past ++ tr) a) : p.wp (.history allow) Q past := by
  induction p generalizing past with
  | ret a =>
      have h := hret [] a (.nil _)
      rwa [List.append_nil] at h
  | halt => trivial
  | act o k ih =>
      refine ⟨?_, fun r _ => ih r (fun tr o' k' h => ?_) fun tr a h => ?_⟩
      · have h := hcall [] o k (.nil _)
        rwa [List.append_nil] at h
      · have h' := hcall (⟨o, r⟩ :: tr) o' k' (.cons r h)
        rwa [List.append_cons] at h'
      · have h' := hret (⟨o, r⟩ :: tr) a (.cons r h)
        rwa [List.append_cons] at h'

-- calls handed on one by one, each as one event of the other signature
theorem wp_forward {T : Sig} {H : Handler S T Unit} {f : Ev S → Ev T}
    {allowed : List (Ev T) → T.Op → Prop} {base : List (Ev T)}
    (hcall : ∀ tr o, allow tr o → (H o ()).wp (.history allowed)
      (fun past r => past = base ++ tr.map f ++ [f ⟨o, r.1⟩]) (base ++ tr.map f))
    {p : Prog S α} {Q : List (Ev S) → α → Prop} (h : p.wp (.history allow) Q []) :
    (p.handle H ()).wp (.history allowed)
      (fun past r => ∃ tr, Q tr r.1 ∧ past = base ++ tr.map f) base := by
  refine wp_handle (R := fun tr (_ : Unit) past => past = base ++ tr.map f) ?_ h
    (List.append_nil base).symm
  rintro tr u past o rfl hallow
  refine Prog.wp_mono (hcall tr o hallow) fun past r hpast => ⟨trivial, ?_⟩
  change past = base ++ (tr ++ [_]).map f
  rw [hpast, List.map_append, List.append_assoc]
  rfl

end

end Interaction
