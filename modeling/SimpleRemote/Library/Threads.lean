import Mathlib.Algebra.BigOperators.Group.Finset.Basic
import Mathlib.Algebra.Order.BigOperators.Group.Finset
import SimpleRemote.Library.Interaction

namespace Interaction

section
variable {S : Sig} {A α : Type}

-- a run of `main request`, as far as it has come
structure Thread (main : A → Prog S α) where
  request : A
  trace : List (Ev S)
  rest : Prog S α
  path : Path (main request) trace rest

namespace Thread
variable {main : A → Prog S α}

def start (main : A → Prog S α) (a : A) : Thread main := ⟨a, [], main a, .nil _⟩

theorem path_answer {p q : Prog S α} {tr : List (Ev S)} {o : S.Op} {k : S.Res o → Prog S α}
    (hp : Path p tr q) (h : q = .act o k) (r : S.Res o) : Path p (tr ++ [⟨o, r⟩]) (k r) := by
  subst h
  exact hp.trans (.cons r (.nil _))

def answer (t : Thread main) {o : S.Op} {k : S.Res o → Prog S α} (h : t.rest = .act o k)
    (r : S.Res o) : Thread main :=
  ⟨t.request, t.trace ++ [⟨o, r⟩], k r, path_answer t.path h r⟩

end Thread

end

-- programs started by requests that run side by side and call on objects they share; `In` is what
-- the surroundings add to a call, and `E` what else happens to the objects
structure Sharing (S : Sig) (A α σ In E : Type) where
  main : A → Prog S α
  serve : σ → In → (o : S.Op) → S.Res o × σ
  own : σ → E → σ

structure Call (S : Sig) (In : Type) where
  thread : Nat
  input : In
  ev : Ev S

structure Shared {S : Sig} {A α : Type} (main : A → Prog S α) (σ In : Type) where
  objects : σ
  threads : List (Thread main)
  calls : List (Call S In)

inductive Turn (A In E : Type) where
  | start (a : A)
  | call (thread : Nat) (x : In)
  | own (e : E)

namespace Sharing
variable {S : Sig} {A α σ In E : Type} (M : Sharing S A α σ In E)

abbrev State : Type := Shared M.main σ In

def idle (s : σ) : M.State := ⟨s, [], []⟩

variable {M}

def served (s : M.State) (i : Nat) (x : In) (t : Thread M.main) {o : S.Op}
    {k : S.Res o → Prog S α} (h : t.rest = .act o k) : M.State where
  objects := (M.serve s.objects x o).2
  threads := s.threads.set i (t.answer h (M.serve s.objects x o).1)
  calls := s.calls ++ [⟨i, x, o, (M.serve s.objects x o).1⟩]

variable (M)

-- a call of a run that waits for nothing changes nothing
def next (s : M.State) : Turn A In E → M.State
  | .start a => { s with threads := s.threads ++ [.start M.main a] }
  | .call i x =>
      match s.threads[i]? with
      | none => s
      | some t =>
          match h : t.rest with
          | .act _ _ => served s i x t h
          | .ret _ => s
          | .halt => s
  | .own e => { s with objects := M.own s.objects e }

def run (s : σ) (turns : List (Turn A In E)) : M.State := turns.foldl M.next (M.idle s)

variable {M}

inductive Turned (s : M.State) : M.State → Prop
  | idle : Turned s s
  | started (a : A) : Turned s { s with threads := s.threads ++ [.start M.main a] }
  | served {i : Nat} (x : In) {t : Thread M.main} {o : S.Op} {k : S.Res o → Prog S α}
      (ht : s.threads[i]? = some t) (h : t.rest = .act o k) : Turned s (served s i x t h)
  | owned (e : E) : Turned s { s with objects := M.own s.objects e }

theorem turned_next (s : M.State) (turn : Turn A In E) : Turned s (M.next s turn) := by
  cases turn with
  | start a => exact .started a
  | call i x =>
      rw [next]
      split
      · exact .idle
      · rename_i t ht
        split
        · exact .served x ht _
        · exact .idle
        · exact .idle
  | own e => exact .owned e

theorem run_invariant {I : M.State → Prop} {s : σ} (hs : I (M.idle s))
    (hkeep : ∀ s s', I s → Turned s s' → I s') (turns : List (Turn A In E)) :
    I (M.run s turns) := by
  have hall (s₀ : M.State) (h : I s₀) : I (turns.foldl M.next s₀) := by
    induction turns generalizing s₀ with
    | nil => exact h
    | cons turn turns ih => exact ih _ (hkeep _ _ h (turned_next s₀ turn))
  exact hall _ hs

def callsOf (s : M.State) (i : Nat) : List (Call S In) := s.calls.filter fun c => c.thread = i

-- the calls in the log are those of the runs, each run's in its order
structure Logged (s : M.State) : Prop where
  traces : ∀ i t, s.threads[i]? = some t → (callsOf s i).map Call.ev = t.trace
  known : ∀ c ∈ s.calls, c.thread < s.threads.length

theorem callsOf_beyond {s : M.State} (h : ∀ c ∈ s.calls, c.thread < s.threads.length) {i : Nat}
    (hi : s.threads.length ≤ i) : callsOf s i = [] := by
  refine List.filter_eq_nil_iff.mpr fun c hc => ?_
  have := h c hc
  have hne : c.thread ≠ i := by omega
  simpa using hne

theorem Logged.turned {s s' : M.State} (h : Logged s) (hturn : Turned s s') : Logged s' := by
  cases hturn with
  | idle => exact h
  | owned e => exact ⟨h.traces, h.known⟩
  | started a =>
      refine ⟨fun i t ht => ?_, fun c hc => ?_⟩
      · dsimp only at ht
        by_cases hi : i < s.threads.length
        · rw [List.getElem?_append_left hi] at ht
          exact h.traces i t ht
        · rw [List.getElem?_append_right (by omega), List.getElem?_singleton] at ht
          split at ht
          · obtain rfl := Option.some.inj ht
            exact congrArg _ (callsOf_beyond h.known (by omega))
          · cases ht
      · have := h.known c hc
        simp only [List.length_append, List.length_singleton]
        omega
  | served x ht hrest =>
      rename_i i t o k
      refine ⟨fun j t' ht' => ?_, fun c hc => ?_⟩
      · dsimp only [served] at ht'
        have hcalls : callsOf (served s i x t hrest) j = callsOf s j ++
            if i = j then [⟨i, x, o, (M.serve s.objects x o).1⟩] else [] := by
          rw [callsOf, served, List.filter_append]
          refine congrArg _ ?_
          split <;> simp_all
        rw [hcalls]
        by_cases hij : i = j
        · subst hij
          obtain ⟨hlt, -⟩ := List.getElem?_eq_some_iff.mp ht
          rw [List.getElem?_set_self hlt] at ht'
          obtain rfl := Option.some.inj ht'
          rw [if_pos rfl, List.map_append, h.traces i t ht]
          rfl
        · rw [List.getElem?_set_ne hij] at ht'
          rw [if_neg hij, List.append_nil]
          exact h.traces j t' ht'
      · dsimp only [served] at hc ⊢
        rw [List.length_set]
        rcases List.mem_append.mp hc with hc | hc
        · exact h.known c hc
        · obtain rfl := List.mem_singleton.mp hc
          exact (List.getElem?_eq_some_iff.mp ht).1

theorem run_logged (s : σ) (turns : List (Turn A In E)) : Logged (M.run s turns) := by
  refine run_invariant (I := Logged) ⟨?_, ?_⟩ (fun _ _ => Logged.turned) turns
  · intro i t ht
    cases ht
  · intro c hc
    cases hc

-- an invariant of the objects and the log, when the programs make only calls in `P`
theorem run_shared {P : S.Op → Prop} (hmain : ∀ a, (M.main a).Uses P)
    {I : σ → List (Call S In) → Prop} {s : σ} (hs : I s [])
    (hserve : ∀ s calls i x o, I s calls → P o →
      I (M.serve s x o).2 (calls ++ [⟨i, x, o, (M.serve s x o).1⟩]))
    (hown : ∀ s calls e, I s calls → I (M.own s e) calls) (turns : List (Turn A In E)) :
    I (M.run s turns).objects (M.run s turns).calls := by
  refine run_invariant (I := fun s : M.State => I s.objects s.calls) hs ?_ turns
  intro s s' hinv hturn
  cases hturn with
  | idle => exact hinv
  | started a => exact hinv
  | owned e => exact hown _ _ _ hinv
  | served x ht hrest =>
      rename_i i t o k
      have hcall := ((hmain t.request).path t.path).2
      rw [hrest] at hcall
      exact hserve _ _ i x o hinv hcall.1

end Sharing

theorem uses_of_wp {S : Sig} {α σ : Type} {M : Monitor S σ} {P : S.Op → Prop} {Q : σ → α → Prop}
    {p : Prog S α} {s : σ} (hvalid : ∀ s e, M.valid s e) (hallow : ∀ s o, M.allow s o → P o)
    (h : p.wp M Q s) : p.Uses P := by
  induction p generalizing s with
  | ret a => trivial
  | halt => trivial
  | act o k ih => exact ⟨hallow s o h.1, fun r => ih r (h.2 r (hvalid _ _))⟩

-- if every `q` has a `p` with its key, and no key has more than `n` of them
theorem length_filter_le_mul {β κ : Type} [DecidableEq κ] (key : β → κ) {l : List β}
    {p q : β → Bool} {n : Nat}
    (hfew : ∀ k, (l.filter fun b => q b && decide (key b = k)).length ≤ n)
    (hcover : ∀ b ∈ l, q b = true → ∃ b' ∈ l, p b' = true ∧ key b' = key b) :
    (l.filter q).length ≤ n * (l.filter p).length := by
  have hcount (k : κ) : ((l.filter q).map key).count k ≤ n := by
    have hlen : ((l.filter q).map key).count k =
        (l.filter fun b => q b && decide (key b = k)).length := by
      rw [List.count, List.countP_map, List.countP_eq_length_filter, List.filter_filter]
      refine congrArg List.length (List.filter_congr fun b _ => ?_)
      rw [Bool.and_comm]
      rfl
    exact hlen ▸ hfew k
  have hsub : ((l.filter q).map key).toFinset ⊆ ((l.filter p).map key).toFinset := by
    intro k hk
    obtain ⟨b, hb, rfl⟩ := List.mem_map.mp (List.mem_toFinset.mp hk)
    obtain ⟨hmem, hq⟩ := List.mem_filter.mp hb
    obtain ⟨b', hmem', hp, hkey⟩ := hcover b hmem hq
    exact List.mem_toFinset.mpr (List.mem_map.mpr ⟨b', List.mem_filter.mpr ⟨hmem', hp⟩, hkey⟩)
  calc (l.filter q).length
      = ((l.filter q).map key).length := (List.length_map _).symm
    _ = ∑ k ∈ ((l.filter q).map key).toFinset, ((l.filter q).map key).count k :=
        (List.sum_toFinset_count_eq_length _).symm
    _ ≤ ((l.filter q).map key).toFinset.card * n := Finset.sum_le_card_nsmul _ _ n fun k _ => hcount k
    _ ≤ ((l.filter p).map key).toFinset.card * n := Nat.mul_le_mul_right n (Finset.card_le_card hsub)
    _ ≤ ((l.filter p).map key).length * n := Nat.mul_le_mul_right n (List.toFinset_card_le _)
    _ = n * (l.filter p).length := by rw [List.length_map, Nat.mul_comm]

end Interaction
