import Mathlib.Data.List.Basic

namespace SimpleRemote.Signaling

structure Window where
  start : Int
  count : Nat
  deriving DecidableEq

structure AllowResult where
  ok : Bool
  next : Window
  deriving DecidableEq

def allow (state : Option Window) (now : Int) (limit : Nat) (windowMs : Int) : AllowResult :=
  match state with
  | none => ⟨1 ≤ limit, ⟨now, 1⟩⟩
  | some w =>
      if windowMs ≤ now - w.start then ⟨1 ≤ limit, ⟨now, 1⟩⟩
      else ⟨w.count + 1 ≤ limit, ⟨w.start, w.count + 1⟩⟩

-- one call of `RateLimit.hit`: when it came, what it answered and the window it stored
structure Hit where
  now : Int
  ok : Bool
  next : Window
  deriving DecidableEq

def hit (limit : Nat) (windowMs : Int) (stored : Option Window) (now : Int) : Hit :=
  ⟨now, (allow stored now limit windowMs).ok, (allow stored now limit windowMs).next⟩

def hits (limit : Nat) (windowMs : Int) : Option Window → List Int → List Hit
  | _, [] => []
  | stored, now :: times =>
      hit limit windowMs stored now ::
        hits limit windowMs (some (hit limit windowMs stored now).next) times

def storedAfter (limit : Nat) (windowMs : Int) (stored : Option Window) (times : List Int) :
    Option Window :=
  times.foldl (fun stored now => some (hit limit windowMs stored now).next) stored

def Hit.opens (h : Hit) : Bool := h.next = ⟨h.now, 1⟩

def Hit.inWindow (start : Int) (h : Hit) : Bool := h.next.start = start

def Hit.okWithin (a windowMs : Int) (h : Hit) : Bool := h.ok && (a ≤ h.now && h.now < a + windowMs)

section
variable {limit : Nat} {windowMs : Int} {stored : Option Window} {now : Int} {times : List Int}

abbrev Expired (windowMs : Int) (stored : Option Window) (now : Int) : Prop :=
  ∀ w, stored = some w → w.start + windowMs ≤ now

theorem hit_opens (h : Expired windowMs stored now) :
    hit limit windowMs stored now = ⟨now, 1 ≤ limit, ⟨now, 1⟩⟩ := by
  cases stored with
  | none => rfl
  | some w =>
      have hpast : windowMs ≤ now - w.start := by
        have := h w rfl
        omega
      simp [hit, allow, hpast]

theorem hit_counts {w : Window} (h : now < w.start + windowMs) :
    hit limit windowMs (some w) now =
      ⟨now, w.count + 1 ≤ limit, ⟨w.start, w.count + 1⟩⟩ := by
  have hwithin : ¬ windowMs ≤ now - w.start := by omega
  simp [hit, allow, hwithin]

theorem expired_or (windowMs : Int) (stored : Option Window) (now : Int) :
    Expired windowMs stored now ∨ ∃ w, stored = some w ∧ now < w.start + windowMs := by
  cases stored with
  | none =>
      left
      intro w hw
      cases hw
  | some w =>
      by_cases hwithin : now < w.start + windowMs
      · exact .inr ⟨w, rfl, hwithin⟩
      · left
        intro w' hw
        cases hw
        exact Int.not_lt.mp hwithin

theorem hit_ok (stored : Option Window) (now : Int) :
    (hit limit windowMs stored now).ok =
      decide ((hit limit windowMs stored now).next.count ≤ limit) := by
  rcases expired_or windowMs stored now with hopens | ⟨w, rfl, hcounts⟩
  · rw [hit_opens hopens]
  · rw [hit_counts hcounts]

theorem hits_ok {h : Hit} (hmem : h ∈ hits limit windowMs stored times) :
    h.ok = decide (h.next.count ≤ limit) := by
  induction times generalizing stored with
  | nil => cases hmem
  | cons now times ih =>
      rcases List.mem_cons.mp hmem with rfl | hmem
      · exact hit_ok stored now
      · exact ih hmem

theorem hits_start_ge {a : Int} (hstored : ∀ w, stored = some w → a ≤ w.start)
    (hafter : ∀ t ∈ times, a ≤ t) : ∀ h ∈ hits limit windowMs stored times, a ≤ h.next.start := by
  induction times generalizing stored with
  | nil =>
      intro h hmem
      cases hmem
  | cons now times ih =>
      have hnext : a ≤ (hit limit windowMs stored now).next.start := by
        rcases expired_or windowMs stored now with hopens | ⟨w, rfl, hcounts⟩
        · rw [hit_opens hopens]
          exact hafter now (List.mem_cons_self ..)
        · rw [hit_counts hcounts]
          exact hstored w rfl
      intro h hmem
      rcases List.mem_cons.mp hmem with rfl | hmem
      · exact hnext
      · refine ih ?_ (fun t ht => hafter t (List.mem_cons_of_mem _ ht)) h hmem
        intro w hw
        cases hw
        exact hnext

-- the calls that the window started at `start` has counted so far
def rank (start : Int) : Option Window → Nat
  | none => 0
  | some w => if w.start = start then w.count else 0

abbrev Precedes (stored : Option Window) (times : List Int) : Prop :=
  ∀ w, stored = some w → ∀ t ∈ times, w.start ≤ t

theorem precedes_hit (limit : Nat) (windowMs : Int) (hsorted : (now :: times).Pairwise (· ≤ ·))
    (hstored : Precedes stored (now :: times)) :
    Precedes (some (hit limit windowMs stored now).next) times := by
  intro w hw t ht
  cases hw
  rcases expired_or windowMs stored now with hopens | ⟨w, rfl, hcounts⟩
  · rw [hit_opens hopens]
    exact (List.pairwise_cons.mp hsorted).1 t ht
  · rw [hit_counts hcounts]
    exact hstored w rfl t (List.mem_cons_of_mem _ ht)

theorem rank_expired {start : Int} (h : Expired windowMs stored now) (hwindow : 1 ≤ windowMs)
    (hnow : now ≤ start) : rank start stored = 0 := by
  cases stored with
  | none => rfl
  | some w =>
      have := h w rfl
      exact if_neg (by omega)

theorem filter_inWindow_nil {start a : Int} (hlt : start < a)
    (hstored : ∀ w, stored = some w → a ≤ w.start) (hafter : ∀ t ∈ times, a ≤ t) :
    (hits limit windowMs stored times).filter (Hit.inWindow start) = [] := by
  apply List.filter_eq_nil_iff.mpr
  intro h hmem
  have hge := hits_start_ge hstored hafter h hmem
  have hne : h.next.start ≠ start := by omega
  simpa [Hit.inWindow] using hne

theorem counts_inWindow (limit : Nat) (hwindow : 1 ≤ windowMs) (hsorted : times.Pairwise (· ≤ ·))
    (hstored : Precedes stored times) (start : Int) :
    ((hits limit windowMs stored times).filter (Hit.inWindow start)).map (fun h => h.next.count) =
      List.range' (rank start stored + 1)
        ((hits limit windowMs stored times).filter (Hit.inWindow start)).length := by
  induction times generalizing stored with
  | nil => rfl
  | cons now times ih =>
      obtain ⟨hafter, hsorted'⟩ := List.pairwise_cons.mp hsorted
      have hrest := ih hsorted'
        (precedes_hit limit windowMs hsorted hstored)
      rw [hits]
      rcases expired_or windowMs stored now with hopens | ⟨w, rfl, hcounts⟩
      · rw [hit_opens hopens] at hrest ⊢
        by_cases hstart : now = start
        · have hin : Hit.inWindow start ⟨now, 1 ≤ limit, ⟨now, 1⟩⟩ = true := decide_eq_true hstart
          rw [List.filter_cons_of_pos hin, List.map_cons, hrest,
            rank_expired hopens hwindow (Int.le_of_eq hstart)]
          simp [rank, hstart, List.range'_succ]
        · have hout : ¬ Hit.inWindow start ⟨now, 1 ≤ limit, ⟨now, 1⟩⟩ = true :=
            fun h => hstart (of_decide_eq_true h)
          rw [List.filter_cons_of_neg hout]
          rcases Int.lt_or_gt_of_ne hstart with hbefore | hlater
          · rw [rank_expired hopens hwindow (Int.le_of_lt hbefore), hrest]
            simp [rank, hstart]
          · rw [filter_inWindow_nil hlater (fun w hw => by cases hw; exact Int.le_refl _) hafter]
            rfl
      · rw [hit_counts hcounts] at hrest ⊢
        by_cases hstart : w.start = start
        · have hin : Hit.inWindow start ⟨now, w.count + 1 ≤ limit, ⟨w.start, w.count + 1⟩⟩ = true :=
            decide_eq_true hstart
          rw [List.filter_cons_of_pos hin, List.map_cons, hrest]
          simp [rank, hstart, List.range'_succ]
        · have hout :
              ¬ Hit.inWindow start ⟨now, w.count + 1 ≤ limit, ⟨w.start, w.count + 1⟩⟩ = true :=
            fun h => hstart (of_decide_eq_true h)
          rw [List.filter_cons_of_neg hout, hrest]
          simp [rank, hstart]

theorem oks_inWindow (hwindow : 1 ≤ windowMs) (hsorted : times.Pairwise (· ≤ ·)) (start : Int) :
    ((hits limit windowMs none times).filter (Hit.inWindow start)).map Hit.ok =
      (List.range ((hits limit windowMs none times).filter (Hit.inWindow start)).length).map
        fun i => decide (i < limit) := by
  have hnone : Precedes none times := fun w hw => by cases hw
  have hcounts := counts_inWindow limit hwindow hsorted hnone start
  have hoks : ((hits limit windowMs none times).filter (Hit.inWindow start)).map Hit.ok =
      (((hits limit windowMs none times).filter (Hit.inWindow start)).map
        (fun h => h.next.count)).map (fun count => decide (count ≤ limit)) := by
    rw [List.map_map]
    exact List.map_congr_left fun h hmem => hits_ok (List.mem_filter.mp hmem).1
  rw [hoks, hcounts, rank, List.range'_eq_map_range, List.map_map]
  refine List.map_congr_left fun i _ => ?_
  simp only [Function.comp_apply, decide_eq_decide]
  omega

abbrev Counted (stored : Option Window) : Prop := ∀ w, stored = some w → 1 ≤ w.count

theorem counted_hit (limit : Nat) (windowMs : Int) (stored : Option Window) (now : Int) :
    Counted (some (hit limit windowMs stored now).next) := by
  intro w hw
  cases hw
  rcases expired_or windowMs stored now with hopens | ⟨w, rfl, hcounts⟩
  · have hcount : (hit limit windowMs stored now).next.count = 1 := by rw [hit_opens hopens]
    exact Nat.le_of_eq hcount.symm
  · rw [hit_counts hcounts]
    exact Nat.le_add_left 1 _

theorem not_opens {w : Window} {ok : Bool} (h : 1 ≤ w.count) :
    Hit.opens ⟨now, ok, ⟨w.start, w.count + 1⟩⟩ = false := by
  have hne : (⟨w.start, w.count + 1⟩ : Window) ≠ ⟨now, 1⟩ := by
    intro heq
    have := congrArg Window.count heq
    dsimp only at this
    omega
  exact decide_eq_false hne

def starts (limit : Nat) (windowMs : Int) (stored : Option Window) (times : List Int) : List Int :=
  ((hits limit windowMs stored times).filter Hit.opens).map Hit.now

theorem starts_expired (h : Expired windowMs stored now) :
    starts limit windowMs stored (now :: times) =
      now :: starts limit windowMs (some ⟨now, 1⟩) times := by
  have hopens : Hit.opens ⟨now, 1 ≤ limit, ⟨now, 1⟩⟩ = true := decide_eq_true rfl
  rw [starts, hits, hit_opens h, List.filter_cons_of_pos hopens, List.map_cons]
  rfl

theorem starts_counts {w : Window} (h : now < w.start + windowMs) (hcount : 1 ≤ w.count) :
    starts limit windowMs (some w) (now :: times) =
      starts limit windowMs (some ⟨w.start, w.count + 1⟩) times := by
  rw [starts, hits, hit_counts h, List.filter_cons_of_neg (by simp [not_opens hcount])]
  rfl

theorem starts_ge (hwindow : 1 ≤ windowMs) (hcounted : Counted stored) :
    ∀ s ∈ starts limit windowMs stored times, Expired windowMs stored s := by
  induction times generalizing stored with
  | nil =>
      intro s hmem
      cases hmem
  | cons now times ih =>
      intro s hmem
      have hnext := counted_hit limit windowMs stored now
      rcases expired_or windowMs stored now with hopens | ⟨w, rfl, hcounts⟩
      · rw [starts_expired hopens] at hmem
        rw [hit_opens hopens] at hnext
        rcases List.mem_cons.mp hmem with rfl | hmem
        · exact hopens
        · intro w hw
          have hlater := ih hnext s hmem ⟨now, 1⟩ rfl
          have := hopens w hw
          dsimp only at hlater
          omega
      · rw [starts_counts hcounts (hcounted w rfl)] at hmem
        rw [hit_counts hcounts] at hnext
        intro w' hw
        cases hw
        exact ih hnext s hmem ⟨w.start, w.count + 1⟩ rfl

theorem starts_apart (hwindow : 1 ≤ windowMs) (hcounted : Counted stored) :
    (starts limit windowMs stored times).Pairwise fun a b => a + windowMs ≤ b := by
  induction times generalizing stored with
  | nil => exact .nil
  | cons now times ih =>
      have hnext := counted_hit limit windowMs stored now
      rcases expired_or windowMs stored now with hopens | ⟨w, rfl, hcounts⟩
      · rw [starts_expired hopens]
        rw [hit_opens hopens] at hnext
        apply List.pairwise_cons.mpr
        constructor
        · intro s hmem
          exact starts_ge hwindow hnext s hmem ⟨now, 1⟩ rfl
        · exact ih hnext
      · rw [starts_counts hcounts (hcounted w rfl)]
        rw [hit_counts hcounts] at hnext
        exact ih hnext

theorem starts_opened {h : Hit} (hcounted : Counted stored)
    (hmem : h ∈ hits limit windowMs stored times) :
    (∃ w, stored = some w ∧ h.next.start = w.start) ∨
      h.next.start ∈ starts limit windowMs stored times := by
  induction times generalizing stored with
  | nil => cases hmem
  | cons now times ih =>
      have hnext := counted_hit limit windowMs stored now
      rcases expired_or windowMs stored now with hopens | ⟨w, rfl, hcounts⟩
      · rw [hits, hit_opens hopens] at hmem
        rw [hit_opens hopens] at hnext
        rw [starts_expired hopens]
        right
        rcases List.mem_cons.mp hmem with rfl | hmem
        · exact List.mem_cons_self ..
        · rcases ih hnext hmem with ⟨w, hw, hstart⟩ | hlater
          · cases hw
            rw [hstart]
            exact List.mem_cons_self ..
          · exact List.mem_cons_of_mem _ hlater
      · rw [hits, hit_counts hcounts] at hmem
        rw [hit_counts hcounts] at hnext
        rw [starts_counts hcounts (hcounted w rfl)]
        rcases List.mem_cons.mp hmem with rfl | hmem
        · exact .inl ⟨w, rfl, rfl⟩
        · rcases ih hnext hmem with ⟨w', hw, hstart⟩ | hlater
          · cases hw
            exact .inl ⟨w, rfl, hstart⟩
          · exact .inr hlater

def okCount (limit : Nat) (windowMs a : Int) (stored : Option Window) (times : List Int) : Nat :=
  (hits limit windowMs stored times).countP (Hit.okWithin a windowMs)

def remaining (limit : Nat) : Option Window → Nat
  | none => 0
  | some w => limit - w.count

section
variable {a : Int}

theorem okCount_cons : okCount limit windowMs a stored (now :: times) =
    okCount limit windowMs a (some (hit limit windowMs stored now).next) times +
      if (hit limit windowMs stored now).okWithin a windowMs then 1 else 0 := by
  rw [okCount, hits, List.countP_cons]
  rfl

theorem okWithin_counts (limit : Nat) (a : Int) {w : Window} (h : now < w.start + windowMs) :
    remaining limit (some (hit limit windowMs (some w) now).next) +
        (if (hit limit windowMs (some w) now).okWithin a windowMs then 1 else 0) ≤
      remaining limit (some w) := by
  rw [hit_counts h]
  split
  · rename_i hok
    have hle : w.count + 1 ≤ limit := of_decide_eq_true (Bool.and_eq_true_iff.mp hok).1
    dsimp only [remaining]
    omega
  · dsimp only [remaining]
    omega

theorem okCount_beyond (hbeyond : ∀ t ∈ times, a + windowMs ≤ t) :
    okCount limit windowMs a stored times = 0 := by
  induction times generalizing stored with
  | nil => rfl
  | cons now times ih =>
      have hnow := hbeyond now (List.mem_cons_self ..)
      rw [okCount_cons, ih fun t ht => hbeyond t (List.mem_cons_of_mem _ ht)]
      have hout : (hit limit windowMs stored now).okWithin a windowMs = false := by
        have hlt : ¬ now < a + windowMs := by omega
        simp [Hit.okWithin, hit, hlt]
      rw [hout]
      rfl

theorem okCount_started (limit : Nat) (windowMs : Int) {w : Window} (hstart : a ≤ w.start)
    (hsorted : times.Pairwise (· ≤ ·)) :
    okCount limit windowMs a (some w) times ≤ remaining limit (some w) := by
  induction times generalizing w with
  | nil => exact Nat.zero_le _
  | cons now times ih =>
      obtain ⟨hafter, hsorted'⟩ := List.pairwise_cons.mp hsorted
      rcases expired_or windowMs (some w) now with hopens | ⟨_, ⟨⟩, hcounts⟩
      · have hpast := hopens w rfl
        rw [okCount_beyond]
        · exact Nat.zero_le _
        · intro t ht
          rcases List.mem_cons.mp ht with rfl | ht
          · omega
          · have := hafter t ht
            omega
      · have hstep := okWithin_counts limit a hcounts
        have hstart' : a ≤ (hit limit windowMs (some w) now).next.start := by
          rw [hit_counts hcounts]
          exact hstart
        have hrest := ih hstart' hsorted'
        rw [okCount_cons]
        omega

theorem okCount_inside (windowMs : Int) (stored : Option Window) (hlimit : 1 ≤ limit)
    (hsorted : times.Pairwise (· ≤ ·)) (hinside : ∀ t ∈ times, a ≤ t) :
    okCount limit windowMs a stored times ≤ remaining limit stored + limit := by
  induction times generalizing stored with
  | nil => exact Nat.zero_le _
  | cons now times ih =>
      obtain ⟨-, hsorted'⟩ := List.pairwise_cons.mp hsorted
      rw [okCount_cons]
      rcases expired_or windowMs stored now with hopens | ⟨w, rfl, hcounts⟩
      · have hstart : a ≤ (⟨now, 1⟩ : Window).start := hinside now (List.mem_cons_self ..)
        have hrest := okCount_started limit windowMs hstart hsorted'
        have hremaining : remaining limit (some ⟨now, 1⟩) = limit - 1 := rfl
        rw [hit_opens hopens]
        dsimp only
        split <;> omega
      · have hstep := okWithin_counts limit a hcounts
        have hrest : okCount limit windowMs a (some (hit limit windowMs (some w) now).next) times ≤
            remaining limit _ + limit := ih _ hsorted'
              fun t ht => hinside t (List.mem_cons_of_mem _ ht)
        omega

theorem remaining_le (hcounted : Counted stored) (hlimit : 1 ≤ limit) :
    remaining limit stored + 1 ≤ limit := by
  cases stored with
  | none => simpa [remaining] using hlimit
  | some w =>
      have := hcounted w rfl
      dsimp only [remaining]
      omega

theorem okCount_le (hlimit : 1 ≤ limit) (hcounted : Counted stored)
    (hsorted : times.Pairwise (· ≤ ·)) : okCount limit windowMs a stored times ≤ 2 * limit := by
  induction times generalizing stored with
  | nil => exact Nat.zero_le _
  | cons now times ih =>
      obtain ⟨hafter, hsorted'⟩ := List.pairwise_cons.mp hsorted
      by_cases hbefore : now < a
      · have hout : (hit limit windowMs stored now).okWithin a windowMs = false := by
          have hlt : ¬ a ≤ now := by omega
          simp [Hit.okWithin, hit, hlt]
        rw [okCount_cons, hout]
        exact ih (counted_hit limit windowMs stored now) hsorted'
      · have hinside : ∀ t ∈ now :: times, a ≤ t := by
          intro t ht
          rcases List.mem_cons.mp ht with rfl | ht
          · omega
          · have := hafter t ht
            omega
        have hbound := okCount_inside windowMs stored hlimit hsorted hinside
        have hremaining := remaining_le hcounted hlimit
        omega

end

end

-- what the calls on one bucket at `times` are answered
structure FixedWindow (limit : Nat) (windowMs : Int) (times : List Int) : Prop where
  firstOfWindow : ∀ start,
    ((hits limit windowMs none times).filter (Hit.inWindow start)).map Hit.ok =
      (List.range ((hits limit windowMs none times).filter (Hit.inWindow start)).length).map
        fun i => decide (i < limit)
  opened : ∀ h ∈ hits limit windowMs none times, h.next.start ∈ starts limit windowMs none times
  apart : (starts limit windowMs none times).Pairwise fun a b => a + windowMs ≤ b
  sliding : ∀ a, okCount limit windowMs a none times ≤ 2 * limit
  silent : ∀ now, Expired windowMs (storedAfter limit windowMs none times) now →
    (hit limit windowMs (storedAfter limit windowMs none times) now).ok = true
  denied : ∀ now, (hit limit windowMs (storedAfter limit windowMs none times) now).ok = false →
    ∃ w, storedAfter limit windowMs none times = some w ∧
      (hit limit windowMs (storedAfter limit windowMs none times) now).next.start = w.start

theorem fixed_window {limit : Nat} {windowMs : Int} (hlimit : 1 ≤ limit) (hwindow : 1 ≤ windowMs)
    {times : List Int} (hsorted : times.Pairwise (· ≤ ·)) : FixedWindow limit windowMs times := by
  have hcounted : Counted none := fun w hw => by cases hw
  have hopens {stored : Option Window} {now : Int} (h : Expired windowMs stored now) :
      (hit limit windowMs stored now).ok = true := by
    rw [hit_opens h]
    exact decide_eq_true hlimit
  constructor
  case firstOfWindow => exact oks_inWindow hwindow hsorted
  case opened =>
    intro h hmem
    rcases starts_opened hcounted hmem with ⟨w, hw, -⟩ | hstart
    · cases hw
    · exact hstart
  case apart => exact starts_apart hwindow hcounted
  case sliding =>
    intro a
    exact okCount_le hlimit hcounted hsorted
  case silent =>
    intro now hexpired
    exact hopens hexpired
  case denied =>
    intro now hdenied
    rcases expired_or windowMs (storedAfter limit windowMs none times) now with
      hexpired | ⟨w, hw, hlt⟩
    · rw [hopens hexpired] at hdenied
      cases hdenied
    · refine ⟨w, hw, ?_⟩
      rw [hw, hit_counts hlt]

theorem sample_fixed_window : FixedWindow 3 600 [1, 2, 3, 10, 600, 601] :=
  fixed_window (by decide) (by decide) (by decide)

example : (hits 3 600 none [1, 2, 3, 10, 600, 601]).map Hit.ok =
    [true, true, true, false, false, true] := by
  decide

end SimpleRemote.Signaling
