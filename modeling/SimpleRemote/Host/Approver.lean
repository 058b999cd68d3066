import SimpleRemote.Library.Runs
import SimpleRemote.Transport.Effects

namespace SimpleRemote
open ByteCodec Interaction

inductive TryRecvError where
  | empty
  | disconnected
  deriving DecidableEq

-- what `answer` does besides its own state: standard output, the clock and the two channels
inductive AskOp where
  | say (text : Text)
  | now
  | ask
  | tryRecv
  deriving DecidableEq

@[reducible] def AskOp.Res : AskOp → Type
  | .say _ => Unit
  | .now => Instant
  | .ask => Except Unit Unit
  | .tryRecv => Except TryRecvError (Instant × Option Text)

@[reducible] def AskSig : Sig := ⟨AskOp, AskOp.Res⟩

abbrev AskM (α : Type) := Prog AskSig α

-- Unicode White_Space
def isWhitespace (c : Char) : Bool :=
  let n := c.toNat
  decide (9 ≤ n ∧ n ≤ 13) || [0x20, 0x85, 0xa0, 0x1680, 0x2028, 0x2029, 0x202f, 0x205f, 0x3000].contains n ||
    decide (0x2000 ≤ n ∧ n ≤ 0x200a)

def trim (line : Text) : Text :=
  ((line.dropWhile isWhitespace).reverse.dropWhile isWhitespace).reverse

def saysYes (line : Text) : Bool := trim line == ['y']

structure Approver where
  reading : Bool
  askedAt : Option Instant
  deriving DecidableEq

namespace Approver

def spawn : Approver := ⟨false, none⟩

def question (req : ApprovalRequest) : Text :=
  "APPROVE? ".toList ++ req.viewerName ++ " ".toList ++ req.viewerKeyFingerprint ++ " [y/N]".toList

def takeAnswer (askedAt : Instant) (again : Approver → AskM (Option Bool × Approver))
    (ap : Approver) : AskM (Option Bool × Approver) := do
  match ← Prog.call (S := AskSig) .tryRecv with
  | .ok (at_, line) =>
      if at_ < askedAt then again { ap with reading := false }
      else return (some (line.any saysYes), { ap with reading := false })
  | .error .empty => return (none, ap)
  | .error .disconnected => return (some false, ap)

def answerLoop (askedAt : Instant) : Nat → Approver → AskM (Option Bool × Approver)
  | 0, _ => .halt
  | fuel + 1, ap =>
      if ap.reading then takeAnswer askedAt (answerLoop askedAt fuel) ap
      else do
        match ← Prog.call (S := AskSig) .ask with
        | .error () => return (some false, ap)
        | .ok () => takeAnswer askedAt (answerLoop askedAt fuel) { ap with reading := true }

def answer (fuel : Nat) (req : ApprovalRequest) (ap : Approver) :
    AskM (Option Bool × Approver) :=
  match ap.askedAt with
  | some askedAt => answerLoop askedAt fuel ap
  | none => do
      Prog.call (S := AskSig) (.say (question req))
      let now ← Prog.call (S := AskSig) .now
      answerLoop now fuel { ap with askedAt := some now }

def endQuestion (ap : Approver) : Approver := { ap with askedAt := none }

end Approver

-- a line and the instant at which the user entered it
structure Entry where
  text : Text
  entered : Instant
  deriving DecidableEq

-- the reader thread: it waits to be asked, is in `read_line`, has a line, has also read the clock
inductive Reader where
  | waiting
  | reading
  | got (line : Option Entry)
  | stamped (at_ : Instant) (line : Option Entry)
  deriving DecidableEq

-- the approver with its thread and the user; `printed` is when the last question was shown, `taken`
-- the last line handed to `answer`
structure Desk where
  clock : Instant
  input : List Entry
  asks : Nat
  reader : Reader
  answers : List (Instant × Option Entry)
  approver : Approver
  calling : Option (AskM (Option Bool × Approver))
  printed : Option Instant
  taken : Option Entry

inductive DeskEvent where
  | tick (d : Duration)
  | enter (text : Text)
  | readLine
  | readNothing
  | thread
  | call (fuel : Nat) (req : ApprovalRequest)
  | main
  | endQuestion
  deriving DecidableEq

namespace Desk

def start : Desk where
  clock := 0
  input := []
  asks := 0
  reader := .waiting
  answers := []
  approver := .spawn
  calling := none
  printed := none
  taken := none

def threadStep (s : Desk) : Desk :=
  match s.reader with
  | .waiting => if 0 < s.asks then { s with asks := s.asks - 1, reader := .reading } else s
  | .reading => s
  | .got line => { s with reader := .stamped s.clock line }
  | .stamped at_ line => { s with reader := .waiting, answers := s.answers ++ [(at_, line)] }

def perform (s : Desk) : (o : AskOp) → (AskOp.Res o → AskM (Option Bool × Approver)) → Desk
  | .say _, k => { s with printed := some s.clock, calling := some (k ()) }
  | .now, k => { s with calling := some (k s.clock) }
  | .ask, k => { s with asks := s.asks + 1, calling := some (k (.ok ())) }
  | .tryRecv, k =>
      match s.answers with
      | [] => { s with calling := some (k (.error .empty)) }
      | (at_, line) :: rest => { s with
          answers := rest
          taken := line
          calling := some (k (.ok (at_, line.map Entry.text))) }

-- an event that is not possible does nothing
def next (s : Desk) : DeskEvent → Desk
  | .tick d => { s with clock := s.clock + d }
  | .enter text => { s with input := s.input ++ [⟨text, s.clock⟩] }
  | .readLine =>
      match s.reader, s.input with
      | .reading, line :: rest => { s with reader := .got (some line), input := rest }
      | _, _ => s
  | .readNothing =>
      match s.reader with
      | .reading => { s with reader := .got none }
      | _ => s
  | .thread => s.threadStep
  | .call fuel req =>
      match s.calling with
      | none => { s with calling := some (s.approver.answer fuel req) }
      | some _ => s
  | .main =>
      match s.calling with
      | some (.ret (_, ap)) => { s with calling := none, approver := ap }
      | some (.act o k) => s.perform o k
      | _ => s
  | .endQuestion =>
      match s.calling with
      | none => { s with approver := s.approver.endQuestion }
      | some _ => s

-- the line that `answer` takes for a yes was entered once its question was on the screen
def ApprovedFresh (s : Desk) : Prop :=
  ∀ ap, s.calling = some (.ret (some true, ap)) →
    ∃ printed line, s.printed = some printed ∧ s.taken = some line ∧ printed ≤ line.entered

-- lines that the user has entered and the thread has not put an instant on
def unread (s : Desk) : List Entry :=
  s.input ++ match s.reader with
    | .got (some line) => [line]
    | _ => []

-- and those with their instant that `answer` has not taken
def untaken (s : Desk) : List (Instant × Entry) :=
  (s.answers.filterMap fun x => x.2.map fun line => (x.1, line)) ++
    match s.reader with
    | .stamped at_ (some line) => [(at_, line)]
    | _ => []

-- no yes that is older than the question shown at `printed` can pass for an answer to one asked
-- at `askedAt`
structure Sifts (s : Desk) (printed askedAt : Instant) : Prop where
  unread : ∀ line ∈ s.unread, saysYes line.text = true → printed ≤ line.entered
  untaken : ∀ x ∈ s.untaken, saysYes x.2.text = true → x.1 < askedAt ∨ printed ≤ x.2.entered

-- the event with which `answer` reads the instant of a new question
def stampsQuestion (s : Desk) (e : DeskEvent) : Bool :=
  match e, s.calling with
  | .main, some (.act .now _) => true
  | _, _ => false

def Sifted (s : Desk) (e : DeskEvent) : Prop :=
  s.stampsQuestion e = true → ∀ printed ∈ s.printed, s.Sifts printed s.clock

def Guarded (s : Desk) (askedAt : Instant) : Prop :=
  ∃ printed, s.printed = some printed ∧ printed ≤ s.clock ∧ s.Sifts printed askedAt

end Desk

-- only a yes with an instant from `askedAt` on makes the rest of the call approve
def Heeds (askedAt : Instant) : AskM (Option Bool × Approver) → Prop
  | .ret (r, ap) => r ≠ some true ∧ ap.askedAt = some askedAt
  | .halt => True
  | .act .ask k => ∀ r, Heeds askedAt (k r)
  | .act .tryRecv k => ∀ r, Heeds askedAt (k r) ∨ ∃ at_ line ap, r = .ok (at_, some line) ∧
      askedAt ≤ at_ ∧ saysYes line = true ∧ k r = .ret (some true, ap) ∧ ap.askedAt = some askedAt
  | .act (.say _) _ => False
  | .act .now _ => False

namespace Approver
variable {askedAt : Instant} {ap : Approver}

theorem takeAnswer_heeds {again : Approver → AskM (Option Bool × Approver)}
    (hagain : ∀ ap : Approver, ap.askedAt = some askedAt → Heeds askedAt (again ap))
    (hap : ap.askedAt = some askedAt) : Heeds askedAt (takeAnswer askedAt again ap) := by
  rintro (_ | ⟨at_, line⟩)
  case error e => cases e <;> exact .inl ⟨nofun, hap⟩
  dsimp only [Prog.bind]
  split
  · exact .inl (hagain _ hap)
  rename_i hlt
  cases hyes : line.any saysYes with
  | false => exact .inl ⟨nofun, hap⟩
  | true =>
      obtain ⟨text, rfl, htext⟩ := (Option.any_eq_true _ _).mp hyes
      exact .inr ⟨at_, text, _, rfl, Nat.le_of_not_lt hlt, htext, rfl, hap⟩

theorem answerLoop_heeds (fuel : Nat) (hap : ap.askedAt = some askedAt) :
    Heeds askedAt (answerLoop askedAt fuel ap) := by
  induction fuel generalizing ap with
  | zero => trivial
  | succ fuel ih =>
      rw [answerLoop]
      split
      · exact takeAnswer_heeds (fun _ => ih) hap
      · rintro (_ | _)
        · exact ⟨nofun, hap⟩
        · exact takeAnswer_heeds (fun _ => ih) hap

end Approver

namespace Desk

-- where a call of `answer` is
inductive Calling (s : Desk) : Option (AskM (Option Bool × Approver)) → Prop
  | idle (h : ∀ askedAt ∈ s.approver.askedAt, s.Guarded askedAt) : Calling s none
  | asking {text k k'} (hk : k () = .act .now k') (h : ∀ askedAt, Heeds askedAt (k' askedAt)) :
      Calling s (some (.act (.say text) k))
  | stamping {k printed} (hprinted : s.printed = some printed) (hle : printed ≤ s.clock)
      (h : ∀ askedAt, Heeds askedAt (k askedAt)) : Calling s (some (.act .now k))
  | heeding {askedAt q} (hguarded : s.Guarded askedAt) (h : Heeds askedAt q) : Calling s (some q)
  | approved {askedAt ap printed line} (hguarded : s.Guarded askedAt)
      (hap : ap.askedAt = some askedAt) (hprinted : s.printed = some printed)
      (htaken : s.taken = some line) (hfresh : printed ≤ line.entered) :
      Calling s (some (.ret (some true, ap)))

theorem Calling.approvedFresh {s : Desk} (h : s.Calling s.calling) : s.ApprovedFresh := by
  intro ap hcalling
  rw [hcalling] at h
  cases h with
  | heeding _ hheeds => exact absurd rfl hheeds.1
  | approved _ _ hprinted htaken hfresh => exact ⟨_, _, hprinted, htaken, hfresh⟩

-- what the user and the thread do while `answer` stands still
structure Aside (s s' : Desk) : Prop where
  approver : s'.approver = s.approver
  printed : s'.printed = s.printed
  taken : s'.taken = s.taken
  clock : s.clock ≤ s'.clock
  sifts : ∀ printed askedAt, printed ≤ s.clock → s.Sifts printed askedAt → s'.Sifts printed askedAt

theorem Aside.guarded {s s' : Desk} (ha : Aside s s') {askedAt : Instant}
    (h : s.Guarded askedAt) : s'.Guarded askedAt := by
  obtain ⟨printed, hprinted, hle, hsifts⟩ := h
  exact ⟨printed, ha.printed.trans hprinted, hle.trans ha.clock, ha.sifts _ _ hle hsifts⟩

theorem Aside.calling {s s' : Desk} (ha : Aside s s') {q : Option (AskM (Option Bool × Approver))}
    (h : s.Calling q) : s'.Calling q := by
  cases h with
  | idle h =>
      refine .idle fun askedAt haskedAt => ?_
      rw [ha.approver] at haskedAt
      exact ha.guarded (h askedAt haskedAt)
  | asking hk h => exact .asking hk h
  | stamping hprinted hle h => exact .stamping (ha.printed.trans hprinted) (hle.trans ha.clock) h
  | heeding hguarded h => exact .heeding (ha.guarded hguarded) h
  | approved hguarded hap hprinted htaken hfresh =>
      exact .approved (ha.guarded hguarded) hap (ha.printed.trans hprinted)
        (ha.taken.trans htaken) hfresh

theorem Aside.refl (s : Desk) : Aside s s := ⟨rfl, rfl, rfl, le_refl _, fun _ _ _ => id⟩

theorem aside_tick (s : Desk) (d : Duration) : Aside s { s with clock := s.clock + d } :=
  ⟨rfl, rfl, rfl, Nat.le_add_right _ _, fun _ _ _ h => ⟨h.unread, h.untaken⟩⟩

theorem aside_enter (s : Desk) (text : Text) :
    Aside s { s with input := s.input ++ [⟨text, s.clock⟩] } where
  approver := rfl
  printed := rfl
  taken := rfl
  clock := le_refl _
  sifts printed askedAt hle h := by
    refine ⟨fun line hline hyes => ?_, h.untaken⟩
    simp only [unread, List.append_assoc, List.mem_append, List.mem_singleton] at hline
    obtain hline | rfl | hline := hline
    · exact h.unread line (List.mem_append_left _ hline) hyes
    · exact hle
    · exact h.unread line (List.mem_append_right _ hline) hyes

theorem aside_readLine {s : Desk} (hreader : s.reader = .reading) {line : Entry}
    {rest : List Entry} (hinput : s.input = line :: rest) :
    Aside s { s with reader := .got (some line), input := rest } where
  approver := rfl
  printed := rfl
  taken := rfl
  clock := le_refl _
  sifts printed askedAt hle h := by
    have hunread := h.unread
    have huntaken := h.untaken
    rw [unread, hinput, hreader] at hunread
    rw [untaken, hreader] at huntaken
    refine ⟨fun x hx => hunread x ?_, huntaken⟩
    simpa [unread, or_comm] using hx

theorem aside_readNothing {s : Desk} (hreader : s.reader = .reading) :
    Aside s { s with reader := .got none } where
  approver := rfl
  printed := rfl
  taken := rfl
  clock := le_refl _
  sifts printed askedAt hle h := by
    have hunread := h.unread
    have huntaken := h.untaken
    rw [unread, hreader] at hunread
    rw [untaken, hreader] at huntaken
    exact ⟨hunread, huntaken⟩

theorem aside_thread (s : Desk) : Aside s s.threadStep := by
  rw [threadStep]
  split
  · rename_i hreader
    split
    · refine ⟨rfl, rfl, rfl, le_refl _, fun printed askedAt hle h => ?_⟩
      have hunread := h.unread
      have huntaken := h.untaken
      rw [unread, hreader] at hunread
      rw [untaken, hreader] at huntaken
      exact ⟨hunread, huntaken⟩
    · exact .refl s
  · exact .refl s
  · rename_i line hreader
    refine ⟨rfl, rfl, rfl, le_refl _, fun printed askedAt hle h => ?_⟩
    have hunread := h.unread
    have huntaken := h.untaken
    rw [unread, hreader] at hunread
    rw [untaken, hreader] at huntaken
    refine ⟨fun x hx => hunread x (List.mem_append_left _ ?_), fun x hx hyes => ?_⟩
    · simpa [unread] using hx
    · simp only [untaken, List.mem_append] at hx
      obtain hx | hx := hx
      · exact huntaken x (List.mem_append_left _ hx) hyes
      · cases line with
        | none => cases hx
        | some line =>
            obtain rfl := List.mem_singleton.mp hx
            exact .inr (hunread line (List.mem_append_right _ (List.mem_singleton.mpr rfl)) hyes)
  · rename_i at_ line hreader
    refine ⟨rfl, rfl, rfl, le_refl _, fun printed askedAt hle h => ?_⟩
    have hunread := h.unread
    have huntaken := h.untaken
    rw [unread, hreader] at hunread
    rw [untaken, hreader] at huntaken
    refine ⟨hunread, fun x hx => huntaken x ?_⟩
    cases line <;> simpa [untaken] using hx

theorem Guarded.same {s s' : Desk} {askedAt : Instant} (h : s.Guarded askedAt)
    (hprinted : s'.printed = s.printed) (hclock : s'.clock = s.clock)
    (hunread : s'.unread = s.unread) (huntaken : s'.untaken = s.untaken) : s'.Guarded askedAt := by
  obtain ⟨printed, hp, hle, hsifts⟩ := h
  refine ⟨printed, hprinted.trans hp, hclock ▸ hle, ?_, ?_⟩
  · rw [hunread]
    exact hsifts.unread
  · rw [huntaken]
    exact hsifts.untaken

-- `answer` looks whether a line has come
theorem takes {s : Desk} {askedAt : Instant} (hguarded : s.Guarded askedAt)
    {k : Except TryRecvError (Instant × Option Text) → AskM (Option Bool × Approver)}
    (h : Heeds askedAt (.act .tryRecv k)) :
    (s.perform .tryRecv k).Calling (s.perform .tryRecv k).calling := by
  rw [perform]
  split
  · obtain hheeds | ⟨_, _, _, hr, -⟩ := h (.error .empty)
    · exact .heeding (hguarded.same rfl rfl rfl rfl) hheeds
    · cases hr
  · obtain ⟨printed, hprinted, hle, hsifts⟩ := hguarded
    rename_i at_ line rest hanswers
    have huntaken := hsifts.untaken
    rw [untaken, hanswers] at huntaken
    have hrest : Guarded { s with
        answers := rest
        taken := line
        calling := some (k (.ok (at_, line.map Entry.text))) } askedAt := by
      refine ⟨printed, hprinted, hle, hsifts.unread, fun x hx => huntaken x ?_⟩
      cases line with
      | none => exact hx
      | some line => exact List.mem_cons_of_mem _ hx
    obtain hheeds | ⟨_, _, ap, hr, hlate, hyes, hret, hap⟩ := h (.ok (at_, line.map Entry.text))
    · exact .heeding hrest hheeds
    · obtain ⟨rfl, htext⟩ := Prod.mk.inj (Except.ok.inj hr)
      obtain ⟨line, rfl, rfl⟩ := Option.map_eq_some_iff.mp htext
      have hfresh : printed ≤ line.entered := by
        obtain hlt | hfresh := huntaken (at_, line) List.mem_cons_self hyes
        · exact absurd hlt (Nat.not_lt.mpr hlate)
        · exact hfresh
      have happroved := Calling.approved hrest hap hprinted rfl hfresh
      rw [← hret] at happroved
      exact happroved

theorem Calling.main {s : Desk} (h : s.Calling s.calling) (hsifted : s.Sifted .main) :
    (s.next .main).Calling (s.next .main).calling := by
  cases hcalling : s.calling with
  | none =>
      have hnext : s.next .main = s := by simp only [next, hcalling]
      rw [hnext]
      exact h
  | some q =>
      rw [hcalling] at h
      cases h with
      | asking hk h =>
          rename_i text k k'
          have hnext : s.next .main = s.perform (.say text) k := by simp only [next, hcalling]
          rw [hnext, perform, hk]
          exact .stamping rfl (le_refl _) h
      | stamping hprinted hle h =>
          rename_i k printed
          have hnext : s.next .main = s.perform .now k := by simp only [next, hcalling]
          have hsifts := hsifted (by simp only [stampsQuestion, hcalling]) printed hprinted
          rw [hnext, perform]
          exact .heeding ⟨printed, hprinted, hle, hsifts.unread, hsifts.untaken⟩ (h s.clock)
      | approved hguarded hap hprinted htaken hfresh =>
          rename_i askedAt ap printed line
          have hnext : s.next .main = { s with calling := none, approver := ap } := by
            simp only [next, hcalling]
          rw [hnext]
          refine .idle fun askedAt' haskedAt => ?_
          obtain rfl := Option.some.inj (hap.symm.trans haskedAt)
          exact hguarded.same rfl rfl rfl rfl
      | heeding hguarded hheeds =>
          rename_i askedAt
          cases q with
          | ret x =>
              obtain ⟨r, ap⟩ := x
              have hnext : s.next .main = { s with calling := none, approver := ap } := by
                simp only [next, hcalling]
              rw [hnext]
              refine .idle fun askedAt' haskedAt => ?_
              obtain rfl := Option.some.inj (hheeds.2.symm.trans haskedAt)
              exact hguarded.same rfl rfl rfl rfl
          | halt =>
              have hnext : s.next .main = s := by simp only [next, hcalling]
              rw [hnext, hcalling]
              exact .heeding hguarded hheeds
          | act o k =>
              have hnext : s.next .main = s.perform o k := by simp only [next, hcalling]
              rw [hnext]
              cases o with
              | say text => exact hheeds.elim
              | now => exact hheeds.elim
              | ask => exact .heeding (hguarded.same rfl rfl rfl rfl) (hheeds (.ok ()))
              | tryRecv => exact takes hguarded hheeds

theorem Calling.call {s : Desk} (h : s.Calling s.calling) (fuel : Nat) (req : ApprovalRequest) :
    (s.next (.call fuel req)).Calling (s.next (.call fuel req)).calling := by
  cases hcalling : s.calling with
  | some q =>
      have hnext : s.next (.call fuel req) = s := by simp only [next, hcalling]
      rw [hnext]
      exact h
  | none =>
      have hnext : s.next (.call fuel req) =
          { s with calling := some (s.approver.answer fuel req) } := by simp only [next, hcalling]
      rw [hcalling] at h
      rw [hnext, Approver.answer]
      cases h with
      | idle h =>
          cases haskedAt : s.approver.askedAt with
          | none =>
              refine .asking rfl fun askedAt => ?_
              exact Approver.answerLoop_heeds fuel rfl
          | some askedAt =>
              exact .heeding ((h askedAt haskedAt).same rfl rfl rfl rfl)
                (Approver.answerLoop_heeds fuel haskedAt)

theorem Calling.endQuestion {s : Desk} (h : s.Calling s.calling) :
    (s.next .endQuestion).Calling (s.next .endQuestion).calling := by
  cases hcalling : s.calling with
  | some q =>
      have hnext : s.next .endQuestion = s := by simp only [next, hcalling]
      rw [hnext]
      exact h
  | none =>
      have hnext : s.next .endQuestion = { s with approver := s.approver.endQuestion } := by
        simp only [next, hcalling]
      rw [hnext, hcalling]
      exact .idle nofun

theorem next_calling {s : Desk} {e : DeskEvent} (h : s.Calling s.calling) (hsifted : s.Sifted e) :
    (s.next e).Calling (s.next e).calling := by
  have haside {s' : Desk} (ha : Aside s s') (hcalling : s'.calling = s.calling) :
      s'.Calling s'.calling := by
    rw [hcalling]
    exact ha.calling h
  cases e with
  | tick d => exact haside (aside_tick s d) rfl
  | enter text => exact haside (aside_enter s text) rfl
  | readLine =>
      rw [next]
      split
      · rename_i hreader hinput
        exact haside (aside_readLine hreader hinput) rfl
      · exact h
  | readNothing =>
      rw [next]
      split
      · rename_i hreader
        exact haside (aside_readNothing hreader) rfl
      · exact h
  | thread =>
      refine haside (aside_thread s) ?_
      rw [next, threadStep]
      repeat' split
      all_goals rfl
  | call fuel req => exact h.call fuel req
  | main => exact h.main hsifted
  | endQuestion => exact h.endQuestion

def Sound (s : Desk) : Prop := s.Calling s.calling

theorem approvals_fresh {es : List DeskEvent} (h : Runs.Along next Sifted start es) :
    (es.foldl next start).ApprovedFresh := by
  have hstart : start.Sound := .idle nofun
  have hkeep (s : Desk) (e : DeskEvent) (hs : s.Sound) (hsifted : s.Sifted e) : (s.next e).Sound :=
    next_calling hs hsifted
  have hend : (es.foldl next start).Sound := Runs.Along.invariant hkeep hstart h
  exact hend.approvedFresh

instance (s : Desk) (printed askedAt : Instant) : Decidable (s.Sifts printed askedAt) :=
  decidable_of_iff
    ((∀ line ∈ s.unread, saysYes line.text = true → printed ≤ line.entered) ∧
      ∀ x ∈ s.untaken, saysYes x.2.text = true → x.1 < askedAt ∨ printed ≤ x.2.entered)
    ⟨fun h => ⟨h.1, h.2⟩, fun h => ⟨h.unread, h.untaken⟩⟩

instance (s : Desk) (e : DeskEvent) : Decidable (s.Sifted e) :=
  inferInstanceAs (Decidable (_ → ∀ printed ∈ s.printed, _))

section Sample

def sampleRequest : ApprovalRequest := ⟨['v'], ['0']⟩

def yes : Text := ['y', '\n']

-- a yes to nothing: it is read once the question is on the screen
def unaskedYes : List DeskEvent :=
  [.enter yes, .tick 5, .call 2 sampleRequest, .main, .main, .main, .thread, .readLine, .thread,
    .thread, .main]

theorem unasked_yes_approves : ¬ (unaskedYes.foldl next start).ApprovedFresh := by
  intro h
  obtain ⟨printed, line, hprinted, htaken, hfresh⟩ := h ⟨false, some 5⟩ rfl
  cases hprinted
  cases htaken
  exact absurd hfresh (by decide)

-- a yes to the question before is sifted out, and the one after it approves
def sampleEvening : List DeskEvent :=
  [.call 2 sampleRequest, .main, .main, .main, .main, .main, .endQuestion, .enter yes, .thread,
    .readLine, .thread, .tick 5, .call 2 sampleRequest, .main, .main, .thread, .tick 4, .enter yes,
    .main, .main, .thread, .readLine, .thread, .thread, .main]

theorem sample_approvals_fresh : ∃ ap,
    (sampleEvening.foldl next start).calling = some (.ret (some true, ap)) ∧
    (sampleEvening.foldl next start).taken = some ⟨yes, 9⟩ ∧
    (sampleEvening.foldl next start).ApprovedFresh :=
  ⟨⟨false, some 5⟩, rfl, rfl, approvals_fresh (by decide)⟩

end Sample

end Desk

end SimpleRemote
