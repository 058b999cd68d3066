import SimpleRemote.Host.Backoff
import SimpleRemote.Meeting.Setting
import SimpleRemote.Viewer.Describe
import SimpleRemote.Viewer.Progress

namespace SimpleRemote
open ByteCodec Interaction

-- the wait as the viewer's `connect` gets it
def announced (wait : Duration) : Duration := Duration.fromMillis (retryAfterMs wait).toNat

theorem retryAfterMs_toNat (wait : Duration) :
    (retryAfterMs wait).toNat = min ((wait + 999999) / 1000000) (2 ^ 64 - 1) := by
  rw [retryAfterMs, UInt64.toNat_ofNat']
  exact Nat.mod_eq_of_lt (by omega)

theorem announced_lt (wait : Duration) : announced wait < wait + Duration.fromMillis 1 := by
  rw [announced, retryAfterMs_toNat]
  have hceil (w : Nat) : min ((w + 999999) / 1000000) (2 ^ 64 - 1) * 1000000 < w + 1 * 1000000 := by
    omega
  exact hceil wait

theorem le_announced_iff (wait : Duration) :
    wait ≤ announced wait ↔ wait ≤ Duration.fromMillis (2 ^ 64 - 1) := by
  rw [announced, retryAfterMs_toNat]
  have hceil (w : Nat) : w ≤ min ((w + 999999) / 1000000) (2 ^ 64 - 1) * 1000000 ↔
      w ≤ (2 ^ 64 - 1) * 1000000 := by
    omega
  exact hceil wait

theorem retryAfterMs_pos {wait : Nat} (h : 0 < wait) : 1 ≤ (retryAfterMs wait).toNat := by
  rw [retryAfterMs_toNat]
  omega

namespace Viewer

theorem shownSecs_fromMillis (ms : Nat) :
    shownSecs (Duration.fromMillis ms) = max ((ms + 999) / 1000) 1 := by
  rw [shownSecs, Duration.fromMillis, Nat.mul_div_cancel _ (by decide)]

theorem one_le_shownSecs (d : Duration) : 1 ≤ shownSecs d := Nat.le_max_right ..

theorem le_shownSecs (ms : Nat) :
    Duration.fromMillis ms ≤ Duration.fromSecs (shownSecs (Duration.fromMillis ms)) := by
  rw [shownSecs_fromMillis]
  have hceil : ms * 1000000 ≤ max ((ms + 999) / 1000) 1 * 1000000000 := by omega
  exact hceil

theorem shownSecs_lt {ms : Nat} (h : 1 ≤ ms) :
    Duration.fromSecs (shownSecs (Duration.fromMillis ms)) <
      Duration.fromMillis ms + Duration.fromSecs 1 := by
  rw [shownSecs_fromMillis]
  have hceil : max ((ms + 999) / 1000) 1 * 1000000000 < ms * 1000000 + 1 * 1000000000 := by omega
  exact hceil

end Viewer

namespace AttemptLimiter
variable {l l' : AttemptLimiter} {now : Instant} {w : Duration}

theorem check_error (h : l.check now = .error w) : 0 < w ∧ l.waitUntil = some (now + w) := by
  rw [check] at h
  split at h
  · rename_i d hd
    split at h
    · rename_i hlt
      obtain rfl := Except.error.inj h
      exact ⟨Nat.sub_pos_of_lt hlt, by rw [hd, Nat.add_sub_cancel' hlt.le]⟩
    · cases h
  · cases h

theorem perform_quiet {call : Call} (hcall : call.isFailure = false)
    (h : l.perform call = some l') : l'.waitUntil = l.waitUntil ∨ l'.waitUntil = none := by
  cases call with
  | recordFailure t => cases hcall
  | recordSuccess =>
      obtain rfl := Option.some.inj h
      exact .inr rfl

theorem run_quiet {calls : List Call} (hcalls : ∀ call ∈ calls, call.isFailure = false)
    (h : calls.foldlM perform l = some l') :
    l'.waitUntil = l.waitUntil ∨ l'.waitUntil = none := by
  induction calls generalizing l with
  | nil =>
      obtain rfl := Option.some.inj h
      exact .inl rfl
  | cons call calls ih =>
      rw [List.foldlM_cons] at h
      obtain ⟨l₁, hfirst, hrest⟩ := Option.bind_eq_some_iff.mp h
      have hquiet := ih (fun c hc => hcalls c (List.mem_cons_of_mem _ hc)) hrest
      rcases perform_quiet (hcalls call List.mem_cons_self) hfirst with heq | hnone
      · rwa [heq] at hquiet
      · rw [hnone, or_self] at hquiet
        exact .inr hquiet

-- the wait is over once it has passed, if no failure was recorded meanwhile
theorem check_after (h : l.check now = .error w) {calls : List Call}
    (hcalls : ∀ call ∈ calls, call.isFailure = false)
    (hrun : calls.foldlM perform l = some l') {wait : Duration} (hwait : w ≤ wait) :
    l'.check (now + wait) = .ok () := by
  rw [check_ok]
  intro d hd
  rcases run_quiet hcalls hrun with heq | hnone
  · rw [heq, (check_error h).2] at hd
    obtain rfl := Option.some.inj hd
    exact Nat.add_le_add_left hwait now
  · rw [hnone] at hd
    cases hd

theorem run_recorded {t : Instant} {calls : List Call}
    (hcalls : ∀ t', .recordFailure t' ∈ calls → t' ≤ t)
    (hl : ∀ d, l.waitUntil = some d → d ≤ t + Duration.fromSecs 86400)
    (h : calls.foldlM perform l = some l') :
    ∀ d, l'.waitUntil = some d → d ≤ t + Duration.fromSecs 86400 := by
  induction calls generalizing l with
  | nil =>
      obtain rfl := Option.some.inj h
      exact hl
  | cons call calls ih =>
      rw [List.foldlM_cons] at h
      obtain ⟨l₁, hfirst, hrest⟩ := Option.bind_eq_some_iff.mp h
      refine ih (fun t' ht => hcalls t' (List.mem_cons_of_mem _ ht)) (fun d hd => ?_) hrest
      cases call with
      | recordFailure t' =>
          rw [perform, recordFailureChecked_eq] at hfirst
          obtain ⟨⟨_, out⟩, hrecord, rfl⟩ := Option.map_eq_some_iff.mp hfirst
          rw [(recordFailure_some hrecord).waitUntil] at hd
          obtain rfl := Option.some.inj hd
          exact Nat.add_le_add (hcalls t' List.mem_cons_self)
            (Nat.mul_le_mul_right _ (Nat.min_le_right ..))
      | recordSuccess =>
          obtain rfl := Option.some.inj hfirst
          cases hd

theorem wait_le_day {calls : List Call} (hcalls : ∀ t, .recordFailure t ∈ calls → t ≤ now)
    (hrun : calls.foldlM perform new = some l) (h : l.check now = .error w) :
    w ≤ Duration.fromSecs 86400 := by
  have hnew : ∀ d, new.waitUntil = some d → d ≤ now + Duration.fromSecs 86400 :=
    fun _ hd => by cases hd
  exact Nat.le_of_add_le_add_left (run_recorded hcalls hnew hrun _ (check_error h).2)

end AttemptLimiter

section
variable {C : Crypto} {fuel : Nat}

theorem attempt_waits {cfg : HostConfig} {st : HostState} {now : Instant} {w : Duration}
    {q : HostM (ServeResult × HostState)} (hcheck : st.limiter.check now = .error w)
    (h : Path (attempt C fuel cfg st) [⟨.now, now⟩] q) :
    ∃ k, q = .act (.linkSend (relayOf (.retryAfter (retryAfterMs w)))) k := by
  rw [attempt] at h
  have hend := path_nil (Path.answered h)
  rw [hcheck] at hend
  exact ⟨_, hend⟩

end

def Op.reads {Out : Type} : Op Out → Bool
  | .linkRecv _ => true
  | _ => false

namespace Viewer
variable {C : Crypto} {fuel : Nat} {cfg : Config} {t : Duration} {data : Text} {ms : UInt64}
  {tr : List (Ev ViewerSig)} {q : ViewerM ConnectResult}

def readOf (t : Duration) (data : Text) : Ev ViewerSig :=
  ⟨.linkRecv t, .ok (some (.relay data))⟩

theorem awaitReply_retry {pake : ViewerPake} (hd : decodeRelay data = some (.retryAfter ms))
    (htr : tr.countP (·.op.reads) = 0)
    (h : Path (awaitReply C fuel cfg pake) (tr ++ [readOf t data]) q) :
    q = .ret (.error (.retryAfter (Duration.fromMillis ms.toNat))) := by
  rw [awaitReply, recvRelay, Prog.bind_assoc] at h
  rcases path_act_last h with ⟨rfl, r, he, rfl⟩ | ⟨r, tr', rfl, h'⟩
  · cases he
    dsimp only [Prog.bind]
    rw [hd]
    rfl
  · rw [List.countP_cons_of_pos rfl] at htr
    cases htr

theorem sendStart_retry {pake : ViewerPake} {pa : Bytes}
    (hd : decodeRelay data = some (.retryAfter ms)) (htr : tr.countP (·.op.reads) = 0)
    (h : Path (sendStart C fuel cfg pake pa) (tr ++ [readOf t data]) q) :
    q = .ret (.error (.retryAfter (Duration.fromMillis ms.toNat))) := by
  rw [sendStart, sendRelay, Prog.bind_assoc] at h
  rcases path_act_last h with ⟨-, r, he, -⟩ | ⟨sent, tr', rfl, h'⟩
  · cases he
  · rw [List.countP_cons_of_neg (by simp [Op.reads])] at htr
    rcases sent with e | u
    · cases e with
      | closed code => exact awaitReply_retry hd htr h'
      | _ => exact absurd h' not_path_ret
    · exact awaitReply_retry hd htr h'

theorem joined_retry (hd : decodeRelay data = some (.retryAfter ms))
    (htr : tr.countP (·.op.reads) = 0)
    (h : Path (joined C fuel cfg) (tr ++ [readOf t data]) q) :
    q = .ret (.error (.retryAfter (Duration.fromMillis ms.toNat))) := by
  rw [joined, ViewerPake.start] at h
  split at h
  · exact absurd h not_path_ret
  · rw [Prog.bind_assoc] at h
    rcases path_act_last h with ⟨-, r, he, -⟩ | ⟨r, tr', rfl, h'⟩
    · cases he
    · rw [List.countP_cons_of_neg (by simp [Op.reads])] at htr
      rcases r with e | ⟨pa, state⟩
      · exact absurd h' not_path_ret
      · exact sendStart_retry hd htr h'

-- the second message that `connect` takes off the link answers its `Start`
theorem connect_retry (hd : decodeRelay data = some (.retryAfter ms))
    (htr : tr.countP (·.op.reads) = 1)
    (h : Path (connect C fuel cfg) (tr ++ [readOf t data]) q) :
    q = .ret (.error (.retryAfter (Duration.fromMillis ms.toNat))) := by
  rw [connect] at h
  rcases path_act_last h with ⟨rfl, -⟩ | ⟨r, tr', rfl, h'⟩
  · cases htr
  · rw [List.countP_cons_of_pos rfl] at htr
    have hrest : tr'.countP (·.op.reads) = 0 := Nat.succ.inj htr
    rcases r with e | _ | (_ | _ | _)
    · exact absurd h' not_path_ret
    · exact absurd h' not_path_ret
    · exact joined_retry hd hrest h'
    · exact absurd h' not_path_ret
    · exact absurd h' not_path_ret

end Viewer

-- milliseconds past `u64::MAX` are sent as `u64::MAX`; failures recorded up to `now` ask for no
-- more than a day
theorem announced_wait (C : Crypto) (inner : Text) {l : AttemptLimiter} {now : Instant}
    {w : Duration} (hcheck : l.check now = .error w) :
    (∀ fuel cfg st q, st.limiter = l → Path (attempt C fuel cfg st) [⟨.now, now⟩] q →
      ∃ k, q = .act (.linkSend (relayOf (.retryAfter (retryAfterMs w)))) k) ∧
    (∀ fuel cfg tr t q, tr.countP (·.op.reads) = 1 →
      Path (Viewer.connect C fuel cfg)
        (tr ++ [Viewer.readOf t (relayText (.retryAfter (retryAfterMs w)))]) q →
      q = .ret (.error (.retryAfter (announced w)))) ∧
    Viewer.describe inner (.retryAfter (announced w)) =
      Viewer.retryText (Viewer.shownSecs (announced w)) ∧
    1 ≤ (retryAfterMs w).toNat ∧ announced w < w + Duration.fromMillis 1 ∧
    1 ≤ Viewer.shownSecs (announced w) ∧
    Duration.fromSecs (Viewer.shownSecs (announced w)) <
      w + Duration.fromSecs 1 + Duration.fromMillis 1 ∧
    (w ≤ announced w ↔ w ≤ Duration.fromMillis (2 ^ 64 - 1)) ∧
    (w ≤ Duration.fromMillis (2 ^ 64 - 1) →
      w ≤ Duration.fromSecs (Viewer.shownSecs (announced w)) ∧
      ∀ (calls : List AttemptLimiter.Call) l', (∀ call ∈ calls, call.isFailure = false) →
        calls.foldlM AttemptLimiter.perform l = some l' →
        l'.check (now + announced w) = .ok () ∧
        l'.check (now + Duration.fromSecs (Viewer.shownSecs (announced w))) = .ok ()) ∧
    ((∃ calls : List AttemptLimiter.Call, (∀ t, .recordFailure t ∈ calls → t ≤ now) ∧
        calls.foldlM AttemptLimiter.perform .new = some l) →
      w ≤ Duration.fromMillis (2 ^ 64 - 1)) := by
  have hms := retryAfterMs_pos (AttemptLimiter.check_error hcheck).1
  have hsent := announced_lt w
  have hshown := Viewer.le_shownSecs (retryAfterMs w).toNat
  refine ⟨?_, ?_, rfl, hms, hsent, Viewer.one_le_shownSecs _, ?_, le_announced_iff w, ?_, ?_⟩
  · rintro fuel cfg st q rfl h
    exact attempt_waits hcheck h
  · exact fun fuel cfg tr t q htr h => Viewer.connect_retry (viewer_decodes trivial) htr h
  · calc Duration.fromSecs (Viewer.shownSecs (announced w))
        < announced w + Duration.fromSecs 1 := Viewer.shownSecs_lt hms
      _ < w + Duration.fromMillis 1 + Duration.fromSecs 1 := Nat.add_lt_add_right hsent _
      _ = w + Duration.fromSecs 1 + Duration.fromMillis 1 := Nat.add_right_comm ..
  · intro hfits
    have hle := (le_announced_iff w).mpr hfits
    have hsecs : w ≤ Duration.fromSecs (Viewer.shownSecs (announced w)) := hle.trans hshown
    exact ⟨hsecs, fun calls l' hcalls hrun =>
      ⟨AttemptLimiter.check_after hcheck hcalls hrun hle,
        AttemptLimiter.check_after hcheck hcalls hrun hsecs⟩⟩
  · rintro ⟨calls, hcalls, hrun⟩
    exact (AttemptLimiter.wait_le_day hcalls hrun hcheck).trans (by decide)

-- one failure at 0.2 s, the next viewer at 0.2 s + 1 ns
theorem sample_announced_wait :
    (retryAfterMs 999999999).toNat = 1000 ∧ Viewer.shownSecs (announced 999999999) = 1 ∧
    AttemptLimiter.check ⟨1, 1, some 1200000000⟩ (200000001 + announced 999999999) = .ok () := by
  have hcheck : AttemptLimiter.check ⟨1, 1, some 1200000000⟩ 200000001 = .error 999999999 := by
    decide
  obtain ⟨-, -, -, -, -, -, -, -, hfits, -⟩ := announced_wait .sample [] hcheck
  have hquiet := (hfits (by decide)).2 [] _ (fun _ h => by cases h) rfl
  exact ⟨by decide, by decide, hquiet.1⟩

def farFailure : AttemptLimiter := ⟨1, 1, some (Duration.fromSecs (2 ^ 62 + 1))⟩

-- a failure recorded at 2^62 s: a `u64` of milliseconds cannot say the wait from instant 0
theorem saturated_wait_too_short :
    AttemptLimiter.new.recordFailure (Duration.fromSecs (2 ^ 62)) = some (farFailure, ⟨false⟩) ∧
    farFailure.check 0 = .error (Duration.fromSecs (2 ^ 62 + 1)) ∧
    retryAfterMs (Duration.fromSecs (2 ^ 62 + 1)) = UInt64.ofNat (2 ^ 64 - 1) ∧
    announced (Duration.fromSecs (2 ^ 62 + 1)) < Duration.fromSecs (2 ^ 62 + 1) ∧
    farFailure.check (0 + announced (Duration.fromSecs (2 ^ 62 + 1))) ≠ .ok () := by
  decide

end SimpleRemote
