import SimpleRemote.Signaling.Registration
import SimpleRemote.Signaling.Throttle

namespace SimpleRemote.Signaling
open ByteCodec Json Interaction

def Output.challenges : Output → Bool
  | .sent _ (.challenge _ _) _ => true
  | _ => false

-- the credentials that the room takes from a request
inductive Event.Brings : Event → Credentials → Prop
  | host {request : Request} (random : ByteArr 32) (hpath : request.pathname = "/host".toList) :
      Brings (.fetch request random)
        ⟨toHex random.val, request.key.getD [], request.id.getD []⟩

-- a step brings no host and no challenge but those of its request
structure Credited (r : Room) (e : Event) (r' : Room) : Prop where
  kept : ∀ ws c, r.base ws = some c → r'.base ws = some c
  base : ∀ ws c, r'.base ws = some c → r.base ws = some c ∨ e.Brings c
  challenge : ∀ ws nonce id cause, .sent ws (.challenge nonce id) cause ∈ r'.log →
    .sent ws (.challenge nonce id) cause ∈ r.log ∨ ∃ key, e.Brings ⟨nonce, key, id⟩

section
variable {subtle : SubtleVerify} {r r' : Room} {e : Event}

theorem credited_same (hbase : ∀ ws, r'.base ws = r.base ws) {out : List Output}
    (hlog : r'.log = r.log ++ out) (hout : ∀ o ∈ out, o.challenges = false) : Credited r e r' where
  kept ws c hc := (hbase ws).trans hc
  base ws c hc := .inl ((hbase ws).symm.trans hc)
  challenge ws nonce id cause hmem := by
    rw [hlog] at hmem
    rcases List.mem_append.mp hmem with hmem | hmem
    · exact .inl hmem
    · cases hout _ hmem

theorem not_challenges_gone (viewer : Option Nat) (cause : Nat) :
    ∀ o ∈ Shape.goneOutput viewer cause, o.challenges = false := by
  cases viewer <;> simp [Shape.goneOutput, Output.challenges]

theorem not_challenges_replace (displaced viewer : Option Nat) (ws : Nat) :
    ∀ o ∈ replaceOutput displaced viewer ws, o.challenges = false := by
  intro o ho
  cases displaced with
  | none => cases ho
  | some previous =>
      rcases List.mem_append.mp ho with ho | ho
      · exact not_challenges_gone _ _ o ho
      · rw [List.mem_singleton.mp ho]
        rfl

theorem Checked.not_challenges {p : Pending} {out : List Output} (h : Checked p out) :
    ∀ o ∈ out, o.challenges = false := by
  intro o ho
  rcases h o ho with rfl | rfl <;> rfl

theorem fetch_cases (r : Room) (request : Request) (random : ByteArr 32) :
    (r.fetch request random).2 = r ∨
      (request.pathname = "/host".toList ∧ ∃ claim, (r.fetch request random).2 =
        r.challenged (toHex random.val) (request.key.getD []) (request.id.getD []) claim) ∨
      ∃ host, (r.fetch request random).2 = r.joined host := by
  rw [Room.fetch]
  split
  · exact .inl rfl
  · split
    · rename_i hpath
      rw [Room.acceptHost]
      split
      · exact .inl rfl
      · split
        · exact .inl rfl
        · dsimp only
          rw [Room.send_accept]
          exact .inr (.inl ⟨hpath, _, rfl⟩)
    · split
      · rw [Room.acceptViewer]
        split
        · exact .inl rfl
        · rename_i host hhost
          split
          · exact .inl rfl
          · dsimp only
            rw [Room.send_accept, Room.send_eq]
            · exact .inr (.inr ⟨host, rfl⟩)
            · have hs : ((r.accept (.viewer ⟨false⟩) false).emit
                  (.sent r.sockets.length .joined r.sockets.length)).sockets =
                  (r.accept (.viewer ⟨false⟩) false).sockets := rfl
              have hopen := Room.isOpen_of_ready (Room.ready_of_authedHost hhost)
              rw [Room.isOpen_accepted hs, hopen]
              exact ite_self _
      · exact .inl rfl

theorem credited_fetch (r : Room) (request : Request) (random : ByteArr 32) :
    Credited r (.fetch request random) (r.fetch request random).2 := by
  rcases fetch_cases r request random with hr | ⟨hpath, claim, hr⟩ | ⟨host, hr⟩
  · rw [hr]
    exact credited_same (fun _ => rfl) (List.append_nil _).symm (by simp)
  · rw [hr]
    have hs : (r.challenged (toHex random.val) (request.key.getD []) (request.id.getD [])
        claim).sockets = (r.accept (.host ⟨false, toHex random.val, request.key.getD [],
          request.id.getD []⟩) claim).sockets := rfl
    refine ⟨fun ws c hc => ?_, fun ws c hc => ?_, fun ws nonce id cause hmem => ?_⟩
    · rw [Room.base_accepted hs, if_neg (Room.base_lt hc)]
      exact hc
    · rw [Room.base_accepted hs] at hc
      split at hc
      · right
        obtain rfl := Option.some.inj hc
        exact .host random hpath
      · exact .inl hc
    · rw [Room.challenged_log] at hmem
      rcases List.mem_append.mp hmem with hmem | hmem
      · exact .inl hmem
      · simp only [List.mem_cons, reduceCtorEq, Output.sent.injEq, ServerFrame.challenge.injEq,
          List.not_mem_nil, or_false, false_or] at hmem
        obtain ⟨-, ⟨rfl, rfl⟩, -⟩ := hmem
        exact .inr ⟨_, .host random hpath⟩
  · rw [hr]
    have hs : (r.joined host).sockets = (r.accept (.viewer ⟨false⟩) false).sockets := rfl
    refine ⟨fun ws c hc => ?_, fun ws c hc => ?_, fun ws nonce id cause hmem => ?_⟩
    · rw [Room.base_accepted hs, if_neg (Room.base_lt hc)]
      exact hc
    · rw [Room.base_accepted hs] at hc
      split at hc
      · cases hc
      · exact .inl hc
    · rw [Room.joined_log] at hmem
      rcases List.mem_append.mp hmem with hmem | hmem
      · exact .inl hmem
      · simp at hmem

theorem credited_ended (hd : r.delivers e = true) {ws : Nat} (he : e.ends = some ws)
    {shut unmarked : Nat → Prop} {out : List Output} (h : Fades r r' shut unmarked out)
    (hshut : shut ws) (hout : ∀ o ∈ out, o.challenges = false) : Credited r e (r'.answer e) := by
  obtain ⟨rest, hfades, hrest⟩ := h.answer he hshut (Room.lt_of_awaits (Room.awaits_of_ends he hd))
  refine credited_same hfades.base hfades.log fun o ho => ?_
  rcases List.mem_append.mp ho with ho | ho
  · exact hout o ho
  · obtain ⟨code, rfl⟩ := hrest o ho
    rfl

theorem Did.credited (h : Did subtle r e r') (hb : Bound subtle r) (hd : r.delivers e = true)
    (hfetch : ∀ request random, e ≠ .fetch request random) : Credited r e r' := by
  cases h with
  | refused => exact absurd rfl (hfetch _ _)
  | host => exact absurd rfl (hfetch _ _)
  | viewer => exact absurd rfl (hfetch _ _)
  | dropped => exact credited_same (fun _ => rfl) (List.append_nil _).symm (by simp)
  | @bad ws frame code =>
      have h := Shape.closeFromServer r ws code ws
      exact credited_same h.base h.log (by simp [Output.challenges])
  | down data => exact credited_same (fun _ => rfl) rfl (by simp [Output.challenges])
  | @kicked ws frame viewer =>
      have h := Shape.closeFromServer r viewer CLOSE_KICKED ws
      exact credited_same h.base h.log (by simp [Output.challenges])
  | up data => exact credited_same (fun _ => rfl) rfl (by simp [Output.challenges])
  | suspended => exact credited_same (fun _ => rfl) (List.append_nil _).symm (by simp)
  | @failed i p out hp hbad hout =>
      have hlt := Room.lt_of_base (hb.pending p (List.mem_of_getElem? hp)).1
      have h := fades_failed i r.owner hout hlt CLOSE_AUTH
      refine credited_same h.base h.log fun o ho => ?_
      rcases List.mem_append.mp ho with ho | ho
      · exact hout.not_challenges o ho
      · rw [List.mem_singleton.mp ho]
        rfl
  | @registered i p out hp hgood hout =>
      have h := fades_replaced r i (some p.att.key) hout
      have hbase := (h.base p.ws).trans (hb.pending p (List.mem_of_getElem? hp)).1
      obtain ⟨rest, hlog, hrest⟩ := register_log r i (some p.att.key) hout
      refine credited_same (fun ws => ?_) hlog fun o ho => ?_
      · rw [Room.register, Room.base_mark hbase, h.base]
      · rcases List.mem_append.mp ho with ho | ho
        · rcases List.mem_append.mp ho with ho | ho
          · exact hout.not_challenges o ho
          · exact not_challenges_replace _ _ _ o ho
        · rw [hrest o ho]
          rfl
  | hostEnded he hm =>
      exact credited_ended hd he (fades_hostEnded hm) (.inl rfl) (not_challenges_gone _ _)
  | @viewerEnded _ ws host he =>
      exact credited_ended hd he (fades_viewerEnded r ws host) rfl (by simp [Output.challenges])
  | ended he => exact credited_ended hd he fades_finish rfl (by simp)

theorem credited_handle (hb : Bound subtle r) (hd : r.delivers e = true) :
    Credited r e (r.handle subtle e) := by
  by_cases hfetch : ∃ request random, e = .fetch request random
  · obtain ⟨request, random, rfl⟩ := hfetch
    exact credited_fetch r request random
  · exact (handle_did hd).credited hb hd fun request random heq => hfetch ⟨request, random, heq⟩

end

def isLowerKey (key : Text) : Bool :=
  key.length = 64 && key.all fun c => c.isDigit || ('a' ≤ c && c ≤ 'f')

-- what the worker asks of the room `id`
inductive Asks (id : Text) : Request → Prop
  | viewer : Asks id (Worker.viewerRequest id)
  | host {key : Text} (hkey : isLowerKey key = true) (claim : Bool) :
      Asks id (Worker.hostRequest id key claim)

def Routed (id : Text) (_ : Room) : Event → Prop
  | .fetch request _ => Worker.isRoomId id = true ∧ Asks id request
  | _ => True

-- the hosts of the room have its own id, and so have its challenges
structure Addressed (id : Text) (r : Room) : Prop where
  hosts : ∀ ws c, r.base ws = some c → c.id = id ∧ isLowerKey c.key = true
  challenges : ∀ ws nonce cid cause, .sent ws (.challenge nonce cid) cause ∈ r.log →
    cid = id ∧ Worker.isRoomId id = true ∧ ∃ n : ByteArr 32, nonce = toHex n.val

section
variable {subtle : SubtleVerify} {r : Room} {id : Text}

theorem isLowerHex_toLower {c : Char} (h : Worker.isHexDigit c = true) :
    (c.toLower.isDigit || ('a' ≤ c.toLower && c.toLower ≤ 'f')) = true := by
  have hall : ∀ n : Fin 128, Worker.isHexDigit (Char.ofNat n) = true →
      ((Char.ofNat n).toLower.isDigit ||
        ('a' ≤ (Char.ofNat n).toLower && (Char.ofNat n).toLower ≤ 'f')) = true := by
    decide
  have hsmall : c.toNat < 128 := by
    simp only [Worker.isHexDigit, Char.isDigit, Bool.or_eq_true, Bool.and_eq_true,
      decide_eq_true_eq] at h
    rcases h with (⟨-, hle⟩ | ⟨-, hle⟩) | ⟨-, hle⟩
    · exact Nat.lt_of_le_of_lt (UInt32.le_iff_toNat_le.mp hle) (by decide)
    · exact Nat.lt_of_le_of_lt (UInt32.le_iff_toNat_le.mp hle) (by decide)
    · exact Nat.lt_of_le_of_lt (UInt32.le_iff_toNat_le.mp hle) (by decide)
  have hc := hall ⟨c.toNat, hsmall⟩
  rw [Char.ofNat_toNat] at hc
  exact hc h

theorem isLowerKey_toLower {rawKey : Text} (h : Worker.isKey rawKey = true) :
    isLowerKey (rawKey.map Char.toLower) = true := by
  rw [Worker.isKey, Bool.and_eq_true] at h
  obtain ⟨hlength, hall⟩ := h
  rw [isLowerKey, List.length_map, hlength, Bool.true_and, List.all_map]
  exact List.all_eq_true.mpr fun c hc => isLowerHex_toLower (List.all_eq_true.mp hall c hc)

theorem Asks.brings {request : Request} (h : Asks id request) {random : ByteArr 32} {c : Credentials}
    (hc : (Event.fetch request random).Brings c) :
    c.id = id ∧ isLowerKey c.key = true ∧ c.nonce = toHex random.val := by
  cases h with
  | viewer =>
      cases hc with
      | host _ hpath =>
          have hne : "/viewer".toList ≠ "/host".toList := by decide
          exact absurd hpath hne
  | host hkey claim =>
      cases hc with
      | host _ _ => exact ⟨rfl, hkey, rfl⟩

theorem addressed_handle (ha : Addressed id r) (hb : Bound subtle r) {e : Event}
    (hd : r.delivers e = true) (hrouted : Routed id r e) : Addressed id (r.handle subtle e) := by
  have hcredited : Credited r e (r.handle subtle e) := credited_handle hb hd
  refine ⟨fun ws c hc => ?_, fun ws nonce cid cause hmem => ?_⟩
  · rcases hcredited.base ws c hc with hc | hbrings
    · exact ha.hosts ws c hc
    · cases hbrings with
      | host random hpath =>
          obtain ⟨hid, hkey, -⟩ := hrouted.2.brings (.host random hpath)
          exact ⟨hid, hkey⟩
  · rcases hcredited.challenge ws nonce cid cause hmem with hmem | ⟨key, hbrings⟩
    · exact ha.challenges ws nonce cid cause hmem
    · generalize hcred : Credentials.mk nonce key cid = c at hbrings
      cases hbrings with
      | host random hpath =>
          obtain ⟨hid, -, hnonce⟩ := hrouted.2.brings (.host random hpath)
          rw [← hcred] at hid hnonce
          exact ⟨hid, hrouted.1, random, hnonce⟩

theorem addressed_steps (h : Room.Steps subtle (Routed id) .new r) : Addressed id r := by
  induction h with
  | refl => exact ⟨fun _ _ hc => (by cases hc), fun _ _ _ _ hmem => (by cases hmem)⟩
  | tail hsteps hstep ih =>
      obtain ⟨e, hd, hrouted, rfl⟩ := hstep
      exact addressed_handle ih (bound_new.steps hsteps) hd hrouted

-- a room with another name than the worker's pattern is never touched
theorem untouched_steps (hid : Worker.isRoomId id = false)
    (h : Room.Steps subtle (Routed id) .new r) : r = .new := by
  induction h with
  | refl => rfl
  | tail _ hstep ih =>
      obtain ⟨e, hd, hrouted, rfl⟩ := hstep
      subst ih
      cases e with
      | fetch request random =>
          rw [hrouted.1] at hid
          cases hid
      | verified i =>
          have hlt : i < Room.new.pending.length := of_decide_eq_true hd
          exact absurd hlt (Nat.not_lt_zero i)
      | message ws frame => cases hd
      | close ws code => cases hd
      | error ws => cases hd

end

theorem fetch_asks (request : HttpRequest) :
    (Worker.fetch request).Uses fun o : WorkerOp => ∀ id q, o = .room id q →
      Worker.isRoomId id = true ∧ Asks id q := by
  refine uses_of_wp (M := Worker.gate request) (fun _ _ => trivial) ?_ (Worker.fetch_allowed request)
  rintro past o hallow id q rfl
  cases hallow with
  | viewer _ hid => exact ⟨Worker.isRoomId_of_matchId hid, .viewer⟩
  | host _ _ _ _ hhex hid => exact ⟨hid, .host (isLowerKey_toLower hhex) _⟩

theorem worker_rooms (subtle : SubtleVerify) (turns : List WorkerTurn) (id : Text) :
    Room.Steps subtle (Routed id) .new ((workerRun subtle turns).objects.rooms id) := by
  have hall : ∀ id, Room.Steps subtle (Routed id) .new ((workerRun subtle turns).objects.rooms id) := by
    refine Sharing.run_shared (M := worker subtle)
      (I := fun s _ => ∀ id, Room.Steps subtle (Routed id) .new (s.rooms id)) fetch_asks
      (fun _ => .refl) ?_ ?_ turns
    · intro s calls i m o h hasks id
      cases o with
      | room id' q =>
          dsimp only [worker, Objects.serve, Objects.setRoom]
          split
          · rename_i heq
            subst heq
            exact (h id).tail ⟨.fetch q m.random, rfl, hasks id q rfl, rfl⟩
          · exact h id
      | hit bucket limit => exact h id
      | getRandomValues => exact h id
      | first => exact h id
    · rintro s calls ⟨id', e⟩ h id
      have hset (hd : (s.rooms id').delivers e = true) (hrouted : Routed id' (s.rooms id') e) :
          Room.Steps subtle (Routed id) .new ((s.setRoom id' ((s.rooms id').handle subtle e)).rooms id) := by
        dsimp only [Objects.setRoom]
        split
        · rename_i heq
          subst heq
          exact (h id).tail ⟨e, hd, hrouted, rfl⟩
        · exact h id
      cases e with
      | fetch request random => exact h id
      | _ =>
          dsimp only [worker, Objects.own]
          split
          · rename_i hd
            exact hset hd trivial
          · exact h id
  exact hall id

-- what the answer of a room to a host says of the room from then on
def Backed (s : Objects) (c : WorkerCall) : Prop :=
  ∀ id key claim res, c.ev = ⟨.room id (Worker.hostRequest id key claim), res⟩ →
    (Worker.isTaken res = true → ∃ owner, (s.rooms id).owner = some owner ∧ owner ≠ key) ∧
      ∀ ws, res = .webSocket ws → ∃ nonce, (s.rooms id).base ws = some ⟨nonce, key, id⟩

section
variable {subtle : SubtleVerify} {s : Objects}

structure Lasting (r r' : Room) : Prop where
  owner : ∀ key, r.owner = some key → r'.owner = some key
  base : ∀ ws c, r.base ws = some c → r'.base ws = some c

theorem Backed.later {s' : Objects} (hlasts : ∀ id, Lasting (s.rooms id) (s'.rooms id))
    {c : WorkerCall} (h : Backed s c) : Backed s' c := by
  intro id key claim res hev
  obtain ⟨htaken, hsocket⟩ := h id key claim res hev
  refine ⟨fun hres => ?_, fun ws hres => ?_⟩
  · obtain ⟨owner, howner, hne⟩ := htaken hres
    exact ⟨owner, (hlasts id).owner owner howner, hne⟩
  · obtain ⟨nonce, hbase⟩ := hsocket ws hres
    exact ⟨nonce, (hlasts id).base ws _ hbase⟩

theorem lasting_handle {r : Room} (hb : Bound subtle r) {e : Event} (hd : r.delivers e = true) :
    Lasting r (r.handle subtle e) where
  owner _ h := Room.owner_handle e h
  base ws c hc := (credited_handle hb hd).kept ws c hc

theorem lasting_setRoom {id : Text} {r : Room} (h : Lasting (s.rooms id) r) (id' : Text) :
    Lasting (s.rooms id') ((s.setRoom id r).rooms id') := by
  dsimp only [Objects.setRoom]
  split
  · rename_i heq
    subst heq
    exact h
  · exact ⟨fun _ h => h, fun _ _ h => h⟩

theorem acceptHost_taken {r : Room} {id key : Text} {claim : Bool} {random : ByteArr 32}
    (h : Worker.isTaken (r.acceptHost id key claim random).1 = true) :
    ∃ owner, (r.acceptHost id key claim random).2.owner = some owner ∧ owner ≠ key := by
  rw [Room.acceptHost] at h ⊢
  by_cases hunknown : r.owner = none ∧ claim = false
  · rw [if_pos hunknown] at h
    cases h
  · rw [if_neg hunknown] at h ⊢
    by_cases hother : r.owner ≠ none ∧ r.owner ≠ some key
    · obtain ⟨owner, howner⟩ := Option.ne_none_iff_exists'.mp hother.1
      rw [if_pos hother]
      exact ⟨owner, howner, fun heq => hother.2 (heq ▸ howner)⟩
    · rw [if_neg hother] at h
      cases h

theorem fetch_taken {r : Room} {id key : Text} {claim : Bool} {random : ByteArr 32}
    (h : Worker.isTaken (r.fetch (Worker.hostRequest id key claim) random).1 = true) :
    ∃ owner, (r.fetch (Worker.hostRequest id key claim) random).2.owner = some owner ∧ owner ≠ key :=
  acceptHost_taken h

theorem fetch_socket {r : Room} {id key : Text} {claim : Bool} {random : ByteArr 32} {ws : Nat}
    (h : (r.fetch (Worker.hostRequest id key claim) random).1 = .webSocket ws) :
    (r.fetch (Worker.hostRequest id key claim) random).2.base ws =
      some ⟨toHex random.val, key, id⟩ := by
  obtain ⟨rfl, claim', hr⟩ := challenged_of_fetch (r := r) rfl h
  rw [hr]
  exact (waiting_challenged r _ _ _ claim').base

end

theorem worker_backed (subtle : SubtleVerify) (turns : List WorkerTurn) :
    ∀ c ∈ (workerRun subtle turns).calls, Backed (workerRun subtle turns).objects c := by
  have hall := Sharing.run_shared (M := worker subtle) (P := fun _ => True)
    (I := fun s calls => (∀ id, Bound subtle (s.rooms id)) ∧ ∀ c ∈ calls, Backed s c)
    (s := .new) (fun a => Prog.Uses.mono (fetch_limits a) fun _ _ => trivial)
    ⟨fun _ => bound_new, by simp⟩ ?_ ?_ turns
  · exact hall.2
  · rintro s calls i m o ⟨hb, hcalls⟩ -
    have hsame {s' : Objects} (hs : s'.rooms = s.rooms) (c : WorkerCall)
        (hc : ∀ id q res, c.ev ≠ ⟨.room id q, res⟩) :
        (∀ id, Bound subtle (s'.rooms id)) ∧ ∀ c' ∈ calls ++ [c], Backed s' c' := by
      refine ⟨fun id => hs ▸ hb id, fun c' hc' => ?_⟩
      rcases List.mem_append.mp hc' with hc' | hc'
      · refine (hcalls c' hc').later fun id => ?_
        rw [hs]
        exact ⟨fun _ h => h, fun _ _ h => h⟩
      · rw [List.mem_singleton.mp hc']
        exact fun id key claim res hev => absurd hev (hc id _ res)
    cases o with
    | room id q =>
        have hroom : Lasting (s.rooms id) ((s.rooms id).handle subtle (.fetch q m.random)) :=
          lasting_handle (hb id) rfl
        have hlasts := lasting_setRoom hroom
        refine ⟨fun id' => ?_, fun c hc => ?_⟩
        · dsimp only [worker, Objects.serve, Objects.setRoom]
          split
          · exact (hb id).fetch q m.random
          · exact hb id'
        · rcases List.mem_append.mp hc with hc | hc
          · exact (hcalls c hc).later hlasts
          · obtain rfl := List.mem_singleton.mp hc
            intro id' key claim res hev
            have hroom : ((worker subtle).serve s m (.room id q)).2.rooms id =
                ((s.rooms id).fetch q m.random).2 := if_pos rfl
            cases hev
            refine ⟨fun htaken => ?_, fun ws hres => ?_⟩
            · rw [hroom]
              exact fetch_taken htaken
            · rw [hroom]
              exact ⟨_, fetch_socket hres⟩
    | hit bucket limit => exact hsame rfl _ nofun
    | getRandomValues => exact hsame rfl _ nofun
    | first => exact hsame rfl _ nofun
  · rintro s calls ⟨id, e⟩ ⟨hb, hcalls⟩
    cases e with
    | fetch request random => exact ⟨hb, hcalls⟩
    | _ =>
        dsimp only [worker, Objects.own]
        split
        · rename_i hd
          refine ⟨fun id' => ?_, fun c hc => ?_⟩
          · dsimp only [Objects.setRoom]
            split
            · exact (hb id).handle _
            · exact hb id'
          · exact (hcalls c hc).later (lasting_setRoom (lasting_handle (hb id) hd))
        · exact ⟨hb, hcalls⟩

theorem mem_calls {subtle : SubtleVerify} {turns : List WorkerTurn} {t : Thread Worker.fetch}
    (ht : t ∈ (workerRun subtle turns).threads) {e : Ev WorkerSig} (he : e ∈ t.trace) :
    ∃ c ∈ (workerRun subtle turns).calls, c.ev = e := by
  obtain ⟨i, hi⟩ := List.mem_iff_getElem?.mp ht
  rw [← (Sharing.run_logged (M := worker subtle) .new turns).traces i t hi] at he
  obtain ⟨c, hc, rfl⟩ := List.mem_map.mp he
  exact ⟨c, List.mem_of_mem_filter hc, rfl⟩

-- how a request ends, and what the rooms it has asked as a host hold from then on
theorem worker_answers (subtle : SubtleVerify) (turns : List WorkerTurn) :
    ∀ t ∈ (workerRun subtle turns).threads,
      (∀ res, t.rest = .ret res → Worker.Answered t.trace res) ∧
      ∀ id key claim res, ⟨.room id (Worker.hostRequest id key claim), res⟩ ∈ t.trace →
        (Worker.isTaken res = true →
          ∃ owner, ((workerRun subtle turns).objects.rooms id).owner = some owner ∧ owner ≠ key) ∧
        ∀ ws, res = .webSocket ws →
          ∃ nonce, ((workerRun subtle turns).objects.rooms id).base ws = some ⟨nonce, key, id⟩ := by
  intro t ht
  refine ⟨fun res hres => Worker.thread_answered t hres, fun id key claim res he => ?_⟩
  obtain ⟨c, hc, hev⟩ := mem_calls ht he
  exact worker_backed subtle turns c hc id key claim res hev

def sampleRequest : HttpRequest where
  method := "GET".toList
  pathname := "/v1/host".toList
  key := some (hexEncode (sampleHost.devicePublic .sample).val)
  upgrade := some "websocket".toList
  clientIp := some "192.0.2.1".toList

def sampleMoment (draws : List (Fin (2 ^ 32))) : Moment :=
  ⟨0, ⟨List.replicate 32 0, rfl⟩, draws, true⟩

-- a host is let in, draws an id and is challenged
def sampleTurns : List WorkerTurn :=
  [.start sampleRequest, .call 0 (sampleMoment []), .call 0 (sampleMoment [23456789]),
    .call 0 (sampleMoment [])]

deriving instance DecidableEq for Request

def reaches (id : Text) (q : Request) (ws : Nat) : Ev WorkerSig → Bool
  | ⟨.room id' q', .webSocket ws'⟩ => id' = id && q' = q && ws' = ws
  | _ => false

theorem sample_worker_answers : ∃ nonce,
    ((workerRun (fun _ _ _ => none) sampleTurns).objects.rooms "123456789".toList).base 0 =
      some ⟨nonce, hexEncode (sampleHost.devicePublic .sample).val, "123456789".toList⟩ := by
  have hreached : (workerRun (fun _ _ _ => none) sampleTurns).threads.any (fun t =>
      t.trace.any (reaches "123456789".toList (Worker.hostRequest "123456789".toList
        (hexEncode (sampleHost.devicePublic .sample).val) true) 0)) = true := by
    decide
  obtain ⟨t, ht, htrace⟩ := List.any_eq_true.mp hreached
  obtain ⟨⟨o, res⟩, he, hreach⟩ := List.any_eq_true.mp htrace
  cases o with
  | room id q =>
      cases res with
      | webSocket ws =>
          simp only [reaches, Bool.and_eq_true, decide_eq_true_eq] at hreach
          obtain ⟨⟨rfl, rfl⟩, rfl⟩ := hreach
          exact ((worker_answers _ sampleTurns t ht).2 _ _ _ _ he).2 0 rfl
      | status code text => cases hreach
  | _ => cases hreach

-- the rooms live side by side, each as if the worker spoke to it alone
structure Separate (subtle : SubtleVerify) (rooms : Text → Room) : Prop where
  alone : ∀ id, Room.Steps subtle (Routed id) .new (rooms id)
  untouched : ∀ id, Worker.isRoomId id = false → rooms id = .new
  owned : ∀ id, Owned subtle (rooms id)
  -- a signature that one socket has shown is good for no other nonce and for no other room
  signed : BindsMessage subtle → ∀ id ws c sig, (rooms id).base ws = some c →
    .verified ws sig ∈ (rooms id).log → c.id = id ∧
      (∀ (n : ByteArr 32) (id' : Text), (toHex n.val, id') ≠ (c.nonce, id) →
        verifyEd25519 subtle c.key sig (signedMessage n.val id') = false) ∧
      ∀ id' ws' c', id' ≠ id → (rooms id').base ws' = some c' → c'.key = c.key →
        .verified ws' sig ∉ (rooms id').log

theorem worker_separate (subtle : SubtleVerify) (turns : List WorkerTurn) :
    Separate subtle (workerRun subtle turns).objects.rooms := by
  have halone := worker_rooms subtle turns
  have hsteps (id : Text) : Room.Steps subtle Room.anyEvent .new
      ((workerRun subtle turns).objects.rooms id) :=
    (halone id).lift (fun r => r) fun _ _ ⟨e, hd, _, hr⟩ => ⟨e, hd, trivial, hr⟩
  constructor
  case alone => exact halone
  case untouched =>
    intro id hid
    exact untouched_steps hid (halone id)
  case owned =>
    intro id
    exact (room_owned (hsteps id)).1
  case signed =>
    intro hbinds id ws c sig hc hv
    have hid := ((addressed_steps (halone id)).hosts ws c hc).1
    have hcaptured := (room_owned (hsteps id)).2.2 hbinds ws c sig hc hv
    rw [hid] at hcaptured
    refine ⟨hid, hcaptured, fun id' ws' c' hne hc' hkey hv' => ?_⟩
    have hb : Bound subtle _ := bound_new.steps (halone id')
    obtain ⟨c'', hc'', -, nonce, hnonce, hverify⟩ := hb.checked ws' sig hv'
    obtain rfl : c' = c'' := Option.some.inj (hc'.symm.trans hc'')
    obtain ⟨⟨n, hn⟩, -⟩ := hb.hosts ws' c' hc'
    rw [hn, fromHex_toHex] at hnonce
    obtain rfl := Option.some.inj hnonce
    rw [((addressed_steps (halone id')).hosts ws' c' hc').1, hkey,
      hcaptured n id' fun heq => hne (Prod.mk.inj heq).2] at hverify
    cases hverify

section
variable {subtle : SubtleVerify} {turns : List WorkerTurn} {id : Text}

-- no host refuses a challenge that the worker's rooms send for the id it asked for
theorem challenge_answered (C : Crypto) (keys : DeviceKeys) {ws cause : Nat} {nonce cid : Text}
    (hsent : .sent ws (.challenge nonce cid) cause ∈ ((workerRun subtle turns).objects.rooms id).log) :
    ∃ n : ByteArr 32, nonce = toHex n.val ∧ ∀ requested : Option Text, (∀ i ∈ requested, i = id) →
      Register.answerChallenge C keys requested nonce cid = Register.sendAuth C keys n.val id := by
  obtain ⟨rfl, hid, n, rfl⟩ := (addressed_steps (worker_rooms subtle turns id)).challenges _ _ _ _ hsent
  refine ⟨n, rfl, fun requested hrequested => ?_⟩
  have hnonce : (hexDecode (toHex n.val)).filter (fun n => n.length = 32) = some n.val := by
    rw [show hexDecode (toHex n.val) = some n.val from fromHex_toHex n.val, Option.filter_some]
    exact if_pos (decide_eq_true n.property)
  have hsame : requested.any (· ≠ cid) = false := by
    cases requested with
    | none => rfl
    | some i => simpa using hrequested i rfl
  rw [Register.answerChallenge, hnonce]
  dsimp only
  rw [if_neg (by rw [isHostId_of_isRoomId hid]; decide), if_neg (by rw [hsame]; decide)]

end

theorem sample_challenge_answered : ∃ n : ByteArr 32,
    toHex (List.replicate 32 0) = toHex n.val ∧
      ∀ requested : Option Text, (∀ i ∈ requested, i = "123456789".toList) →
        Register.answerChallenge .sample sampleHost requested (toHex (List.replicate 32 0))
          "123456789".toList = Register.sendAuth .sample sampleHost n.val "123456789".toList := by
  have hsent : Output.sent 0 (.challenge (toHex (List.replicate 32 0)) "123456789".toList) 0 ∈
      ((workerRun (fun _ _ _ => none) sampleTurns).objects.rooms "123456789".toList).log := by
    decide
  exact challenge_answered .sample sampleHost hsent

end SimpleRemote.Signaling
