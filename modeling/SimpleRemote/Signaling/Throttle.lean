import SimpleRemote.Signaling.Ids

namespace SimpleRemote.Signaling
open ByteCodec Interaction

-- the limit that goes with a bucket's name
def limitOf (bucket : Text) : Nat :=
  if "viewer-ip:".toList.isPrefixOf bucket then VIEWER_PER_IP
  else if "viewer-id:".toList.isPrefixOf bucket then VIEWER_PER_ID
  else HOST_PER_IP

-- how many rooms a request may ask that has passed the bucket
def roomsPer (bucket : Text) : Nat :=
  if "viewer-ip:".toList.isPrefixOf bucket || "viewer-id:".toList.isPrefixOf bucket then 1
  else CLAIM_ATTEMPTS

@[simp] theorem limitOf_viewerIp (ip : Text) : limitOf (Worker.viewerIpBucket ip) = VIEWER_PER_IP := rfl

@[simp] theorem limitOf_viewerId (id : Text) : limitOf (Worker.viewerIdBucket id) = VIEWER_PER_ID := rfl

@[simp] theorem limitOf_hostIp (ip : Text) : limitOf (Worker.hostIpBucket ip) = HOST_PER_IP := rfl

theorem limitOf_pos (bucket : Text) : 1 ≤ limitOf bucket := by
  rw [limitOf]
  split
  · decide
  · split <;> decide

namespace Worker

def isRoom : WorkerOp → Bool
  | .room _ _ => true
  | _ => false

def roomsAsked (past : List (Ev WorkerSig)) : Nat := (past.filter fun e => isRoom e.op).length

def Passed (past : List (Ev WorkerSig)) (bucket : Text) : Prop :=
  ⟨.hit bucket (limitOf bucket), true⟩ ∈ past

-- every room asked so far has another owner
def AllTaken (past : List (Ev WorkerSig)) : Prop :=
  ∀ id q res, ⟨.room id q, res⟩ ∈ past → isTaken res = true

-- what a request has been through when it asks the room `id`
inductive Admitted (request : HttpRequest) (past : List (Ev WorkerSig)) : Text → Request → Prop
  | viewer {ip id : Text} (hip : request.clientIp = some ip)
      (hid : matchId "/v1/viewer/" request.pathname = some id)
      (hipOk : Passed past (viewerIpBucket ip)) (hidOk : Passed past (viewerIdBucket id))
      (hfirst : roomsAsked past = 0) : Admitted request past id (viewerRequest id)
  | host {ip id rawKey : Text} {claim : Bool} (hip : request.clientIp = some ip)
      (hviewer : matchId "/v1/viewer/" request.pathname = none)
      (hipOk : Passed past (hostIpBucket ip)) (hkey : request.key = some rawKey)
      (hhex : isKey rawKey = true) (hid : isRoomId id = true)
      (hwhich : if claim then matchId "/v1/host/" request.pathname = none
        else matchId "/v1/host/" request.pathname = some id ∧ roomsAsked past = 0)
      (htaken : AllTaken past) (hfew : roomsAsked past < CLAIM_ATTEMPTS) :
      Admitted request past id (hostRequest id (rawKey.map Char.toLower) claim)

def Allowed (request : HttpRequest) (past : List (Ev WorkerSig)) : WorkerOp → Prop
  | .hit bucket limit => limit = limitOf bucket ∧
      (roomsPer bucket = 1 → matchId "/v1/viewer/" request.pathname ≠ none)
  | .room id q => Admitted request past id q
  | _ => True

-- how a request can end: refused before any room is asked, with what a room said, or with no free id
inductive Answered (past : List (Ev WorkerSig)) : Response → Prop
  | refused (code : Nat) (text : Text) (hcode : code ∈ [400, 404, 426, 429])
      (hnone : roomsAsked past = 0) : Answered past (.status code text)
  | asked {pre : List (Ev WorkerSig)} {id : Text} {q : Request} {res : Response}
      (hlast : past = pre ++ [⟨.room id q, res⟩]) (htaken : AllTaken pre)
      (hclaim : q.claim = none ∨ isTaken res = false) : Answered past res
  | exhausted (htaken : AllTaken past) (hall : roomsAsked past = CLAIM_ATTEMPTS) :
      Answered past (.status 503 "no free id".toList)

def gate (request : HttpRequest) : Monitor WorkerSig (List (Ev WorkerSig)) where
  allow past o := Allowed request past o
  valid _ _ := True
  next past e := past ++ [e]

section
variable {request : HttpRequest} {past : List (Ev WorkerSig)}

theorem isRoomId_of_matchId {start : String} {pathname id : Text}
    (h : matchId start pathname = some id) : isRoomId id = true := by
  rw [matchId] at h
  split at h
  · exact (Option.filter_eq_some_iff.mp h).2
  · cases h

theorem roomsAsked_append (e : Ev WorkerSig) :
    roomsAsked (past ++ [e]) = roomsAsked past + if isRoom e.op then 1 else 0 := by
  rw [roomsAsked, List.filter_append, List.length_append, roomsAsked, List.filter_singleton]
  cases isRoom e.op <;> rfl

theorem Passed.later {bucket : Text} (h : Passed past bucket) (e : Ev WorkerSig) :
    Passed (past ++ [e]) bucket := List.mem_append_left _ h

theorem AllTaken.later {e : Ev WorkerSig} (h : AllTaken past)
    (he : ∀ id q res, e = ⟨.room id q, res⟩ → isTaken res = true) : AllTaken (past ++ [e]) := by
  intro id q res hmem
  rcases List.mem_append.mp hmem with hmem | hmem
  · exact h id q res hmem
  · exact he id q res (List.mem_singleton.mp hmem).symm

theorem allTaken_of_none (h : roomsAsked past = 0) : AllTaken past := by
  intro id q res hmem
  have hnil : past.filter (fun e => isRoom e.op) = [] := List.eq_nil_of_length_eq_zero h
  exact absurd rfl (List.filter_eq_nil_iff.mp hnil _ hmem)

theorem passed_now (bucket : Text) :
    Passed (past ++ [⟨.hit bucket (limitOf bucket), true⟩]) bucket := by simp [Passed]

theorem hitBoth_allowed {ip id : Text}
    (hid : matchId "/v1/viewer/" request.pathname = some id) (hfirst : roomsAsked past = 0) :
    (hitBoth ip id).wp (gate request) (fun past' r => roomsAsked past' = 0 ∧
      (r.1 = true → Passed past' (viewerIpBucket ip)) ∧
      (r.2 = true → Passed past' (viewerIdBucket id))) past := by
  have hviewer : matchId "/v1/viewer/" request.pathname ≠ none := by
    rw [hid]
    nofun
  refine ⟨trivial, fun first _ => ?_⟩
  cases first with
  | true =>
      refine ⟨⟨rfl, fun _ => hviewer⟩, fun ipOk _ => ⟨⟨rfl, fun _ => hviewer⟩, fun idOk _ => ⟨?_, ?_, ?_⟩⟩⟩
      · simp only [gate, roomsAsked_append, hfirst]
        rfl
      · rintro rfl
        exact (passed_now _).later _
      · rintro rfl
        exact passed_now _
  | false =>
      refine ⟨⟨rfl, fun _ => hviewer⟩, fun idOk _ => ⟨⟨rfl, fun _ => hviewer⟩, fun ipOk _ => ⟨?_, ?_, ?_⟩⟩⟩
      · simp only [gate, roomsAsked_append, hfirst]
        rfl
      · rintro rfl
        exact passed_now _
      · rintro rfl
        exact (passed_now _).later _

theorem fetchViewer_allowed {ip id : Text} (hip : request.clientIp = some ip)
    (hid : matchId "/v1/viewer/" request.pathname = some id) :
    (fetchViewer ip id).wp (gate request) Answered [] := by
  refine wp_bind.mpr (Prog.wp_mono (hitBoth_allowed hid rfl) ?_)
  rintro past ⟨ipOk, idOk⟩ ⟨hfirst, hipOk, hidOk⟩
  dsimp only
  split
  · exact .refused 429 _ (by decide) hfirst
  · rename_i hboth
    have hok : ipOk = true ∧ idOk = true := by simpa using hboth
    exact ⟨.viewer hip hid (hipOk hok.1) (hidOk hok.2) hfirst,
      fun _ _ => .asked rfl (allTaken_of_none hfirst) (.inl rfl)⟩

theorem claimLoop_allowed {ip rawKey : Text} (hip : request.clientIp = some ip)
    (hviewer : matchId "/v1/viewer/" request.pathname = none)
    (hnew : matchId "/v1/host/" request.pathname = none) (hkey : request.key = some rawKey)
    (hhex : isKey rawKey = true) (attempts : Nat) (hipOk : Passed past (hostIpBucket ip))
    (htaken : AllTaken past) (hfew : roomsAsked past + attempts = CLAIM_ATTEMPTS) :
    (claimLoop (rawKey.map Char.toLower) attempts).wp (gate request) Answered past := by
  induction attempts generalizing past with
  | zero => exact .exhausted htaken hfew
  | succ attempts ih =>
      refine ⟨trivial, fun draws _ => ?_⟩
      have hdrawn : roomsAsked (past ++ [⟨.getRandomValues, draws⟩]) = roomsAsked past :=
        roomsAsked_append _
      have htaken' : AllTaken (past ++ [⟨.getRandomValues, draws⟩]) := htaken.later nofun
      dsimp only [Prog.bind]
      split
      · trivial
      · rename_i id hid
        have hadmitted (hfew' : roomsAsked (past ++ [⟨.getRandomValues, draws⟩]) < CLAIM_ATTEMPTS) :
            Admitted request (past ++ [⟨.getRandomValues, draws⟩]) id
              (hostRequest id (rawKey.map Char.toLower) true) :=
          .host hip hviewer (hipOk.later _) hkey hhex (isRoomId_randomId hid) hnew htaken' hfew'
        refine ⟨hadmitted ?_, fun res _ => ?_⟩
        · omega
        · have hasked : roomsAsked (past ++ [⟨.getRandomValues, draws⟩] ++
              [⟨.room id (hostRequest id (rawKey.map Char.toLower) true), res⟩]) =
              roomsAsked past + 1 := by
            rw [roomsAsked_append, hdrawn]
            rfl
          dsimp only [Prog.bind]
          split
          · rename_i hres
            refine ih ((hipOk.later _).later _) (htaken'.later fun _ _ res' h => ?_) ?_
            · cases h
              exact hres
            · dsimp only [gate]
              omega
          · rename_i hres
            exact .asked rfl htaken' (.inr (Bool.not_eq_true _ ▸ hres))

theorem fetchHost_allowed {ip : Text} (hip : request.clientIp = some ip)
    (hviewer : matchId "/v1/viewer/" request.pathname = none) :
    (fetchHost ip (matchId "/v1/host/" request.pathname) (request.key.getD [])).wp (gate request)
      Answered [] := by
  refine ⟨⟨rfl, fun h => by cases h⟩, fun ok _ => ?_⟩
  cases ok with
  | false => exact .refused 429 _ (by decide) rfl
  | true =>
      have hipOk : Passed [⟨.hit (hostIpBucket ip) (limitOf (hostIpBucket ip)), true⟩]
          (hostIpBucket ip) := List.mem_singleton.mpr rfl
      have htaken : AllTaken [⟨.hit (hostIpBucket ip) (limitOf (hostIpBucket ip)), true⟩] := by
        intro id q res hmem
        cases List.mem_singleton.mp hmem
      have hnone : roomsAsked [⟨.hit (hostIpBucket ip) (limitOf (hostIpBucket ip)), true⟩] = 0 := rfl
      have hone : 0 < CLAIM_ATTEMPTS := by decide
      have hfew : roomsAsked [⟨.hit (hostIpBucket ip) (limitOf (hostIpBucket ip)), true⟩] +
          CLAIM_ATTEMPTS = CLAIM_ATTEMPTS := by rw [hnone, Nat.zero_add]
      dsimp only [Prog.bind]
      split
      · rename_i h
        cases h
      · split
        · exact .refused 400 _ (by decide) rfl
        · rename_i hkey
          have hhex : isKey (request.key.getD []) = true := by simpa using hkey
          have hsome : request.key = some (request.key.getD []) := by
            cases hk : request.key with
            | none =>
                rw [hk] at hhex
                cases hhex
            | some k => rfl
          split
          · rename_i id hid
            have hadmitted :
                Admitted request [⟨.hit (hostIpBucket ip) (limitOf (hostIpBucket ip)), true⟩] id
                  (hostRequest id ((request.key.getD []).map Char.toLower) false) :=
              .host hip hviewer hipOk hsome hhex (isRoomId_of_matchId hid) ⟨hid, hnone⟩ htaken
                (hnone ▸ hone)
            exact ⟨hadmitted, fun _ _ => .asked rfl htaken (.inl rfl)⟩
          · rename_i hid
            exact claimLoop_allowed hip hviewer hid hsome hhex _ hipOk htaken hfew

theorem fetch_allowed (request : HttpRequest) :
    (fetch request).wp (gate request) Answered [] := by
  rw [fetch]
  dsimp only
  split
  · exact .refused 404 _ (by decide) rfl
  · split
    · exact .refused 426 _ (by decide) rfl
    · split
      · exact .refused 400 _ (by decide) rfl
      · rename_i hip
        have hsome : request.clientIp = some (request.clientIp.getD []) := by
          cases h : request.clientIp with
          | none => exact absurd (by rw [h]; rfl) hip
          | some ip => rfl
        split
        · rename_i id hid
          exact fetchViewer_allowed hsome hid
        · rename_i hviewer
          exact fetchHost_allowed hsome hviewer

theorem gate_run (past tr : List (Ev WorkerSig)) : (gate request).run past tr = past ++ tr := by
  induction tr generalizing past with
  | nil => exact (List.append_nil past).symm
  | cons e tr ih => exact (ih (past ++ [e])).trans (List.append_cons past e tr).symm

theorem gate_valid (past tr : List (Ev WorkerSig)) : (gate request).Valid past tr := by
  induction tr generalizing past with
  | nil => trivial
  | cons e tr ih => exact ⟨trivial, ih _⟩

theorem thread_allowed (t : Thread fetch) : (gate t.request).Allowed [] t.trace :=
  (wp_path (fetch_allowed t.request) t.path (gate_valid _ _)).1

theorem thread_answered (t : Thread fetch) {res : Response} (h : t.rest = .ret res) :
    Answered t.trace res := by
  have hpost := (wp_path (fetch_allowed t.request) t.path (gate_valid _ _)).2
  rw [gate_run, h] at hpost
  exact hpost

theorem allowed_at (t : Thread fetch) {pre post : List (Ev WorkerSig)} {e : Ev WorkerSig}
    (h : t.trace = pre ++ e :: post) : Allowed t.request pre e.op := by
  have hall := thread_allowed t
  rw [h] at hall
  have hat := hall.at
  rwa [gate_run] at hat

theorem roomsAsked_le (t : Thread fetch) {n : Nat}
    (hroom : ∀ past id q, Admitted t.request past id q → roomsAsked past < n) :
    roomsAsked t.trace ≤ n := by
  have hprefix (pre : List (Ev WorkerSig)) (hpre : pre <+: t.trace) : roomsAsked pre ≤ n := by
    induction pre using List.reverseRecOn with
    | nil => exact Nat.zero_le n
    | append_singleton pre e ih =>
        obtain ⟨post, hpost⟩ := hpre
        have hbefore := ih ⟨e :: post, by rw [← hpost, List.append_assoc]; rfl⟩
        have htrace : t.trace = pre ++ e :: post := by
          rw [← hpost, List.append_assoc]
          rfl
        have hallowed := allowed_at t htrace
        rw [roomsAsked_append]
        obtain ⟨o, res⟩ := e
        cases o with
        | room id q => exact hroom pre id q hallowed
        | _ => exact hbefore
  exact hprefix _ (List.prefix_refl _)

theorem roomsAsked_le_attempts (t : Thread fetch) : roomsAsked t.trace ≤ CLAIM_ATTEMPTS := by
  refine roomsAsked_le t fun past id q h => ?_
  cases h with
  | viewer _ _ _ _ hfirst =>
      rw [hfirst]
      decide
  | host _ _ _ _ _ _ _ _ hfew => exact hfew

theorem roomsAsked_le_one (t : Thread fetch)
    (hviewer : matchId "/v1/viewer/" t.request.pathname ≠ none) : roomsAsked t.trace ≤ 1 := by
  refine roomsAsked_le t fun past id q h => ?_
  cases h with
  | viewer _ _ _ _ hfirst =>
      rw [hfirst]
      decide
  | host _ hnone => exact absurd hnone hviewer

end

end Worker

-- the answers of a bucket, each with its time
def answersOf (bucket : Text) (calls : List WorkerCall) : List (Int × Bool) :=
  calls.filterMap fun c => match c.ev with
    | ⟨.hit bucket' _, ok⟩ => if bucket' = bucket then some (c.input.now, ok) else none
    | _ => none

def timesOf (bucket : Text) (calls : List WorkerCall) : List Int :=
  (answersOf bucket calls).map Prod.fst

theorem hits_append (limit : Nat) (windowMs : Int) (stored : Option Window) (times : List Int)
    (now : Int) : hits limit windowMs stored (times ++ [now]) =
      hits limit windowMs stored times ++
        [hit limit windowMs (storedAfter limit windowMs stored times) now] := by
  induction times generalizing stored with
  | nil => rfl
  | cons t times ih => exact congrArg _ (ih _)

theorem storedAfter_append (limit : Nat) (windowMs : Int) (stored : Option Window)
    (times : List Int) (now : Int) : storedAfter limit windowMs stored (times ++ [now]) =
      some (hit limit windowMs (storedAfter limit windowMs stored times) now).next :=
  List.foldl_append ..

-- what the buckets hold and have answered is what each would alone
structure Counting (s : Objects) (calls : List WorkerCall) : Prop where
  stored : ∀ bucket, s.buckets bucket =
    storedAfter (limitOf bucket) WINDOW_MS none (timesOf bucket calls)
  answers : ∀ bucket, answersOf bucket calls =
    (hits (limitOf bucket) WINDOW_MS none (timesOf bucket calls)).map fun h => (h.now, h.ok)

section
variable {s : Objects} {calls : List WorkerCall}

theorem answersOf_hit (bucket bucket' : Text) (i limit : Nat) (m : Moment) (ok : Bool) :
    answersOf bucket (calls ++ [⟨i, m, .hit bucket' limit, ok⟩]) =
      answersOf bucket calls ++ if bucket' = bucket then [(m.now, ok)] else [] := by
  rw [answersOf, List.filterMap_append, ← answersOf]
  refine congrArg _ ?_
  by_cases h : bucket' = bucket <;> simp [h]

theorem answersOf_other (bucket : Text) {c : WorkerCall}
    (h : ∀ bucket limit ok, c.ev ≠ ⟨.hit bucket limit, ok⟩) :
    answersOf bucket (calls ++ [c]) = answersOf bucket calls := by
  have hnone : answersOf bucket [c] = [] := by
    obtain ⟨i, m, o, res⟩ := c
    cases o with
    | hit bucket' limit => exact absurd rfl (h bucket' limit res)
    | _ => rfl
  rw [answersOf, List.filterMap_append, ← answersOf, ← answersOf, hnone, List.append_nil]

theorem Counting.other (h : Counting s calls) {s' : Objects} {c : WorkerCall}
    (hs : s'.buckets = s.buckets) (hc : ∀ bucket limit ok, c.ev ≠ ⟨.hit bucket limit, ok⟩) :
    Counting s' (calls ++ [c]) := by
  refine ⟨fun bucket => ?_, fun bucket => ?_⟩
  · rw [hs, timesOf, answersOf_other bucket hc]
    exact h.stored bucket
  · rw [timesOf, answersOf_other bucket hc]
    exact h.answers bucket

theorem Counting.hit (h : Counting s calls) (i : Nat) (m : Moment) (bucket : Text) :
    Counting (s.serve m (.hit bucket (limitOf bucket))).2
      (calls ++ [⟨i, m, .hit bucket (limitOf bucket), (s.serve m (.hit bucket (limitOf bucket))).1⟩]) := by
  have htimes (bucket' : Text) (hne : bucket ≠ bucket') (ok : Bool) :
      answersOf bucket' (calls ++ [⟨i, m, .hit bucket (limitOf bucket), ok⟩]) =
        answersOf bucket' calls := by
    rw [answersOf_hit, if_neg hne, List.append_nil]
  have hnow (ok : Bool) : timesOf bucket (calls ++ [⟨i, m, .hit bucket (limitOf bucket), ok⟩]) =
      timesOf bucket calls ++ [m.now] := by
    rw [timesOf, answersOf_hit, if_pos rfl, List.map_append]
    rfl
  refine ⟨fun bucket' => ?_, fun bucket' => ?_⟩
  · by_cases heq : bucket' = bucket
    · subst heq
      rw [hnow, storedAfter_append, ← h.stored]
      exact if_pos rfl
    · rw [timesOf, htimes bucket' (Ne.symm heq)]
      exact (if_neg heq).trans (h.stored bucket')
  · by_cases heq : bucket' = bucket
    · subst heq
      rw [hnow, hits_append, List.map_append, ← h.answers, answersOf_hit, if_pos rfl, ← h.stored]
      rfl
    · rw [timesOf, htimes bucket' (Ne.symm heq)]
      exact h.answers bucket'

end

theorem fetch_limits (request : HttpRequest) :
    (Worker.fetch request).Uses fun o : WorkerOp => ∀ bucket limit, o = .hit bucket limit →
      limit = limitOf bucket := by
  refine uses_of_wp (M := Worker.gate request) (fun _ _ => trivial) ?_ (Worker.fetch_allowed request)
  rintro past o hallow bucket limit rfl
  exact hallow.1

theorem worker_counting (subtle : SubtleVerify) (turns : List WorkerTurn) :
    Counting (workerRun subtle turns).objects (workerRun subtle turns).calls := by
  refine Sharing.run_shared (M := worker subtle) fetch_limits ⟨fun _ => rfl, fun _ => rfl⟩ ?_ ?_ turns
  · intro s calls i m o h hlimit
    cases o with
    | hit bucket limit =>
        obtain rfl := hlimit bucket limit rfl
        exact h.hit i m bucket
    | room id request => exact h.other rfl nofun
    | getRandomValues => exact h.other rfl nofun
    | first => exact h.other rfl nofun
  · rintro s calls ⟨id, e⟩ h
    have hbuckets : ((worker subtle).own s (id, e)).buckets = s.buckets := by
      cases e with
      | fetch request random => rfl
      | _ =>
          dsimp only [worker, Objects.own]
          split <;> rfl
    exact ⟨fun bucket => hbuckets ▸ h.stored bucket, h.answers⟩

-- a call on the bucket within the window from `a` that lets its request in
def letIn (bucket : Text) (a : Int) (c : WorkerCall) : Bool :=
  (answersOf bucket [c]).any fun x => x.2 && (a ≤ x.1 && x.1 < a + WINDOW_MS)

def asksRoom (c : WorkerCall) : Bool := Worker.isRoom c.ev.op

-- the calls on rooms by the requests that the bucket has let in within that window
def roomsReached (bucket : Text) (a : Int) (calls : List WorkerCall) : List WorkerCall :=
  calls.filter fun c => asksRoom c && calls.any fun c' => letIn bucket a c' && c'.thread = c.thread

theorem length_letIn {subtle : SubtleVerify} {turns : List WorkerTurn} (bucket : Text) (a : Int) :
    ((workerRun subtle turns).calls.filter (letIn bucket a)).length =
      okCount (limitOf bucket) WINDOW_MS a none (timesOf bucket (workerRun subtle turns).calls) := by
  have hcount (calls : List WorkerCall) : (calls.filter (letIn bucket a)).length =
      (answersOf bucket calls).countP fun x => x.2 && (a ≤ x.1 && x.1 < a + WINDOW_MS) := by
    induction calls with
    | nil => rfl
    | cons c calls ih =>
        have hcons : answersOf bucket (c :: calls) = answersOf bucket [c] ++ answersOf bucket calls :=
          List.filterMap_append (l := [c])
        have hone : (answersOf bucket [c]).length ≤ 1 := List.length_filterMap_le _ _
        rw [hcons, List.countP_append, ← ih, List.filter_cons, letIn]
        cases hx : answersOf bucket [c] with
        | nil => simp
        | cons x rest =>
            rw [hx] at hone
            obtain rfl : rest = [] := List.eq_nil_of_length_eq_zero (by simpa using hone)
            simp only [List.any_cons, List.any_nil, Bool.or_false, List.countP_singleton]
            split
            · exact Nat.add_comm _ _
            · exact (Nat.zero_add _).symm
  rw [hcount, (worker_counting subtle turns).answers, okCount, List.countP_map]
  rfl

theorem hit_of_letIn {bucket : Text} {a : Int} {c : WorkerCall} (h : letIn bucket a c = true) :
    ∃ limit, c.ev.op = .hit bucket limit := by
  obtain ⟨i, m, o, res⟩ := c
  cases o with
  | hit bucket' limit =>
      by_cases heq : bucket' = bucket
      · exact ⟨limit, congrArg (WorkerOp.hit · limit) heq⟩
      · simp [letIn, answersOf, heq] at h
  | _ => cases h

theorem roomsAsked_le_roomsPer (t : Thread Worker.fetch) {bucket : Text} {limit : Nat}
    {e : Ev WorkerSig} (he : e ∈ t.trace) (hop : e.op = .hit bucket limit) :
    Worker.roomsAsked t.trace ≤ roomsPer bucket := by
  obtain ⟨pre, post, htrace⟩ := List.append_of_mem he
  have hallowed := Worker.allowed_at t htrace
  rw [hop] at hallowed
  have hviewer := hallowed.2
  rw [roomsPer] at hviewer ⊢
  split
  · rename_i hone
    rw [if_pos hone] at hviewer
    exact Worker.roomsAsked_le_one t (hviewer rfl)
  · exact Worker.roomsAsked_le_attempts t

section
variable {subtle : SubtleVerify} {turns : List WorkerTurn} {bucket : Text}

theorem rooms_of_thread (a : Int) (i : Nat) :
    ((workerRun subtle turns).calls.filter fun c =>
      (asksRoom c && (workerRun subtle turns).calls.any fun c' =>
        letIn bucket a c' && c'.thread = c.thread) && decide (c.thread = i)).length ≤
      roomsPer bucket := by
  have hlogged := Sharing.run_logged (M := worker subtle) .new turns
  by_cases hin : ∃ c' ∈ (workerRun subtle turns).calls, letIn bucket a c' = true ∧ c'.thread = i
  · obtain ⟨c', hmem', hin, hthread'⟩ := hin
    obtain ⟨t, ht⟩ : ∃ t, (workerRun subtle turns).threads[i]? = some t :=
      ⟨_, List.getElem?_eq_getElem (hthread' ▸ hlogged.known c' hmem')⟩
    have htrace := hlogged.traces i t ht
    have hev : c'.ev ∈ t.trace := by
      rw [← htrace]
      exact List.mem_map_of_mem (List.mem_filter.mpr ⟨hmem', decide_eq_true hthread'⟩)
    obtain ⟨limit, hop⟩ := hit_of_letIn hin
    have hle := roomsAsked_le_roomsPer t hev hop
    have hasked : Worker.roomsAsked t.trace =
        ((workerRun subtle turns).calls.filter fun c => asksRoom c && decide (c.thread = i)).length := by
      rw [← htrace, Worker.roomsAsked, List.filter_map, List.length_map, Sharing.callsOf,
        List.filter_filter]
      rfl
    rw [hasked, ← List.countP_eq_length_filter] at hle
    rw [← List.countP_eq_length_filter]
    refine le_trans (List.countP_mono_left fun c _ hc => ?_) hle
    simp only [Bool.and_eq_true] at hc ⊢
    exact ⟨hc.1.1, hc.2⟩
  · rw [List.filter_eq_nil_iff.mpr]
    · exact Nat.zero_le _
    · intro c _ hq
      simp only [Bool.and_eq_true, List.any_eq_true, decide_eq_true_eq] at hq
      obtain ⟨⟨-, c', hmem', hin', hthread'⟩, hi⟩ := hq
      exact hin ⟨c', hmem', hin', hthread'.trans hi⟩

theorem roomsReached_le (a : Int)
    (hclock : (timesOf bucket (workerRun subtle turns).calls).Pairwise (· ≤ ·)) :
    (roomsReached bucket a (workerRun subtle turns).calls).length ≤
      roomsPer bucket * (2 * limitOf bucket) := by
  have hcounted : Counted none := fun w hw => by cases hw
  have hthread (i : Nat) := @rooms_of_thread subtle turns bucket a i
  have hfew := length_filter_le_mul (p := letIn bucket a) Interaction.Call.thread hthread (by
    intro c _ hq
    simp only [Bool.and_eq_true, List.any_eq_true, decide_eq_true_eq] at hq
    exact hq.2)
  have hok : okCount (limitOf bucket) WINDOW_MS a none
      (timesOf bucket (workerRun subtle turns).calls) ≤ 2 * limitOf bucket :=
    okCount_le (limitOf_pos bucket) hcounted hclock
  rw [length_letIn] at hfew
  exact hfew.trans (Nat.mul_le_mul_left _ hok)

end

-- rooms are asked only by requests that have passed their buckets, each bucket answers as if it
-- were alone, and so many rooms are reached through it in any window
theorem worker_throttles (subtle : SubtleVerify) (turns : List WorkerTurn) :
    (∀ t ∈ (workerRun subtle turns).threads, ∀ pre id q res post,
      t.trace = pre ++ ⟨.room id q, res⟩ :: post → Worker.Admitted t.request pre id q) ∧
    (∀ bucket, answersOf bucket (workerRun subtle turns).calls =
      (hits (limitOf bucket) WINDOW_MS none (timesOf bucket (workerRun subtle turns).calls)).map
        fun h => (h.now, h.ok)) ∧
    ∀ bucket a, (timesOf bucket (workerRun subtle turns).calls).Pairwise (· ≤ ·) →
      (roomsReached bucket a (workerRun subtle turns).calls).length ≤
        roomsPer bucket * (2 * limitOf bucket) :=
  ⟨fun t _ _ _ _ _ _ htrace => Worker.allowed_at t htrace, (worker_counting subtle turns).answers,
    fun _ a hclock => roomsReached_le a hclock⟩

def sampleViewer : HttpRequest where
  method := "GET".toList
  pathname := "/v1/viewer/123456789".toList
  key := none
  upgrade := some "websocket".toList
  clientIp := some "192.0.2.1".toList

def sampleAt (now : Int) : Moment := ⟨now, ⟨List.replicate 32 7, rfl⟩, [], true⟩

-- two viewers with one address in turn, each up to its room
def sampleViewers : List WorkerTurn :=
  [.start sampleViewer, .start sampleViewer, .call 0 (sampleAt 0), .call 1 (sampleAt 0),
    .call 0 (sampleAt 1), .call 1 (sampleAt 4), .call 1 (sampleAt 5), .call 0 (sampleAt 6),
    .call 0 (sampleAt 7), .call 1 (sampleAt 8)]

theorem sample_worker_throttles :
    (roomsReached "viewer-ip:192.0.2.1".toList 0
      (workerRun (fun _ _ _ => none) sampleViewers).calls).length = 2 ∧
    (roomsReached "viewer-ip:192.0.2.1".toList 0
      (workerRun (fun _ _ _ => none) sampleViewers).calls).length ≤
        roomsPer "viewer-ip:192.0.2.1".toList * (2 * limitOf "viewer-ip:192.0.2.1".toList) :=
  ⟨by decide, (worker_throttles _ sampleViewers).2.2 _ 0 (by decide)⟩

end SimpleRemote.Signaling
