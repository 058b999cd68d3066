import Mathlib.Data.List.Nodup
import SimpleRemote.Library.Runs
import SimpleRemote.Auth

namespace SimpleRemote
open ByteCodec

-- a call of the AEAD's `encrypt` with its result
structure Call where
  key : ByteArr 32
  nonce : Bytes
  aad : Bytes
  plaintext : Bytes
  ciphertext : Bytes
  deriving DecidableEq

-- one direction of the channel: `messages` are the outputs of `seal` and `opened` the Ok
-- results of `open`, in order
structure Direction where
  sender : SealedSender
  receiver : SealedReceiver
  calls : List Call
  messages : List Bytes
  opened : List Bytes

-- each direction is named by its sender
structure Exchange where
  viewer : Direction
  host : Direction

inductive Act where
  | send (sender : Role) (plaintext : Bytes)
  | deliver (sender : Role) (msg : Bytes)
  deriving DecidableEq

def Act.sent (role : Role) : Act → Option Bytes
  | .send sender plaintext => if sender = role then some plaintext else none
  | .deliver _ _ => none

def sentBy (role : Role) (es : List Act) : List Bytes := es.filterMap (Act.sent role)

section
variable (C : Crypto)

def SealedSender.call (s : SealedSender) (plaintext : Bytes) : Call :=
  let nonce := nonceFor s.counter
  ⟨s.key, nonce, s.label, plaintext, C.encrypt s.key nonce s.label plaintext⟩

namespace Direction

def send (d : Direction) (plaintext : Bytes) : Option Direction :=
  match d.sender.seal C plaintext with
  | some (msg, sender) =>
      some { d with
        sender := sender
        calls := d.calls ++ [d.sender.call C plaintext]
        messages := d.messages ++ [msg] }
  | none => none

def deliver (d : Direction) (msg : Bytes) : Direction :=
  match d.receiver.open C msg with
  | .ok (plaintext, receiver) =>
      { d with receiver := receiver, opened := d.opened ++ [plaintext] }
  | .error _ => d

end Direction

namespace Exchange

def new (sk : SessionKeys) : Exchange where
  viewer := ⟨sk.viewerSide.1, sk.hostSide.2, [], [], []⟩
  host := ⟨sk.hostSide.1, sk.viewerSide.2, [], [], []⟩

def side (x : Exchange) : Role → Direction
  | .viewer => x.viewer
  | .host => x.host

def set (x : Exchange) (d : Direction) : Role → Exchange
  | .viewer => { x with viewer := d }
  | .host => { x with host := d }

-- `none` once a sender has panicked
def next (x : Option Exchange) : Act → Option Exchange
  | .send sender plaintext => do
      let x ← x
      let d ← (x.side sender).send C plaintext
      return x.set d sender
  | .deliver sender msg => do
      let x ← x
      return x.set ((x.side sender).deliver C msg) sender

end Exchange

structure Aead : Prop where
  length : ∀ key nonce aad plaintext,
    (C.encrypt key nonce aad plaintext).length = plaintext.length + 16
  decrypts : ∀ key nonce aad plaintext,
    C.decrypt key nonce aad (C.encrypt key nonce aad plaintext) = some plaintext

-- what a receiver decrypts was encrypted under the same key, nonce and associated data
def Unforged (x : Option Exchange) : Act → Prop
  | .send _ _ => True
  | .deliver sender msg => ∀ x' ∈ x,
      let r := (x'.side sender).receiver
      let nonce := nonceFor r.expectedCounter
      ∀ plaintext ∈ C.decrypt r.key nonce r.label (msg.drop 8),
        ⟨r.key, nonce, r.label, plaintext, msg.drop 8⟩ ∈ x'.viewer.calls ++ x'.host.calls

instance (x : Option Exchange) (a : Act) : Decidable (Unforged C x a) :=
  match a with
  | .send _ _ => .isTrue trivial
  | .deliver _ _ => inferInstanceAs (Decidable (∀ _ ∈ _, ∀ _ ∈ _, _ ∈ _))

structure Delivers (d : Direction) : Prop where
  prefix_opened : d.opened <+: d.calls.map Call.plaintext
  next_opens : ∀ msg call, d.messages[d.opened.length]? = some msg →
    d.calls[d.opened.length]? = some call →
    d.receiver.open C msg =
      .ok (call.plaintext, { d.receiver with expectedCounter := d.receiver.expectedCounter + 1 })
  failed_keeps : ∀ msg e, d.receiver.open C msg = .error e → d.deliver C msg = d
  messages_calls : d.messages.length = d.calls.length
  nonces_once : (d.calls.map Call.nonce).Nodup

end

def Role.sealLabel : Role → Bytes
  | .viewer => labelV2h
  | .host => labelH2v

def SessionKeys.sealKey (sk : SessionKeys) : Role → ByteArr 32
  | .viewer => sk.viewerToHost
  | .host => sk.hostToViewer

-- `n` counts the messages sealed so far
structure Direction.Counted (C : Crypto) (d : Direction) (key : ByteArr 32) (label : Bytes) :
    Prop where
  sender : d.sender = ⟨key, label, d.calls.length⟩
  receiver : d.receiver = ⟨key, label, d.opened.length⟩
  opened : d.opened <+: d.calls.map Call.plaintext
  messages : d.messages = d.calls.mapIdx fun i call => beBytes 8 i ++ call.ciphertext
  calls : ∀ (i : Nat) call, d.calls[i]? = some call →
    call = ⟨key, nonceFor i, label, call.plaintext, C.encrypt key (nonceFor i) label call.plaintext⟩

section
variable {C : Crypto} {d : Direction} {key : ByteArr 32} {label : Bytes}

theorem nonceFor_injective {n m : Nat} (hn : n < 2 ^ 64) (hm : m < 2 ^ 64)
    (h : nonceFor n = nonceFor m) : n = m :=
  beBytes_injective (by simpa using hn) (by simpa using hm) (List.append_cancel_left h)

theorem Direction.Counted.send (h : d.Counted C key label) (hlt : d.calls.length + 1 < 2 ^ 64)
    (plaintext : Bytes) : ∃ d', d.send C plaintext = some d' ∧ d'.Counted C key label ∧
      d'.calls = d.calls ++ [d.sender.call C plaintext] := by
  have hcounter : d.sender.counter = d.calls.length := by rw [h.sender]
  have hseal : d.sender.seal C plaintext =
      some (beBytes 8 d.calls.length ++ (d.sender.call C plaintext).ciphertext,
        { d.sender with counter := d.calls.length + 1 }) := by
    simp only [SealedSender.seal, hcounter, if_pos hlt]
    simp [SealedSender.call, hcounter]
  rw [Direction.send, hseal]
  refine ⟨_, rfl, ⟨?_, h.receiver, ?_, ?_, fun i call hcall => ?_⟩, rfl⟩
  · simp [h.sender]
  · rw [List.map_append]
    exact h.opened.trans (List.prefix_append _ _)
  · simp [h.messages, List.mapIdx_append]
  · rw [List.getElem?_append] at hcall
    split at hcall
    · exact h.calls i call hcall
    · rename_i hge
      have hi : i = d.calls.length := by
        by_contra hne
        rw [List.getElem?_eq_none (by rw [List.length_singleton]; omega)] at hcall
        cases hcall
      subst hi
      simp only [Nat.sub_self, List.getElem?_cons_zero, Option.some.injEq] at hcall
      rw [← hcall, SealedSender.call, h.sender]

theorem Direction.Counted.opens (h : d.Counted C key label) (haead : Aead C)
    (hlt : d.calls.length < 2 ^ 64) {call : Call} (hcall : d.calls[d.opened.length]? = some call) :
    d.receiver.open C (beBytes 8 d.opened.length ++ call.ciphertext) =
      .ok (call.plaintext, { d.receiver with expectedCounter := d.receiver.expectedCounter + 1 }) := by
  have hcall' := h.calls _ call hcall
  have hexpected : d.receiver.expectedCounter = d.opened.length := by rw [h.receiver]
  have hcount : d.opened.length < 256 ^ 8 := by
    have := (List.getElem?_eq_some_iff.mp hcall).1
    omega
  have hlen : call.ciphertext.length = call.plaintext.length + 16 := by
    rw [hcall']
    exact haead.length _ _ _ _
  have hdecrypt : C.decrypt key (nonceFor d.opened.length) label call.ciphertext =
      some call.plaintext := by
    conv_lhs => rw [hcall']
    exact haead.decrypts _ _ _ _
  rw [SealedReceiver.open, if_neg, if_neg]
  · rw [hexpected, h.receiver, List.drop_left' (beBytes_length 8 _), hdecrypt]
  · rw [List.take_left' (beBytes_length 8 _), fromBe_beBytes 8 _ hcount, hexpected]
    exact not_not.mpr rfl
  · simp only [List.length_append, beBytes_length, hlen, MIN_SEALED_LEN]
    omega

theorem Direction.Counted.deliver (h : d.Counted C key label) {msg : Bytes}
    (hunforged : ∀ plaintext,
      C.decrypt key (nonceFor d.opened.length) label (msg.drop 8) = some plaintext →
        ∃ call, d.calls[d.opened.length]? = some call ∧ call.plaintext = plaintext) :
    (d.deliver C msg).Counted C key label ∧ (d.deliver C msg).calls = d.calls := by
  rw [Direction.deliver]
  split
  · rename_i plaintext receiver hopen
    rw [SealedReceiver.open] at hopen
    split at hopen
    · cases hopen
    split at hopen
    · cases hopen
    split at hopen
    · rename_i plaintext' hdecrypt
      cases hopen
      rw [h.receiver] at hdecrypt
      obtain ⟨call, hcall, rfl⟩ := hunforged _ hdecrypt
      refine ⟨⟨h.sender, by simp [h.receiver], ?_, h.messages, h.calls⟩, rfl⟩
      obtain ⟨rest, hrest⟩ := h.opened
      have hnext : (d.calls.map Call.plaintext)[d.opened.length]? = some call.plaintext := by
        rw [List.getElem?_map, hcall]
        rfl
      rw [← hrest, List.getElem?_append_right (Nat.le_refl _), Nat.sub_self] at hnext
      cases rest with
      | nil => cases hnext
      | cons p rest =>
          obtain rfl : p = call.plaintext := Option.some.inj hnext
          exact ⟨rest, by rw [← hrest, List.append_assoc]; rfl⟩
    · cases hopen
  · exact ⟨h, rfl⟩

theorem Direction.Counted.delivers (h : d.Counted C key label) (haead : Aead C)
    (hlt : d.calls.length < 2 ^ 64) : Delivers C d where
  prefix_opened := h.opened
  next_opens msg call hmsg hcall := by
    rw [h.messages, List.getElem?_mapIdx, hcall] at hmsg
    obtain rfl := Option.some.inj hmsg
    exact h.opens haead hlt hcall
  failed_keeps msg e herr := by
    rw [Direction.deliver, herr]
  messages_calls := by simp [h.messages]
  nonces_once := by
    have hnonce (i : Nat) (hi : i < d.calls.length) : d.calls[i].nonce = nonceFor i := by
      rw [h.calls i d.calls[i] (List.getElem?_eq_getElem hi)]
    refine List.nodup_iff_injective_getElem.mpr fun i j hij => ?_
    have hi : i.val < d.calls.length := by simpa using i.isLt
    have hj : j.val < d.calls.length := by simpa using j.isLt
    simp only [List.getElem_map, hnonce i hi, hnonce j hj] at hij
    exact Fin.ext (nonceFor_injective (by omega) (by omega) hij)

end

namespace Exchange
variable {C : Crypto} {sk : SessionKeys} {x : Exchange}

@[simp] theorem side_set (x : Exchange) (d : Direction) (role role' : Role) :
    (x.set d role).side role' = if role' = role then d else x.side role' := by
  cases role <;> cases role' <;> rfl

def Counted (C : Crypto) (sk : SessionKeys) (x : Exchange) : Prop :=
  ∀ role, (x.side role).Counted C (sk.sealKey role) role.sealLabel

theorem counted_new : Counted C sk (.new sk) := by
  intro role
  cases role <;> exact ⟨rfl, rfl, List.nil_prefix, rfl, fun i call h => by cases h⟩

theorem sealLabel_injective {role role' : Role} (h : role.sealLabel = role'.sealLabel) :
    role = role' := by
  revert h
  cases role <;> cases role' <;> decide

theorem Counted.send (h : Counted C sk x) {role : Role}
    (hlt : (x.side role).calls.length + 1 < 2 ^ 64) (plaintext : Bytes) :
    ∃ y, next C (some x) (.send role plaintext) = some y ∧ Counted C sk y ∧
      ∀ role', (y.side role').calls.map Call.plaintext =
        (x.side role').calls.map Call.plaintext ++ sentBy role' [.send role plaintext] := by
  obtain ⟨d, hd, hcounted, hcalls⟩ := (h role).send hlt plaintext
  refine ⟨x.set d role, by simp [next, hd], fun role' => ?_, fun role' => ?_⟩
  · rw [side_set]
    split
    · rename_i heq
      rw [heq]
      exact hcounted
    · exact h role'
  · rw [side_set]
    split
    · rename_i heq
      subst heq
      simp [hcalls, sentBy, Act.sent, SealedSender.call]
    · rename_i hne
      simp [sentBy, Act.sent, Ne.symm hne]

theorem Counted.deliver (h : Counted C sk x) {role : Role} {msg : Bytes}
    (hlt : ∀ role, (x.side role).calls.length < 2 ^ 64)
    (hunforged : Unforged C (some x) (.deliver role msg)) :
    ∃ y, next C (some x) (.deliver role msg) = some y ∧ Counted C sk y ∧
      ∀ role', (y.side role').calls.map Call.plaintext =
        (x.side role').calls.map Call.plaintext := by
  have hmem (call : Call) (hcall : call ∈ x.viewer.calls ++ x.host.calls) :
      ∃ role', call ∈ (x.side role').calls := by
    rcases List.mem_append.mp hcall with hcall | hcall
    · exact ⟨.viewer, hcall⟩
    · exact ⟨.host, hcall⟩
  have hopened : (x.side role).opened.length ≤ (x.side role).calls.length := by
    simpa using (h role).opened.length_le
  have hgenuine (plaintext : Bytes)
      (hdecrypt : C.decrypt (sk.sealKey role) (nonceFor (x.side role).opened.length)
        role.sealLabel (msg.drop 8) = some plaintext) :
      ∃ call, (x.side role).calls[(x.side role).opened.length]? = some call ∧
        call.plaintext = plaintext := by
    have hcall := hunforged x rfl plaintext
    simp only [(h role).receiver] at hcall
    obtain ⟨role', hrole⟩ := hmem _ (hcall hdecrypt)
    obtain ⟨i, hi, hget⟩ := List.mem_iff_getElem.mp hrole
    have hshape := (h role').calls i _ (List.getElem?_eq_getElem hi)
    rw [hget] at hshape
    simp only [Call.mk.injEq] at hshape
    obtain ⟨-, hnonce, hlabel, -⟩ := hshape
    obtain rfl := sealLabel_injective hlabel
    have hlen := hlt role
    have heq := nonceFor_injective (by omega) (by omega) hnonce
    rw [heq, List.getElem?_eq_getElem hi, hget]
    exact ⟨_, rfl, rfl⟩
  obtain ⟨hcounted, hcalls⟩ := (h role).deliver hgenuine
  refine ⟨x.set ((x.side role).deliver C msg) role, rfl, fun role' => ?_, fun role' => ?_⟩
  · rw [side_set]
    split
    · rename_i heq
      rw [heq]
      exact hcounted
    · exact h role'
  · rw [side_set]
    split
    · rename_i heq
      rw [heq, hcalls]
    · rfl

theorem Counted.run (h : Counted C sk x) {es : List Act}
    (hrun : Runs.Along (next C) (Unforged C) (some x) es)
    (hlt : ∀ role, (x.side role).calls.length + (sentBy role es).length < 2 ^ 64) :
    ∃ y, es.foldl (next C) (some x) = some y ∧ Counted C sk y ∧ ∀ role,
      (y.side role).calls.map Call.plaintext =
        (x.side role).calls.map Call.plaintext ++ sentBy role es := by
  induction es generalizing x with
  | nil => exact ⟨x, rfl, h, fun role => (List.append_nil _).symm⟩
  | cons e es ih =>
      have hcons (role : Role) : sentBy role (e :: es) = sentBy role [e] ++ sentBy role es :=
        List.filterMap_append (l := [e])
      have hstep : ∃ y, next C (some x) e = some y ∧ Counted C sk y ∧ ∀ role,
          (y.side role).calls.map Call.plaintext =
            (x.side role).calls.map Call.plaintext ++ sentBy role [e] := by
        cases e with
        | send role plaintext =>
            refine h.send ?_ plaintext
            have := hlt role
            rw [hcons, List.length_append] at this
            simp only [sentBy, Act.sent, List.filterMap_cons, if_true, List.filterMap_nil,
              List.length_singleton] at this
            omega
        | deliver role msg =>
            obtain ⟨y, hy, hcounted, hcalls⟩ := h.deliver (fun role => by
              have := hlt role
              omega) hrun.1
            exact ⟨y, hy, hcounted, fun role' => (hcalls role').trans (List.append_nil _).symm⟩
      obtain ⟨y, hy, hcounted, hcalls⟩ := hstep
      have hlen (role : Role) : (y.side role).calls.length =
          (x.side role).calls.length + (sentBy role [e]).length := by
        have := congrArg List.length (hcalls role)
        simpa using this
      obtain ⟨z, hz, hcounted', hcalls'⟩ := ih hcounted (hy ▸ hrun.2) fun role => by
        have := hlt role
        rw [hcons, List.length_append] at this
        rw [hlen]
        omega
      refine ⟨z, by rw [List.foldl_cons, hy, hz], hcounted', fun role => ?_⟩
      rw [hcalls', hcalls, hcons, List.append_assoc]

end Exchange

theorem sealed_prefix {C : Crypto} (haead : Aead C) (sk : SessionKeys) {es : List Act}
    (hrun : Runs.Along (Exchange.next C) (Unforged C) (some (.new sk)) es)
    (hfew : ∀ role, (sentBy role es).length < 2 ^ 64) :
    ∃ x, es.foldl (Exchange.next C) (some (.new sk)) = some x ∧ ∀ role,
      (x.side role).calls.map Call.plaintext = sentBy role es ∧ Delivers C (x.side role) := by
  have hnew (role : Role) : ((Exchange.new sk).side role).calls = [] := by cases role <;> rfl
  obtain ⟨x, hx, hcounted, hcalls⟩ := Exchange.counted_new.run hrun fun role => by
    have := hfew role
    rw [hnew]
    simpa using this
  refine ⟨x, hx, fun role => ?_⟩
  have hsent : (x.side role).calls.map Call.plaintext = sentBy role es := by
    rw [hcalls, hnew]
    rfl
  refine ⟨hsent, (hcounted role).delivers haead ?_⟩
  have := congrArg List.length hsent
  rw [List.length_map] at this
  have := hfew role
  omega

def sampleTag (key : ByteArr 32) (nonce aad : Bytes) : Bytes :=
  (key.val.take 1 ++ nonce ++ aad ++ List.replicate 16 0).take 16

def sampleAead : Crypto := { Crypto.sample with
  encrypt := fun key nonce aad plaintext => plaintext ++ sampleTag key nonce aad
  decrypt := fun key nonce aad ciphertext =>
    if ciphertext.drop (ciphertext.length - 16) = sampleTag key nonce aad
    then some (ciphertext.take (ciphertext.length - 16)) else none }

theorem aead_sample : Aead sampleAead := by
  have htag (key : ByteArr 32) (nonce aad : Bytes) : (sampleTag key nonce aad).length = 16 := by
    rw [sampleTag, List.length_take]
    simp only [List.length_append, List.length_replicate]
    omega
  exact ⟨fun _ _ _ _ => by simp [sampleAead, htag], fun _ _ _ _ => by simp [sampleAead, htag]⟩

def SessionKeys.sample : SessionKeys := ⟨filled 32 7, filled 32 7, filled 32 9⟩

def sealedBy (role : Role) (counter : Nat) (plaintext : Bytes) : Bytes :=
  let s : SealedSender := ⟨SessionKeys.sample.sealKey role, role.sealLabel, counter⟩
  beBytes 8 counter ++ (s.call sampleAead plaintext).ciphertext

-- with equal keys both ways: a reflected, a reordered and a replayed message
def sampleActs : List Act :=
  [.send .viewer [1], .send .viewer [2], .send .host [3], .deliver .host (sealedBy .viewer 0 [1]),
    .deliver .viewer (sealedBy .viewer 1 [2]), .deliver .viewer (sealedBy .viewer 0 [1]),
    .deliver .viewer (sealedBy .viewer 0 [1]), .deliver .viewer (sealedBy .viewer 1 [2])]

theorem sample_sealed_prefix : ∃ x,
    sampleActs.foldl (Exchange.next sampleAead) (some (.new .sample)) = some x ∧
      (x.side .viewer).opened <+: [[1], [2]] ∧ (x.side .host).opened <+: [[3]] := by
  have hrun : Runs.Along (Exchange.next sampleAead) (Unforged sampleAead)
      (some (.new .sample)) sampleActs := by decide
  have hfew (role : Role) : (sentBy role sampleActs).length < 2 ^ 64 := by cases role <;> decide
  obtain ⟨x, hx, hside⟩ := sealed_prefix aead_sample .sample hrun hfew
  refine ⟨x, hx, ?_, ?_⟩
  · have hdelivers := (hside .viewer).2.prefix_opened
    rwa [(hside .viewer).1] at hdelivers
  · have hdelivers := (hside .host).2.prefix_opened
    rwa [(hside .host).1] at hdelivers

end SimpleRemote
