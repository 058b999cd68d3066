import Mathlib.Data.List.TakeWhile
import SimpleRemote.Transport.Effects

namespace SimpleRemote
open ByteCodec

-- what the link reads of a parsed `http::Uri`
structure Uri where
  scheme : Option Text
  authority : Option Text
  port : Option Nat
  deriving DecidableEq

def afterLast (c : Char) (s : Text) : Text := (s.reverse.takeWhile (· ≠ c)).reverse

def throughFirst (c : Char) : Text → Text
  | [] => []
  | x :: xs => if x = c then [x] else x :: throughFirst c xs

-- `Authority::host`
def authorityHost (authority : Text) : Text :=
  let hostPort := afterLast '@' authority
  if hostPort.head? = some '[' then throughFirst ']' hostPort else hostPort.takeWhile (· ≠ ':')

def Uri.host (uri : Uri) : Option Text := uri.authority.map authorityHost

def lowercase (s : Text) : Text := s.map Char.toLower

def eqIgnoreAsciiCase (a b : Text) : Bool := lowercase a = lowercase b

def stripPrefix (start s : Text) : Option Text :=
  if start.isPrefixOf s then some (s.drop start.length) else none

def stripIpv6Brackets : Text → Text
  | '[' :: rest => if rest.getLast? = some ']' then rest.dropLast else '[' :: rest
  | host => host

def Uri.schemeIs (uri : Uri) (scheme : String) : Bool :=
  eqIgnoreAsciiCase (uri.scheme.getD []) scheme.toList

variable (parse : Text → Option Uri)

def ensureSecureUrl (url : Text) : Except LinkError Uri :=
  match parse url with
  | none => .error .insecureUrl
  | some uri =>
      if uri.schemeIs "wss" then .ok uri
      else if !uri.schemeIs "ws" then .error .insecureUrl
      else
        match uri.authority with
        | none => .error .insecureUrl
        | some rawAuthority =>
            if rawAuthority.contains '@' then .error .insecureUrl
            else
              let rawHost := authorityHost rawAuthority
              match stripPrefix rawHost rawAuthority with
              | none => .error .insecureUrl
              | some rest =>
                  if rest.isEmpty || rest.head? = some ':' then
                    let host := stripIpv6Brackets rawHost
                    if eqIgnoreAsciiCase host "127.0.0.1".toList || host = "::1".toList ||
                        eqIgnoreAsciiCase host "localhost".toList then .ok uri
                    else .error .insecureUrl
                  else .error .insecureUrl

-- what `WsLink::connect` passes to `connect_tcp`
def tcpTarget (url : Text) : Except LinkError (Text × Nat) :=
  match ensureSecureUrl parse url with
  | .error e => .error e
  | .ok uri =>
      match uri.host with
      | none => .error .insecureUrl
      | some host =>
          .ok (stripIpv6Brackets host, uri.port.getD (if uri.schemeIs "wss" then 443 else 80))

-- `authority` is a host that `allowed` takes, alone or followed by ':' and the rest
def HostAndRest (allowed : Text → Prop) (authority host : Text) : Prop :=
  '@' ∉ authority ∧ allowed host ∧
    ∃ rest, authority = host ++ rest ∧ (rest = [] ∨ rest.head? = some ':')

def LoopbackHost (host : Text) : Prop :=
  host = "127.0.0.1".toList ∨ lowercase host = "localhost".toList ∨ host = "[::1]".toList

def BracketedName (host : Text) : Prop :=
  host = "[127.0.0.1]".toList ∨ lowercase host = "[localhost]".toList

def Secure (allowed : Text → Prop) (uri : Uri) : Prop :=
  uri.schemeIs "wss" = true ∨ uri.schemeIs "ws" = true ∧
    ∃ authority host, uri.authority = some authority ∧ HostAndRest allowed authority host

def Dials (allowed : Text → Prop) (uri : Uri) (name : Text) : Prop :=
  uri.schemeIs "wss" = true ∨ uri.schemeIs "ws" = true ∧
    ∃ authority host, uri.authority = some authority ∧ HostAndRest allowed authority host ∧
      name = stripIpv6Brackets host

section Host

theorem afterLast_of_notMem {c : Char} {s : Text} (h : c ∉ s) : afterLast c s = s := by
  have hall : ∀ x ∈ s.reverse, decide (x ≠ c) = true := by
    intro x hx
    have hne : x ≠ c := by
      rintro rfl
      exact h (List.mem_reverse.mp hx)
    exact decide_eq_true hne
  rw [afterLast, List.takeWhile_eq_self_iff.mpr hall, List.reverse_reverse]

theorem throughFirst_append {c : Char} {s : Text} (h : c ∉ s) (rest : Text) :
    throughFirst c (s ++ c :: rest) = s ++ [c] := by
  induction s with
  | nil => simp [throughFirst]
  | cons x s ih =>
      simp only [List.mem_cons, not_or] at h
      rw [List.cons_append, throughFirst, if_neg (Ne.symm h.1), ih h.2]
      rfl

theorem takeWhile_colon {host rest : Text} (hhost : ':' ∉ host)
    (hrest : rest = [] ∨ rest.head? = some ':') :
    (host ++ rest).takeWhile (· ≠ ':') = host := by
  have hall : ∀ x ∈ host, decide (x ≠ ':') = true := by
    intro x hx
    have hne : x ≠ ':' := by
      rintro rfl
      exact hhost hx
    exact decide_eq_true hne
  rw [List.takeWhile_append_of_pos hall]
  cases rest with
  | nil => simp
  | cons x rest =>
      rcases hrest with hnil | hcolon
      · cases hnil
      · cases hcolon
        simp

theorem eq_of_toLower_eq {c d : Char} (hd : d.toNat < 97) (h : c.toLower = d) : c = d := by
  delta Char.toLower at h
  split at h
  · rename_i hletter
    have hval : (c.val + ('a'.val - 'A'.val)).toNat = d.toNat := congrArg Char.toNat h
    have hlow : 65 ≤ c.val.toNat := hletter.1
    have hhigh : c.val.toNat ≤ 90 := hletter.2
    have hshift : ('a'.val - 'A'.val).toNat = 32 := rfl
    rw [UInt32.toNat_add, hshift] at hval
    omega
  · exact h

theorem eq_of_lowercase_eq {s t : Text} (ht : ∀ d ∈ t, d.toNat < 97) (h : lowercase s = t) :
    s = t := by
  induction s generalizing t with
  | nil => exact h
  | cons c s ih =>
      subst h
      have hc := eq_of_toLower_eq (ht _ (List.mem_cons_self ..)) rfl
      have hs : s = lowercase s := ih (fun d hd => ht d (List.mem_cons_of_mem _ hd)) rfl
      rw [lowercase, List.map_cons, ← hc]
      exact congrArg (c :: ·) hs

theorem notMem_of_lowercase {c : Char} {s t : Text} (h : lowercase s = t)
    (hc : c.toLower ∉ t) : c ∉ s := by
  intro hmem
  subst h
  exact hc (List.mem_map_of_mem hmem)

theorem lowercase_brackets {s t : Text} (h : lowercase s = '[' :: (t ++ [']'])) :
    ∃ n, s = '[' :: (n ++ [']']) ∧ lowercase n = t := by
  obtain ⟨c, s, rfl, hc, hs⟩ := List.map_eq_cons_iff.mp h
  obtain ⟨n, e, rfl, hn, he⟩ := List.map_eq_append_iff.mp hs
  obtain ⟨d, e, rfl, hd, he⟩ := List.map_eq_cons_iff.mp he
  obtain rfl := List.map_eq_nil_iff.mp he
  obtain rfl := eq_of_toLower_eq (by decide) hc
  obtain rfl := eq_of_toLower_eq (by decide) hd
  exact ⟨n, rfl, hn⟩

@[simp] theorem stripIpv6Brackets_brackets (n : Text) :
    stripIpv6Brackets ('[' :: (n ++ [']'])) = n := by
  simp [stripIpv6Brackets]

theorem stripIpv6Brackets_cases (host : Text) :
    host = '[' :: (stripIpv6Brackets host ++ [']']) ∨ stripIpv6Brackets host = host := by
  rw [stripIpv6Brackets.eq_def]
  split
  · split
    · rename_i rest hlast
      left
      rw [List.dropLast_append_getLast? _ hlast]
    · exact .inr rfl
  · exact .inr rfl

theorem stripPrefix_append (start rest : Text) : stripPrefix start (start ++ rest) = some rest := by
  simp [stripPrefix]

theorem eq_append_of_stripPrefix {start s rest : Text} (h : stripPrefix start s = some rest) :
    s = start ++ rest := by
  rw [stripPrefix] at h
  split at h
  · rename_i hstart
    obtain ⟨t, rfl⟩ := List.isPrefixOf_iff_prefix.mp hstart
    rw [List.drop_left] at h
    rw [Option.some.inj h]
  · cases h

def LoopbackName (n : Text) : Prop := n = "127.0.0.1".toList ∨ lowercase n = "localhost".toList

theorem LoopbackName.notMem {n : Text} (h : LoopbackName n) : '[' ∉ n ∧ ']' ∉ n ∧ ':' ∉ n := by
  rcases h with rfl | h
  · decide
  · exact ⟨notMem_of_lowercase h (by decide), notMem_of_lowercase h (by decide),
      notMem_of_lowercase h (by decide)⟩

def AcceptedHost (host : Text) : Prop := LoopbackHost host ∨ BracketedName host

theorem acceptedHost_iff (host : Text) :
    AcceptedHost host ↔ LoopbackName host ∨
      ∃ n, host = '[' :: (n ++ [']']) ∧ (LoopbackName n ∨ n = "::1".toList) := by
  constructor
  · rintro ((h | h | h) | (h | h))
    · exact .inl (.inl h)
    · exact .inl (.inr h)
    · exact .inr ⟨"::1".toList, h, .inr rfl⟩
    · exact .inr ⟨"127.0.0.1".toList, h, .inl (.inl rfl)⟩
    · obtain ⟨n, hhost, hn⟩ := lowercase_brackets (t := "localhost".toList) h
      exact .inr ⟨n, hhost, .inl (.inr hn)⟩
  · rintro ((h | h) | ⟨n, rfl, (h | h) | h⟩)
    · exact .inl (.inl h)
    · exact .inl (.inr (.inl h))
    · exact .inr (.inl (h ▸ rfl))
    · right
      right
      rw [lowercase, List.map_cons, List.map_append]
      exact congrArg (fun t => '[' :: (t ++ [']'])) h
    · exact .inl (.inr (.inr (h ▸ rfl)))

theorem authorityHost_append {host rest : Text} (hat : '@' ∉ host ++ rest)
    (hhost : AcceptedHost host) (hrest : rest = [] ∨ rest.head? = some ':') :
    authorityHost (host ++ rest) = host := by
  rw [authorityHost, afterLast_of_notMem hat]
  rcases (acceptedHost_iff host).mp hhost with hname | ⟨n, rfl, hname⟩
  · obtain ⟨hopen, -, hcolon⟩ := hname.notMem
    rw [if_neg, takeWhile_colon hcolon hrest]
    intro hhead
    cases host with
    | nil =>
        rcases hrest with rfl | hrest
        · cases hhead
        · rw [List.nil_append, hrest] at hhead
          cases hhead
    | cons c host =>
        obtain rfl := Option.some.inj hhead
        exact hopen (List.mem_cons_self ..)
  · have hclose : ']' ∉ '[' :: n := by
      simp only [List.mem_cons, not_or]
      refine ⟨by decide, ?_⟩
      rcases hname with hname | rfl
      · exact hname.notMem.2.1
      · decide
    have hhead : ('[' :: (n ++ [']']) ++ rest).head? = some '[' := rfl
    rw [if_pos hhead]
    have hthrough := throughFirst_append hclose rest
    simpa using hthrough

theorem name_of_accepted {host : Text} (h : AcceptedHost host) :
    LoopbackName (stripIpv6Brackets host) ∨ stripIpv6Brackets host = "::1".toList := by
  rcases (acceptedHost_iff host).mp h with hname | ⟨n, rfl, hname⟩
  · left
    rcases stripIpv6Brackets_cases host with hbrackets | hsame
    · exact absurd (hbrackets ▸ List.mem_cons_self ..) hname.notMem.1
    · rwa [hsame]
  · rwa [stripIpv6Brackets_brackets]

theorem colon_notMem_authorityHost (authority : Text)
    (h : (authorityHost authority).head? ≠ some '[') : ':' ∉ authorityHost authority := by
  rw [authorityHost] at h ⊢
  split
  · rename_i hopen
    rw [if_pos hopen] at h
    cases hport : afterLast '@' authority with
    | nil =>
        rw [hport] at hopen
        cases hopen
    | cons c hostPort =>
        rw [hport] at hopen h
        obtain rfl := Option.some.inj hopen
        exact absurd (by simp [throughFirst]) h
  · intro hmem
    have := List.mem_takeWhile_imp hmem
    simp at this

theorem accepted_authorityHost {authority : Text}
    (h : eqIgnoreAsciiCase (stripIpv6Brackets (authorityHost authority)) "127.0.0.1".toList = true ∨
      stripIpv6Brackets (authorityHost authority) = "::1".toList ∨
      eqIgnoreAsciiCase (stripIpv6Brackets (authorityHost authority)) "localhost".toList = true) :
    AcceptedHost (authorityHost authority) := by
  have hnumeric {n : Text} (hn : eqIgnoreAsciiCase n "127.0.0.1".toList = true) :
      n = "127.0.0.1".toList := by
    have hdigits : "127.0.0.1".toList.all (fun d => decide (d.toNat < 97)) = true := by decide
    exact eq_of_lowercase_eq (fun d hd => of_decide_eq_true (List.all_eq_true.mp hdigits d hd))
      (of_decide_eq_true hn)
  have hname {n : Text} (hn : eqIgnoreAsciiCase n "localhost".toList = true) :
      lowercase n = "localhost".toList := of_decide_eq_true hn
  apply (acceptedHost_iff _).mpr
  rcases stripIpv6Brackets_cases (authorityHost authority) with hbrackets | hsame
  · right
    refine ⟨_, hbrackets, ?_⟩
    rcases h with h | h | h
    · exact .inl (.inl (hnumeric h))
    · exact .inr h
    · exact .inl (.inr (hname h))
  · rw [hsame] at h
    left
    rcases h with h | h | h
    · exact .inl (hnumeric h)
    · have hcolon := colon_notMem_authorityHost authority (by rw [h]; decide)
      rw [h] at hcolon
      exact absurd (by decide) hcolon
    · exact .inr (hname h)

end Host

section
variable {parse} {url : Text} {uri : Uri}

theorem ensureSecureUrl_ok (h : ensureSecureUrl parse url = .ok uri) :
    parse url = some uri ∧ (uri.schemeIs "wss" = true ∨ uri.schemeIs "ws" = true ∧
      ∃ authority, uri.authority = some authority ∧
        HostAndRest AcceptedHost authority (authorityHost authority)) := by
  rw [ensureSecureUrl] at h
  split at h
  · cases h
  rename_i uri' hparse
  split at h
  · rename_i hwss
    cases h
    exact ⟨hparse, .inl hwss⟩
  split at h
  · cases h
  rename_i hws
  split at h
  · cases h
  rename_i authority hauthority
  split at h
  · cases h
  rename_i hat
  dsimp only at h
  split at h
  · cases h
  rename_i rest hstrip
  split at h
  swap
  · cases h
  rename_i hrest
  split at h
  swap
  · cases h
  rename_i hhost
  cases h
  refine ⟨hparse, .inr ⟨by simpa using hws, authority, hauthority, by simpa using hat, ?_, rest,
    eq_append_of_stripPrefix hstrip, by simpa using hrest⟩⟩
  apply accepted_authorityHost
  simpa [or_assoc] using hhost

theorem ensureSecureUrl_of_secure (hparse : parse url = some uri) (h : Secure AcceptedHost uri) :
    ensureSecureUrl parse url = .ok uri := by
  rw [ensureSecureUrl, hparse]
  dsimp only
  split
  · rfl
  rename_i hwss
  rcases h with h | ⟨hws, authority, host, hauthority, hat, hhost, rest, rfl, hrest⟩
  · exact absurd h hwss
  rw [hws, hauthority]
  have hat' : (host ++ rest).contains '@' = false := by simpa using hat
  have hrest' : (rest.isEmpty || rest.head? = some ':') = true := by simpa using hrest
  have hname : (eqIgnoreAsciiCase (stripIpv6Brackets host) "127.0.0.1".toList ||
      stripIpv6Brackets host = "::1".toList ||
      eqIgnoreAsciiCase (stripIpv6Brackets host) "localhost".toList) = true := by
    rcases name_of_accepted hhost with (hname | hname) | hname
    · rw [hname]
      decide
    · have hlocal : eqIgnoreAsciiCase (stripIpv6Brackets host) "localhost".toList = true :=
        decide_eq_true hname
      rw [hlocal, Bool.or_true]
    · rw [hname]
      decide
  dsimp only [Bool.not_true]
  rw [authorityHost_append hat hhost hrest, stripPrefix_append, hat']
  dsimp only
  rw [hrest', hname]
  rfl

end

-- plain ws goes to the loopback host and to no other, and nothing that does is turned away
theorem plain_ws_loopback (url : Text) :
    (∀ name port, tcpTarget parse url = .ok (name, port) →
      ∃ uri, parse url = some uri ∧ Dials AcceptedHost uri name) ∧
    ∀ uri, parse url = some uri → Secure AcceptedHost uri →
      ensureSecureUrl parse url = .ok uri := by
  constructor
  · intro name port h
    rw [tcpTarget] at h
    split at h
    · cases h
    rename_i uri hsecure
    obtain ⟨hparse, hscheme⟩ := ensureSecureUrl_ok hsecure
    refine ⟨uri, hparse, ?_⟩
    rcases hscheme with hwss | ⟨hws, authority, hauthority, hhost⟩
    · exact .inl hwss
    · rw [Uri.host, hauthority] at h
      obtain ⟨rfl, -⟩ := Prod.mk.inj (Except.ok.inj h)
      exact .inr ⟨hws, authority, authorityHost authority, hauthority, hhost, rfl⟩
  · intro uri hparse hsecure
    exact ensureSecureUrl_of_secure hparse hsecure

def throughDigits (port : Nat) : Text → Option Nat
  | [] => some port
  | c :: rest => if c.isDigit then throughDigits (10 * port + (c.toNat - 48)) rest else none

def sampleUri (scheme rest : Text) : Uri :=
  let authority := rest.takeWhile fun c => c ≠ '/' && c ≠ '?' && c ≠ '#'
  ⟨some scheme, some authority, match authority.drop (authorityHost authority).length with
    | ':' :: c :: digits => throughDigits 0 (c :: digits)
    | _ => none⟩

def sampleParse (url : Text) : Option Uri :=
  (stripPrefix "://".toList (url.dropWhile (· ≠ ':'))).map (sampleUri (url.takeWhile (· ≠ ':')))

theorem sample_plain_ws_loopback :
    (∃ uri, sampleParse "WS://localhost:8787/x".toList = some uri ∧
      Dials AcceptedHost uri "localhost".toList) ∧
    ensureSecureUrl sampleParse "ws://[::1]:8787/x".toList =
      .ok ⟨some "ws".toList, some "[::1]:8787".toList, some 8787⟩ := by
  constructor
  · exact (plain_ws_loopback sampleParse "WS://localhost:8787/x".toList).1 _ 8787 (by decide)
  · apply (plain_ws_loopback sampleParse "ws://[::1]:8787/x".toList).2 _ (by decide)
    have hhost : HostAndRest AcceptedHost "[::1]:8787".toList "[::1]".toList :=
      ⟨by decide, .inl (.inr (.inr rfl)), ":8787".toList, rfl, .inr rfl⟩
    exact .inr ⟨by decide, _, _, rfl, hhost⟩

-- a bracketed name passes as if it were an IP literal
theorem bracketed_name_dialed : ∃ uri,
    sampleParse "ws://[localhost]/x".toList = some uri ∧
    tcpTarget sampleParse "ws://[localhost]/x".toList = .ok ("localhost".toList, 80) ∧
    ¬ Dials LoopbackHost uri "localhost".toList := by
  refine ⟨⟨some "ws".toList, some "[localhost]".toList, none⟩, by decide, by decide, ?_⟩
  rintro (hwss | ⟨-, authority, host, ⟨⟩, ⟨-, hhost, rest, hsplit, hrest⟩, -⟩)
  · exact absurd hwss (by decide)
  · rcases hhost with rfl | hname | rfl
    · cases hsplit
    · cases host with
      | nil => cases hname
      | cons c host =>
          obtain ⟨rfl, -⟩ := List.cons.inj hsplit
          cases hname
    · cases hsplit

end SimpleRemote
