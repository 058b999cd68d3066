import SimpleRemote.Library.Flags
import SimpleRemote.Viewer.Main

namespace SimpleRemote
open ByteCodec Flags

namespace Agent

abbrev Settings := Option Text × Text × Bool

def grammar : Grammar Text Settings where
  kind arg :=
    if arg = "--server".toList || arg = "--name".toList then some .valued
    else if arg = "--once".toList then some .switch else none
  set s flag value := if flag = "--server".toList then (some value, s.2) else (s.1, value, s.2.2)
  turnOn s _ := (s.1, s.2.1, true)

def Settings.finish (s : Settings) : Option Args := s.1.map fun server => ⟨server, s.2.1, s.2.2⟩

theorem kind_other {arg : Text} (hserver : arg ≠ "--server".toList) (hname : arg ≠ "--name".toList)
    (honce : arg ≠ "--once".toList) : grammar.kind arg = none := by
  simp only [grammar, hserver, hname, honce, decide_false, Bool.or_self, Bool.false_eq_true, if_false]

theorem parseArgsLoop_eq (server : Option Text) (name : Text) (once : Bool) (args : List Text) :
    parseArgsLoop server name once args =
      (grammar.parse (server, name, once) args).bind Settings.finish := by
  have hserver : grammar.kind "--server".toList = some .valued := rfl
  have hname : grammar.kind "--name".toList = some .valued := rfl
  have honce : grammar.kind "--once".toList = some .switch := rfl
  fun_induction parseArgsLoop server name once args with
  | case1 => rfl
  | case2 => rw [Grammar.parse_valued_nil _ hserver]; rfl
  | case3 server name once value args ih => rw [ih, Grammar.parse_valued _ hserver]; rfl
  | case4 => rw [Grammar.parse_valued_nil _ hname]; rfl
  | case5 server name once value args _ ih => rw [ih, Grammar.parse_valued _ hname]; rfl
  | case6 server name once args _ _ ih => rw [ih, Grammar.parse_switch _ honce]; rfl
  | case7 server name once arg args h h' h'' => rw [Grammar.parse_unknown _ (kind_other h h' h'')]; rfl

theorem kind_valued {f : Text} (h : grammar.kind f = some .valued) :
    f = "--server".toList ∨ f = "--name".toList := by
  by_contra hne
  obtain ⟨hserver, hname⟩ := not_or.mp hne
  simp only [grammar, hserver, hname, decide_false, Bool.or_self, Bool.false_eq_true, if_false] at h
  split at h <;> cases h

theorem kind_switch {f : Text} (h : grammar.kind f = some .switch) : f = "--once".toList := by
  simp only [grammar] at h
  split at h
  · cases h
  · split at h
    · assumption
    · cases h

theorem settings_eq {items : List (Item Text)} (h : ∀ i ∈ items, grammar.Knows i) :
    items.foldl grammar.apply (none, "host".toList, false) =
      ((given "--server".toList items).getLast?,
        (given "--name".toList items).getLast?.getD "host".toList, isOn "--once".toList items) := by
  generalize hs : items.foldl grammar.apply (none, "host".toList, false) = s
  obtain ⟨server, name, once⟩ := s
  have hserver : server = (given "--server".toList items).getLast?.or none := by
    have hget := foldl_get (fun s : Settings => s.1) "--server".toList
      (fun s f value _ => apply_ite Prod.fst ..) (fun _ _ => rfl) h (none, "host".toList, false)
    rwa [hs] at hget
  have hname : some name = (given "--name".toList items).getLast?.or (some "host".toList) := by
    have hget := foldl_get (fun s : Settings => some s.2.1) "--name".toList
      (fun s f value hf => ?_) (fun _ _ => rfl) h (none, "host".toList, false)
    · rwa [hs] at hget
    · rcases kind_valued hf with rfl | rfl <;> rfl
  have honce : once = (isOn "--once".toList items || false) := by
    have hget := foldl_on (fun s : Settings => s.2.2) "--once".toList (fun s f value => ?_)
      (fun s f hf => ?_) h (none, "host".toList, false)
    · rwa [hs] at hget
    · exact (apply_ite (fun s : Settings => s.2.2) ..).trans (ite_self _)
    · rw [kind_switch hf]
      rfl
  rw [hserver, Option.or_none, honce, Bool.or_false]
  cases hlast : (given "--name".toList items).getLast? with
  | none =>
      rw [hlast] at hname
      rw [Option.some.inj hname]
      rfl
  | some last =>
      rw [hlast] at hname
      rw [Option.some.inj hname]
      rfl

-- what the options mean
structure Means (items : List (Item Text)) (a : Args) : Prop where
  server : (given "--server".toList items).getLast? = some a.server
  name : a.name = (given "--name".toList items).getLast?.getD "host".toList
  once : a.once = isOn "--once".toList items

theorem parseArgs_iff {args : List Text} {a : Args} : parseArgs args = some a ↔
    ∃ items : List (Item Text), args = items.flatMap Item.words ∧ (∀ i ∈ items, grammar.Knows i) ∧
      Means items a := by
  rw [parseArgs, parseArgsLoop_eq, Option.bind_eq_some_iff]
  constructor
  · rintro ⟨s, hs, ha⟩
    obtain ⟨items, rfl, hknown, rfl⟩ := Grammar.parse_iff.mp hs
    rw [settings_eq hknown] at ha
    obtain ⟨server, hserver, rfl⟩ := Option.map_eq_some_iff.mp ha
    exact ⟨items, rfl, hknown, hserver, rfl, rfl⟩
  · rintro ⟨items, rfl, hknown, hmeans⟩
    refine ⟨_, Grammar.parse_iff.mpr ⟨items, rfl, hknown, rfl⟩, ?_⟩
    rw [settings_eq hknown, Settings.finish, hmeans.server, ← hmeans.name, ← hmeans.once]
    rfl

end Agent

namespace Viewer

def isOption (arg : Text) : Bool :=
  arg = "--server".toList || arg = "--id".toList || arg = "--code".toList || arg = "--name".toList

def grammar : Grammar Text Options where
  kind arg := if isOption arg then some .valued else none
  set o flag value :=
    if flag = "--server".toList then { o with server := some value }
    else if flag = "--id".toList then { o with id := some value }
    else if flag = "--code".toList then { o with code := some value }
    else { o with name := value }
  turnOn o _ := o

theorem kind_valued {f : Text} (h : grammar.kind f = some .valued) : f = "--server".toList ∨
    f = "--id".toList ∨ f = "--code".toList ∨ f = "--name".toList := by
  simp only [grammar] at h
  split at h
  · rename_i hoption
    simpa only [isOption, Bool.or_eq_true, decide_eq_true_eq, or_assoc] using hoption
  · cases h

theorem kind_other {arg : Text} (hserver : arg ≠ "--server".toList) (hid : arg ≠ "--id".toList)
    (hcode : arg ≠ "--code".toList) (hname : arg ≠ "--name".toList) : grammar.kind arg = none := by
  have hnot : isOption arg = false := by
    simp only [isOption, hserver, hid, hcode, hname, decide_false, Bool.or_self]
  simp only [grammar, hnot, Bool.false_eq_true, if_false]

theorem parseArgsLoop_eq (o : Options) (args : List Text) :
    parseArgsLoop o args = (grammar.parse o args).bind Options.finish := by
  have hserver : grammar.kind "--server".toList = some .valued := rfl
  have hid : grammar.kind "--id".toList = some .valued := rfl
  have hcode : grammar.kind "--code".toList = some .valued := rfl
  have hname : grammar.kind "--name".toList = some .valued := rfl
  fun_induction parseArgsLoop o args with
  | case1 => rfl
  | case2 => rw [Grammar.parse_valued_nil _ hserver]; rfl
  | case3 o value args ih => rw [ih, Grammar.parse_valued _ hserver]; rfl
  | case4 => rw [Grammar.parse_valued_nil _ hid]; rfl
  | case5 o value args _ ih => rw [ih, Grammar.parse_valued _ hid]; rfl
  | case6 => rw [Grammar.parse_valued_nil _ hcode]; rfl
  | case7 o value args _ _ ih => rw [ih, Grammar.parse_valued _ hcode]; rfl
  | case8 => rw [Grammar.parse_valued_nil _ hname]; rfl
  | case9 o value args _ _ _ ih => rw [ih, Grammar.parse_valued _ hname]; rfl
  | case10 o arg args hserver hid hcode hname =>
      rw [Grammar.parse_unknown _ (kind_other hserver hid hcode hname)]; rfl

def noOptions : Options := ⟨none, none, none, "viewer".toList⟩

section
variable {items : List (Item Text)}

theorem last_server (h : ∀ i ∈ items, grammar.Knows i) :
    (items.foldl grammar.apply noOptions).server = (given "--server".toList items).getLast? := by
  refine (foldl_get (fun o : Options => o.server) "--server".toList (fun o f value hf => ?_)
    (fun _ _ => rfl) h noOptions).trans (Option.or_none ..)
  rcases kind_valued hf with rfl | rfl | rfl | rfl <;> rfl

theorem last_id (h : ∀ i ∈ items, grammar.Knows i) :
    (items.foldl grammar.apply noOptions).id = (given "--id".toList items).getLast? := by
  refine (foldl_get (fun o : Options => o.id) "--id".toList (fun o f value hf => ?_)
    (fun _ _ => rfl) h noOptions).trans (Option.or_none ..)
  rcases kind_valued hf with rfl | rfl | rfl | rfl <;> rfl

theorem last_code (h : ∀ i ∈ items, grammar.Knows i) :
    (items.foldl grammar.apply noOptions).code = (given "--code".toList items).getLast? := by
  refine (foldl_get (fun o : Options => o.code) "--code".toList (fun o f value hf => ?_)
    (fun _ _ => rfl) h noOptions).trans (Option.or_none ..)
  rcases kind_valued hf with rfl | rfl | rfl | rfl <;> rfl

theorem last_name (h : ∀ i ∈ items, grammar.Knows i) :
    (items.foldl grammar.apply noOptions).name =
      (given "--name".toList items).getLast?.getD "viewer".toList := by
  have hget := foldl_get (fun o : Options => some o.name) "--name".toList (fun o f value hf => ?_)
    (fun _ _ => rfl) h noOptions
  · rw [Option.or_some] at hget
    exact Option.some.inj hget
  · rcases kind_valued hf with rfl | rfl | rfl | rfl <;> rfl

end

theorem finish_iff {o : Options} {a : Args} : o.finish = some a ↔ o.server = some a.server ∧
    o.id = some a.id ∧ Register.isHostId a.id = true ∧ o.code = some a.code ∧ a.name = o.name := by
  refine (Option.bind_eq_some_iff (x := o.id.filter Register.isHostId)).trans ⟨?_, ?_⟩
  · rintro ⟨id, hid, hrest⟩
    obtain ⟨server, hserver, hrest⟩ := Option.bind_eq_some_iff.mp hrest
    obtain ⟨code, hcode, ha⟩ := Option.bind_eq_some_iff.mp hrest
    obtain rfl := Option.some.inj ha
    obtain ⟨hid, hdigits⟩ := Option.filter_eq_some_iff.mp hid
    exact ⟨hserver, hid, hdigits, hcode, rfl⟩
  · rintro ⟨hserver, hid, hdigits, hcode, hname⟩
    refine ⟨a.id, Option.filter_eq_some_iff.mpr ⟨hid, hdigits⟩, ?_⟩
    rw [hserver, hcode, ← hname]
    rfl

structure Means (items : List (Item Text)) (a : Args) : Prop where
  server : (given "--server".toList items).getLast? = some a.server
  id : (given "--id".toList items).getLast? = some a.id
  nineDigits : Register.isHostId a.id = true
  code : (given "--code".toList items).getLast? = some a.code
  name : a.name = (given "--name".toList items).getLast?.getD "viewer".toList

theorem parseArgs_iff {args : List Text} {a : Args} : parseArgs args = some a ↔
    ∃ items : List (Item Text), args = items.flatMap Item.words ∧ (∀ i ∈ items, grammar.Knows i) ∧
      Means items a := by
  rw [parseArgs, parseArgsLoop_eq, Option.bind_eq_some_iff]
  constructor
  · rintro ⟨o, ho, ha⟩
    obtain ⟨items, rfl, hknown, rfl⟩ := Grammar.parse_iff.mp ho
    refine ⟨items, rfl, hknown, ?_⟩
    obtain ⟨hserver, hid, hdigits, hcode, hname⟩ := finish_iff.mp ha
    exact ⟨last_server hknown ▸ hserver, last_id hknown ▸ hid, hdigits, last_code hknown ▸ hcode,
      last_name hknown ▸ hname⟩
  · rintro ⟨items, rfl, hknown, hserver, hid, hdigits, hcode, hname⟩
    rw [← last_server hknown] at hserver
    rw [← last_id hknown] at hid
    rw [← last_code hknown] at hcode
    rw [← last_name hknown] at hname
    exact ⟨_, Grammar.parse_iff.mpr ⟨items, rfl, hknown, rfl⟩,
      finish_iff.mpr ⟨hserver, hid, hdigits, hcode, hname⟩⟩

end Viewer

-- both command lines are accepted just when they are known options with those that must be given
-- among them; they are read in one way, and the last value of each counts
theorem command_lines :
    (∀ args a, Agent.parseArgs args = some a ↔ ∃! items : List (Item Text),
      args = items.flatMap Item.words ∧ (∀ i ∈ items, Agent.grammar.Knows i) ∧ Agent.Means items a) ∧
    ∀ args a, Viewer.parseArgs args = some a ↔ ∃! items : List (Item Text),
      args = items.flatMap Item.words ∧ (∀ i ∈ items, Viewer.grammar.Knows i) ∧
        Viewer.Means items a := by
  constructor
  · intro args a
    refine Agent.parseArgs_iff.trans ⟨?_, fun h => h.exists⟩
    rintro ⟨items, hwords, hknown, hmeans⟩
    refine ⟨items, ⟨hwords, hknown, hmeans⟩, fun items' h => ?_⟩
    exact Grammar.words_inj h.2.1 hknown (h.1.symm.trans hwords)
  · intro args a
    refine Viewer.parseArgs_iff.trans ⟨?_, fun h => h.exists⟩
    rintro ⟨items, hwords, hknown, hmeans⟩
    refine ⟨items, ⟨hwords, hknown, hmeans⟩, fun items' h => ?_⟩
    exact Grammar.words_inj h.2.1 hknown (h.1.symm.trans hwords)

example : (Agent.parseArgs ["--server".toList, "a".toList, "--once".toList, "--server".toList,
    "b".toList]).map (fun a => (a.server, a.name, a.once)) = some ("b".toList, "host".toList, true) := by
  decide

example : Agent.parseArgs ["--once".toList] = none := by decide

end SimpleRemote
