/-
  Youth.Http.HttpMethod.Registry

  The method map of `HttpMethodBuilder` over a whole life: handlers are made and registered,
  expire, and are looked up by both dispatchers, in any order.

  Beside the map stands what was registered (`registered`, in the order of the calls), from
  which nothing is ever erased.  The loops of the builder do erase, but only expired entries:
  under every method the live entries of the map are those of the history (`Sound`).  So both
  dispatchers find the one that was registered first (`dispatch_earliest`).

  The scan of `registerMethod` for duplicates looks for the wrong path.  `unique_iff_fresh`
  says for which calls the entries are unique all the same.
-/

import Youth.Lib.Machine
import Youth.Http.HttpMethod.Builder

namespace Youth.Http

open Youth.Lib
open Youth.Core (File)

namespace HttpMethodBuilder

section

variable (lock : Nat → Option HttpMethodFactory)

/-- The method of an entry, while its handler is alive. -/
def methodOf (d : MethodDetail) : Option Bytes :=
  (lock d.methodImpl).map fun share => share.method d.index

/-- The path of an entry, while its handler is alive. -/
def pathOf (d : MethodDetail) : Option Bytes :=
  (lock d.methodImpl).map fun share => share.path d.index

def live (list : List MethodDetail) : List MethodDetail :=
  list.filter fun d => (lock d.methodImpl).isSome

/-- The handler of an entry, if it is alive and has the path. -/
def hit (path : Bytes) (d : MethodDetail) : Option (HttpMethodFactory × Nat) :=
  (lock d.methodImpl).bind fun share =>
    if share.path d.index = path then some (share, d.index) else none

/-- The entries that `registerFrom` appends. -/
def registerLog (self : Nat) (impl : HttpMethodFactory) : List Nat → MethodMap → List MethodDetail
  | [], _ => []
  | i :: rest, m =>
    let key := impl.method i
    let found := findMethod lock key (entries m key)
    match found.2 with
    | some _ => []
    | none => ⟨self, i⟩ :: registerLog self impl rest (m.insert key (found.1 ++ [⟨self, i⟩]))

end

variable {lock : Nat → Option HttpMethodFactory} {m : MethodMap} {self : Nat}
  {impl : HttpMethodFactory}

/-! ## The loop over a list -/

theorem findMethod_sublist (path : Bytes) (list : List MethodDetail) :
    (findMethod lock path list).1.Sublist list := by
  induction list with
  | nil => exact List.Sublist.slnil
  | cons d rest ih =>
      unfold findMethod
      split
      · split
        · exact List.Sublist.refl _
        · exact ih.cons_cons d
      · exact ih.cons d

/-- Only expired entries are erased. -/
theorem live_findMethod (path : Bytes) (list : List MethodDetail) :
    live lock (findMethod lock path list).1 = live lock list := by
  induction list with
  | nil => rfl
  | cons d rest ih =>
      unfold live at ih ⊢
      unfold findMethod
      split
      case h_1 share hshare =>
        split
        · rfl
        · rw [List.filter_cons, List.filter_cons, ih]
      case h_2 hnone =>
        rw [List.filter_cons_of_neg (by rw [hnone]; exact Bool.false_ne_true), ih]

/-- The loop finds the first live entry with the path. -/
theorem findMethod_eq (path : Bytes) (list : List MethodDetail) :
    (findMethod lock path list).2 = (live lock list).findSome? (hit lock path) := by
  induction list with
  | nil => rfl
  | cons d rest ih =>
      unfold live at ih ⊢
      unfold findMethod
      split
      case h_1 share hshare =>
        rw [List.filter_cons_of_pos (by rw [hshare]; rfl), List.findSome?_cons, hit, hshare,
          Option.bind_some]
        split
        · rfl
        · exact ih
      case h_2 hnone =>
        rw [List.filter_cons_of_neg (by rw [hnone]; exact Bool.false_ne_true)]
        exact ih

theorem hit_eq_none_iff {path : Bytes} {d : MethodDetail} :
    hit lock path d = none ↔ pathOf lock d ≠ some path := by
  unfold hit pathOf
  cases lock d.methodImpl with
  | none => simp
  | some share => simp

/-- No live entry has the path. -/
theorem findMethod_eq_none_iff {path : Bytes} {list : List MethodDetail} :
    (findMethod lock path list).2 = none ↔ ∀ d ∈ live lock list, pathOf lock d ≠ some path := by
  rw [findMethod_eq, List.findSome?_eq_none_iff]
  exact forall₂_congr fun d _ => hit_eq_none_iff

/-! ## The map -/

theorem entries_insert_self (key : Bytes) (list : List MethodDetail) :
    entries (m.insert key list) key = list := by
  rw [entries, AList.lookup_insert]
  rfl

theorem entries_insert_ne {key k : Bytes} (h : k ≠ key) (list : List MethodDetail) :
    entries (m.insert key list) k = entries m k := by
  rw [entries, AList.lookup_insert_ne h]
  rfl

/-- A list that is replaced by one with the same live entries changes none. -/
theorem live_entries_insert {key : Bytes} {list : List MethodDetail}
    (h : live lock list = live lock (entries m key)) (k : Bytes) :
    live lock (entries (m.insert key list) k) = live lock (entries m k) := by
  by_cases hk : k = key
  · rw [hk, entries_insert_self, h]
  · rw [entries_insert_ne hk]

theorem live_append (xs ys : List MethodDetail) :
    live lock (xs ++ ys) = live lock xs ++ live lock ys := List.filter_append ..

/-- One turn of `registerMethod`: the new entry stands behind the live ones of its method. -/
theorem live_entries_append (hself : lock self = some impl) (i : Nat) (k : Bytes) :
    live lock (entries (m.insert (impl.method i)
        ((findMethod lock (impl.method i) (entries m (impl.method i))).1 ++ [⟨self, i⟩])) k) =
      live lock (entries m k) ++ if impl.method i = k then [⟨self, i⟩] else [] := by
  by_cases hk : k = impl.method i
  · have hnew : live lock [⟨self, i⟩] = [⟨self, i⟩] :=
      List.filter_cons_of_pos (by rw [hself]; rfl)
    rw [hk, entries_insert_self, live_append, live_findMethod, hnew, if_pos rfl]
  · rw [entries_insert_ne hk, if_neg (Ne.symm hk), List.append_nil]

/-- A turn that meets a duplicate, by its own notion of one. -/
theorem registerFrom_of_some {i : Nat} {x : HttpMethodFactory × Nat}
    (h : (findMethod lock (impl.method i) (entries m (impl.method i))).2 = some x) (rest : List Nat) :
    registerFrom lock self impl (i :: rest) m =
        m.insert (impl.method i) (findMethod lock (impl.method i) (entries m (impl.method i))).1 ∧
      registerLog lock self impl (i :: rest) m = [] := by
  simp only [registerFrom, registerLog, h, and_self]

theorem registerFrom_of_none {i : Nat}
    (h : (findMethod lock (impl.method i) (entries m (impl.method i))).2 = none) (rest : List Nat) :
    let m' := m.insert (impl.method i)
      ((findMethod lock (impl.method i) (entries m (impl.method i))).1 ++ [⟨self, i⟩])
    registerFrom lock self impl (i :: rest) m = registerFrom lock self impl rest m' ∧
      registerLog lock self impl (i :: rest) m = ⟨self, i⟩ :: registerLog lock self impl rest m' := by
  simp only [registerFrom, registerLog, h, and_self]

/-- `registerMethod` leaves the live entries as they are and puts its own behind them. -/
theorem live_registerFrom (hself : lock self = some impl) (is : List Nat) (m : MethodMap) (k : Bytes) :
    live lock (entries (registerFrom lock self impl is m) k) = live lock (entries m k) ++
      (registerLog lock self impl is m).filter fun d => methodOf lock d = some k := by
  induction is generalizing m with
  | nil => exact (List.append_nil _).symm
  | cons i rest ih =>
      cases hfound : (findMethod lock (impl.method i) (entries m (impl.method i))).2 with
      | some x =>
          rw [(registerFrom_of_some hfound rest).1, (registerFrom_of_some hfound rest).2,
            live_entries_insert (live_findMethod _ _), List.filter_nil, List.append_nil]
      | none =>
          have hmethod : methodOf lock ⟨self, i⟩ = some (impl.method i) := by
            rw [methodOf, hself]
            rfl
          rw [(registerFrom_of_none hfound rest).1, (registerFrom_of_none hfound rest).2, ih,
            live_entries_append hself, List.append_assoc, List.filter_cons, hmethod]
          by_cases hk : impl.method i = k
          · simp [hk]
          · simp [hk]

theorem methodImpl_of_mem_registerLog {is : List Nat} {d : MethodDetail}
    (h : d ∈ registerLog lock self impl is m) : d.methodImpl = self := by
  induction is generalizing m with
  | nil => cases h
  | cons i rest ih =>
      cases hfound : (findMethod lock (impl.method i) (entries m (impl.method i))).2 with
      | some x =>
          rw [(registerFrom_of_some hfound rest).2] at h
          cases h
      | none =>
          rw [(registerFrom_of_none hfound rest).2] at h
          rcases List.mem_cons.mp h with rfl | hrest
          · rfl
          · exact ih hrest

theorem mem_entries_insert {key k : Bytes} {list : List MethodDetail} {d : MethodDetail}
    (h : d ∈ entries (m.insert key list) k) : d ∈ list ∨ d ∈ entries m k := by
  by_cases hk : k = key
  · rw [hk, entries_insert_self] at h
    exact .inl h
  · rw [entries_insert_ne hk] at h
    exact .inr h

/-- An entry of the map behind `registerMethod` was there before, or is one of the handler. -/
theorem mem_entries_registerFrom {is : List Nat} {k : Bytes} {d : MethodDetail}
    (h : d ∈ entries (registerFrom lock self impl is m) k) :
    (∃ key, d ∈ entries m key) ∨ d.methodImpl = self := by
  induction is generalizing m with
  | nil => exact .inl ⟨k, h⟩
  | cons i rest ih =>
      cases hfound : (findMethod lock (impl.method i) (entries m (impl.method i))).2 with
      | some x =>
          rw [(registerFrom_of_some hfound rest).1] at h
          rcases mem_entries_insert h with hkept | hold
          · exact .inl ⟨_, (findMethod_sublist _ _).subset hkept⟩
          · exact .inl ⟨k, hold⟩
      | none =>
          rw [(registerFrom_of_none hfound rest).1] at h
          rcases ih h with ⟨key, hkey⟩ | hself
          · rcases mem_entries_insert hkey with hnew | hold
            · rcases List.mem_append.mp hnew with hkept | hone
              · exact .inl ⟨_, (findMethod_sublist _ _).subset hkept⟩
              · rw [List.mem_singleton.mp hone]
                exact .inr rfl
            · exact .inl ⟨key, hold⟩
          · exact .inr hself

/-! ## Duplicates -/

/-- No two live entries of one method have the same path. -/
def Unique (lock : Nat → Option HttpMethodFactory) (m : MethodMap) : Prop :=
  ∀ key, (live lock (entries m key)).Pairwise fun d e => pathOf lock d ≠ pathOf lock e

/-- When the turn of the method `i` comes, `path` is there under it: from before, or from an
    earlier turn. -/
def Taken (lock : Nat → Option HttpMethodFactory) (m : MethodMap) (impl : HttpMethodFactory)
    (i : Nat) (path : Bytes) : Prop :=
  (∃ d ∈ live lock (entries m (impl.method i)), pathOf lock d = some path) ∨
    ∃ j < i, impl.method j = impl.method i ∧ impl.path j = path

/-- Each pair that is registered is new.  A pair is, unless at its turn or before it a path is
    taken that reads like the method. -/
def FreshPairs (lock : Nat → Option HttpMethodFactory) (m : MethodMap) (impl : HttpMethodFactory) :
    Prop :=
  ∀ i < impl.methodSize, (∀ j ≤ i, ¬ Taken lock m impl j (impl.method j)) →
    ¬ Taken lock m impl i (impl.path i)

/-- The map after the first `i` turns, each of which has registered its pair. -/
def Turned (lock : Nat → Option HttpMethodFactory) (self : Nat) (impl : HttpMethodFactory)
    (m : MethodMap) (i : Nat) (m' : MethodMap) : Prop :=
  ∀ key, live lock (entries m' key) = live lock (entries m key) ++
    ((List.range i).filter fun j => impl.method j = key).map fun j => ⟨self, j⟩

theorem Turned.taken_iff {i : Nat} {m' : MethodMap} (h : Turned lock self impl m i m')
    (hself : lock self = some impl) (path : Bytes) :
    (∃ d ∈ live lock (entries m' (impl.method i)), pathOf lock d = some path) ↔
      Taken lock m impl i path := by
  have hpath : ∀ j, pathOf lock ⟨self, j⟩ = some (impl.path j) := by
    intro j
    rw [pathOf, hself]
    rfl
  unfold Taken
  rw [h]
  constructor
  · rintro ⟨d, hd, hdpath⟩
    rcases List.mem_append.mp hd with hold | hnew
    · exact .inl ⟨d, hold, hdpath⟩
    · obtain ⟨j, hj, rfl⟩ := List.mem_map.mp hnew
      obtain ⟨hlt, hmethod⟩ := List.mem_filter.mp hj
      refine .inr ⟨j, List.mem_range.mp hlt, of_decide_eq_true hmethod, ?_⟩
      rw [hpath] at hdpath
      exact Option.some.inj hdpath
  · rintro (⟨d, hd, hdpath⟩ | ⟨j, hlt, hmethod, hjpath⟩)
    · exact ⟨d, List.mem_append_left _ hd, hdpath⟩
    · refine ⟨⟨self, j⟩, List.mem_append_right _ (List.mem_map_of_mem ?_), ?_⟩
      · exact List.mem_filter.mpr ⟨List.mem_range.mpr hlt, decide_eq_true hmethod⟩
      · rw [hpath, hjpath]

/-- The scan of a turn comes through iff no path reads like the method. -/
theorem Turned.found_eq_none_iff {i : Nat} {m' : MethodMap} (h : Turned lock self impl m i m')
    (hself : lock self = some impl) :
    (findMethod lock (impl.method i) (entries m' (impl.method i))).2 = none ↔
      ¬ Taken lock m impl i (impl.method i) := by
  rw [findMethod_eq_none_iff, ← h.taken_iff hself, not_exists]
  exact forall_congr' fun d => not_and.symm

theorem Turned.succ {i : Nat} {m' : MethodMap} (h : Turned lock self impl m i m')
    (hself : lock self = some impl) :
    Turned lock self impl m (i + 1) (m'.insert (impl.method i)
      ((findMethod lock (impl.method i) (entries m' (impl.method i))).1 ++ [⟨self, i⟩])) := by
  intro key
  rw [live_entries_append hself, h, List.range_succ, List.filter_append, List.map_append,
    List.append_assoc]
  by_cases hk : impl.method i = key
  · simp [hk]
  · simp [hk]

/-- The entry of one turn is a duplicate iff its path is taken. -/
theorem unique_append_iff {i : Nat} (hself : lock self = some impl) (hm : Unique lock m) :
    Unique lock (m.insert (impl.method i)
        ((findMethod lock (impl.method i) (entries m (impl.method i))).1 ++ [⟨self, i⟩])) ↔
      ¬ ∃ d ∈ live lock (entries m (impl.method i)), pathOf lock d = some (impl.path i) := by
  have hpath : pathOf lock ⟨self, i⟩ = some (impl.path i) := by
    rw [pathOf, hself]
    rfl
  constructor
  · rintro h ⟨d, hd, hdpath⟩
    have hpair := h (impl.method i)
    rw [live_entries_append hself, if_pos rfl, List.pairwise_append] at hpair
    exact hpair.2.2 d hd _ (List.mem_singleton_self _) (hdpath.trans hpath.symm)
  · intro h key
    rw [live_entries_append hself]
    split
    case isTrue hkey =>
      subst hkey
      refine List.pairwise_append.mpr ⟨hm _, List.pairwise_singleton _ _, ?_⟩
      intro d hd e he heq
      rw [List.mem_singleton.mp he, hpath] at heq
      exact h ⟨d, hd, heq⟩
    case isFalse =>
      rw [List.append_nil]
      exact hm key

/-- Entries only come in: a duplicate stays for the rest of the call. -/
theorem unique_of_registerFrom {is : List Nat} (hself : lock self = some impl)
    (h : Unique lock (registerFrom lock self impl is m)) : Unique lock m := by
  intro key
  have hkey := h key
  rw [live_registerFrom hself] at hkey
  exact (List.pairwise_append.mp hkey).1

/-- From the turn `i` on.  The induction is on the number of turns that are left. -/
theorem unique_registerFrom_iff {m' : MethodMap} (hself : lock self = some impl) (n i : Nat)
    (hturned : Turned lock self impl m i m') (hm : Unique lock m') :
    Unique lock (registerFrom lock self impl (List.range' i n) m') ↔
      ∀ k, i ≤ k → k < i + n → (∀ j, i ≤ j → j ≤ k → ¬ Taken lock m impl j (impl.method j)) →
        ¬ Taken lock m impl k (impl.path k) := by
  induction n generalizing i m' with
  | zero =>
      refine ⟨fun _ k hle hlt => absurd hlt (by omega), fun _ => hm⟩
  | succ n ih =>
      have hstop := hturned.found_eq_none_iff hself
      have hdup := hturned.taken_iff hself (impl.path i)
      rw [List.range'_succ]
      cases hfound : (findMethod lock (impl.method i) (entries m' (impl.method i))).2 with
      | some x =>
          -- the scan stops here, and no later pair is registered
          have htaken : Taken lock m impl i (impl.method i) := by
            rw [hfound] at hstop
            exact not_not.mp (hstop.not.mp (by simp))
          rw [(registerFrom_of_some hfound _).1]
          constructor
          · intro _ k hle _ hfree
            exact absurd htaken (hfree i (Nat.le_refl i) hle)
          · intro _ key
            rw [live_entries_insert (live_findMethod _ _)]
            exact hm key
      | none =>
          have hfree : ¬ Taken lock m impl i (impl.method i) := hstop.mp hfound
          rw [(registerFrom_of_none hfound _).1]
          by_cases hnew : Taken lock m impl i (impl.path i)
          · constructor
            · intro h
              exact absurd (hdup.mpr hnew)
                ((unique_append_iff hself hm).mp (unique_of_registerFrom hself h))
            · intro h
              refine absurd hnew (h i (Nat.le_refl i) (by omega) fun j hle hge => ?_)
              obtain rfl : j = i := by omega
              exact hfree
          · rw [ih (i + 1) (hturned.succ hself) ((unique_append_iff hself hm).mpr (hdup.not.mpr hnew))]
            constructor
            · intro h k hle hlt hall
              rcases Nat.eq_or_lt_of_le hle with rfl | hlater
              · exact hnew
              · exact h k hlater (by omega) fun j hj hjk => hall j (by omega) hjk
            · intro h k hle hlt hall
              refine h k (by omega) (by omega) fun j hj hjk => ?_
              rcases Nat.eq_or_lt_of_le hj with rfl | hlater
              · exact hfree
              · exact hall j hlater hjk

/-- One call keeps the entries unique iff the pairs it registers are new. -/
theorem unique_registerMethod_iff (hself : lock self = some impl) (hm : Unique lock m) :
    Unique lock (registerMethod lock m self impl) ↔ FreshPairs lock m impl := by
  have hstart : Turned lock self impl m 0 m := fun key => (List.append_nil _).symm
  rw [registerMethod, List.range_eq_range', unique_registerFrom_iff hself _ 0 hstart hm]
  unfold FreshPairs
  simp only [Nat.zero_le, Nat.zero_add, forall_const]

/-! ## A life of the builder -/

structure Registry where
  methodMap : MethodMap := ∅
  /-- The handlers that are alive. -/
  handlers : Nat → Option HttpMethodFactory := fun _ => none
  /-- The names that a handler has or had; a weak pointer that has expired stays so. -/
  used : Nat → Bool := fun _ => false
  /-- All entries that were ever appended, in that order. -/
  registered : List MethodDetail := []

namespace Registry

inductive Action
  /-- A handler comes into being. -/
  | make (self : Nat) (impl : HttpMethodFactory)
  | registerMethod (self : Nat)
  /-- The last pointer to a handler is gone. -/
  | expire (self : Nat)
  | onReadyRead (fs : FileSystem) (c : HttpContext File)
  | onRequest (fs : FileSystem) (c : HttpContext File) (resp : HttpResponse)

def step (s : Registry) : Action → Option Registry
  | .make self impl =>
    if s.used self then none
    else
      some
        { s with
          handlers := Function.update s.handlers self (some impl)
          used := Function.update s.used self true }
  | .registerMethod self =>
    (s.handlers self).map fun impl =>
      { s with
        methodMap := HttpMethodBuilder.registerMethod s.handlers s.methodMap self impl
        registered := s.registered ++
          registerLog s.handlers self impl (List.range impl.methodSize) s.methodMap }
  | .expire self => some { s with handlers := Function.update s.handlers self none }
  | .onReadyRead fs c =>
    some { s with methodMap := (HttpMethodBuilder.onReadyRead s.handlers fs s.methodMap c).1 }
  | .onRequest fs c resp =>
    some { s with methodMap := (HttpMethodBuilder.onRequest s.handlers fs s.methodMap c resp).1 }

/-- The first entry ever registered for a method and a path whose handler is alive. -/
def earliest (s : Registry) (method path : Bytes) : Option (HttpMethodFactory × Nat) :=
  (s.registered.filter fun d => methodOf s.handlers d = some method).findSome? (hit s.handlers path)

/-- The map holds what was registered, as far as it is alive. -/
structure Sound (s : Registry) : Prop where
  used_handlers : ∀ self, (s.handlers self).isSome → s.used self = true
  used_registered : ∀ d ∈ s.registered, s.used d.methodImpl = true
  used_entries : ∀ key, ∀ d ∈ entries s.methodMap key, s.used d.methodImpl = true
  entries_eq : ∀ key, live s.handlers (entries s.methodMap key) =
    s.registered.filter fun d => methodOf s.handlers d = some key

theorem sound_empty : Sound {} where
  used_handlers _ h := by cases h
  used_registered _ h := by cases h
  used_entries _ _ h := by cases h
  entries_eq _ := rfl

variable {s t : Registry}

/-- A new handler has a name of its own. -/
theorem update_of_used {self n : Nat} (hself : s.used self = false) (hn : s.used n = true)
    (impl : HttpMethodFactory) :
    Function.update s.handlers self (some impl) n = s.handlers n := by
  refine Function.update_of_ne ?_ _ _
  rintro rfl
  rw [hself] at hn
  cases hn

theorem live_make (h : Sound s) {self : Nat} (hself : s.used self = false) (impl : HttpMethodFactory)
    (key : Bytes) :
    live (Function.update s.handlers self (some impl)) (entries s.methodMap key) =
      live s.handlers (entries s.methodMap key) :=
  List.filter_congr fun d hd => by rw [update_of_used hself (h.used_entries key d hd)]

theorem Sound.make (h : Sound s) {self : Nat} (hself : s.used self = false) (impl : HttpMethodFactory) :
    Sound { s with
      handlers := Function.update s.handlers self (some impl)
      used := Function.update s.used self true } := by
  have hused : ∀ n, s.used n = true → Function.update s.used self true n = true := by
    intro n hn
    rw [Function.update_apply]
    split
    · rfl
    · exact hn
  refine ⟨fun n hn => ?_, fun d hd => hused _ (h.used_registered d hd),
    fun key d hd => hused _ (h.used_entries key d hd), fun key => ?_⟩
  · dsimp only at hn ⊢
    by_cases hn' : n = self
    · rw [hn', Function.update_self]
    · rw [Function.update_of_ne hn'] at hn
      exact hused n (h.used_handlers n hn)
  · dsimp only
    rw [live_make h hself, h.entries_eq]
    refine List.filter_congr fun d hd => ?_
    rw [methodOf, methodOf, update_of_used hself (h.used_registered d hd)]

/-- The entries that are alive after one handler has expired. -/
theorem live_expire (lock : Nat → Option HttpMethodFactory) (self : Nat) (list : List MethodDetail) :
    live (Function.update lock self none) list =
      (live lock list).filter fun d => d.methodImpl ≠ self := by
  unfold live
  rw [List.filter_filter]
  refine List.filter_congr fun d _ => ?_
  by_cases hd : d.methodImpl = self
  · rw [hd, Function.update_self]
    simp
  · rw [Function.update_of_ne hd]
    simp [hd]

theorem methodOf_expire (lock : Nat → Option HttpMethodFactory) (self : Nat) (d : MethodDetail) :
    methodOf (Function.update lock self none) d =
      if d.methodImpl = self then none else methodOf lock d := by
  unfold methodOf
  rw [Function.update_apply]
  split <;> rfl

theorem Sound.expire (h : Sound s) (self : Nat) :
    Sound { s with handlers := Function.update s.handlers self none } := by
  refine ⟨fun n hn => ?_, h.used_registered, h.used_entries, fun key => ?_⟩
  · dsimp only at hn
    by_cases hn' : n = self
    · rw [hn', Function.update_self] at hn
      cases hn
    · rw [Function.update_of_ne hn'] at hn
      exact h.used_handlers n hn
  · show live (Function.update s.handlers self none) (entries s.methodMap key) =
      s.registered.filter fun d => methodOf (Function.update s.handlers self none) d = some key
    rw [live_expire, h.entries_eq, List.filter_filter]
    refine List.filter_congr fun d _ => ?_
    simp only [methodOf_expire]
    by_cases hd : d.methodImpl = self
    · simp [hd]
    · simp [hd]

theorem Sound.registerMethod (h : Sound s) {self : Nat} {impl : HttpMethodFactory}
    (hself : s.handlers self = some impl) :
    Sound { s with
      methodMap := HttpMethodBuilder.registerMethod s.handlers s.methodMap self impl
      registered := s.registered ++
        registerLog s.handlers self impl (List.range impl.methodSize) s.methodMap } := by
  have hused : s.used self = true := h.used_handlers self (by rw [hself]; rfl)
  refine ⟨h.used_handlers, fun d hd => ?_, fun key d hd => ?_, fun key => ?_⟩
  · rcases List.mem_append.mp hd with hold | hnew
    · exact h.used_registered d hold
    · rw [methodImpl_of_mem_registerLog hnew]
      exact hused
  · rcases mem_entries_registerFrom hd with ⟨k, hold⟩ | hnew
    · exact h.used_entries k d hold
    · rw [hnew]
      exact hused
  · rw [List.filter_append, ← h.entries_eq]
    exact live_registerFrom hself _ _ key

/-- Either dispatcher replaces one list by what its loop has left of it. -/
theorem Sound.prune (h : Sound s) (key path : Bytes) :
    Sound { s with
      methodMap := s.methodMap.insert key
        (findMethod s.handlers path (entries s.methodMap key)).1 } := by
  refine ⟨h.used_handlers, h.used_registered, fun k d hd => ?_, fun k => ?_⟩
  · rcases mem_entries_insert hd with hkept | hold
    · exact h.used_entries key d ((findMethod_sublist _ _).subset hkept)
    · exact h.used_entries k d hold
  · exact (live_entries_insert (live_findMethod _ _) k).trans (h.entries_eq k)

theorem Sound.step {a : Action} (h : Sound s) (ht : step s a = some t) : Sound t := by
  cases a with
  | make self impl =>
      simp only [Registry.step] at ht
      split at ht
      · cases ht
      · cases ht
        exact h.make (Bool.not_eq_true _ ▸ ‹_›) impl
  | registerMethod self =>
      obtain ⟨impl, hself, rfl⟩ := Option.map_eq_some_iff.mp ht
      exact h.registerMethod hself
  | expire self =>
      cases ht
      exact h.expire self
  | onReadyRead fs c =>
      cases ht
      exact h.prune _ _
  | onRequest fs c resp =>
      cases ht
      exact h.prune _ _

/-! ## What is found -/

theorem Sound.findMethod_eq (h : Sound s) (method path : Bytes) :
    (findMethod s.handlers path (entries s.methodMap method)).2 = s.earliest method path := by
  rw [HttpMethodBuilder.findMethod_eq, h.entries_eq]
  rfl

/-- `onReadyRead` behind its loop, with the entry that was found. -/
def invokeReadyRead (fs : FileSystem) (c : HttpContext File) :
    Option (HttpMethodFactory × Nat) → List FileCall × HttpContext File × Bool
  | some (share, index) =>
    ([], if share.readyRead index c.request then { c with request := c.request.readAll.2 } else c, false)
  | none => putReadyRead fs c

/-- `onRequest` behind its loop. -/
def invokeCall (fs : FileSystem) (c : HttpContext File) (resp : HttpResponse) :
    Option (HttpMethodFactory × Nat) → List FileCall × Except HandlerError Answer
  | some (share, index) => ([], .ok { context := c, response := share.call index c.request resp })
  | none => answerFile fs c resp

/-- In every life of a builder both dispatchers invoke the earliest entry that is alive for the
    method and the path of the request, and what they erase changes no choice. -/
theorem dispatch_earliest {as : List Action} (h : run step {} as = some s) :
    (∀ method path, (findMethod s.handlers path (entries s.methodMap method)).2 =
      s.earliest method path) ∧
    (∀ fs c, (HttpMethodBuilder.onReadyRead s.handlers fs s.methodMap c).2 =
      invokeReadyRead fs c (s.earliest c.request.methodString c.request.path)) ∧
    (∀ fs c resp, (HttpMethodBuilder.onRequest s.handlers fs s.methodMap c resp).2 =
      invokeCall fs c resp (s.earliest c.request.methodString c.request.path)) ∧
    ∀ fs c resp method path,
      (findMethod s.handlers path
        (entries (HttpMethodBuilder.onReadyRead s.handlers fs s.methodMap c).1 method)).2 =
          (findMethod s.handlers path (entries s.methodMap method)).2 ∧
      (findMethod s.handlers path
        (entries (HttpMethodBuilder.onRequest s.handlers fs s.methodMap c resp).1 method)).2 =
          (findMethod s.handlers path (entries s.methodMap method)).2 := by
  have hsound : Sound s := run_invariant (fun _ _ _ hs ht => Sound.step hs ht) sound_empty h
  refine ⟨hsound.findMethod_eq, fun fs c => ?_, fun fs c resp => ?_, fun fs c resp method path => ?_⟩
  · rw [← hsound.findMethod_eq]
    rfl
  · rw [← hsound.findMethod_eq]
    rfl
  · have hpruned := (hsound.prune c.request.methodString c.request.path).findMethod_eq method path
    exact ⟨hpruned.trans (hsound.findMethod_eq method path).symm,
      hpruned.trans (hsound.findMethod_eq method path).symm⟩

/-- Two handlers for `GET /`. -/
def twoHandlers : List Action :=
  let factory := HttpMethodFactory.base (ascii "2022-09-26 09:44:03.000000".toList)
  [.make 0 factory, .registerMethod 0, .make 1 factory, .registerMethod 1]

/-- Of two handlers for `GET /` the first has expired. -/
theorem dispatch_earliest_expired :
    ∃ s, run step {} (twoHandlers ++ [.expire 0]) = some s ∧
      s.registered = [⟨0, 0⟩, ⟨1, 0⟩] ∧
      (s.earliest (ascii "GET".toList) (ascii "/".toList)).isSome ∧
      (findMethod s.handlers (ascii "/".toList) (entries s.methodMap (ascii "GET".toList))).2 =
        s.earliest (ascii "GET".toList) (ascii "/".toList) :=
  ⟨_, rfl, by decide +kernel, by decide +kernel,
    (dispatch_earliest (show run step {} (twoHandlers ++ [.expire 0]) = some _ from rfl)).1 _ _⟩

/-! ## Uniqueness -/

/-- A registration is of new pairs. -/
def Fresh (s : Registry) : Action → Prop
  | .registerMethod self => ∀ impl, s.handlers self = some impl → FreshPairs s.handlers s.methodMap impl
  | _ => True

theorem unique_expire {lock : Nat → Option HttpMethodFactory} {m : MethodMap} (h : Unique lock m)
    (self : Nat) : Unique (Function.update lock self none) m := by
  intro key
  rw [live_expire]
  refine ((h key).filter _).imp_of_mem fun {d e} hd he hne => ?_
  have hd' := of_decide_eq_true (List.mem_filter.mp hd).2
  have he' := of_decide_eq_true (List.mem_filter.mp he).2
  unfold pathOf at hne ⊢
  rwa [Function.update_of_ne hd', Function.update_of_ne he']

theorem unique_make (h : Sound s) (hu : Unique s.handlers s.methodMap) {self : Nat}
    (hself : s.used self = false) (impl : HttpMethodFactory) :
    Unique (Function.update s.handlers self (some impl)) s.methodMap := by
  intro key
  rw [live_make h hself]
  refine (hu key).imp_of_mem fun {d e} hd he hne => ?_
  have hd' := h.used_entries key d (List.mem_of_mem_filter hd)
  have he' := h.used_entries key e (List.mem_of_mem_filter he)
  unfold pathOf at hne ⊢
  rwa [update_of_used hself hd', update_of_used hself he']

theorem unique_prune {lock : Nat → Option HttpMethodFactory} {m : MethodMap} (h : Unique lock m)
    (key path : Bytes) : Unique lock (m.insert key (findMethod lock path (entries m key)).1) := by
  intro k
  rw [live_entries_insert (live_findMethod _ _)]
  exact h k

theorem unique_step_iff {a : Action} (h : Sound s) (hu : Unique s.handlers s.methodMap)
    (ht : step s a = some t) : Unique t.handlers t.methodMap ↔ Fresh s a := by
  cases a with
  | make self impl =>
      simp only [Registry.step] at ht
      split at ht
      · cases ht
      · cases ht
        exact iff_of_true (unique_make h hu (Bool.not_eq_true _ ▸ ‹_›) impl) trivial
  | registerMethod self =>
      obtain ⟨impl, hself, rfl⟩ := Option.map_eq_some_iff.mp ht
      refine (unique_registerMethod_iff hself hu).trans ⟨fun hfresh impl' himpl => ?_, fun hfresh => hfresh impl hself⟩
      rw [hself] at himpl
      cases himpl
      exact hfresh
  | expire self =>
      cases ht
      exact iff_of_true (unique_expire hu self) trivial
  | onReadyRead fs c =>
      cases ht
      exact iff_of_true (unique_prune hu _ _) trivial
  | onRequest fs c resp =>
      cases ht
      exact iff_of_true (unique_prune hu _ _) trivial

/-- The map never holds two live entries for one method and path, in no state on the way, iff
    every registration is of new pairs. -/
theorem unique_iff_fresh (as : List Action) :
    (∀ bs, bs <+: as → ∀ u, run step {} bs = some u → Unique u.handlers u.methodMap) ↔
      Along step Fresh {} as := by
  refine prefixes_iff_along (J := Sound) (fun _ _ _ hs ht => Sound.step hs ht)
    (fun _ _ _ hs hu ht => unique_step_iff hs hu ht) (fun s a hnone => ?_) sound_empty
    fun key => List.Pairwise.nil
  cases a with
  | registerMethod self =>
      intro impl hself
      simp only [Registry.step, hself, Option.map_some] at hnone
      cases hnone
  | make | expire | onReadyRead | onRequest => trivial

/-- Both are registered: the path of the first is compared with `GET`. -/
theorem duplicate_registered :
    ∃ s, run step {} twoHandlers = some s ∧
      live s.handlers (entries s.methodMap (ascii "GET".toList)) = [⟨0, 0⟩, ⟨1, 0⟩] ∧
      pathOf s.handlers ⟨0, 0⟩ = pathOf s.handlers ⟨1, 0⟩ ∧ ¬ Unique s.handlers s.methodMap := by
  refine ⟨_, rfl, by decide +kernel, by decide +kernel, fun h => ?_⟩
  have hpair := h (ascii "GET".toList)
  revert hpair
  decide +kernel

end Registry
end HttpMethodBuilder
end Youth.Http
