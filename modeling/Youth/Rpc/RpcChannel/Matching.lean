/-
  Youth.Rpc.RpcChannel.Matching

  RPC calls are matched with their own answers.

  The ids are what ties the two ends together: each call has its own (`Numbered`),
  a request carries the id of its call and a response that of its request
  (`Honest`), and the client looks its calls up by it (`Looked`).  Each step keeps
  the three, whatever the order of the steps; `rpc_matched` is what they give.
-/

import Youth.Rpc.RpcChannel.Basic

namespace Youth.Rpc.RpcChannel

open Youth.Lib World

/-! ## Registered and not yet answered -/

/-- The call is registered under `id`, and no response with that id has come since. -/
def waiting (i : Nat) (id : Int64) : List Event → Bool
  | [] => false
  | .registered j :: log => j = i || waiting i id log
  | .arrived message :: log => if message.id.toInt64 = id then false else waiting i id log
  | .ran _ _ :: log => waiting i id log

/-- The closure of the call is run. -/
def ranBy (i : Nat) : Event → Bool
  | .ran j _ => j = i
  | _ => false

theorem registered_of_waiting {i : Nat} {id : Int64} {log : List Event}
    (h : waiting i id log = true) : .registered i ∈ log := by
  induction log with
  | nil => cases h
  | cons e log ih =>
      cases e with
      | registered j =>
          rw [waiting, Bool.or_eq_true, decide_eq_true_iff] at h
          rcases h with rfl | h
          · exact List.mem_cons_self
          · exact List.mem_cons_of_mem _ (ih h)
      | arrived message =>
          rw [waiting] at h
          split at h
          · cases h
          · exact List.mem_cons_of_mem _ (ih h)
      | ran j parsed => exact List.mem_cons_of_mem _ (ih h)

section log

variable (i j : Nat) (id : Int64) (message : RpcMessage) (log : List Event)

@[simp] theorem waiting_registered_self : waiting i id (.registered i :: log) = true := by
  simp [waiting]

theorem waiting_registered_of_ne {i j : Nat} (hne : i ≠ j) (id : Int64) (log : List Event) :
    waiting i id (.registered j :: log) = waiting i id log := by
  simp [waiting, hne.symm]

@[simp] theorem waiting_arrived_self :
    waiting i message.id.toInt64 (.arrived message :: log) = false := if_pos rfl

theorem waiting_arrived_of_ne {id : Int64} {message : RpcMessage} (hne : id ≠ message.id.toInt64)
    (i : Nat) (log : List Event) : waiting i id (.arrived message :: log) = waiting i id log :=
  if_neg (Ne.symm hne)

@[simp] theorem countP_ranBy_registered :
    (.registered j :: log).countP (ranBy i) = log.countP (ranBy i) := by
  simp [ranBy]

@[simp] theorem countP_ranBy_arrived :
    (.arrived message :: log).countP (ranBy i) = log.countP (ranBy i) := by
  simp [ranBy]

theorem countP_ranBy_ran (parsed : Option Bytes) :
    (.ran j parsed :: log).countP (ranBy i) =
      log.countP (ranBy i) + if j = i then 1 else 0 := by
  rw [List.countP_cons]
  simp [ranBy]

end log

/-! ## The invariant -/

/-- The calls have consecutive ids, so no two have the same. -/
structure Numbered (first : Int64) (w : World) : Prop where
  few : w.calls.length < 2 ^ 64
  next : w.client.id = first + Int64.ofNat w.calls.length
  ids : ∀ i c, w.calls[i]? = some c → c.id = first + Int64.ofNat i
  idle : ∀ i, w.calls.length ≤ i → w.stage i = .idle
  registered : ∀ i, .registered i ∈ w.log → w.stage i = .registered ∨ w.stage i = .sent

/-- Every message carries the id of the message it answers. -/
structure Honest (w : World) : Prop where
  toServer : ∀ m ∈ w.toServer, ∃ c ∈ w.calls, m = c.message
  requests : ∀ m ∈ w.requests, ∃ c ∈ w.calls, m = c.message
  closures : ∀ k id, w.closures k = some id → w.answers k = [] ∧ w.produced k = none ∧
    ∃ m, w.requests[k]? = some m ∧ id = m.id.toInt64
  unborn : ∀ k, w.requests.length ≤ k → w.answers k = [] ∧ w.produced k = none
  answers : ∀ k, ∀ a ∈ w.answers k, ∃ m, w.requests[k]? = some m ∧ a.type = .RESPONSE ∧
    a.id = m.id ∧ ∀ b, a.response = some b → w.produced k = some b
  once : ∀ k, (w.answers k).length ≤ 1
  toClient : ∀ a ∈ w.toClient, w.Sent a

/-- The service has produced these bytes for the request of the call. -/
def ProducedFor (w : World) (i : Nat) (b : Bytes) : Prop :=
  ∃ c k, w.calls[i]? = some c ∧ w.requests[k]? = some c.message ∧ w.produced k = some b

/-- The client looks a call up while it waits for its answer, and only then. -/
structure Looked (w : World) : Prop where
  noServices : w.client.services = none
  outstanding : ∀ id out, w.client.outstandings id = some out ↔
    ∃ c, w.calls[out.call]? = some c ∧ c.id = id ∧ out = ⟨out.call, c.response, c.done⟩ ∧
      waiting out.call id w.log = true
  inHand : ∀ out a, w.inHand = some (out, a) → ∃ c, w.calls[out.call]? = some c ∧
    a.id.toInt64 = c.id ∧ w.Sent a ∧ waiting out.call c.id w.log = false ∧
    .registered out.call ∈ w.log ∧ w.log.countP (ranBy out.call) = 0
  unregistered : ∀ i, .registered i ∉ w.log → w.log.countP (ranBy i) = 0
  silent : ∀ i c, w.calls[i]? = some c → waiting i c.id w.log = true →
    w.log.countP (ranBy i) = 0
  once : ∀ i, w.log.countP (ranBy i) ≤ 1
  own : ∀ i b, .ran i (some b) ∈ w.log → ProducedFor w i b

structure Inv (first : Int64) (w : World) : Prop where
  numbered : Numbered first w
  honest : Honest w
  looked : Looked w

/-- Ids wrap around after 2^64 calls only. -/
theorem ofNat_add_inj {first : Int64} {i j : Nat} (hi : i < 2 ^ 64) (hj : j < 2 ^ 64)
    (h : first + Int64.ofNat i = first + Int64.ofNat j) : i = j := by
  have hbits : (BitVec.ofNat 64 i) = BitVec.ofNat 64 j := by
    have h' := congrArg Int64.toBitVec h
    simpa [Int64.toBitVec_add] using h'
  have hnat := congrArg BitVec.toNat hbits
  rwa [BitVec.toNat_ofNat, BitVec.toNat_ofNat, Nat.mod_eq_of_lt hi, Nat.mod_eq_of_lt hj] at hnat

section

variable {first : Int64} {w w' : World} {i j : Nat} {c d : Call}

theorem Numbered.lt (h : Numbered first w) (hc : w.calls[i]? = some c) : i < 2 ^ 64 := by
  obtain ⟨hi, -⟩ := List.getElem?_eq_some_iff.mp hc
  have := h.few
  omega

/-- A call is known by its id. -/
theorem Numbered.eq_of_id (h : Numbered first w) (hc : w.calls[i]? = some c)
    (hd : w.calls[j]? = some d) (hid : c.id = d.id) : i = j := by
  rw [h.ids i c hc, h.ids j d hd] at hid
  exact ofNat_add_inj (h.lt hc) (h.lt hd) hid

theorem Numbered.not_registered (h : Numbered first w)
    (hstage : w.stage i = .idle ∨ w.stage i = .allocated) : .registered i ∉ w.log := by
  intro hmem
  rcases h.registered i hmem with hreg | hreg <;> rcases hstage with hs | hs <;>
    simp [hreg] at hs

/-! ## What only grows -/

/-- Calls, requests and what is known of them stay. -/
structure Grows (w w' : World) : Prop where
  calls : ∀ (i : Nat) (c : Call), w.calls[i]? = some c → w'.calls[i]? = some c
  requests : ∀ (k : Nat) (m : RpcMessage), w.requests[k]? = some m → w'.requests[k]? = some m
  produced : ∀ k b, w.produced k = some b → w'.produced k = some b
  answers : ∀ k, ∀ a ∈ w.answers k, a ∈ w'.answers k

theorem Grows.sent (h : Grows w w') {a : RpcMessage} (ha : w.Sent a) : w'.Sent a := by
  obtain ⟨k, hk, hmem⟩ := ha
  have hreq := h.requests k _ (List.getElem?_eq_getElem hk)
  obtain ⟨hk', -⟩ := List.getElem?_eq_some_iff.mp hreq
  exact ⟨k, hk', h.answers k a hmem⟩

theorem Grows.producedFor (h : Grows w w') {b : Bytes} (hb : ProducedFor w i b) :
    ProducedFor w' i b := by
  obtain ⟨c, k, hc, hm, hp⟩ := hb
  exact ⟨c, k, h.calls i c hc, h.requests k _ hm, h.produced k b hp⟩

/-- The client does not notice a step that leaves it alone. -/
theorem Looked.of_grows (h : Looked w) (hg : Grows w w') (hclient : w'.client = w.client)
    (hcalls : w'.calls = w.calls) (hhand : w'.inHand = w.inHand) (hlog : w'.log = w.log) :
    Looked w' where
  noServices := by rw [hclient]; exact h.noServices
  outstanding := by rw [hclient, hcalls, hlog]; exact h.outstanding
  inHand := by
    intro out a hout
    rw [hhand] at hout
    obtain ⟨c, hc, hid, hsent, hrest⟩ := h.inHand out a hout
    rw [hcalls, hlog]
    exact ⟨c, hc, hid, hg.sent hsent, hrest⟩
  unregistered := by rw [hlog]; exact h.unregistered
  silent := by rw [hcalls, hlog]; exact h.silent
  once := by rw [hlog]; exact h.once
  own := by
    intro i b hmem
    rw [hlog] at hmem
    exact hg.producedFor (h.own i b hmem)

/-! ## `CallMethod` -/

theorem getElem?_concat_of_some {α : Type} {xs : List α} {x y : α} {k : Nat}
    (h : xs[k]? = some x) : (xs ++ [y])[k]? = some x := by
  obtain ⟨hk, -⟩ := List.getElem?_eq_some_iff.mp h
  rw [List.getElem?_append_left hk, h]

/-- The last element, or one of the others. -/
theorem getElem?_concat_cases {α : Type} {xs : List α} {x y : α} {k : Nat}
    (h : (xs ++ [y])[k]? = some x) : xs[k]? = some x ∨ (k = xs.length ∧ x = y) := by
  rw [List.getElem?_append] at h
  split at h
  · exact .inl h
  next hk =>
    obtain ⟨hlt, heq⟩ := List.getElem?_eq_some_iff.mp h
    simp at hlt heq
    exact .inr ⟨by omega, heq.symm⟩

theorem fetchId_numbered (h : Numbered first w) (hfew : w.calls.length + 1 < 2 ^ 64)
    (service method request : Bytes) (response done : Bool) :
    Numbered first (w.fetchId service method request response done) := by
  refine ⟨by simpa [fetchId] using hfew, ?_, ?_, ?_, ?_⟩
  · -- `fetch_add` wraps as the ids do
    have hone : (Int64.ofNat (w.calls.length + 1)) = Int64.ofNat w.calls.length + 1 := by
      rw [Int64.ofNat_add]
      rfl
    simp only [fetchId, List.length_append, List.length_singleton, h.next, hone, Int64.add_assoc]
  · intro i c hc
    rcases getElem?_concat_cases hc with hc | ⟨rfl, rfl⟩
    · exact h.ids i c hc
    · exact h.next
  · intro i hi
    simp only [fetchId, List.length_append, List.length_singleton] at hi
    have hne : i ≠ w.calls.length := by omega
    exact (Function.update_of_ne hne _ _).trans (h.idle i (by omega))
  · -- the stage that changes is the one of the new call
    intro i hi
    have hne : i ≠ w.calls.length := by
      rintro rfl
      exact h.not_registered (.inl (h.idle _ (Nat.le_refl _))) hi
    have hstage : (w.fetchId service method request response done).stage i = w.stage i :=
      Function.update_of_ne hne _ _
    rw [hstage]
    exact h.registered i hi

/-- The client looks up the calls before the new one, as they were. -/
theorem fetchId_looked (hn : Numbered first w) (h : Looked w) (service method request : Bytes)
    (response done : Bool) : Looked (w.fetchId service method request response done) := by
  have hg : Grows w (w.fetchId service method request response done) :=
    ⟨fun _ _ hc => getElem?_concat_of_some hc, fun _ _ hm => hm, fun _ _ hp => hp, fun _ _ ha => ha⟩
  -- the new call is not registered, so it does not wait
  have hsilent : ∀ id, waiting w.calls.length id w.log ≠ true := fun id hwait =>
    hn.not_registered (.inl (hn.idle _ (Nat.le_refl _))) (registered_of_waiting hwait)
  refine { h with outstanding := ?_, inHand := ?_, silent := ?_, own := ?_ }
  · intro id out
    rw [fetchId, h.outstanding id out]
    constructor
    · rintro ⟨c, hc, hrest⟩
      exact ⟨c, getElem?_concat_of_some hc, hrest⟩
    · rintro ⟨c, hc, hid, hout, hwait⟩
      rcases getElem?_concat_cases hc with hc | ⟨hlast, -⟩
      · exact ⟨c, hc, hid, hout, hwait⟩
      · exact absurd (hlast ▸ hwait) (hsilent id)
  · intro out a hout
    obtain ⟨c, hc, hrest⟩ := h.inHand out a hout
    exact ⟨c, getElem?_concat_of_some hc, hrest⟩
  · intro i c hc hwait
    rcases getElem?_concat_cases hc with hc | ⟨rfl, rfl⟩
    · exact h.silent i c hc hwait
    · exact absurd hwait (hsilent _)
  · exact fun i b hb => hg.producedFor (h.own i b hb)

theorem fetchId_inv (h : Inv first w) (hfew : w.calls.length + 1 < 2 ^ 64)
    (service method request : Bytes) (response done : Bool) :
    Inv first (w.fetchId service method request response done) := by
  have hmem : ∀ {m : RpcMessage}, (∃ c ∈ w.calls, m = c.message) →
      ∃ c ∈ (w.fetchId service method request response done).calls, m = c.message := by
    rintro m ⟨c, hc, hm⟩
    exact ⟨c, List.mem_append_left _ hc, hm⟩
  refine ⟨fetchId_numbered h.numbered hfew .., ?_, fetchId_looked h.numbered h.looked ..⟩
  -- every message still has its call
  exact { h.honest with
    toServer := fun m hm => hmem (h.honest.toServer m hm)
    requests := fun m hm => hmem (h.honest.requests m hm) }

/-- Moving a call on does not touch the others. -/
theorem Numbered.move (h : Numbered first w) (hc : w.calls[i]? = some c) {stage : Stage}
    (hstage : stage = .registered ∨ stage = .sent) (hw : w'.calls = w.calls)
    (hid : w'.client.id = w.client.id) (hmove : w'.stage = Function.update w.stage i stage)
    (hlog : ∀ j, .registered j ∈ w'.log → j = i ∨ .registered j ∈ w.log) : Numbered first w' where
  few := by rw [hw]; exact h.few
  next := by rw [hw, hid]; exact h.next
  ids := by rw [hw]; exact h.ids
  idle := by
    intro j hj
    rw [hw] at hj
    obtain ⟨hi, -⟩ := List.getElem?_eq_some_iff.mp hc
    have hne : j ≠ i := by omega
    rw [hmove, Function.update_of_ne hne]
    exact h.idle j hj
  registered := by
    intro j hj
    by_cases hji : j = i
    · rw [hmove, hji, Function.update_self]
      exact hstage
    · rw [hmove, Function.update_of_ne hji]
      rcases hlog j hj with heq | hmem
      · exact absurd heq hji
      · exact h.registered j hmem

/-- The table after a registration: the id is that of no other call. -/
theorem register_outstanding (hn : Numbered first w) (h : Looked w) (hc : w.calls[i]? = some c)
    (id : Int64) (out : OutstandingCall) :
    (w.register i c).client.outstandings id = some out ↔
      ∃ d, w.calls[out.call]? = some d ∧ d.id = id ∧ out = ⟨out.call, d.response, d.done⟩ ∧
        waiting out.call id (w.register i c).log = true := by
  by_cases hid : id = c.id
  · have hlookup : (w.register i c).client.outstandings id = some ⟨i, c.response, c.done⟩ := by
      rw [hid]
      exact Function.update_self _ _ _
    rw [hlookup]
    constructor
    · intro heq
      cases heq
      exact ⟨c, hc, hid.symm, rfl, waiting_registered_self i id w.log⟩
    · rintro ⟨d, hd, hdid, hout, -⟩
      have hcall : out.call = i := hn.eq_of_id hd hc (hdid.trans hid)
      rw [hcall] at hd hout
      obtain rfl : c = d := Option.some.inj (hc.symm.trans hd)
      rw [hout]
  · have hlookup : (w.register i c).client.outstandings id = w.client.outstandings id :=
      Function.update_of_ne hid _ _
    rw [hlookup, h.outstanding id out]
    refine exists_congr fun d => and_congr_right fun hd => and_congr_right fun hdid => ?_
    have hne : out.call ≠ i := by
      rintro hcall
      rw [hcall, hc] at hd
      cases hd
      exact hid hdid.symm
    rw [register, waiting_registered_of_ne hne]

theorem register_looked (hn : Numbered first w) (h : Looked w) (hc : w.calls[i]? = some c)
    (hnew : .registered i ∉ w.log) : Looked (w.register i c) := by
  have hran : ∀ j, (w.register i c).log.countP (ranBy j) = w.log.countP (ranBy j) := fun j =>
    countP_ranBy_registered j i w.log
  refine { h with
    outstanding := register_outstanding hn h hc
    inHand := ?_
    unregistered := ?_
    silent := ?_
    once := ?_
    own := ?_ }
  · -- the call in hand has been registered, so it is another one
    intro out a hout
    obtain ⟨d, hd, hid, hsent, hwait, hreg, hquiet⟩ := h.inHand out a hout
    have hne : out.call ≠ i := fun hcall => hnew (hcall ▸ hreg)
    refine ⟨d, hd, hid, hsent, ?_, List.mem_cons_of_mem _ hreg, (hran _).trans hquiet⟩
    exact (waiting_registered_of_ne hne d.id w.log).trans hwait
  · intro j hj
    rw [hran]
    exact h.unregistered j fun hmem => hj (List.mem_cons_of_mem _ hmem)
  · -- the new entry waits, and nothing has been run for it yet
    intro j d hd hwait
    rw [hran]
    by_cases hji : j = i
    · rw [hji]
      exact h.unregistered i hnew
    · rw [register, waiting_registered_of_ne hji] at hwait
      exact h.silent j d hd hwait
  · intro j
    rw [hran]
    exact h.once j
  · intro j b hmem
    rcases List.mem_cons.mp hmem with heq | hmem
    · cases heq
    · exact h.own j b hmem

theorem register_inv (h : Inv first w) (hc : w.calls[i]? = some c)
    (hstage : w.stage i = .allocated) : Inv first (w.register i c) := by
  have hnew : .registered i ∉ w.log := h.numbered.not_registered (.inr hstage)
  refine ⟨?_, { h.honest with }, register_looked h.numbered h.looked hc hnew⟩
  refine h.numbered.move hc (.inl rfl) rfl rfl rfl fun j hj => ?_
  rcases List.mem_cons.mp hj with heq | hmem
  · cases heq
    exact .inl rfl
  · exact .inr hmem

theorem send_inv (h : Inv first w) (hc : w.calls[i]? = some c) : Inv first (w.send i c) := by
  have hg : Grows w (w.send i c) :=
    ⟨fun _ _ hc => hc, fun _ _ hm => hm, fun _ _ hp => hp, fun _ _ ha => ha⟩
  refine ⟨?_, { h.honest with toServer := ?_ }, ?_⟩
  · exact h.numbered.move hc (.inr rfl) rfl rfl rfl fun j hj => .inr hj
  · intro m hm
    rcases List.mem_append.mp hm with hm | hm
    · exact h.honest.toServer m hm
    · exact ⟨c, List.mem_of_getElem? hc, List.mem_singleton.mp hm⟩
  · exact h.looked.of_grows hg rfl rfl rfl rfl

/-! ## The server -/

/-- A server sends one more answer for request `k`, which had none. -/
theorem Honest.answer (h : Honest w) {k : Nat} {a m : RpcMessage} (hm : w.requests[k]? = some m)
    (hnone : w.answers k = []) (htype : a.type = .RESPONSE) (hid : a.id = m.id)
    {produced : Nat → Option Bytes} {closures : Nat → Option Int64}
    (hresponse : ∀ b, a.response = some b → produced k = some b)
    (hclosure : closures k = none) (hother : ∀ j, j ≠ k → closures j = w.closures j ∧
      produced j = w.produced j) :
    Honest { w with
      closures := closures, produced := produced
      answers := Function.update w.answers k (w.answers k ++ [a])
      toClient := w.toClient ++ [a] } := by
  obtain ⟨hk, -⟩ := List.getElem?_eq_some_iff.mp hm
  have hself : Function.update w.answers k (w.answers k ++ [a]) k = [a] := by
    rw [Function.update_self, hnone]
    rfl
  have hne : ∀ j, j ≠ k → Function.update w.answers k (w.answers k ++ [a]) j = w.answers j :=
    fun j hj => Function.update_of_ne hj _ _
  -- Only request `k` changes, and it has neither an answer nor a closure to lose
  refine { h with closures := ?_, unborn := ?_, answers := ?_, once := ?_, toClient := ?_ }
  · intro j id hj
    dsimp only at hj ⊢
    have hjk : j ≠ k := by
      rintro rfl
      rw [hclosure] at hj
      cases hj
    rw [(hother j hjk).1] at hj
    rw [hne j hjk, (hother j hjk).2]
    exact h.closures j id hj
  · intro j hj
    have hjk : j ≠ k := by
      rintro rfl
      exact absurd hk (by simpa using hj)
    dsimp only
    rw [hne j hjk, (hother j hjk).2]
    exact h.unborn j hj
  · intro j b hb
    by_cases hjk : j = k
    · subst hjk
      dsimp only at hb ⊢
      rw [hself, List.mem_singleton] at hb
      subst hb
      exact ⟨m, hm, htype, hid, hresponse⟩
    · dsimp only at hb ⊢
      rw [hne j hjk] at hb
      rw [(hother j hjk).2]
      exact h.answers j b hb
  · intro j
    by_cases hjk : j = k
    · subst hjk
      dsimp only
      rw [hself]
      exact Nat.le_refl 1
    · dsimp only
      rw [hne j hjk]
      exact h.once j
  · intro b hb
    rcases List.mem_append.mp hb with hb | hb
    · obtain ⟨j, hj, hmem⟩ := h.toClient b hb
      refine ⟨j, hj, ?_⟩
      dsimp only
      by_cases hjk : j = k
      · rw [hjk, hnone] at hmem
        cases hmem
      · rw [hne j hjk]
        exact hmem
    · refine ⟨k, hk, ?_⟩
      dsimp only
      rw [hself]
      exact hb

/-- A request reaches the server. -/
theorem Honest.receive (h : Honest w) {m : RpcMessage} (hm : ∃ c ∈ w.calls, m = c.message) :
    Honest { w with requests := w.requests ++ [m] } := by
  refine { h with requests := ?_, closures := ?_, unborn := ?_, answers := ?_, toClient := ?_ }
  · intro m' hm'
    rcases List.mem_append.mp hm' with hm' | hm'
    · exact h.requests m' hm'
    · rw [List.mem_singleton.mp hm']
      exact hm
  · intro k id hk
    obtain ⟨hnone, hprod, m', hm', hid⟩ := h.closures k id hk
    exact ⟨hnone, hprod, m', getElem?_concat_of_some hm', hid⟩
  · intro k hk
    simp only [List.length_append, List.length_singleton] at hk
    exact h.unborn k (by omega)
  · intro k a ha
    obtain ⟨m', hm', hrest⟩ := h.answers k a ha
    exact ⟨m', getElem?_concat_of_some hm', hrest⟩
  · intro a ha
    obtain ⟨k, hk, hmem⟩ := h.toClient a ha
    exact ⟨k, by simp only [List.length_append, List.length_singleton]; omega, hmem⟩

/-- A service gets the closure of the request that has just come. -/
theorem Honest.hold (h : Honest w) {k : Nat} {m : RpcMessage} (hm : w.requests[k]? = some m)
    (hnone : w.answers k = []) (hprod : w.produced k = none) :
    Honest { w with closures := Function.update w.closures k (some m.id.toInt64) } := by
  refine { h with closures := ?_ }
  intro j id hj
  dsimp only at hj ⊢
  by_cases hjk : j = k
  · subst hjk
    rw [Function.update_self] at hj
    cases hj
    exact ⟨hnone, hprod, m, hm, rfl⟩
  · rw [Function.update_of_ne hjk] at hj
    exact h.closures j id hj

theorem onRpcMessage_call {ch : RpcChannel} (h : ch.requestError c.message = .NO_ERROR) :
    ch.onRpcMessage c.message = (.call c.message.id.toInt64, ch) := by
  have htype : c.message.type = .REQUEST := rfl
  simp only [onRpcMessage, htype, h]

theorem onRpcMessage_reply {ch : RpcChannel} (h : ch.requestError c.message ≠ .NO_ERROR) :
    ch.onRpcMessage c.message =
      (.reply (errorResponse c.message (ch.requestError c.message)), ch) := by
  have htype : c.message.type = .REQUEST := rfl
  rcases herror : ch.requestError c.message <;> simp only [onRpcMessage, htype, herror]
  exact absurd herror h

/-- What the server makes of a request of the client. -/
theorem onServerMessage_cases (w : World) (c : Call) :
    (w.onServerMessage c.message = { w with
      requests := w.requests ++ [c.message]
      closures := Function.update w.closures w.requests.length (some c.message.id.toInt64) }) ∨
    (∃ error, w.onServerMessage c.message = { w with
      requests := w.requests ++ [c.message]
      answers := Function.update w.answers w.requests.length
        (w.answers w.requests.length ++ [error])
      toClient := w.toClient ++ [error] } ∧
      error.type = .RESPONSE ∧ error.id = c.message.id ∧ error.response = none) := by
  by_cases herror : w.server.requestError c.message = .NO_ERROR
  · refine .inl ?_
    simp only [onServerMessage, onRpcMessage_call herror]
  · refine .inr ⟨errorResponse c.message (w.server.requestError c.message), ?_, rfl, rfl, rfl⟩
    simp only [onServerMessage, onRpcMessage_reply herror]

/-- The server takes a request of the client from its queue. -/
theorem deliverToServer_inv (h : Inv first w) {m : RpcMessage} {rest : List RpcMessage}
    (hqueue : w.toServer = m :: rest) :
    Inv first ({ w with toServer := rest }.onServerMessage m) := by
  obtain ⟨c, hc, rfl⟩ := h.honest.toServer m (by rw [hqueue]; exact List.mem_cons_self)
  have hpopped : Honest { w with toServer := rest } :=
    { h.honest with
      toServer := fun m' hm' =>
        h.honest.toServer m' (by rw [hqueue]; exact List.mem_cons_of_mem _ hm') }
  have hlast : (w.requests ++ [c.message])[w.requests.length]? = some c.message := by simp
  -- Nothing is known yet of a request with the next number
  obtain ⟨hnone, hprod⟩ := h.honest.unborn w.requests.length (Nat.le_refl _)
  have hreceived := hpopped.receive ⟨c, hc, rfl⟩
  rcases onServerMessage_cases { w with toServer := rest } c with
    hcall | ⟨error, hreply, htype, hid, hresponse⟩
  · -- the service takes the call and keeps the closure
    rw [hcall]
    refine ⟨{ h.numbered with }, hreceived.hold hlast hnone hprod, ?_⟩
    refine h.looked.of_grows ⟨fun _ _ hc => hc, fun _ _ hm => getElem?_concat_of_some hm,
      fun _ _ hp => hp, fun _ _ ha => ha⟩ rfl rfl rfl rfl
  · -- one of the errors: answered at once
    rw [hreply]
    have hclosure : w.closures w.requests.length = none := by
      by_contra hne
      obtain ⟨id, hsome⟩ := Option.ne_none_iff_exists'.mp hne
      obtain ⟨-, -, m, hm, -⟩ := h.honest.closures _ id hsome
      simp at hm
    refine ⟨{ h.numbered with }, ?_, ?_⟩
    · exact hreceived.answer hlast hnone htype hid (by simp [hresponse]) hclosure
        (fun _ _ => ⟨rfl, rfl⟩)
    · refine h.looked.of_grows ⟨fun _ _ hc => hc, fun _ _ hm => getElem?_concat_of_some hm,
        fun _ _ hp => hp, fun k a ha => ?_⟩ rfl rfl rfl rfl
      by_cases hk : k = w.requests.length
      · rw [hk, hnone] at ha
        cases ha
      · dsimp only
        rw [Function.update_of_ne hk]
        exact ha

theorem toInt64_toUInt64 (id : UInt64) : id.toInt64.toUInt64 = id := rfl

/-- A service runs a closure it holds. -/
theorem runClosure_inv (h : Inv first w) {k : Nat} {id : Int64} (hk : w.closures k = some id)
    (response : Bytes) : Inv first (w.runClosure k id response) := by
  obtain ⟨hnone, hprod, m, hm, rfl⟩ := h.honest.closures k id hk
  refine ⟨{ h.numbered with }, ?_, ?_⟩
  · -- the id goes through an `int64_t` and back
    refine h.honest.answer (a := doneCallback response m.id.toInt64) hm hnone rfl
      (toInt64_toUInt64 m.id) ?_ ?_ ?_
    · intro b hb
      rw [Function.update_self, ← hb]
      rfl
    · exact Function.update_self _ _ _
    · exact fun j hj => ⟨Function.update_of_ne hj _ _, Function.update_of_ne hj _ _⟩
  · refine h.looked.of_grows ⟨fun _ _ hc => hc, fun _ _ hm => hm, fun j b hb => ?_,
      fun j a ha => ?_⟩ rfl rfl rfl rfl
    · have hj : j ≠ k := by
        rintro rfl
        rw [hprod] at hb
        cases hb
      exact (Function.update_of_ne hj _ _).trans hb
    · have hj : j ≠ k := by
        rintro rfl
        rw [hnone] at ha
        cases ha
      rw [runClosure]
      dsimp only
      rw [Function.update_of_ne hj]
      exact ha

/-! ## The client -/

theorem onClientMessage_response {m : RpcMessage} (htype : m.type = .RESPONSE) :
    w.onClientMessage m = { w with
      client := { w.client with
        outstandings := Function.update w.client.outstandings m.id.toInt64 none }
      inHand := (w.client.outstandings m.id.toInt64).map fun out => (out, m)
      log := .arrived m :: w.log } := by
  simp only [onClientMessage, onRpcMessage, htype]

/-- The entry is erased, and its call no longer waits. -/
theorem arrived_outstanding (h : Looked w) (m : RpcMessage) (id : Int64) (out : OutstandingCall) :
    Function.update w.client.outstandings m.id.toInt64 none id = some out ↔
      ∃ c, w.calls[out.call]? = some c ∧ c.id = id ∧ out = ⟨out.call, c.response, c.done⟩ ∧
        waiting out.call id (.arrived m :: w.log) = true := by
  by_cases hid : id = m.id.toInt64
  · subst hid
    rw [Function.update_self]
    refine iff_of_false nofun ?_
    rintro ⟨c, -, -, -, hwait⟩
    rw [waiting_arrived_self] at hwait
    cases hwait
  · rw [Function.update_of_ne hid, h.outstanding id out]
    simp only [waiting_arrived_of_ne hid]

/-- A response that arrives at the client: from the queue, again, or with an unknown id. -/
theorem onClientMessage_inv (h : Inv first w) {m : RpcMessage} (htype : m.type = .RESPONSE)
    (hknown : w.Sent m ∨ w.client.outstandings m.id.toInt64 = none) :
    Inv first (w.onClientMessage m) := by
  rw [onClientMessage_response htype]
  refine ⟨{ h.numbered with registered := ?_ }, { h.honest with }, { h.looked with
    outstanding := arrived_outstanding h.looked m
    inHand := ?_
    unregistered := ?_
    silent := ?_
    once := ?_
    own := ?_ }⟩
  · intro j hj
    exact h.numbered.registered j (by simpa using hj)
  · -- what was found had been waiting up to now
    intro out a hout
    obtain ⟨out', hfound, hpair⟩ := Option.map_eq_some_iff.mp hout
    cases hpair
    obtain ⟨c, hc, hid, -, hwait⟩ := (h.looked.outstanding _ _).mp hfound
    have hsent : w.Sent m := by
      rcases hknown with hsent | hnone
      · exact hsent
      · rw [hfound] at hnone
        cases hnone
    refine ⟨c, hc, hid.symm, hsent, ?_, ?_, ?_⟩
    · rw [hid]
      exact waiting_arrived_self ..
    · exact List.mem_cons_of_mem _ (registered_of_waiting hwait)
    · rw [countP_ranBy_arrived]
      exact h.looked.silent _ c hc (hid ▸ hwait)
  · intro j hj
    rw [countP_ranBy_arrived]
    exact h.looked.unregistered j fun hmem => hj (List.mem_cons_of_mem _ hmem)
  · intro j c hc hwait
    rw [countP_ranBy_arrived]
    refine h.looked.silent j c hc ?_
    by_cases hid : c.id = m.id.toInt64
    · rw [hid, waiting_arrived_self] at hwait
      cases hwait
    · rwa [waiting_arrived_of_ne hid] at hwait
  · intro j
    rw [countP_ranBy_arrived]
    exact h.looked.once j
  · intro j b hmem
    exact h.looked.own j b (by simpa using hmem)

/-- An answer with the id of a call was produced for it: it has the id of its request, and
    that is the call's. -/
theorem producedFor_of_sent (h : Inv first w) {a : RpcMessage} {b : Bytes} (ha : w.Sent a)
    (hc : w.calls[i]? = some c) (hid : a.id.toInt64 = c.id) (hb : a.response = some b) :
    ProducedFor w i b := by
  obtain ⟨k, hk, ha⟩ := ha
  obtain ⟨m, hm, -, hmid, hprod⟩ := h.honest.answers k a ha
  obtain ⟨d, hd, rfl⟩ := h.honest.requests m (List.mem_of_getElem? hm)
  obtain ⟨j, hj⟩ := List.getElem?_of_mem hd
  have hdc : d.id = c.id := by
    rw [← hid, hmid]
    rfl
  obtain rfl : j = i := h.numbered.eq_of_id hj hc hdc
  exact ⟨d, k, hj, hm, hprod b hb⟩

/-- The closure of the call in hand is run: the call is registered, no longer waiting, and
    nothing has been run for it before. -/
theorem ran_looked (h : Inv first w) {out : OutstandingCall} {a : RpcMessage}
    (hhand : w.inHand = some (out, a)) :
    Looked { w with inHand := none, log := .ran out.call a.response :: w.log } := by
  obtain ⟨c, hc, hid, hsent, hwait, hreg, hran⟩ := h.looked.inHand out a hhand
  refine { h.looked with
    inHand := ?_
    unregistered := ?_
    silent := ?_
    once := ?_
    own := ?_ }
  · intro out' a' hnone
    cases hnone
  · intro j hj
    have hj' : .registered j ∉ w.log := fun hmem => hj (List.mem_cons_of_mem _ hmem)
    have hne : out.call ≠ j := fun hcall => hj' (hcall ▸ hreg)
    rw [countP_ranBy_ran, if_neg hne]
    exact h.looked.unregistered j hj'
  · intro j d hd hwait'
    have hne : out.call ≠ j := by
      rintro rfl
      obtain rfl : c = d := Option.some.inj (hc.symm.trans hd)
      exact Bool.false_ne_true (hwait.symm.trans hwait')
    rw [countP_ranBy_ran, if_neg hne]
    exact h.looked.silent j d hd hwait'
  · intro j
    rw [countP_ranBy_ran]
    split
    next hj =>
      rw [← hj]
      omega
    next => exact h.looked.once j
  · intro j b hmem
    rcases List.mem_cons.mp hmem with heq | hmem
    · obtain ⟨rfl, hb⟩ := Event.ran.inj heq
      exact producedFor_of_sent h hsent hc hid hb.symm
    · exact h.looked.own j b hmem

/-- The response object parses what was produced for the call, and its closure is run. -/
theorem finish_inv (h : Inv first w) {out : OutstandingCall} {a : RpcMessage}
    (hhand : w.inHand = some (out, a)) : Inv first (w.finish out a) := by
  unfold finish
  split
  · refine ⟨{ h.numbered with registered := fun j hj => ?_ }, { h.honest with }, ran_looked h hhand⟩
    exact h.numbered.registered j (by simpa using hj)
  · -- a null pointer: nothing is run
    refine ⟨{ h.numbered with }, { h.honest with }, { h.looked with inHand := ?_ }⟩
    intro out' a' hnone
    cases hnone

/-! ## Every run -/

/-- The client takes a message of the server from its queue. -/
theorem deliverToClient_inv (h : Inv first w) {m : RpcMessage} {rest : List RpcMessage}
    (hqueue : w.toClient = m :: rest) :
    Inv first ({ w with toClient := rest }.onClientMessage m) := by
  have hsent : w.Sent m := h.honest.toClient m (by rw [hqueue]; exact List.mem_cons_self)
  obtain ⟨k, hk, hmem⟩ := hsent
  obtain ⟨-, -, htype, -⟩ := h.honest.answers k m hmem
  have hpopped : Inv first { w with toClient := rest } :=
    ⟨{ h.numbered with }, { h.honest with
      toClient := fun a ha =>
        h.honest.toClient a (by rw [hqueue]; exact List.mem_cons_of_mem _ ha) },
      { h.looked with }⟩
  exact onClientMessage_inv hpopped htype (.inl ⟨k, hk, hmem⟩)

theorem step_inv (s : World) (a : Action) (t : World) (h : Inv first s) (hstep : step s a = some t) :
    Inv first t := by
  cases a with
  | fetchId service method request response done =>
      rw [step] at hstep
      split at hstep
      next hfew =>
        cases hstep
        exact fetchId_inv h hfew service method request response done
      · cases hstep
  | register i =>
      rw [step] at hstep
      split at hstep
      next c hc =>
        split at hstep
        next hstage =>
          cases hstep
          exact register_inv h hc hstage
        · cases hstep
      · cases hstep
  | send i =>
      rw [step] at hstep
      split at hstep
      next c hc =>
        split at hstep
        · cases hstep
          exact send_inv h hc
        · cases hstep
      · cases hstep
  | deliverToServer =>
      rw [step] at hstep
      split at hstep
      next m rest hqueue =>
        cases hstep
        exact deliverToServer_inv h hqueue
      · cases hstep
  | runClosure k response =>
      rw [step] at hstep
      split at hstep
      next id hk =>
        cases hstep
        exact runClosure_inv h hk response
      · cases hstep
  | deliverToClient =>
      rw [step] at hstep
      split at hstep
      next m rest hhand hqueue =>
        cases hstep
        exact deliverToClient_inv h hqueue
      · cases hstep
  | arrive m =>
      rw [step] at hstep
      split at hstep
      next hguard =>
        cases hstep
        exact onClientMessage_inv h hguard.2.1 hguard.2.2
      · cases hstep
  | finish =>
      rw [step] at hstep
      split at hstep
      next out m hhand =>
        cases hstep
        exact finish_inv h hhand
      · cases hstep

theorem connect_inv (first serverId : Int64) (services : Bytes → Option Service) :
    Inv first (connect first serverId services) where
  numbered :=
    { few := by simp [connect]
      next := by simp [connect]
      ids := by simp [connect]
      idle := fun _ _ => rfl
      registered := by simp [connect] }
  honest :=
    { toServer := by simp [connect]
      requests := by simp [connect]
      closures := by simp [connect]
      unborn := fun _ _ => ⟨rfl, rfl⟩
      answers := by simp [connect]
      once := by simp [connect]
      toClient := by simp [connect] }
  looked :=
    { noServices := rfl
      outstanding := by simp [connect, waiting]
      inHand := by simp [connect]
      unregistered := fun _ _ => rfl
      silent := by simp [connect]
      once := by simp [connect]
      own := by simp [connect] }

/-- What ties calls and answers together. -/
structure Matched (w : World) : Prop where
  /-- The closure of a call is run at most once. -/
  done_once : ∀ i, w.log.countP (ranBy i) ≤ 1
  /-- When it is run after a normal response, the response object has parsed the bytes that
      the service produced for the request with this call's id, service, method and
      request. -/
  own_answer : ∀ i b, .ran i (some b) ∈ w.log → ∃ c k m, w.calls[i]? = some c ∧
    w.requests[k]? = some m ∧ m.id.toInt64 = c.id ∧ m.service = some c.service ∧
    m.method = some c.method ∧ m.request = some c.request ∧ w.produced k = some b
  /-- The server sends at most one message for a request, a response with its id. -/
  answered_once : ∀ k, (w.answers k).length ≤ 1 ∧ ∀ a ∈ w.answers k,
    a.type = .RESPONSE ∧ ∃ m, w.requests[k]? = some m ∧ a.id = m.id
  /-- `m_outstandings` holds the calls that are registered and not yet answered. -/
  outstanding : ∀ id out, w.client.outstandings id = some out ↔
    ∃ c, w.calls[out.call]? = some c ∧ c.id = id ∧ out = ⟨out.call, c.response, c.done⟩ ∧
      waiting out.call id w.log = true

/-- However the steps of the calls, the deliveries and the services are interleaved. -/
theorem rpc_matched (first serverId : Int64) (services : Bytes → Option Service)
    (acts : List Action) (w : World)
    (hrun : run step (connect first serverId services) acts = some w) : Matched w := by
  have h : Inv first w := run_invariant step_inv (connect_inv first serverId services) hrun
  refine ⟨h.looked.once, ?_, ?_, h.looked.outstanding⟩
  · intro i b hmem
    obtain ⟨c, k, hc, hm, hprod⟩ := h.looked.own i b hmem
    exact ⟨c, k, c.message, hc, hm, rfl, rfl, rfl, rfl, hprod⟩
  · intro k
    refine ⟨h.honest.once k, fun a ha => ?_⟩
    obtain ⟨m, hm, htype, hid, -⟩ := h.honest.answers k a ha
    exact ⟨htype, m, hm, hid⟩

end

/-- Every service has every method, and every request parses. -/
def anyService : Bytes → Option Service := fun _ => some ⟨fun _ => some ⟨fun _ => true⟩⟩

/-- Two calls whose ids are on both sides of the wrap-around; the answers come in the other
    order, and the first one comes twice. -/
def sampleActions : List Action :=
  [.fetchId [1] [1] [10] true true, .fetchId [1] [2] [20] true true, .register 1, .register 0,
   .send 0, .send 1, .deliverToServer, .deliverToServer, .runClosure 1 [200], .runClosure 0 [100],
   .deliverToClient, .finish, .arrive (doneCallback [200] (Int64.maxValue + 1)), .deliverToClient,
   .finish]

theorem rpc_matched_sampleActions :
    ∃ w, run step (connect Int64.maxValue 0 anyService) sampleActions = some w ∧
      w.log.head? = some (.ran 0 (some [100])) ∧ Matched w := by
  have hrun : (run step (connect Int64.maxValue 0 anyService) sampleActions).map
      (fun w => w.log.head?) = some (some (.ran 0 (some [100]))) := by decide +kernel
  obtain ⟨w, hw, hlog⟩ := Option.map_eq_some_iff.mp hrun
  exact ⟨w, hw, hlog, rpc_matched _ _ _ _ w hw⟩

end Youth.Rpc.RpcChannel
