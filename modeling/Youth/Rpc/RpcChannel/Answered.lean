/-
  Youth.Rpc.RpcChannel.Answered

  No call is lost.

  Between `CallMethod` and its closure a call is at one place at a time: a request in the
  queue, a closure that a service holds, a response in the queue, the call in the client's
  hand.  Each step moves it to the next one (`Accounted`), so a call that is in none of
  them has had its closure run (`ran_of_quiet`).  This is about connections that deliver
  what is sent, each message once: `.arrive` is not among the steps.
-/

import Youth.Rpc.RpcChannel.Matching

namespace Youth.Rpc.RpcChannel

open Youth.Lib World

/-- The steps of a connection that delivers each message once. -/
def Delivers : Action → Prop
  | .arrive _ => False
  | _ => True

/-- Where a call can be. -/
structure Accounted (w : World) : Prop where
  registered : ∀ i, w.stage i = .registered ∨ w.stage i = .sent → .registered i ∈ w.log
  asked : ∀ (i : Nat) (c : Call), w.calls[i]? = some c → w.stage i = .sent →
    c.message ∈ w.toServer ∨ c.message ∈ w.requests
  asks : ∀ m, m ∈ w.toServer ∨ m ∈ w.requests → ∃ (i : Nat) (c : Call), w.calls[i]? = some c ∧
    w.stage i = .sent ∧ m = c.message
  held : ∀ k < w.requests.length, w.closures k ≠ none ∨ w.answers k ≠ []
  delivered : ∀ k, ∀ a ∈ w.answers k, a.response = w.produced k ∧
    (a ∈ w.toClient ∨ .arrived a ∈ w.log)
  arrived : ∀ a, .arrived a ∈ w.log → w.Sent a
  answered : ∀ (i : Nat) (c : Call), w.calls[i]? = some c → ∀ a, .arrived a ∈ w.log →
    a.id.toInt64 = c.id → waiting i c.id w.log = false
  ended : ∀ (i : Nat) (c : Call), w.calls[i]? = some c → .registered i ∈ w.log →
    waiting i c.id w.log = false → c.response = true → c.done = true →
    (∃ m, w.inHand = some (⟨i, c.response, c.done⟩, m)) ∨
      ∃ a, w.Sent a ∧ a.id.toInt64 = c.id ∧ .ran i a.response ∈ w.log

variable {first : Int64} {w : World} {i : Nat} {c : Call}

/-- A response is sent for a call that is sent. -/
theorem Accounted.stage_of_sent (h : Accounted w) (hi : Inv first w) {a : RpcMessage}
    (ha : w.Sent a) (hc : w.calls[i]? = some c) (hid : a.id.toInt64 = c.id) :
    w.stage i = .sent ∧ ∃ k : Nat, w.requests[k]? = some c.message ∧ a ∈ w.answers k := by
  obtain ⟨k, -, hmem⟩ := ha
  obtain ⟨m, hm, -, hmid, -⟩ := hi.honest.answers k a hmem
  obtain ⟨j, d, hd, hstage, rfl⟩ := h.asks m (.inr (List.mem_of_getElem? hm))
  have hdc : d.id = c.id := by
    rw [← hid, hmid]
    rfl
  obtain rfl : j = i := hi.numbered.eq_of_id hd hc hdc
  obtain rfl : d = c := Option.some.inj (hd.symm.trans hc)
  exact ⟨hstage, k, hm, hmem⟩

/-! ## `CallMethod` -/

theorem fetchId_accounted (h : Accounted w) (hi : Inv first w) (service method request : Bytes)
    (response done : Bool) : Accounted (w.fetchId service method request response done) := by
  have hidle : w.stage w.calls.length = .idle := hi.numbered.idle _ (Nat.le_refl _)
  have hstage : ∀ j, j ≠ w.calls.length →
      (w.fetchId service method request response done).stage j = w.stage j := fun j hj =>
    Function.update_of_ne hj _ _
  have hnew : (w.fetchId service method request response done).stage w.calls.length = .allocated :=
    Function.update_self _ _ _
  have hsilent : .registered w.calls.length ∉ w.log := hi.numbered.not_registered (.inl hidle)
  refine { h with registered := ?_, asked := ?_, asks := ?_, answered := ?_, ended := ?_ }
  · intro j hj
    by_cases hjn : j = w.calls.length
    · rw [hjn, hnew] at hj
      simp at hj
    · rw [hstage j hjn] at hj
      exact h.registered j hj
  · intro j d hd hj
    rcases getElem?_concat_cases hd with hd | ⟨rfl, -⟩
    · have hjn : j ≠ w.calls.length := Nat.ne_of_lt (List.getElem?_eq_some_iff.mp hd).1
      rw [hstage j hjn] at hj
      exact h.asked j d hd hj
    · rw [hnew] at hj
      cases hj
  · intro m hm
    obtain ⟨j, d, hd, hj, heq⟩ := h.asks m hm
    have hjn : j ≠ w.calls.length := Nat.ne_of_lt (List.getElem?_eq_some_iff.mp hd).1
    exact ⟨j, d, getElem?_concat_of_some hd, (hstage j hjn).trans hj, heq⟩
  · intro j d hd a ha hid
    rcases getElem?_concat_cases hd with hd | ⟨rfl, -⟩
    · exact h.answered j d hd a ha hid
    · -- the new call is not registered, so it does not wait
      exact Bool.eq_false_iff.mpr fun hwait => hsilent (registered_of_waiting hwait)
  · intro j d hd hreg
    rcases getElem?_concat_cases hd with hd | ⟨rfl, -⟩
    · exact h.ended j d hd hreg
    · exact absurd hreg hsilent

theorem register_accounted (h : Accounted w) (hi : Inv first w) (hc : w.calls[i]? = some c)
    (hstage : w.stage i = .allocated) : Accounted (w.register i c) := by
  have hother : ∀ j, j ≠ i → (w.register i c).stage j = w.stage j := fun j hj =>
    Function.update_of_ne hj _ _
  have hself : (w.register i c).stage i = .registered := Function.update_self _ _ _
  have hgrow : ∀ {e : Event}, e ∈ w.log → e ∈ (w.register i c).log := List.mem_cons_of_mem _
  refine ⟨?_, ?_, ?_, h.held, ?_, ?_, ?_, ?_⟩
  · intro j hj
    by_cases hji : j = i
    · rw [hji]
      exact List.mem_cons_self
    · rw [hother j hji] at hj
      exact hgrow (h.registered j hj)
  · intro j d hd hj
    have hji : j ≠ i := by
      rintro rfl
      rw [hself] at hj
      cases hj
    rw [hother j hji] at hj
    exact h.asked j d hd hj
  · intro m hm
    obtain ⟨j, d, hd, hj, heq⟩ := h.asks m hm
    have hji : j ≠ i := by
      rintro rfl
      rw [hstage] at hj
      cases hj
    exact ⟨j, d, hd, (hother j hji).trans hj, heq⟩
  · intro k a ha
    exact ⟨(h.delivered k a ha).1, (h.delivered k a ha).2.imp_right hgrow⟩
  · intro a ha
    exact h.arrived a (by simpa [register] using ha)
  · intro j d hd a ha hid
    have ha' : .arrived a ∈ w.log := by simpa [register] using ha
    have hji : j ≠ i := by
      rintro rfl
      obtain ⟨hsent, -⟩ := h.stage_of_sent hi (h.arrived a ha') hd hid
      rw [hstage] at hsent
      cases hsent
    rw [register, waiting_registered_of_ne hji]
    exact h.answered j d hd a ha' hid
  · intro j d hd hreg hwait hresponse hdone
    by_cases hji : j = i
    · subst hji
      rw [register, waiting_registered_self] at hwait
      cases hwait
    · rw [register, waiting_registered_of_ne hji] at hwait
      have hreg' : .registered j ∈ w.log := by
        rcases List.mem_cons.mp hreg with heq | hmem
        · exact absurd (Event.registered.inj heq) hji
        · exact hmem
      exact (h.ended j d hd hreg' hwait hresponse hdone).imp_right
        (Exists.imp fun _ h => ⟨h.1, h.2.1, hgrow h.2.2⟩)

theorem send_accounted (h : Accounted w) (hc : w.calls[i]? = some c)
    (hstage : w.stage i = .registered) : Accounted (w.send i c) := by
  have hother : ∀ j, j ≠ i → (w.send i c).stage j = w.stage j := fun j hj =>
    Function.update_of_ne hj _ _
  have hself : (w.send i c).stage i = .sent := Function.update_self _ _ _
  refine { h with registered := ?_, asked := ?_, asks := ?_ }
  · intro j hj
    by_cases hji : j = i
    · rw [hji]
      exact h.registered i (.inl hstage)
    · rw [hother j hji] at hj
      exact h.registered j hj
  · intro j d hd hj
    by_cases hji : j = i
    · subst hji
      obtain rfl : c = d := Option.some.inj (hc.symm.trans hd)
      exact .inl (List.mem_append_right _ List.mem_cons_self)
    · rw [hother j hji] at hj
      exact (h.asked j d hd hj).imp_left (List.mem_append_left _)
  · intro m hm
    have hm' : (m ∈ w.toServer ∨ m ∈ w.requests) ∨ m = c.message := by
      rcases hm with hm | hm
      · rcases List.mem_append.mp hm with hm | hm
        · exact .inl (.inl hm)
        · exact .inr (List.mem_singleton.mp hm)
      · exact .inl (.inr hm)
    rcases hm' with hm | rfl
    · obtain ⟨j, d, hd, hj, heq⟩ := h.asks m hm
      have hji : j ≠ i := by
        rintro rfl
        rw [hstage] at hj
        cases hj
      exact ⟨j, d, hd, (hother j hji).trans hj, heq⟩
    · exact ⟨i, c, hc, hself, rfl⟩

/-! ## The server -/

/-- The server has taken a request: it holds a closure for it, or it has answered. -/
theorem deliverToServer_accounted (h : Accounted w) (hi : Inv first w) {m : RpcMessage}
    {rest : List RpcMessage} (hqueue : w.toServer = m :: rest) :
    Accounted ({ w with toServer := rest }.onServerMessage m) := by
  obtain ⟨c, -, rfl⟩ := hi.honest.toServer m (by rw [hqueue]; exact List.mem_cons_self)
  obtain ⟨hnone, hprod⟩ := hi.honest.unborn w.requests.length (Nat.le_refl _)
  -- a message that was there before is still there
  have hmoved : ∀ m, m ∈ w.toServer ∨ m ∈ w.requests ↔
      m ∈ rest ∨ m ∈ w.requests ++ [c.message] := by
    intro m
    rw [hqueue, List.mem_cons, List.mem_append, List.mem_singleton, or_assoc, or_comm, or_assoc]
  have hlt : ∀ {k : Nat}, k < (w.requests ++ [c.message]).length → k ≠ w.requests.length →
      k < w.requests.length := by
    intro k hk hne
    rw [List.length_append, List.length_singleton] at hk
    omega
  rcases onServerMessage_cases { w with toServer := rest } c with
    hcall | ⟨error, hreply, -, -, hresponse⟩
  · rw [hcall]
    have hsent : ∀ {a : RpcMessage}, w.Sent a → ∃ k < (w.requests ++ [c.message]).length,
        a ∈ w.answers k := fun ⟨k, hk, hmem⟩ =>
      ⟨k, by rw [List.length_append]; omega, hmem⟩
    refine { h with asked := ?_, asks := ?_, held := ?_, arrived := ?_, ended := ?_ }
    · exact fun j d hd hj => (hmoved _).mp (h.asked j d hd hj)
    · exact fun m hm => h.asks m ((hmoved m).mpr hm)
    · intro k hk
      dsimp only at hk ⊢
      by_cases hlast : k = w.requests.length
      · rw [hlast, Function.update_self]
        exact .inl (Option.some_ne_none _)
      · rw [Function.update_of_ne hlast]
        exact h.held k (hlt hk hlast)
    · exact fun a ha => hsent (h.arrived a ha)
    · exact fun j d hd hreg hwait hresponse hdone =>
        (h.ended j d hd hreg hwait hresponse hdone).imp_right
          (Exists.imp fun _ h => ⟨hsent h.1, h.2⟩)
  · rw [hreply]
    have hself : Function.update w.answers w.requests.length
        (w.answers w.requests.length ++ [error]) w.requests.length = [error] := by
      rw [Function.update_self, hnone]
      rfl
    have hsent : ∀ {a : RpcMessage}, w.Sent a → ∃ k < (w.requests ++ [c.message]).length,
        a ∈ Function.update w.answers w.requests.length
          (w.answers w.requests.length ++ [error]) k := by
      rintro a ⟨k, hk, hmem⟩
      refine ⟨k, by rw [List.length_append]; omega, ?_⟩
      rw [Function.update_of_ne (Nat.ne_of_lt hk)]
      exact hmem
    refine { h with asked := ?_, asks := ?_, held := ?_, delivered := ?_, arrived := ?_, ended := ?_ }
    · exact fun j d hd hj => (hmoved _).mp (h.asked j d hd hj)
    · exact fun m hm => h.asks m ((hmoved m).mpr hm)
    · intro k hk
      dsimp only at hk ⊢
      by_cases hlast : k = w.requests.length
      · rw [hlast, hself]
        exact .inr (List.cons_ne_nil _ _)
      · rw [Function.update_of_ne hlast]
        exact h.held k (hlt hk hlast)
    · intro k a ha
      dsimp only at ha ⊢
      by_cases hlast : k = w.requests.length
      · rw [hlast, hself, List.mem_singleton] at ha
        rw [hlast, hprod, ha]
        exact ⟨hresponse, .inl (List.mem_append_right _ List.mem_cons_self)⟩
      · rw [Function.update_of_ne hlast] at ha
        exact ⟨(h.delivered k a ha).1, (h.delivered k a ha).2.imp_left (List.mem_append_left _)⟩
    · exact fun a ha => hsent (h.arrived a ha)
    · exact fun j d hd hreg hwait hresponse hdone =>
        (h.ended j d hd hreg hwait hresponse hdone).imp_right
          (Exists.imp fun _ h => ⟨hsent h.1, h.2⟩)

theorem runClosure_accounted (h : Accounted w) (hi : Inv first w) {k : Nat} {id : Int64}
    (hk : w.closures k = some id) (response : Bytes) : Accounted (w.runClosure k id response) := by
  obtain ⟨hnone, -, -⟩ := hi.honest.closures k id hk
  have hself : (w.runClosure k id response).answers k = [doneCallback response id] := by
    rw [runClosure]
    dsimp only
    rw [Function.update_self, hnone]
    rfl
  have hother : ∀ j, j ≠ k → (w.runClosure k id response).answers j = w.answers j := fun j hj =>
    Function.update_of_ne hj _ _
  have hsent : ∀ {a : RpcMessage}, w.Sent a → (w.runClosure k id response).Sent a := by
    rintro a ⟨j, hj, hmem⟩
    refine ⟨j, hj, ?_⟩
    have hjk : j ≠ k := by
      rintro rfl
      rw [hnone] at hmem
      cases hmem
    rw [hother j hjk]
    exact hmem
  refine { h with held := ?_, delivered := ?_, arrived := ?_, ended := ?_ }
  · intro j hj
    by_cases hjk : j = k
    · rw [hjk, hself]
      exact .inr (List.cons_ne_nil _ _)
    · rw [hother j hjk]
      exact (h.held j hj).imp_left fun hheld => by
        rw [runClosure]
        dsimp only
        rwa [Function.update_of_ne hjk]
  · intro j a ha
    by_cases hjk : j = k
    · subst hjk
      rw [hself, List.mem_singleton] at ha
      subst ha
      refine ⟨?_, .inl (List.mem_append_right _ List.mem_cons_self)⟩
      rw [runClosure]
      dsimp only
      rw [Function.update_self]
      rfl
    · rw [hother j hjk] at ha
      have hprod : (w.runClosure k id response).produced j = w.produced j :=
        Function.update_of_ne hjk _ _
      rw [hprod]
      exact ⟨(h.delivered j a ha).1, (h.delivered j a ha).2.imp_left (List.mem_append_left _)⟩
  · exact fun a ha => hsent (h.arrived a ha)
  · exact fun j d hd hreg hwait hresponse hdone =>
      (h.ended j d hd hreg hwait hresponse hdone).imp_right
        (Exists.imp fun _ h => ⟨hsent h.1, h.2⟩)

/-! ## The client -/

/-- A response has come: the call that waited for it is in the client's hand. -/
theorem deliverToClient_accounted (h : Accounted w) (hi : Inv first w) {m : RpcMessage}
    {rest : List RpcMessage} (hfree : w.inHand = none) (hqueue : w.toClient = m :: rest) :
    Accounted ({ w with toClient := rest }.onClientMessage m) := by
  have hsent : w.Sent m := hi.honest.toClient m (by rw [hqueue]; exact List.mem_cons_self)
  have htype : m.type = .RESPONSE := by
    obtain ⟨k, -, hmem⟩ := hsent
    obtain ⟨-, -, htype, -⟩ := hi.honest.answers k m hmem
    exact htype
  rw [onClientMessage_response htype]
  refine { h with
    registered := ?_, delivered := ?_, arrived := ?_, answered := ?_, ended := ?_ }
  · exact fun j hj => List.mem_cons_of_mem _ (h.registered j hj)
  · intro k a ha
    refine ⟨(h.delivered k a ha).1, ?_⟩
    rcases (h.delivered k a ha).2 with hmem | hmem
    · rw [hqueue, List.mem_cons] at hmem
      rcases hmem with rfl | hmem
      · exact .inr List.mem_cons_self
      · exact .inl hmem
    · exact .inr (List.mem_cons_of_mem _ hmem)
  · intro a ha
    rcases List.mem_cons.mp ha with heq | hmem
    · rw [Event.arrived.inj heq]
      exact hsent
    · exact h.arrived a hmem
  · intro j d hd a ha hid
    by_cases hdm : d.id = m.id.toInt64
    · rw [hdm]
      exact waiting_arrived_self ..
    · rcases List.mem_cons.mp ha with heq | hmem
      · rw [Event.arrived.inj heq] at hid
        exact absurd hid.symm hdm
      · exact (waiting_arrived_of_ne hdm j w.log).trans (h.answered j d hd a hmem hid)
  · intro j d hd hreg hwait hresponse hdone
    have hreg' : .registered j ∈ w.log := by simpa using hreg
    -- nothing was in the client's hand, so a call that did not wait has been run
    have hran : waiting j d.id w.log = false →
        ∃ a, w.Sent a ∧ a.id.toInt64 = d.id ∧ .ran j a.response ∈ w.log := by
      intro hpast
      rcases h.ended j d hd hreg' hpast hresponse hdone with ⟨m', hhand⟩ | hran
      · rw [hfree] at hhand
        cases hhand
      · exact hran
    have hgrown : waiting j d.id w.log = false → ∃ a, w.Sent a ∧ a.id.toInt64 = d.id ∧
        .ran j a.response ∈ .arrived m :: w.log := fun hpast =>
      have ⟨a, ha, hid, hmem⟩ := hran hpast
      ⟨a, ha, hid, List.mem_cons_of_mem _ hmem⟩
    by_cases hdm : d.id = m.id.toInt64
    · rcases hpast : waiting j d.id w.log with _ | _
      · exact .inr (hgrown hpast)
      · left
        have hlookup := (hi.looked.outstanding d.id ⟨j, d.response, d.done⟩).mpr
          ⟨d, hd, rfl, rfl, hpast⟩
        refine ⟨m, ?_⟩
        dsimp only
        rw [← hdm, hlookup, Option.map_some]
    · exact .inr (hgrown ((waiting_arrived_of_ne hdm j w.log).symm.trans hwait))

theorem finish_accounted (h : Accounted w) (hi : Inv first w) {out : OutstandingCall}
    {m : RpcMessage} (hhand : w.inHand = some (out, m)) : Accounted (w.finish out m) := by
  obtain ⟨c, hc, hid, hsent, -⟩ := hi.looked.inHand out m hhand
  unfold finish
  split
  next hboth =>
    refine { h with
      registered := ?_, delivered := ?_, arrived := ?_, answered := ?_, ended := ?_ }
    · exact fun j hj => List.mem_cons_of_mem _ (h.registered j hj)
    · exact fun k a ha =>
        ⟨(h.delivered k a ha).1, (h.delivered k a ha).2.imp_right (List.mem_cons_of_mem _)⟩
    · exact fun a ha => h.arrived a (by simpa using ha)
    · exact fun j d hd a ha hid => h.answered j d hd a (by simpa using ha) hid
    · intro j d hd hreg hwait hresponse hdone
      right
      rcases h.ended j d hd (by simpa using hreg) hwait hresponse hdone with
        ⟨m', hhand'⟩ | ⟨a, ha, haid, hran⟩
      · -- this is the call whose closure is run now
        rw [hhand] at hhand'
        cases hhand'
        obtain rfl : c = d := Option.some.inj (hc.symm.trans hd)
        exact ⟨m, hsent, hid, List.mem_cons_self⟩
      · exact ⟨a, ha, haid, List.mem_cons_of_mem _ hran⟩
  next hboth =>
    refine { h with ended := ?_ }
    intro j d hd hreg hwait hresponse hdone
    rcases h.ended j d hd hreg hwait hresponse hdone with ⟨m', hhand'⟩ | hran
    · rw [hhand] at hhand'
      cases hhand'
      exact absurd ⟨hresponse, hdone⟩ hboth
    · exact .inr hran

/-! ## Every run -/

theorem step_accounted {a : Action} {w' : World} (ha : Delivers a) (hi : Inv first w)
    (h : Accounted w) (hstep : step w a = some w') : Accounted w' := by
  cases a with
  | fetchId service method request response done =>
      rw [step] at hstep
      split at hstep
      · cases hstep
        exact fetchId_accounted h hi service method request response done
      · cases hstep
  | register i =>
      rw [step] at hstep
      split at hstep
      next c hc =>
        split at hstep
        next hstage =>
          cases hstep
          exact register_accounted h hi hc hstage
        · cases hstep
      · cases hstep
  | send i =>
      rw [step] at hstep
      split at hstep
      next c hc =>
        split at hstep
        next hstage =>
          cases hstep
          exact send_accounted h hc hstage
        · cases hstep
      · cases hstep
  | deliverToServer =>
      rw [step] at hstep
      split at hstep
      next m rest hqueue =>
        cases hstep
        exact deliverToServer_accounted h hi hqueue
      · cases hstep
  | runClosure k response =>
      rw [step] at hstep
      split at hstep
      next id hk =>
        cases hstep
        exact runClosure_accounted h hi hk response
      · cases hstep
  | deliverToClient =>
      rw [step] at hstep
      split at hstep
      next m rest hfree hqueue =>
        cases hstep
        exact deliverToClient_accounted h hi hfree hqueue
      · cases hstep
  | arrive m => cases ha
  | finish =>
      rw [step] at hstep
      split at hstep
      next out m hhand =>
        cases hstep
        exact finish_accounted h hi hhand
      · cases hstep

theorem connect_accounted (first serverId : Int64) (services : Bytes → Option Service) :
    Accounted (connect first serverId services) where
  registered := by simp [connect]
  asked := by simp [connect]
  asks := by simp [connect]
  held := by simp [connect]
  delivered := by simp [connect]
  arrived := by simp [connect]
  answered := by simp [connect]
  ended := by simp [connect]

/-- What every run keeps. -/
theorem run_accounted {acts : List Action} {w' : World} (hacts : ∀ a ∈ acts, Delivers a)
    (h : Inv first w ∧ Accounted w) (hrun : run step w acts = some w') :
    Inv first w' ∧ Accounted w' :=
  run_invariant_of (I := fun w => Inv first w ∧ Accounted w)
    (fun w a w' ha h hstep => ⟨step_inv w a w' h.1 hstep, step_accounted ha h.1 h.2 hstep⟩)
    hacts h hrun

/-- Nothing is under way. -/
structure Quiet (w : World) : Prop where
  toServer : w.toServer = []
  toClient : w.toClient = []
  inHand : w.inHand = none

/-- A call that is sent, and whose request no service is still at work on, has had its
    closure run, once, for what was produced for its request. -/
theorem ran_of_quiet (hi : Inv first w) (h : Accounted w) (hquiet : Quiet w)
    (hc : w.calls[i]? = some c) (hstage : w.stage i = .sent) (hresponse : c.response = true)
    (hdone : c.done = true)
    (hworked : ∀ k : Nat, w.requests[k]? = some c.message → w.closures k = none) :
    w.log.countP (ranBy i) = 1 ∧
      ∃ k : Nat, w.requests[k]? = some c.message ∧ .ran i (w.produced k) ∈ w.log := by
  -- the request has come, and is answered
  have hrequest : c.message ∈ w.requests := by
    rcases h.asked i c hc hstage with hmem | hmem
    · rw [hquiet.toServer] at hmem
      cases hmem
    · exact hmem
  obtain ⟨k, hk, hget⟩ := List.getElem_of_mem hrequest
  have hreq : w.requests[k]? = some c.message := by rw [List.getElem?_eq_getElem hk, hget]
  have hanswers : w.answers k ≠ [] :=
    (h.held k hk).resolve_left fun hne => hne (hworked k hreq)
  obtain ⟨a, ha⟩ := List.exists_mem_of_ne_nil _ hanswers
  obtain ⟨m, hm, -, haid, -⟩ := hi.honest.answers k a ha
  obtain rfl : c.message = m := Option.some.inj (hreq.symm.trans hm)
  have hid : a.id.toInt64 = c.id := by
    rw [haid]
    rfl
  -- the answer has come, so the call does not wait
  have harrived : .arrived a ∈ w.log := by
    rcases (h.delivered k a ha).2 with hmem | hmem
    · rw [hquiet.toClient] at hmem
      cases hmem
    · exact hmem
  have hwait := h.answered i c hc a harrived hid
  rcases h.ended i c hc (h.registered i (.inr hstage)) hwait hresponse hdone with
    ⟨m, hhand⟩ | ⟨b, hb, hbid, hran⟩
  · rw [hquiet.inHand] at hhand
    cases hhand
  · obtain ⟨-, j, hj, hbj⟩ := h.stage_of_sent hi hb hc hbid
    refine ⟨Nat.le_antisymm (hi.looked.once i) (List.countP_pos_iff.mpr ⟨_, hran, ?_⟩), j, hj, ?_⟩
    · simp [ranBy]
    · rw [← (h.delivered j b hbj).1]
      exact hran

end Youth.Rpc.RpcChannel
