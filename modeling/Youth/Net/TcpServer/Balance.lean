/-
  Youth.Net.TcpServer.Balance

  The connections are dealt to the loops in turn, and none is left over.

  `getNextLoop` counts by a test where a remainder would do; the pool is `At` the number of
  the connections accepted, and each of them is in the loop that `dealt` names.  When every
  connection has been closed and the queues are empty, each one has been destroyed.
-/

import Youth.Lib.Deal
import Youth.Net.TcpServer.Connections

namespace Youth.Net

open Youth.Lib

namespace EventLoopThreadPool

/-- The loops that `getNextLoop` chooses from. -/
def getAllLoops (pool : EventLoopThreadPool) : List LoopId :=
  if pool.loops.isEmpty then [baseLoop] else pool.loops

theorem getAllLoops_ne_nil (pool : EventLoopThreadPool) : pool.getAllLoops ≠ [] := by
  unfold getAllLoops
  split
  · exact List.cons_ne_nil _ _
  next h => exact fun hnil => h (by rw [hnil]; rfl)

theorem start_nodup (numThreads : Nat) : (start numThreads).getAllLoops.Nodup := by
  unfold getAllLoops start
  split
  · exact List.nodup_singleton _
  · exact List.nodup_range.map fun _ _ => Nat.succ.inj

/-- The loop to come is that of the `k`-th connection. -/
def At (pool : EventLoopThreadPool) (k : Nat) : Prop :=
  pool.loops ≠ [] → pool.next = k % pool.loops.length

theorem getNextLoop_dealt {pool : EventLoopThreadPool} {k : Nat} (h : pool.At k) :
    pool.getNextLoop.1 = dealt pool.getAllLoops pool.getAllLoops_ne_nil k ∧
      pool.getNextLoop.2.getAllLoops = pool.getAllLoops ∧ pool.getNextLoop.2.At (k + 1) := by
  by_cases hnil : pool.loops = []
  · have hall : pool.getAllLoops = [baseLoop] := by
      rw [getAllLoops, hnil]
      rfl
    refine ⟨?_, ?_, ?_⟩
    · rw [getNextLoop, dif_pos hnil]
      simp [dealt, hall]
    · rw [getNextLoop, dif_pos hnil]
    · rw [getNextLoop, dif_pos hnil]
      exact fun hne => absurd hnil hne
  · have hall : pool.getAllLoops = pool.loops := if_neg (by simpa using hnil)
    refine ⟨?_, ?_, ?_⟩
    · rw [getNextLoop, dif_neg hnil]
      simp [dealt, hall, h hnil]
    · rw [getNextLoop, dif_neg hnil]
      rfl
    · rw [getNextLoop, dif_neg hnil]
      exact fun _ => next_mod (h hnil) (List.length_pos_iff.mpr hnil)

end EventLoopThreadPool

namespace TcpServer

open Youth.Core (int32)

variable {w w' : World}

/-! ## One after the other -/

/-- The pool chooses from `loops`, and the connections so far have been dealt to them. -/
structure Dealt (loops : List LoopId) (hne : loops ≠ []) (w : World) : Prop where
  pool : w.threadPool.getAllLoops = loops
  next : w.threadPool.At w.accepted.length
  accepted : w.accepted.map (·.eventLoop) = (List.range w.accepted.length).map (dealt loops hne)

variable {loops : List LoopId} {hne : loops ≠ []}

/-- A step that leaves the pool alone and accepts nothing. -/
theorem Dealt.of_eq (h : Dealt loops hne w) (hpool : w'.threadPool = w.threadPool)
    (haccepted : w'.accepted = w.accepted) : Dealt loops hne w' := by
  refine ⟨?_, ?_, ?_⟩
  · rw [hpool]
    exact h.pool
  · rw [hpool, haccepted]
    exact h.next
  · rw [haccepted]
    exact h.accepted

theorem accepted_record {e : Event} (he : e.accepted? = none) :
    (w.record e).accepted = w.accepted := by
  simp [World.accepted, World.record, List.filterMap_append, he]

theorem runFunctor_dealt (h : Dealt loops hne w) (loop : LoopId) (f : Functor) :
    Dealt loops hne (runFunctor w loop f) := by
  cases f with
  | connectEstablished conn => exact h.of_eq rfl (accepted_record rfl)
  | removeConnectionInLoop conn =>
      exact h.of_eq rfl (accepted_record (w := { w with
        connectionMap := Function.update w.connectionMap conn.name none }) rfl)
  | connectDestroyed conn => exact h.of_eq rfl (accepted_record rfl)

theorem runInLoop_dealt (h : Dealt loops hne w) (current loop : LoopId) (f : Functor) :
    Dealt loops hne (runInLoop w current loop f) := by
  unfold runInLoop
  split
  · exact runFunctor_dealt h loop f
  · exact h.of_eq rfl rfl

theorem newConnection_dealt (h : Dealt loops hne w) : Dealt loops hne (newConnection w) := by
  obtain ⟨hloop, hall, hnext⟩ := EventLoopThreadPool.getNextLoop_dealt h.next
  let conn : Connection := ⟨w.accepted.length, connName w, w.threadPool.getNextLoop.1⟩
  let taken : World := { w with
    threadPool := w.threadPool.getNextLoop.2
    nextConnId := int32 (w.nextConnId + 1)
    connectionMap := Function.update w.connectionMap conn.name (some conn) }
  have hrun : newConnection w = runInLoop (taken.record (.accepted conn)) baseLoop conn.eventLoop
      (.connectEstablished conn) := rfl
  have haccepted : (taken.record (.accepted conn)).accepted = w.accepted ++ [conn] :=
    accepted_append rfl
  rw [hrun]
  refine runInLoop_dealt ⟨hall.trans h.pool, ?_, ?_⟩ _ _ _
  · rw [haccepted, List.length_append, List.length_singleton]
    exact hnext
  · rw [haccepted, List.length_append, List.length_singleton, List.range_succ, List.map_append,
      List.map_append, h.accepted, List.map_singleton, List.map_singleton]
    have hconn : conn.eventLoop = dealt loops hne w.accepted.length :=
      hloop.trans (by simp only [h.pool])
    rw [hconn]

theorem step_dealt {a : Action} (h : Dealt loops hne w) (hstep : step w a = some w') :
    Dealt loops hne w' := by
  cases a with
  | accept =>
      cases hstep
      exact newConnection_dealt h
  | close conn =>
      rw [step] at hstep
      split at hstep
      · cases hstep
        have hrecord : Dealt loops hne (w.record (.closed conn)) :=
          h.of_eq rfl (accepted_record rfl)
        exact runInLoop_dealt hrecord _ _ _
      · cases hstep
  | runFunctor loop =>
      rw [step] at hstep
      split at hstep
      next => cases hstep
      next f fs hqueue =>
        cases hstep
        have hpopped : Dealt loops hne
            { w with queues := Function.update w.queues loop fs } := h.of_eq rfl rfl
        exact runFunctor_dealt hpopped loop f

/-- The number of connections a loop has been given. -/
def World.load (w : World) (loop : LoopId) : Nat := (w.accepted.map (·.eventLoop)).count loop

/-- Whatever connections are closed meanwhile, the `i`-th one goes to the `i`-th loop in
    turn, so that two loops of the pool never differ by more than one in what they have been
    given; and no other loop is given any. -/
theorem load_balanced (name : List Char) (addr : HostAddress) (numThreads : Nat)
    (actions : List Action) (w : World)
    (h : run step (start name addr numThreads) actions = some w) :
    w.accepted.map (·.eventLoop) = (List.range w.accepted.length).map
        (dealt _ (EventLoopThreadPool.start numThreads).getAllLoops_ne_nil) ∧
      (∀ l ∈ (EventLoopThreadPool.start numThreads).getAllLoops,
        ∀ l' ∈ (EventLoopThreadPool.start numThreads).getAllLoops, w.load l ≤ w.load l' + 1) ∧
      ∀ l ∉ (EventLoopThreadPool.start numThreads).getAllLoops, w.load l = 0 := by
  have hdealt : Dealt _ (EventLoopThreadPool.start numThreads).getAllLoops_ne_nil w := by
    refine run_invariant (fun _ _ _ => step_dealt) ⟨rfl, fun hne => ?_, rfl⟩ h
    exact (Nat.zero_mod _).symm
  refine ⟨hdealt.accepted, ?_, ?_⟩
  · intro l hl l' hl'
    unfold World.load
    rw [hdealt.accepted]
    exact count_dealt_le (EventLoopThreadPool.start_nodup numThreads) hl hl' _ _
  · intro l hl
    unfold World.load
    rw [hdealt.accepted, List.count_eq_zero]
    intro hmem
    obtain ⟨i, -, rfl⟩ := List.mem_map.mp hmem
    exact hl (dealt_mem _ _ i)

theorem load_balanced_twoAccepted :
    ∃ w, run step (start ['s'] (.inet 1 0 0 2 80) 1) twoAccepted = some w ∧ w.load 1 = 2 ∧
      w.load 0 = 0 := by
  obtain ⟨w, hrun, hload⟩ : ∃ w, run step (start ['s'] (.inet 1 0 0 2 80) 1) twoAccepted = some w ∧
      w.load 1 = 2 := ⟨_, rfl, by decide⟩
  exact ⟨w, hrun, hload, (load_balanced _ _ _ _ w hrun).2.2 0 (by decide)⟩

/-! ## Nothing is left over -/

variable {addr : HostAddress} {conn : Connection}

/-- With empty queues, what was posted has been completed. -/
theorem completed_of_posted (h : Good addr w none) (hquiet : ∀ loop, w.queues loop = [])
    {e : Event} (he : e ∈ w.log) {f : Functor} (hposts : e.posts = some f) :
    ∃ e' ∈ w.log, e'.completes = some f := by
  by_contra hopen
  push Not at hopen
  have hmem := (h.queue f.home f).mpr ⟨rfl, ⟨⟨e, he, hposts⟩, hopen⟩, nofun⟩
  rw [hquiet] at hmem
  cases hmem

theorem removed_of_closed (h : Good addr w none) (hquiet : ∀ loop, w.queues loop = [])
    (hclosed : .closed conn ∈ w.log) : .removed conn 1 ∈ w.log := by
  obtain ⟨e, he, hcompletes⟩ := completed_of_posted h hquiet hclosed rfl
  cases e with
  | removed c n =>
      cases hcompletes
      obtain rfl : n = 1 := fits_of_mem h.history he
      exact he
  | accepted | established | closed | destroyed => cases hcompletes

theorem destroyed_of_removed (h : Good addr w none) (hquiet : ∀ loop, w.queues loop = []) {n : Nat}
    (hremoved : .removed conn n ∈ w.log) : .destroyed conn conn.eventLoop ∈ w.log := by
  obtain ⟨e, he, hcompletes⟩ := completed_of_posted h hquiet hremoved rfl
  cases e with
  | destroyed c loop =>
      cases hcompletes
      obtain rfl : loop = _ := fits_of_mem h.history he
      exact he
  | accepted | established | closed | removed => cases hcompletes

/-- When every connection has been closed and the loops have nothing to do, the map is
    empty and each connection has been destroyed, exactly once. -/
theorem destroyed_of_quiet (name : List Char) (addr : HostAddress) (numThreads : Nat)
    (actions : List Action) (w : World)
    (h : run step (start name addr numThreads) actions = some w)
    (hfew : w.accepted.length < 0x80000000) (hclosed : ∀ conn ∈ w.accepted, .closed conn ∈ w.log)
    (hquiet : ∀ loop, w.queues loop = []) :
    (∀ nm, w.connectionMap nm = none) ∧
      ∀ conn ∈ w.accepted, w.log.count (.destroyed conn conn.eventLoop) = 1 := by
  have hgood := good_of_run h hfew
  refine ⟨fun nm => ?_, fun conn hconn => ?_⟩
  · rcases hentry : w.connectionMap nm with _ | conn
    · rfl
    · obtain ⟨-, hmem, hkept⟩ := (hgood.map nm conn).mp hentry
      have hremoved := removed_of_closed hgood hquiet (hclosed conn (mem_accepted.mpr hmem))
      exact absurd hremoved (hkept 1)
  · refine count_eq_one (destroyed_of_removed hgood hquiet
      (removed_of_closed hgood hquiet (hclosed conn hconn))) fun xs ys hlog => ?_
    exact (destroyed_history (hlog ▸ hgood.history)).2.2.2 conn.eventLoop

/-- The second connection of the server of `twoAccepted`. -/
def secondConnection : Connection :=
  ⟨1, ['s', '-', '1', '.', '0', '.', '0', '.', '2', ':', '8', '0', '#', '2'], 1⟩

theorem destroyed_of_quiet_twoAccepted :
    ∃ w, run step (start ['s'] (.inet 1 0 0 2 80) 1)
        (twoAccepted ++ [.close secondConnection, .runFunctor 0, .runFunctor 1]) = some w ∧
      w.log.count (.destroyed secondConnection 1) = 1 := by
  obtain ⟨w, hrun, haccepted, hclosed, hqueues⟩ :
      ∃ w, run step (start ['s'] (.inet 1 0 0 2 80) 1)
          (twoAccepted ++ [.close secondConnection, .runFunctor 0, .runFunctor 1]) = some w ∧
        w.accepted = [firstConnection, secondConnection] ∧
        (∀ conn ∈ [firstConnection, secondConnection], .closed conn ∈ w.log) ∧
        ∀ loop, w.queues loop = [] := by
    refine ⟨_, rfl, by decide, by decide, fun loop => ?_⟩
    rcases loop with _ | _ | loop <;> rfl
  obtain ⟨-, honce⟩ := destroyed_of_quiet _ _ _ _ w hrun (by rw [haccepted]; decide)
    (haccepted ▸ hclosed) hqueues
  exact ⟨w, hrun, honce secondConnection (by rw [haccepted]; decide)⟩

end TcpServer
end Youth.Net
