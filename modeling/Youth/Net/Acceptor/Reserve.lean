/-
  Youth.Net.Acceptor.Reserve

  What the descriptor in reserve is good for.

  Between `close(m_idleFd)` and the next `open` the descriptor is anyone's.  If no other
  thread opens one then (`Careful`), the acceptor has its reserve again at the end, and each
  call of `handleRead` that finds a connection takes one: it does not spin, however full the
  process is.  Each phase says what is needed to go on (`Ready`) and how many connections
  are still due (`due`).
-/

import Youth.Net.Acceptor.Account

namespace Youth.Net
namespace Acceptor

open Youth.Lib

/-- The reserve is given up. -/
def World.away (w : World) : Bool :=
  match w.phase with
  | .freed | .drained _ | .closed => true
  | _ => false

/-- The log leaves `errno`, `accept` is not interrupted, no other thread takes the reserve,
    and none closes the standard input. -/
def Careful (w : World) : Action → Prop
  | .accept r logged => r ≠ .interrupted ∧ logged = none
  | .acceptIdle r => r ≠ .interrupted
  | .openOther => w.away = false
  | .closeOther fd => fd ≠ 0
  | _ => True

instance (w : World) (a : Action) : Decidable (Careful w a) := by
  cases a <;> unfold Careful <;> infer_instance

/-- The reserve is there, or a free descriptor for it. -/
def World.Ready (w : World) : Prop :=
  match w.phase with
  | .idle | .accepted .. | .full => 0 ≤ w.idleFd
  | .freed | .closed => w.table.lowest ≠ none
  | .drained _ => 0 ≤ w.idleFd ∨ w.table.lowest ≠ none
  | .destroyed => True

/-- The connections that the current call of `handleRead` has still to dispose of. -/
def World.due (w : World) : Nat :=
  match w.phase with
  | .accepted .. => 1
  | .full | .freed => if w.backlog = [] then 0 else 1
  | .drained conn => conn.toList.length
  | _ => 0

structure Served (w : World) : Prop where
  kept : Kept w
  progress : w.Ready ∧ w.events ≤ w.gone.length + w.due

variable {w w' : World} {fds conns : List Nat}

/-- The reserve is closed, or was away and a descriptor is free. -/
theorem Account.lowest_close {fd : Int} (h : Account w (own fd ++ fds) conns)
    (hfree : 0 ≤ fd ∨ w.table.lowest ≠ none) : (Acceptor.close w fd).table.lowest ≠ none := by
  by_cases hpos : 0 < fd
  · rw [Acceptor.close, if_pos hpos]
    rcases hfree with hfd | hlow
    · rw [own, if_pos hfd] at h
      exact Descriptors.lowest_close (h.holds.lt_limit List.mem_cons_self)
    · exact Descriptors.lowest_close_of hlow
  · rw [Acceptor.close, if_neg hpos]
    apply hfree.resolve_left
    -- it is not 0, which belongs to another part of the process
    intro hfd
    have hzero : fd = 0 := by omega
    rw [hzero] at h
    have howner := (h.holds.owner 0).mpr List.mem_cons_self
    rw [h.stdin] at howner
    cases howner

@[simp] theorem backlog_close (w : World) (fd : Int) :
    (Acceptor.close w fd).backlog = w.backlog := by
  unfold Acceptor.close
  split <;> rfl

@[simp] theorem events_close (w : World) (fd : Int) :
    (Acceptor.close w fd).events = w.events := by
  unfold Acceptor.close
  split <;> rfl

/-! ## Steps -/

theorem accept_served (h : Served w) (hphase : w.phase = .idle) {r : Outcome}
    (hr : r ≠ .interrupted) : Served (accept w r none) := by
  obtain ⟨hkept, hready, hevents⟩ := h
  refine ⟨accept_kept hkept hphase r none, ?_⟩
  rw [World.Ready, hphase] at hready
  rw [World.due, hphase] at hevents
  replace hevents : w.events ≤ w.gone.length + 0 := hevents
  unfold accept
  dsimp only
  obtain ⟨errno, heq, hfull, hwhy⟩ | ⟨conn, backlog, hbacklog, -, heq⟩ |
    ⟨fd, conn, backlog, -, hbacklog, heq⟩ :=
    accept4_cases { w with events := w.events + if w.backlog = [] then 0 else 1 } r
  · rw [heq]
    dsimp only at hfull hwhy ⊢
    by_cases herrno : errno = .EMFILE
    · -- the call goes on, with the reserve
      rw [Option.getD_none, if_pos herrno]
      refine ⟨hready, ?_⟩
      show w.events + _ ≤ w.gone.length + if w.backlog = [] then 0 else 1
      omega
    · have hnone : w.backlog = [] :=
        (hwhy.resolve_left fun hlow => herrno (hfull.mpr hlow)).resolve_left hr
      rw [Option.getD_none, if_neg herrno]
      refine ⟨hready, ?_⟩
      rw [if_pos hnone]
      exact hevents
  · rw [heq]
    have hcons : w.backlog ≠ [] := by
      intro hnil
      rw [hnil] at hbacklog
      cases hbacklog
    refine ⟨hready, ?_⟩
    show w.events + (if w.backlog = [] then 0 else 1) ≤ (w.gone ++ [(conn, Fate.aborted)]).length + 0
    rw [if_neg hcons, List.length_append, List.length_singleton]
    omega
  · rw [heq]
    have hle : (if w.backlog = [] then 0 else 1) ≤ 1 := by split <;> omega
    refine ⟨hready, ?_⟩
    show w.events + (if w.backlog = [] then 0 else 1) ≤ w.gone.length + 1
    omega

theorem deliver_served (h : Served w) {connfd conn : Nat}
    (hphase : w.phase = .accepted connfd conn) : Served (deliver w connfd conn) := by
  obtain ⟨hkept, hready, hevents⟩ := h
  refine ⟨deliver_kept hkept hphase, ?_⟩
  rw [World.Ready, hphase] at hready
  rw [World.due, hphase] at hevents
  unfold deliver
  by_cases hcallback : w.newConnectionCallback = true
  · rw [if_pos hcallback]
    refine ⟨hready, ?_⟩
    show w.events ≤ (w.gone ++ [(conn, Fate.handed)]).length + 0
    rw [List.length_append]
    exact hevents
  · rw [if_neg hcallback]
    refine ⟨?_, ?_⟩
    · show 0 ≤ (Acceptor.close w connfd).idleFd
      rw [idleFd_close]
      exact hready
    · show (Acceptor.close w connfd).events ≤ (w.gone ++ [(conn, Fate.closed)]).length + 0
      rw [events_close, List.length_append]
      exact hevents

theorem closeIdle_served (h : Served w) (hphase : w.phase = .full) : Served (closeIdle w) := by
  obtain ⟨hkept, hready, hevents⟩ := h
  refine ⟨closeIdle_kept hkept hphase, ?_⟩
  rw [Kept, World.held, World.inHand, hphase] at hkept
  rw [World.Ready, hphase] at hready
  rw [World.due, hphase] at hevents
  refine ⟨Account.lowest_close hkept (.inl hready), ?_⟩
  show (Acceptor.close w w.idleFd).events ≤ (Acceptor.close w w.idleFd).gone.length +
    if (Acceptor.close w w.idleFd).backlog = [] then 0 else 1
  rw [events_close, gone_close, backlog_close]
  exact hevents

/-- With a free descriptor the second `accept` takes what the first one had to leave. -/
theorem acceptIdle_served (h : Served w) (hphase : w.phase = .freed) {r : Outcome}
    (hr : r ≠ .interrupted) : Served (acceptIdle w r) := by
  obtain ⟨hkept, hready, hevents⟩ := h
  refine ⟨acceptIdle_kept hkept hphase r, ?_⟩
  rw [World.Ready, hphase] at hready
  rw [World.due, hphase] at hevents
  dsimp only at hready hevents
  unfold acceptIdle
  obtain ⟨errno, heq, -, hwhy⟩ | ⟨conn, backlog, hbacklog, -, heq⟩ |
    ⟨fd, conn, backlog, -, hbacklog, heq⟩ := accept4_cases w r
  · have hnone : w.backlog = [] := (hwhy.resolve_left hready).resolve_left hr
    rw [if_pos hnone] at hevents
    rw [heq]
    exact ⟨.inr hready, hevents⟩
  · rw [heq]
    refine ⟨.inr hready, ?_⟩
    rw [hbacklog, if_neg (List.cons_ne_nil _ _)] at hevents
    show w.events ≤ (w.gone ++ [(conn, Fate.aborted)]).length + 0
    rw [List.length_append]
    exact hevents
  · rw [heq]
    rw [hbacklog, if_neg (List.cons_ne_nil _ _)] at hevents
    exact ⟨.inl (Int.natCast_nonneg fd), hevents⟩

theorem closeAccepted_served (h : Served w) {conn : Option Nat} (hphase : w.phase = .drained conn) :
    Served (closeAccepted w conn) := by
  obtain ⟨hkept, hready, hevents⟩ := h
  refine ⟨closeAccepted_kept hkept hphase, ?_⟩
  rw [Kept, World.held, World.inHand, hphase] at hkept
  rw [World.Ready, hphase] at hready
  rw [World.due, hphase] at hevents
  refine ⟨Account.lowest_close hkept hready, ?_⟩
  show (Acceptor.close w w.idleFd).events ≤
    (w.gone ++ conn.toList.map fun conn => (conn, Fate.closed)).length + 0
  rw [events_close, List.length_append, List.length_map]
  exact hevents

theorem reopen_served (h : Served w) (hphase : w.phase = .closed) : Served (reopen w) := by
  obtain ⟨hkept, hready, hevents⟩ := h
  refine ⟨reopen_kept hkept hphase, ?_⟩
  rw [World.Ready, hphase] at hready
  rw [World.due, hphase] at hevents
  unfold reopen
  obtain ⟨hfail, -⟩ | ⟨fd, -, heq⟩ := openFd_cases w
  · exact absurd hfail hready
  · rw [heq]
    exact ⟨Int.natCast_nonneg fd, hevents⟩

theorem destroy_served (h : Served w) (hphase : w.phase = .idle) : Served (destroy w) := by
  obtain ⟨hkept, -, hevents⟩ := h
  refine ⟨destroy_kept hkept hphase, trivial, ?_⟩
  rw [World.due, hphase] at hevents
  show (Acceptor.close (Acceptor.close w w.idleFd) _).events ≤
    (Acceptor.close (Acceptor.close w w.idleFd) _).gone.length + 0
  rw [events_close, events_close, gone_close, gone_close]
  exact hevents

/-- Something else happens in the process. -/
theorem Served.of_same (h : Served w) (hkept : Kept w')
    (e : w' = { w with table := w'.table, listenning := w'.listenning })
    (hfree : w.away = true → w.table.lowest ≠ none → w'.table.lowest ≠ none) : Served w' := by
  obtain ⟨-, hready, hevents⟩ := h
  refine ⟨hkept, ?_, ?_⟩
  · rw [World.Ready] at hready ⊢
    rw [World.away] at hfree
    rw [e] at hfree ⊢
    cases hphase : w.phase with
    | idle | accepted | full | destroyed =>
        rw [hphase] at hready
        exact hready
    | freed | closed =>
        rw [hphase] at hready hfree
        exact hfree rfl hready
    | drained conn =>
        rw [hphase] at hready hfree
        exact hready.imp_right (hfree rfl)
  · rw [e]
    exact hevents

theorem arrive_served (h : Served w) (conn : Nat) :
    Served { w with backlog := w.backlog ++ [conn], arrived := w.arrived ++ [conn] } := by
  obtain ⟨hkept, hready, hevents⟩ := h
  refine ⟨arrive_kept hkept conn, hready, Nat.le_trans hevents (Nat.add_le_add_left ?_ _)⟩
  -- one more may be due
  have hle : (if w.backlog = [] then 0 else 1) ≤ 1 := by split <;> omega
  rw [World.due, World.due]
  dsimp only
  cases w.phase with
  | full | freed =>
      rw [if_neg (List.append_ne_nil_of_right_ne_nil _ (List.cons_ne_nil conn []))]
      exact hle
  | idle | accepted | drained | closed | destroyed => exact Nat.le_refl _

theorem step_served {a : Action} (ha : Careful w a) (h : Served w) (hstep : step w a = some w') :
    Served w' := by
  have hkept : Kept w' := by
    refine step_kept ?_ h.kept hstep
    intro heq
    rw [heq] at ha
    exact ha rfl
  cases a with
  | listen =>
      obtain ⟨-, heq⟩ := Option.ite_none_right_eq_some.mp hstep
      cases heq
      exact h.of_same hkept rfl fun _ hlow => hlow
  | accept r logged =>
      obtain ⟨⟨hphase, -⟩, heq⟩ := Option.ite_none_right_eq_some.mp hstep
      obtain ⟨hr, hlogged⟩ := ha
      cases heq
      rw [hlogged]
      exact accept_served h hphase hr
  | deliver =>
      obtain ⟨connfd, conn, hphase, rfl⟩ := step_deliver hstep
      exact deliver_served h hphase
  | closeIdle =>
      obtain ⟨hphase, heq⟩ := Option.ite_none_right_eq_some.mp hstep
      cases heq
      exact closeIdle_served h hphase
  | acceptIdle r =>
      obtain ⟨hphase, heq⟩ := Option.ite_none_right_eq_some.mp hstep
      cases heq
      exact acceptIdle_served h hphase ha
  | closeAccepted =>
      obtain ⟨conn, hphase, rfl⟩ := step_closeAccepted hstep
      exact closeAccepted_served h hphase
  | reopen =>
      obtain ⟨hphase, heq⟩ := Option.ite_none_right_eq_some.mp hstep
      cases heq
      exact reopen_served h hphase
  | destroy =>
      obtain ⟨hphase, heq⟩ := Option.ite_none_right_eq_some.mp hstep
      cases heq
      exact destroy_served h hphase
  | arrive conn =>
      obtain ⟨-, heq⟩ := Option.ite_none_right_eq_some.mp hstep
      cases heq
      exact arrive_served h conn
  | openOther =>
      cases hstep
      apply h.of_same hkept
      · unfold openOther
        cases w.table.lowest <;> rfl
      · intro haway
        rw [show w.away = false from ha] at haway
        cases haway
  | closeOther fd =>
      obtain ⟨-, heq⟩ := Option.ite_none_right_eq_some.mp hstep
      cases heq
      exact h.of_same hkept rfl fun _ => Descriptors.lowest_close_of

/-! ## Runs -/

/-- In every careful run, when the constructor got a reserve: whenever the loop is out of
    `handleRead` the reserve is there and the acceptor's own, and at least as many connections
    have left the backlog as there were calls that found one waiting. -/
theorem events_served (table : Descriptors Owner) (hstdin : table.owner 0 = some .other)
    (hnone : ∀ fd, table.owner fd ≠ some .acceptor) (newConnectionCallback : Bool) (w₀ : World)
    (hstart : start table newConnectionCallback = some w₀) (hidle : 0 ≤ w₀.idleFd)
    (acts : List Action) (hacts : Along step Careful w₀ acts) (w : World)
    (hrun : run step w₀ acts = some w) (hphase : w.phase = .idle) :
    0 < w.idleFd ∧ w.table.owner w.idleFd.toNat = some .acceptor ∧ w.events ≤ w.gone.length := by
  have hstarted : Served w₀ := by
    have hkept := start_kept hstdin hnone hstart
    obtain ⟨fd, -, heq⟩ := Option.map_eq_some_iff.mp hstart
    obtain ⟨-, hfail⟩ | ⟨idleFd, -, hopened⟩ :=
      openFd_cases (created table fd newConnectionCallback)
    · rw [hfail] at heq
      rw [← heq] at hidle
      exact absurd (show (0 : Int) ≤ -1 from hidle) (by decide)
    · rw [hopened] at heq
      refine ⟨hkept, ?_⟩
      rw [← heq]
      exact ⟨Int.natCast_nonneg idleFd, Nat.le_refl 0⟩
  obtain ⟨hkept, hready, hevents⟩ : Served w :=
    run_invariant_along (fun _ _ _ h ha hstep => step_served ha h hstep) hstarted hrun hacts
  rw [World.Ready, hphase] at hready
  rw [World.due, hphase] at hevents
  replace hready : 0 ≤ w.idleFd := hready
  have hacc := hkept.idle hphase
  rw [own, if_pos hready] at hacc
  have howner := (hacc.holds.owner w.idleFd.toNat).mpr List.mem_cons_self
  have hne : w.idleFd ≠ 0 := by
    intro hzero
    rw [hzero, show (0 : Int).toNat = 0 from rfl, hacc.stdin] at howner
    cases howner
  exact ⟨by omega, howner, hevents⟩

theorem events_served_crowded :
    ∃ w₀ w, start process true = some w₀ ∧ run step w₀ crowded = some w ∧ w.events = 2 ∧
      w.table.lowest = none ∧ 0 < w.idleFd ∧ w.events ≤ w.gone.length := by
  have hsome : ((start process true).bind fun w₀ => (run step w₀ crowded).map fun w =>
      decide (0 ≤ w₀.idleFd ∧ Along step Careful w₀ crowded ∧ w.phase = .idle ∧ w.events = 2 ∧
        w.table.lowest = none)) = some true := by
    decide +kernel
  obtain ⟨w₀, hstart, hrun⟩ := Option.bind_eq_some_iff.mp hsome
  obtain ⟨w, hrun, hend⟩ := Option.map_eq_some_iff.mp hrun
  obtain ⟨hidle, hcareful, hphase, htwo, hfull⟩ := of_decide_eq_true hend
  obtain ⟨hpos, -, hevents⟩ := events_served process (by decide) process_owner true w₀ hstart hidle
    crowded hcareful w hrun hphase
  exact ⟨w₀, w, hstart, hrun, htwo, hfull, hpos, hevents⟩

/-- Another thread takes the reserve: it does not come back, and the connection waits. -/
example : ((start process true).bind fun w₀ => (run step w₀ [.listen, .openOther, .arrive 1,
    .accept .ready none, .closeIdle, .openOther, .acceptIdle .ready, .closeAccepted, .reopen]).map
      fun w => (w.phase, w.idleFd, w.backlog)) = some (.idle, -1, [1]) := by
  decide +kernel

end Acceptor
end Youth.Net
