/-
  Youth.Net.Acceptor.Account

  The descriptors of the acceptor and the connections that come to it.

  `m_idleFd` is closed and set again between system calls, and while its descriptor is
  closed another thread may get the same number.  `Account` says what the acceptor owns and
  which connection it has in hand; each call moves one or the other.  With it the acceptor
  closes nothing that is not its own, leaves nothing open, and loses no connection.
-/

import Youth.Net.Acceptor.Basic

namespace Youth.Net
namespace Acceptor

open Youth.Lib

/-- The descriptor in a variable that may be -1. -/
def own (fd : Int) : List Nat := if 0 ≤ fd then [fd.toNat] else []

/-- What the acceptor has to close. -/
def World.held (w : World) : List Nat :=
  match w.phase with
  | .idle | .full | .drained _ => own w.idleFd ++ [w.acceptSocket]
  | .accepted connfd _ => connfd :: (own w.idleFd ++ [w.acceptSocket])
  | .freed | .closed => [w.acceptSocket]
  | .destroyed => []

/-- The connection that is neither in the backlog nor gone. -/
def World.inHand (w : World) : List Nat :=
  match w.phase with
  | .accepted _ conn => [conn]
  | .drained conn => conn.toList
  | _ => []

/-- The acceptor owns `fds` and has `conns` in hand. -/
structure Account (w : World) (fds conns : List Nat) : Prop where
  holds : w.table.Holds .acceptor fds
  stdin : w.table.owner 0 = some .other
  closed : ∀ p ∈ w.closed, p.2 = some .acceptor
  flow : w.gone.map Prod.fst ++ conns ++ w.backlog = w.arrived

abbrev Kept (w : World) : Prop := Account w w.held w.inHand

variable {w w' : World} {fds conns : List Nat}

/-! ## The calls -/

@[simp] theorem own_ofNat (fd : Nat) : own (fd : Int) = [fd] := if_pos (Int.natCast_nonneg fd)

@[simp] theorem own_neg : own (-1) = [] := rfl

@[simp] theorem acceptSocket_close (w : World) (fd : Int) :
    (close w fd).acceptSocket = w.acceptSocket := by
  unfold close
  split <;> rfl

@[simp] theorem idleFd_close (w : World) (fd : Int) : (close w fd).idleFd = w.idleFd := by
  unfold close
  split <;> rfl

@[simp] theorem gone_close (w : World) (fd : Int) : (close w fd).gone = w.gone := by
  unfold close
  split <;> rfl

/-- What the account does not see. -/
theorem Account.of_same (h : Account w fds conns)
    (e : w' = { w with
      acceptSocket := w'.acceptSocket
      listenning := w'.listenning
      idleFd := w'.idleFd
      phase := w'.phase
      events := w'.events }) : Account w' fds conns := by
  rw [e]
  exact ⟨h.holds, h.stdin, h.closed, h.flow⟩

/-- A descriptor that changes hands is not that of the standard input. -/
theorem stdin_assign {table : Descriptors Owner} (hstdin : table.owner 0 = some .other) {fd : Nat}
    (hfd : table.owner fd ≠ some .other) (hlt : fd < table.limit) (who : Owner) :
    (table.assign fd who).owner 0 = some .other := by
  have hne : 0 ≠ fd := by
    intro heq
    rw [← heq] at hfd
    exact hfd hstdin
  rw [Descriptors.owner_assign hlt, if_neg hne]
  exact hstdin

theorem Account.openFd (h : Account w fds conns) :
    Account (openFd w).1 (own (openFd w).2 ++ fds) conns := by
  obtain ⟨-, heq⟩ | ⟨fd, hlow, heq⟩ := openFd_cases w
  · rw [heq]
    exact h
  · obtain ⟨hlt, hfree⟩ := Descriptors.lowest_eq_some hlow
    rw [heq, own_ofNat]
    exact ⟨h.holds.take hlow, stdin_assign h.stdin (by simp [hfree]) hlt _, h.closed, h.flow⟩

/-- What is closed is one's own, or nothing. -/
theorem Account.close {fd : Int} (h : Account w (own fd ++ fds) conns) :
    Account (close w fd) fds conns := by
  by_cases hneg : 0 ≤ fd
  · rw [own, if_pos hneg] at h
    have howner : w.table.owner fd.toNat = some .acceptor :=
      (h.holds.owner _).mpr List.mem_cons_self
    -- 0 belongs to another part of the process
    have hne : 0 ≠ fd.toNat := by
      intro heq
      rw [← heq, h.stdin] at howner
      cases howner
    have hpos : 0 < fd := by omega
    rw [Acceptor.close, if_pos hpos]
    refine ⟨h.holds.close, ?_, ?_, h.flow⟩
    · rw [Descriptors.owner_close, if_neg hne]
      exact h.stdin
    · intro p hp
      rcases List.mem_append.mp hp with hp | hp
      · exact h.closed p hp
      · rw [List.mem_singleton.mp hp]
        exact howner
  · have hpos : ¬0 < fd := by omega
    rw [own, if_neg hneg] at h
    rw [Acceptor.close, if_neg hpos]
    exact h

/-- `accept4` takes a connection in hand, or none. -/
theorem Account.accept4 (h : Account w fds []) (r : Outcome) :
    match accept4 w r with
    | (w, .ok (fd, conn)) => Account w (fd :: fds) [conn]
    | (w, .error _) => Account w fds [] := by
  have hflow := h.flow
  obtain ⟨errno, heq, -, -⟩ | ⟨conn, backlog, hbacklog, -, heq⟩ |
    ⟨fd, conn, backlog, hlow, hbacklog, heq⟩ := accept4_cases w r
  · rw [heq]
    exact h
  · rw [heq]
    refine ⟨h.holds, h.stdin, h.closed, ?_⟩
    rw [← hflow, hbacklog]
    simp
  · obtain ⟨hlt, hfree⟩ := Descriptors.lowest_eq_some hlow
    rw [heq]
    refine ⟨h.holds.take hlow, stdin_assign h.stdin (by simp [hfree]) hlt _, h.closed, ?_⟩
    rw [← hflow, hbacklog]
    simp

theorem accept4_frame (w : World) (r : Outcome) :
    (accept4 w r).1.acceptSocket = w.acceptSocket ∧ (accept4 w r).1.idleFd = w.idleFd := by
  obtain ⟨errno, heq, -⟩ | ⟨conn, backlog, -, -, heq⟩ | ⟨fd, conn, backlog, -, -, heq⟩ :=
    accept4_cases w r
  all_goals rw [heq]; exact ⟨rfl, rfl⟩

/-! ## Steps -/

theorem Kept.idle (h : Kept w) (hphase : w.phase = .idle) :
    Account w (own w.idleFd ++ [w.acceptSocket]) [] := by
  rw [Kept, World.held, World.inHand, hphase] at h
  exact h

theorem accept_kept (h : Kept w) (hphase : w.phase = .idle) (r : Outcome)
    (logged : Option Errno) : Kept (accept w r logged) := by
  have hidle : Account { w with events := w.events + if w.backlog = [] then 0 else 1 }
      (own w.idleFd ++ [w.acceptSocket]) [] := (h.idle hphase).of_same rfl
  have htaken := hidle.accept4 r
  obtain ⟨hsocket, hidleFd⟩ :=
    accept4_frame { w with events := w.events + if w.backlog = [] then 0 else 1 } r
  unfold accept
  dsimp only
  generalize accept4 { w with events := w.events + if w.backlog = [] then 0 else 1 } r = res at *
  obtain ⟨w₁, errno | ⟨connfd, conn⟩⟩ := res
  · dsimp only at hsocket hidleFd htaken ⊢
    rw [← hsocket, ← hidleFd] at htaken
    by_cases hfull : logged.getD errno = .EMFILE
    · rw [if_pos hfull]
      exact htaken.of_same rfl
    · rw [if_neg hfull]
      exact htaken.of_same rfl
  · dsimp only at hsocket hidleFd htaken
    rw [← hsocket, ← hidleFd] at htaken
    exact htaken.of_same rfl

/-- The connection in hand goes. -/
theorem Account.settle {conn : Option Nat} (h : Account w fds conn.toList) (fate : Fate) :
    Account { w with gone := w.gone ++ conn.toList.map fun conn => (conn, fate) } fds [] := by
  refine ⟨h.holds, h.stdin, h.closed, ?_⟩
  rw [← h.flow]
  cases conn <;> simp

theorem deliver_kept (h : Kept w) {connfd conn : Nat} (hphase : w.phase = .accepted connfd conn) :
    Kept (deliver w connfd conn) := by
  rw [Kept, World.held, World.inHand, hphase] at h
  replace h : Account w (connfd :: (own w.idleFd ++ [w.acceptSocket])) (some conn).toList := h
  unfold deliver
  by_cases hcallback : w.newConnectionCallback = true
  · rw [if_pos hcallback]
    obtain ⟨holds, -, hclosed, hflow⟩ := h.settle .handed
    have howner := (h.holds.owner connfd).mpr List.mem_cons_self
    have hlt := h.holds.lt_limit List.mem_cons_self
    exact ⟨h.holds.hand (by simp), stdin_assign h.stdin (by simp [howner]) hlt _, hclosed, hflow⟩
  · rw [if_neg hcallback]
    have hclosed : Account (close w connfd) (own w.idleFd ++ [w.acceptSocket]) (some conn).toList := by
      apply Account.close
      rw [own_ofNat]
      exact h
    have hsettled := hclosed.settle .closed
    rw [← idleFd_close w connfd, ← acceptSocket_close w connfd] at hsettled
    rw [gone_close] at hsettled
    exact hsettled.of_same rfl

theorem closeIdle_kept (h : Kept w) (hphase : w.phase = .full) : Kept (closeIdle w) := by
  rw [Kept, World.held, World.inHand, hphase] at h
  have hclosed : Account (close w w.idleFd) [w.acceptSocket] [] := Account.close h
  rw [← acceptSocket_close w w.idleFd] at hclosed
  exact hclosed.of_same rfl

theorem acceptIdle_kept (h : Kept w) (hphase : w.phase = .freed) (r : Outcome) :
    Kept (acceptIdle w r) := by
  rw [Kept, World.held, World.inHand, hphase] at h
  have htaken := h.accept4 r
  obtain ⟨hsocket, -⟩ := accept4_frame w r
  unfold acceptIdle
  generalize accept4 w r = res at *
  obtain ⟨w₁, errno | ⟨fd, conn⟩⟩ := res
  · dsimp only at hsocket htaken
    rw [← hsocket] at htaken
    exact htaken.of_same rfl
  · dsimp only at hsocket htaken
    rw [← hsocket] at htaken
    have hopen : Account w₁ (own fd ++ [w₁.acceptSocket]) [conn] := by
      rw [own_ofNat]
      exact htaken
    exact hopen.of_same rfl

theorem closeAccepted_kept (h : Kept w) {conn : Option Nat} (hphase : w.phase = .drained conn) :
    Kept (closeAccepted w conn) := by
  rw [Kept, World.held, World.inHand, hphase] at h
  have hclosed : Account (close w w.idleFd) [w.acceptSocket] conn.toList := Account.close h
  have hsettled := hclosed.settle .closed
  rw [← acceptSocket_close w w.idleFd] at hsettled
  rw [gone_close] at hsettled
  exact hsettled.of_same rfl

theorem reopen_kept (h : Kept w) (hphase : w.phase = .closed) : Kept (reopen w) := by
  rw [Kept, World.held, World.inHand, hphase] at h
  have hopen := h.openFd
  have hsocket : (openFd w).1.acceptSocket = w.acceptSocket := by
    obtain ⟨-, heq⟩ | ⟨fd, -, heq⟩ := openFd_cases w
    all_goals rw [heq]
  rw [← hsocket] at hopen
  exact hopen.of_same rfl

theorem destroy_kept (h : Kept w) (hphase : w.phase = .idle) : Kept (destroy w) := by
  have hclosed : Account (close w w.idleFd) [w.acceptSocket] [] := Account.close (h.idle hphase)
  have hsocket : (close w w.idleFd).acceptSocket = w.acceptSocket := acceptSocket_close w _
  unfold destroy
  dsimp only
  rw [hsocket]
  have hall : Account (close (close w w.idleFd) w.acceptSocket) [] [] := by
    apply Account.close
    rw [own_ofNat]
    exact hclosed
  exact hall.of_same rfl

theorem openOther_account (h : Account w fds conns) : Account (openOther w) fds conns := by
  unfold openOther
  cases hlow : w.table.lowest with
  | none => exact h
  | some fd =>
      obtain ⟨hlt, hfree⟩ := Descriptors.lowest_eq_some hlow
      exact ⟨h.holds.take_other hlow (by simp), stdin_assign h.stdin (by simp [hfree]) hlt _, h.closed,
        h.flow⟩

theorem openOther_kept (h : Kept w) : Kept (openOther w) := by
  have hopened := openOther_account h
  have hsame : openOther w = { w with table := (openOther w).table } := by
    unfold openOther
    cases w.table.lowest <;> rfl
  rw [hsame] at hopened ⊢
  exact hopened

theorem closeOther_kept (h : Kept w) {fd : Nat} (howner : w.table.owner fd = some .other)
    (hfd : fd ≠ 0) : Kept { w with table := w.table.close fd } := by
  refine ⟨h.holds.close_other howner (by simp), ?_, h.closed, h.flow⟩
  rw [Descriptors.owner_close, if_neg hfd.symm]
  exact h.stdin

theorem arrive_kept (h : Kept w) (conn : Nat) :
    Kept { w with backlog := w.backlog ++ [conn], arrived := w.arrived ++ [conn] } := by
  refine ⟨h.holds, h.stdin, h.closed, ?_⟩
  rw [← h.flow, List.append_assoc]
  exact (List.append_assoc _ _ _).symm.trans (List.append_assoc _ _ _).symm

theorem step_kept {a : Action} (ha : a ≠ .closeOther 0) (h : Kept w) (hstep : step w a = some w') :
    Kept w' := by
  cases a with
  | listen =>
      obtain ⟨-, heq⟩ := Option.ite_none_right_eq_some.mp hstep
      cases heq
      exact h.of_same rfl
  | accept r logged =>
      obtain ⟨⟨hphase, -⟩, heq⟩ := Option.ite_none_right_eq_some.mp hstep
      cases heq
      exact accept_kept h hphase r logged
  | deliver =>
      obtain ⟨connfd, conn, hphase, rfl⟩ := step_deliver hstep
      exact deliver_kept h hphase
  | closeIdle =>
      obtain ⟨hphase, heq⟩ := Option.ite_none_right_eq_some.mp hstep
      cases heq
      exact closeIdle_kept h hphase
  | acceptIdle r =>
      obtain ⟨hphase, heq⟩ := Option.ite_none_right_eq_some.mp hstep
      cases heq
      exact acceptIdle_kept h hphase r
  | closeAccepted =>
      obtain ⟨conn, hphase, rfl⟩ := step_closeAccepted hstep
      exact closeAccepted_kept h hphase
  | reopen =>
      obtain ⟨hphase, heq⟩ := Option.ite_none_right_eq_some.mp hstep
      cases heq
      exact reopen_kept h hphase
  | destroy =>
      obtain ⟨hphase, heq⟩ := Option.ite_none_right_eq_some.mp hstep
      cases heq
      exact destroy_kept h hphase
  | arrive conn =>
      obtain ⟨-, heq⟩ := Option.ite_none_right_eq_some.mp hstep
      cases heq
      exact arrive_kept h conn
  | openOther =>
      cases hstep
      exact openOther_kept h
  | closeOther fd =>
      obtain ⟨howner, heq⟩ := Option.ite_none_right_eq_some.mp hstep
      cases heq
      exact closeOther_kept h howner (fun hfd => ha (by rw [hfd]))

/-! ## Runs -/

theorem start_kept {table : Descriptors Owner} (hstdin : table.owner 0 = some .other)
    (hnone : ∀ fd, table.owner fd ≠ some .acceptor) {newConnectionCallback : Bool}
    (hstart : start table newConnectionCallback = some w) : Kept w := by
  obtain ⟨fd, hlow, heq⟩ := Option.map_eq_some_iff.mp hstart
  obtain ⟨hlt, hfree⟩ := Descriptors.lowest_eq_some hlow
  have hempty : table.Holds .acceptor [] :=
    ⟨fun fd => iff_of_false (hnone fd) List.not_mem_nil, List.nodup_nil⟩
  have hsocket : Account (created table fd newConnectionCallback) [fd] [] :=
    ⟨hempty.take hlow, stdin_assign hstdin (by simp [hfree]) hlt _, List.forall_mem_nil _, rfl⟩
  have hopen := hsocket.openFd
  rw [← heq]
  obtain ⟨-, hfail⟩ | ⟨idleFd, -, hopened⟩ := openFd_cases (created table fd newConnectionCallback)
  · rw [hfail] at hopen ⊢
    exact hopen
  · rw [hopened] at hopen ⊢
    exact hopen.of_same rfl

/-- In every run, whatever the rest of the process opens and closes between the calls: the
    acceptor closes only descriptors of its own, it owns those that it still knows and no
    others, and every connection that came was given on, closed, or lost by the kernel, in the
    order in which they came, but for the one in hand and those that wait. -/
theorem descriptors_kept (table : Descriptors Owner) (hstdin : table.owner 0 = some .other)
    (hnone : ∀ fd, table.owner fd ≠ some .acceptor) (newConnectionCallback : Bool) (w₀ : World)
    (hstart : start table newConnectionCallback = some w₀) (acts : List Action)
    (hacts : .closeOther 0 ∉ acts) (w : World) (hrun : run step w₀ acts = some w) :
    (∀ p ∈ w.closed, p.2 = some .acceptor) ∧
      (∀ fd, w.table.owner fd = some .acceptor ↔ fd ∈ w.held) ∧ w.held.Nodup ∧
      w.gone.map Prod.fst ++ w.inHand ++ w.backlog = w.arrived := by
  have hall : ∀ a ∈ acts, a ≠ .closeOther 0 := by
    intro a ha heq
    rw [heq] at ha
    exact hacts ha
  have h : Kept w := run_invariant_of (fun _ _ _ ha h hstep => step_kept ha h hstep) hall
    (start_kept hstdin hnone hstart) hrun
  exact ⟨h.closed, h.holds.owner, h.holds.nodup, h.flow⟩

/-- A process with three descriptors, which may have three more. -/
def process : Descriptors Owner :=
  (((Descriptors.empty 6).assign 0 .other).assign 1 .other).assign 2 .other

theorem process_owner (fd : Nat) : process.owner fd ≠ some .acceptor := by
  have hsmall : ∀ fd < 6, process.owner fd ≠ some .acceptor := by decide
  intro howner
  have hlt := process.inRange fd (by rw [howner]; exact Option.some_ne_none _)
  exact hsmall fd hlt howner

/-- The second connection finds no descriptor left, and gets the one in reserve. -/
def crowded : List Action :=
  [.listen, .arrive 1, .arrive 2, .accept .ready none, .deliver, .accept .ready none, .closeIdle,
   .acceptIdle .ready, .closeAccepted, .reopen]

theorem descriptors_kept_crowded :
    ∃ w₀ w, start process true = some w₀ ∧ run step w₀ (crowded ++ [.destroy]) = some w ∧
      w.gone = [(1, .handed), (2, .closed)] ∧ w.closed = [(4, some .acceptor), (4, some .acceptor),
        (4, some .acceptor), (3, some .acceptor)] ∧ w.held.Nodup := by
  have hsome : ((start process true).bind fun w₀ => (run step w₀ (crowded ++ [.destroy])).map
      fun w => decide (w.gone = [(1, .handed), (2, .closed)] ∧ w.closed = [(4, some .acceptor),
        (4, some .acceptor), (4, some .acceptor), (3, some .acceptor)])) = some true := by
    decide +kernel
  obtain ⟨w₀, hstart, hrun⟩ := Option.bind_eq_some_iff.mp hsome
  obtain ⟨w, hrun, hend⟩ := Option.map_eq_some_iff.mp hrun
  obtain ⟨hgone, hclosed⟩ := of_decide_eq_true hend
  exact ⟨w₀, w, hstart, hrun, hgone, hclosed,
    (descriptors_kept process (by decide) process_owner true w₀ hstart _ (by decide) w hrun).2.2.1⟩

end Acceptor
end Youth.Net
