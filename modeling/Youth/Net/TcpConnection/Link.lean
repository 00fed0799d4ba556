/-
  Youth.Net.TcpConnection.Link

  Two connections, joined by a stream in each direction.

  The kernel hands on what one end has written, in pieces of any size, in order and once;
  the end of the stream comes when the other end was shut for writing, or is down, and all
  has been read.  Behind `SHUT_WR` the kernel takes no byte.  At both ends user code may do
  what it likes, in callbacks and in any threads; writes are short at will, and in
  `sendInLoop` they may be refused (`handleWrite` gives up what is refused to it).

  `streams_joined` says what gets through: each end reads the messages of the other one as
  they were handled, whole and in order, and nothing else; and an end of the stream that
  comes while the other end is up stands between two messages.
-/

import Youth.Net.TcpConnection.Incoming
import Youth.Net.TcpConnection.Outgoing

namespace Youth.Net
namespace TcpConnection

open Youth.Lib

structure Link where
  ends : Bool → World
  /-- What each end has read. -/
  received : Bool → List UInt8 := fun _ => []
  /-- Whether it has read the end of the stream. -/
  ended : Bool → Bool := fun _ => false

namespace Link

/-- What was written for the end `y` and not read by it. -/
def underway (l : Link) (y : Bool) : List UInt8 := (l.ends !y).written.drop (l.received y).length

/-- What `::readv` can return at the end `y`. -/
def Delivers (l : Link) (y : Bool) : Option (Except Nat (List UInt8)) → Prop
  | some (.ok []) => l.underway y = [] ∧
    ((l.ends !y).shutWr ≠ [] ∨ (l.ends !y).conn.state = .kDisconnected)
  | some (.ok (b :: bytes)) => b :: bytes <+: l.underway y
  | _ => True

instance (l : Link) (y : Bool) : (r : Option (Except Nat (List UInt8))) → Decidable (l.Delivers y r)
  | some (.ok []) => inferInstanceAs (Decidable (_ ∧ (_ ∨ _)))
  | some (.ok (_ :: _)) => inferInstanceAs (Decidable (_ <+: _))
  | some (.error _) | none => isTrue trivial

/-- No byte is taken behind a `SHUT_WR`. -/
def accepts (t : World) : Bool := t.shutWr.all fun n => t.written.length ≤ n

/-- A step of the end `y`. -/
def stepAt (l : Link) (y : Bool) (a : Action) (t : World) : Link where
  ends := Function.update l.ends y t
  received := Function.update l.received y (l.received y ++ bytesOf a.read?)
  ended := Function.update l.ended y (l.ended y || decide (a.read? = some (.ok [])))

def step (l : Link) : Bool × Action → Option Link
  | (y, a) =>
    if l.Delivers y a.read? then
      (TcpConnection.step (l.ends y) a).bind fun t =>
        if accepts t then some (l.stepAt y a t) else none
    else none

/-! ## The invariant -/

structure Joined (l : Link) : Prop where
  flows : ∀ y, Flows (l.ends y)
  input : ∀ y, (l.ends y).conn.inputBuffer.Inv
  readable : ∀ y, (l.ends y).conn.inputBuffer.readable <:+ l.received y
  received : ∀ y, l.received y <+: (l.ends !y).written
  accepted : ∀ y, accepts (l.ends y) = true
  ended : ∀ y, l.ended y = true → (l.ends !y).conn.state ≠ .kDisconnected →
    (l.ends !y).shutWr ≠ [] ∧ l.received y = (l.ends !y).written

variable {l l' : Link} {y : Bool}

/-- A step is one of a single end, with what the kernel delivers and accepts. -/
theorem step_cases {p : Bool × Action} (h : step l p = some l') :
    ∃ t, TcpConnection.step (l.ends p.1) p.2 = some t ∧ l.Delivers p.1 p.2.read? ∧
      accepts t = true ∧ l' = l.stepAt p.1 p.2 t := by
  obtain ⟨y, a⟩ := p
  unfold step at h
  dsimp only at h
  split at h
  next hdelivers =>
    obtain ⟨t, hstep, h⟩ := Option.bind_eq_some_iff.mp h
    split at h
    next haccepts => exact ⟨t, hstep, hdelivers, haccepts, (Option.some.inj h).symm⟩
    next => cases h
  next => cases h

theorem eq_of_prefix_of_drop {xs ys : List UInt8} (h : xs <+: ys) (hnone : ys.drop xs.length = []) :
    xs = ys := by
  obtain ⟨zs, rfl⟩ := h
  rw [List.drop_left] at hnone
  rw [hnone, List.append_nil]

/-- What is delivered comes behind what was read. -/
theorem received_append {r : Option (Except Nat (List UInt8))} (h : l.received y <+: (l.ends !y).written)
    (hdelivers : l.Delivers y r) : l.received y ++ bytesOf r <+: (l.ends !y).written := by
  obtain ⟨rest, hrest⟩ := h
  have hunderway : l.underway y = rest := by
    rw [underway, ← hrest, List.drop_left]
  rcases r with _ | errno | _ | ⟨b, bytes⟩
  · exact ⟨rest, by simpa [bytesOf] using hrest⟩
  · exact ⟨rest, by simpa [bytesOf] using hrest⟩
  · exact ⟨rest, by simpa [bytesOf] using hrest⟩
  · obtain ⟨more, hmore⟩ : b :: bytes <+: rest := hunderway ▸ hdelivers
    exact ⟨more, by rw [bytesOf, List.append_assoc, hmore, hrest]⟩

/-- With nothing under way no bytes are delivered. -/
theorem bytesOf_of_underway {r : Option (Except Nat (List UInt8))} (hnone : l.underway y = [])
    (hdelivers : l.Delivers y r) : bytesOf r = [] := by
  rcases r with _ | errno | _ | ⟨b, bytes⟩
  · rfl
  · rfl
  · rfl
  · have hprefix : b :: bytes <+: l.underway y := hdelivers
    rw [hnone] at hprefix
    exact List.prefix_nil.mp hprefix

/-- An end that was shut for writing, and is up, has written all it will. -/
theorem written_of_shut {s t : World} (hs : Flows s) (hgrows : Grows s t)
    (halive : s.conn.state ≠ .kDisconnected) (hshut : s.shutWr ≠ []) (haccepts : accepts t = true) :
    t.written = s.written := by
  obtain ⟨n, more, hn⟩ := List.exists_cons_of_ne_nil hshut
  have hold := (hs.2.whole halive n (by rw [hn]; rfl)).1
  have hmem : n ∈ t.shutWr := hgrows.shutWr.subset (by rw [hn]; exact List.mem_cons_self)
  have hnew : t.written.length ≤ n := of_decide_eq_true (List.all_eq_true.mp haccepts n hmem)
  exact (hgrows.written.eq_of_length_le (by omega)).symm

theorem step_joined {p : Bool × Action} (hp : p.2.Survives) (h : Joined l) (hstep : step l p = some l') :
    Joined l' := by
  obtain ⟨y, a⟩ := p
  obtain ⟨t, ht, hdelivers, haccepts, rfl⟩ := step_cases hstep
  dsimp only at hp ht hdelivers
  have hgrows := step_grows ht
  have hread := step_input (h.input y) ht
  have hother : (!y) ≠ y := by simp
  have hself : (!!y) = y := Bool.not_not y
  -- the two ends of the new state
  have hends : (l.stepAt y a t).ends y = t := Function.update_self ..
  have hends' : (l.stepAt y a t).ends (!y) = l.ends (!y) := Function.update_of_ne hother ..
  have hreceived : (l.stepAt y a t).received y = l.received y ++ bytesOf a.read? :=
    Function.update_self ..
  have hreceived' : (l.stepAt y a t).received (!y) = l.received (!y) := Function.update_of_ne hother ..
  have hended : (l.stepAt y a t).ended y = (l.ended y || decide (a.read? = some (.ok []))) :=
    Function.update_self ..
  have hended' : (l.stepAt y a t).ended (!y) = l.ended (!y) := Function.update_of_ne hother ..
  have hcases : ∀ {P : Bool → Prop}, P y → P (!y) → ∀ z, P z := by
    intro P hy hn z
    by_cases hz : z = y
    · exact hz ▸ hy
    · have hz' : z = !y := Bool.eq_not.mpr hz
      exact hz' ▸ hn
  refine ⟨?_, ?_, ?_, ?_, ?_, ?_⟩
  · apply hcases
    · rw [hends]
      exact step_flows (h.flows y) hp ht
    · rw [hends']
      exact h.flows _
  · apply hcases
    · rw [hends]
      exact hread.inv
    · rw [hends']
      exact h.input _
  · apply hcases
    · rw [hends, hreceived]
      obtain ⟨front, hfront⟩ := h.readable y
      refine hread.readable.trans ?_
      rw [← hfront, List.append_assoc]
      exact List.suffix_append _ _
    · rw [hends', hreceived']
      exact h.readable _
  · apply hcases
    · rw [hends', hreceived]
      exact received_append (h.received y) hdelivers
    · rw [hself, hends, hreceived']
      have hold := h.received (!y)
      rw [hself] at hold
      exact hold.trans hgrows.written
  · apply hcases
    · rw [hends]
      exact haccepts
    · rw [hends']
      exact h.accepted _
  · apply hcases
    · rw [hends', hreceived, hended]
      intro hend halive
      rcases (Bool.or_eq_true _ _).mp hend with hbefore | hnow
      · -- nothing was left to read
        obtain ⟨hshut, hall⟩ := h.ended y hbefore halive
        have hnone : l.underway y = [] := by rw [underway, hall, List.drop_length]
        rw [bytesOf_of_underway hnone hdelivers, List.append_nil]
        exact ⟨hshut, hall⟩
      · have hresult : a.read? = some (.ok []) := of_decide_eq_true hnow
        rw [hresult] at hdelivers ⊢
        obtain ⟨hnone, hwhy⟩ : l.underway y = [] ∧ _ := hdelivers
        refine ⟨hwhy.resolve_right halive, ?_⟩
        rw [bytesOf, List.append_nil]
        exact eq_of_prefix_of_drop (h.received y) hnone
    · rw [hself, hends, hreceived', hended']
      intro hend halive
      have hold := h.ended (!y) hend
      rw [hself] at hold
      obtain ⟨hshut, hall⟩ := hold (hgrows.alive halive)
      refine ⟨fun hnil => hshut ?_, ?_⟩
      · rw [← List.prefix_nil, ← hnil]
        exact hgrows.shutWr
      · rw [hall]
        exact (written_of_shut (h.flows y) hgrows (hgrows.alive halive) hshut haccepts).symm

/-! ## Runs -/

/-- Two new connections. -/
def start (self fd : Bool → Nat) (epoll : Bool → Epoll) (wc hw : Bool → Bool) (mark : Bool → Nat) :
    Link where
  ends y := newConnection (self y) (fd y) (epoll y) (wc y) (hw y) (mark y)

theorem start_joined (self fd : Bool → Nat) (epoll : Bool → Epoll) (wc hw : Bool → Bool)
    (mark : Bool → Nat) : Joined (start self fd epoll wc hw mark) where
  flows y := newConnection_flows _ _ _ _ _ _
  input y := Buffer.new_inv _
  readable y := by
    have hempty : (Buffer.new Buffer.kInitialSize).readable = [] := Buffer.readable_new _
    show (Buffer.new Buffer.kInitialSize).readable <:+ []
    rw [hempty]
  received y := List.prefix_refl _
  accepted y := rfl
  ended y hend := by cases hend

/-- In every run in which the writes go through, in part at least, or, in `sendInLoop`, are only
    refused: what an end has read is the beginning of the messages that the other one has handled, and its input
    buffer holds the end of that; the messages are handled once each, those of a thread in its
    order; and while the other end is up, what was read, what is under way and what is buffered
    are all the messages, and the end of the stream stands behind whole messages. -/
theorem streams_joined (self fd : Bool → Nat) (epoll : Bool → Epoll) (wc hw : Bool → Bool)
    (mark : Bool → Nat) (acts : List (Bool × Action)) (hsurvive : ∀ p ∈ acts, p.2.Survives) (l : Link)
    (hrun : run step (start self fd epoll wc hw mark) acts = some l) (y : Bool) :
    l.received y <+: (l.ends !y).handled.flatMap Prod.snd ∧
      (l.ends y).conn.inputBuffer.readable <:+ l.received y ∧
      (∀ tid, ((l.ends !y).handled ++ (l.ends !y).queuedSends).filter (·.1 = tid) =
        (l.ends !y).sent.filter (·.1 = tid)) ∧
      ((l.ends !y).conn.state ≠ .kDisconnected →
        l.received y ++ l.underway y ++ (l.ends !y).conn.outputBuffer.readable =
          (l.ends !y).handled.flatMap Prod.snd ∧
        (l.ended y = true → ∃ done, done <+: (l.ends !y).handled ∧
          l.received y = done.flatMap Prod.snd)) := by
  have h : Joined l := run_invariant_of (fun _ _ _ hp hl hstep => step_joined hp hl hstep) hsurvive
    (start_joined self fd epoll wc hw mark) hrun
  obtain ⟨hstream, hout⟩ := h.flows !y
  refine ⟨(h.received y).trans hout.out, h.readable y, hstream.order, fun halive => ⟨?_, fun hend => ?_⟩⟩
  · obtain ⟨rest, hrest⟩ := h.received y
    rw [← hstream.bytes halive, underway, ← hrest, List.drop_left]
  · -- all that was written before the connection was shut has been read
    obtain ⟨hshut, hall⟩ := h.ended y hend halive
    obtain ⟨n, more, hn⟩ := List.exists_cons_of_ne_nil hshut
    obtain ⟨hle, done, hdone, htake⟩ := hout.whole halive n (by rw [hn]; rfl)
    have hlen : (l.ends !y).written.length ≤ n := by
      refine of_decide_eq_true (List.all_eq_true.mp (h.accepted !y) n ?_)
      rw [hn]
      exact List.mem_cons_self
    rw [List.take_of_length_le hlen] at htake
    exact ⟨done, hdone, hall.trans htake⟩

/-- One end sends in two parts and shuts down; the other one reads a byte and takes it out,
    then the rest, then the end of the stream. -/
def farewell : List (Bool × Action) :=
  [(true, .connectEstablished []), (false, .connectEstablished []),
   (true, .call loopThread (.send [1, 2, 3] (.ok 1))),
   (false, .handleEvent { epollin := true } { read := .ok [1], readCalls := [.retrieve 1] }),
   (true, .call loopThread .shutdown), (true, .handleEvent { epollout := true } { write := .ok 2 }),
   (false, .handleEvent { epollin := true } { read := .ok [2, 3] }),
   (false, .handleEvent { epollin := true } { read := .ok [] })]

theorem streams_joined_farewell :
    ∃ l, run step (start (fun _ => 1) (fun _ => 3) (fun _ => Epoll.empty) (fun _ => true)
        (fun _ => true) fun _ => 4) farewell = some l ∧
      l.ended false = true ∧ (l.ends true).sent = [(loopThread, [1, 2, 3])] ∧
      (l.ends false).conn.inputBuffer.readable = [2, 3] ∧
      l.received false <+: (l.ends true).handled.flatMap Prod.snd := by
  have hsome : ((run step (start (fun _ => 1) (fun _ => 3) (fun _ => Epoll.empty) (fun _ => true)
      (fun _ => true) fun _ => 4) farewell).map fun l => decide (l.ended false = true ∧
        (l.ends true).sent = [(loopThread, [1, 2, 3])] ∧
        (l.ends false).conn.inputBuffer.readable = [2, 3])) = some true := by
    decide +kernel
  obtain ⟨l, hrun, hend⟩ := Option.map_eq_some_iff.mp hsome
  obtain ⟨hended, hsent, hreadable⟩ := of_decide_eq_true hend
  have hsurvive : ∀ p ∈ farewell, p.2.Survives := by
    simp [farewell, Action.Survives, Call.Survives, WriteResult.Survives]
  refine ⟨l, hrun, hended, hsent, hreadable, ?_⟩
  exact (streams_joined _ _ _ _ _ _ farewell hsurvive l hrun false).1

end Link
end TcpConnection
end Youth.Net
