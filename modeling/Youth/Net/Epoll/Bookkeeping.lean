/-
  Youth.Net.Epoll.Bookkeeping

  The channels of one loop and its poller, over any sequence of the owners' calls.

  Three places hold a channel's registration: its own `m_index`, `m_channelMap` and
  the kernel's interest set.  `bookkeeping_agrees` says that they agree in every state
  that the calls can reach, for any number of channels on distinct descriptors; every
  `epoll_ctl` is then a legal one and no `LOG_FATAL` is reached.

  Agreement does not make a silenced channel an unregistered one: `updateChannel` adds
  a channel it does not have in the kernel's set without a look at its events.
  `silenced_iff_no_idle_update` says when a channel without events is out of the set.
-/

import Youth.Lib.Machine
import Youth.Net.Epoll.Spec

namespace Youth.Net

open Youth.Lib

namespace Channel

open Epoll

/-- The public operations of a channel on its registration. -/
inductive Call
  | enableReading
  | disableReading
  | enableWriting
  | disableWriting
  | disableAll
  | remove
  deriving DecidableEq, Repr

namespace Call

/-- What the call runs. -/
def op : Call → Op
  | .enableReading => Channel.enableReading
  | .disableReading => Channel.disableReading
  | .enableWriting => Channel.enableWriting
  | .disableWriting => Channel.disableWriting
  | .disableAll => Channel.disableAll
  | .remove => Channel.remove

/-- `m_events` after the call. -/
def events (ch : Channel) : Call → Events
  | .enableReading => { ch.events with read := true }
  | .disableReading => { ch.events with read := false }
  | .enableWriting => { ch.events with write := true }
  | .disableWriting => { ch.events with write := false }
  | .disableAll => kNoneEvent
  | .remove => ch.events

/-- `remove` is called within its assertions only; the other calls have none. -/
def Allowed (ch : Channel) (call : Call) : Prop :=
  call = .remove → ch.isNoneEvent = true ∧ ch.index ≠ .kNew

instance (ch : Channel) (call : Call) : Decidable (call.Allowed ch) :=
  inferInstanceAs (Decidable (_ → _))

/-- The operation of the `epoll_ctl` that the call issues, if it issues one. -/
def ctl (ch : Channel) (call : Call) : Option Operation :=
  match call, ch.index with
  | .remove, .kAdded => some .del
  | .remove, _ => none
  | _, .kAdded => if call.events ch = kNoneEvent then some .del else some .mod
  | _, _ => some .add

/-- Every call but `remove` sets the events and updates. -/
theorem op_eq_setEvents {call : Call} (h : call ≠ .remove) :
    call.op = setEvents fun ch => call.events ch := by
  cases call with
  | remove => exact absurd rfl h
  | enableReading => rfl
  | disableReading => rfl
  | enableWriting => rfl
  | disableWriting => rfl
  | disableAll => rfl

@[simp] theorem op_events (call : Call) (ch : Channel) (ep : Epoll) :
    (call.op ch ep).val.1.events = call.events ch := by
  by_cases h : call = .remove
  · subst h
    exact remove_events ch ep
  · rw [op_eq_setEvents h]
    exact setEvents_events _ ch ep

@[simp] theorem op_fd (call : Call) (ch : Channel) (ep : Epoll) :
    (call.op ch ep).val.1.fd = ch.fd := by
  by_cases h : call = .remove
  · subst h
    exact remove_fd ch ep
  · rw [op_eq_setEvents h]
    exact setEvents_fd _ ch ep

/-- The call's effect on the kernel is that of its `epoll_ctl`. -/
theorem op_ctl (call : Call) (ch : Channel) (ep : Epoll) :
    ((call.op ch ep).val.2.kernel, (call.op ch ep).val.2.fatal) =
      match call.ctl ch with
      | some operation =>
        let ep' := ep.update operation { ch with events := call.events ch }
        (ep'.kernel, ep'.fatal)
      | none => (ep.kernel, ep.fatal) := by
  have hupd (map : Nat → Option Nat) (operation : Operation) (ch' : Channel) :
      (({ ep with channelMap := map } : Epoll).update operation ch').kernel =
          (ep.update operation ch').kernel ∧
        (({ ep with channelMap := map } : Epoll).update operation ch').fatal =
          (ep.update operation ch').fatal := by
    unfold Epoll.update
    cases epollCtl ep.kernel operation ch'.fd (ch'.events, ch'.self) with
    | some kernel => exact ⟨rfl, rfl⟩
    | none => by_cases hdel : operation = .del <;> simp [hdel]
  by_cases h : call = .remove
  · subst h
    cases hindex : ch.index with
    | kNew => simp [op, ctl, Channel.remove, removeChannel, hindex]
    | kDeleted => simp [op, ctl, Channel.remove, removeChannel, hindex]
    | kAdded =>
        simp only [op, ctl, Channel.remove, removeChannel, hindex, Checked.val_bind,
          Checked.val_pure, if_true, hupd]
        rfl
  · rw [op_eq_setEvents h]
    cases hindex : ch.index with
    | kNew => simp [setEvents, updateChannel, ctl, hindex, hupd]
    | kDeleted => simp [setEvents, updateChannel, ctl, hindex]
    | kAdded =>
        by_cases hnone : call.events ch = kNoneEvent <;>
          simp [setEvents, updateChannel, ctl, hindex, hnone, isNoneEvent]

/-- A registered channel stays one, and the call neither ends the process nor fails an
    assertion. -/
theorem op_registered {call : Call} {ch : Channel} {ep : Epoll} (h : ep.Registered ch)
    (hallowed : call.Allowed ch) :
    (call.op ch ep).val.2.Registered (call.op ch ep).val.1 ∧
      (call.op ch ep).val.2.fatal = ep.fatal ∧ (call.op ch ep).Ok := by
  by_cases hremove : call = .remove
  · subst hremove
    obtain ⟨hnone, hindex⟩ := hallowed rfl
    obtain ⟨hreg, hfatal⟩ := remove_registered h
    refine ⟨hreg, hfatal, ?_⟩
    unfold Registered at h
    cases hidx : ch.index <;> simp_all [op, Channel.remove, removeChannel]
  · rw [op_eq_setEvents hremove]
    obtain ⟨hreg, hfatal⟩ := setEvents_registered h fun ch => call.events ch
    refine ⟨hreg, hfatal, ?_⟩
    unfold Registered at h
    cases hidx : ch.index with
    | kNew => simp_all [setEvents, updateChannel]
    | kDeleted => simp_all [setEvents, updateChannel]
    | kAdded =>
        by_cases hnone : call.events ch = kNoneEvent <;>
          simp_all [setEvents, updateChannel, isNoneEvent]

theorem op_other (call : Call) (ch : Channel) (ep : Epoll) {fd : Nat} (h : fd ≠ ch.fd) :
    (call.op ch ep).val.2.channelMap fd = ep.channelMap fd ∧
      (call.op ch ep).val.2.kernel fd = ep.kernel fd := by
  by_cases hremove : call = .remove
  · subst hremove
    exact remove_other ch ep h
  · rw [op_eq_setEvents hremove]
    exact setEvents_other _ ch ep h

end Call
end Channel

namespace Epoll

variable {ι : Type} [DecidableEq ι]

/-- The channels of a loop, its poller and the assertions that have failed. -/
structure World (ι : Type) where
  channel : ι → Channel
  epoll : Epoll
  failed : List Assert

/-- New channels at the given addresses and descriptors, and an empty poller. -/
def World.start (address fd : ι → Nat) : World ι :=
  { channel := fun i => { self := address i, fd := fd i }, epoll := Epoll.empty, failed := [] }

/-- A call on one of the channels; `none` for a `remove` outside its assertions. -/
def World.step (w : World ι) (act : ι × Channel.Call) : Option (World ι) :=
  if act.2.Allowed (w.channel act.1) then
    let result := act.2.op (w.channel act.1) w.epoll
    some
      { channel := Function.update w.channel act.1 result.val.1
        epoll := result.val.2
        failed := w.failed ++ result.faults }
  else none

theorem step_eq_some {w w' : World ι} {i : ι} {call : Channel.Call}
    (h : w.step (i, call) = some w') :
    call.Allowed (w.channel i) ∧
      w' =
        { channel := Function.update w.channel i (call.op (w.channel i) w.epoll).val.1
          epoll := (call.op (w.channel i) w.epoll).val.2
          failed := w.failed ++ (call.op (w.channel i) w.epoll).faults } := by
  unfold World.step at h
  split at h
  · rename_i hallowed
    exact ⟨hallowed, (Option.some.inj h).symm⟩
  · cases h

/-- Every channel is registered as its index says, on a descriptor of its own, and nothing
    has failed. -/
structure Agreeing (w : World ι) : Prop where
  registered : ∀ i, w.epoll.Registered (w.channel i)
  distinct : ∀ i j, (w.channel i).fd = (w.channel j).fd → i = j
  alive : w.epoll.fatal = false
  passed : w.failed = []

omit [DecidableEq ι] in
theorem agreeing_start {address fd : ι → Nat} (hfd : ∀ i j, fd i = fd j → i = j) :
    Agreeing (World.start address fd) where
  registered := fun _ => ⟨rfl, rfl⟩
  distinct := hfd
  alive := rfl
  passed := rfl

/-- What a channel knows is untouched by a call on another descriptor. -/
theorem registered_of_other {call : Channel.Call} {ch other : Channel} {ep : Epoll}
    (h : ep.Registered other) (hfd : other.fd ≠ ch.fd) :
    (call.op ch ep).val.2.Registered other := by
  obtain ⟨hmap, hkernel⟩ := call.op_other ch ep hfd
  unfold Registered at h ⊢
  rw [hmap, hkernel]
  exact h

theorem agreeing_step {w w' : World ι} {act : ι × Channel.Call} (hw : Agreeing w)
    (h : w.step act = some w') : Agreeing w' := by
  obtain ⟨i, call⟩ := act
  obtain ⟨hallowed, rfl⟩ := step_eq_some h
  obtain ⟨hreg, hfatal, hok⟩ := Channel.Call.op_registered (hw.registered i) hallowed
  have hfd (j : ι) : (Function.update w.channel i (call.op (w.channel i) w.epoll).val.1 j).fd =
      (w.channel j).fd := by
    by_cases hj : j = i
    · subst hj
      rw [Function.update_self, Channel.Call.op_fd]
    · rw [Function.update_of_ne hj]
  refine ⟨fun j => ?_, fun j k => ?_, ?_, ?_⟩
  · by_cases hj : j = i
    · subst hj
      simp only [Function.update_self]
      exact hreg
    · -- another channel has another descriptor
      simp only [Function.update_of_ne hj]
      exact registered_of_other (hw.registered j) fun heq => hj (hw.distinct j i heq)
  · rw [hfd, hfd]
    exact hw.distinct j k
  · exact hfatal.trans hw.alive
  · show w.failed ++ _ = []
    rw [hw.passed]
    exact hok

theorem agreeing_run {address fd : ι → Nat} (hfd : ∀ i j, fd i = fd j → i = j)
    {acts : List (ι × Channel.Call)} {w : World ι}
    (h : run World.step (World.start address fd) acts = some w) : Agreeing w :=
  run_invariant (fun _ _ _ => agreeing_step) (agreeing_start hfd) h

/-- `epoll_ctl` is legal: `ADD` for an absent descriptor, `MOD` and `DEL` for a present one. -/
def Legal (kernel : Nat → Option (Events × Nat)) (fd : Nat) : Operation → Prop
  | .add => kernel fd = none
  | .mod => kernel fd ≠ none
  | .del => kernel fd ≠ none

theorem legal_of_registered {ep : Epoll} {ch : Channel} (h : ep.Registered ch)
    {call : Channel.Call} {operation : Operation} (hctl : call.ctl ch = some operation) :
    Legal ep.kernel ch.fd operation := by
  unfold Registered at h
  unfold Channel.Call.ctl at hctl
  cases hindex : ch.index with
  | kAdded =>
      simp only [hindex] at h hctl
      have hkernel : ep.kernel ch.fd ≠ none := by simp [h.2]
      cases operation with
      | add => cases call <;> simp at hctl <;> split at hctl <;> cases hctl
      | mod => exact hkernel
      | del => exact hkernel
  | kNew =>
      simp only [hindex] at h hctl
      cases call <;> cases hctl <;> exact h.2
  | kDeleted =>
      simp only [hindex] at h hctl
      cases call <;> cases hctl <;> exact h.2

/-- The index of each channel, the map and the kernel's interest set agree in every state,
    every `epoll_ctl` that a call can issue there is legal, and nothing has failed. -/
theorem bookkeeping_agrees (address fd : ι → Nat) (hfd : ∀ i j, fd i = fd j → i = j)
    (acts : List (ι × Channel.Call)) (w : World ι)
    (h : run World.step (World.start address fd) acts = some w) :
    (∀ i,
      let c := w.channel i
      (w.epoll.channelMap c.fd = some c.self ↔ c.index = .kAdded ∨ c.index = .kDeleted) ∧
      (w.epoll.kernel c.fd ≠ none ↔ c.index = .kAdded) ∧
      (c.index = .kAdded → w.epoll.kernel c.fd = some (c.events, c.self)) ∧
      ∀ (call : Channel.Call) (operation : Operation), call.Allowed c →
        call.ctl c = some operation → Legal w.epoll.kernel c.fd operation) ∧
    w.epoll.fatal = false ∧ w.failed = [] := by
  have hw := agreeing_run hfd h
  refine ⟨fun i => ?_, hw.alive, hw.passed⟩
  have hreg := hw.registered i
  refine ⟨?_, ?_, ?_, fun call operation _ hctl => legal_of_registered hreg hctl⟩
  all_goals
    unfold Registered at hreg
    cases hindex : (w.channel i).index <;> simp_all

/-- Two channels: one is enabled and silenced, the other removed after its events went. -/
theorem bookkeeping_agrees_two :
    ∃ w, run World.step (World.start (fun b => if b then 16 else 32) fun b => if b then 5 else 6)
        [(true, .enableReading), (false, .enableWriting), (true, .disableAll),
          (false, .disableWriting), (false, .remove)] = some w ∧
      (w.channel true).index = .kDeleted ∧ w.epoll.fatal = false ∧ w.failed = [] :=
  ⟨_, rfl, rfl, (bookkeeping_agrees (fun b => if b then 16 else 32) (fun b => if b then 5 else 6)
    (by decide) [(true, .enableReading), (false, .enableWriting), (true, .disableAll),
      (false, .disableWriting), (false, .remove)] _ rfl).2⟩

/-! ## Channels without events -/

/-- The channel is in the kernel's set exactly when it has events. -/
def Silenced (w : World ι) (i : ι) : Prop :=
  w.epoll.kernel (w.channel i).fd ≠ none ↔ (w.channel i).events ≠ kNoneEvent

/-- A call that leaves the channel without events finds it without events. -/
def IdleUpdate (w : World ι) (i : ι) (act : ι × Channel.Call) : Prop :=
  act.1 = i ∧ act.2 ≠ .remove ∧ (w.channel i).events = kNoneEvent ∧
    act.2.events (w.channel i) = kNoneEvent

/-- An update of a channel of its own index: what is in the kernel's set afterwards. -/
theorem kernel_setEvents {ep : Epoll} {ch : Channel} (h : ep.Registered ch)
    {call : Channel.Call} (hcall : call ≠ .remove) :
    (call.op ch ep).val.2.kernel ch.fd ≠ none ↔
      ¬(ch.index = .kAdded ∧ call.events ch = kNoneEvent) := by
  have hallowed : call.Allowed ch := fun heq => absurd heq hcall
  have hreg := (Channel.Call.op_registered h hallowed).1
  rw [Channel.Call.op_eq_setEvents hcall] at hreg ⊢
  cases hindex : ch.index with
  | kNew => simp_all [Registered, Channel.setEvents, updateChannel]
  | kDeleted => simp_all [Registered, Channel.setEvents, updateChannel]
  | kAdded =>
      by_cases hnone : call.events ch = kNoneEvent <;>
        simp_all [Registered, Channel.setEvents, updateChannel, Channel.isNoneEvent]

/-- A registered channel is in the kernel's set exactly when its index is `kAdded`. -/
theorem kernel_ne_none_iff {ep : Epoll} {ch : Channel} (h : ep.Registered ch) :
    ep.kernel ch.fd ≠ none ↔ ch.index = .kAdded := by
  unfold Registered at h
  cases hindex : ch.index <;> simp_all

/-- From a state where the channel is in the set exactly when it has events, one call keeps
    it so unless it is an idle update. -/
theorem silenced_step {w w' : World ι} {i : ι} {act : ι × Channel.Call} (hw : Agreeing w)
    (hi : Silenced w i) (h : w.step act = some w') : Silenced w' i ↔ ¬IdleUpdate w i act := by
  obtain ⟨j, call⟩ := act
  obtain ⟨hallowed, rfl⟩ := step_eq_some h
  have hindex := kernel_ne_none_iff (hw.registered i)
  by_cases hj : j = i
  · subst hj
    simp only [Silenced, IdleUpdate, Function.update_self, Channel.Call.op_fd,
      Channel.Call.op_events, true_and]
    by_cases hremove : call = .remove
    · -- removed within its assertions: no events, and out of the set
      subst hremove
      obtain ⟨hnone, -⟩ := hallowed rfl
      have hout := (Channel.remove_absent (hw.registered j)).2
      have hevents : (w.channel j).events = kNoneEvent := by
        simpa [Channel.isNoneEvent] using hnone
      simp [Channel.Call.op, Channel.Call.events, hout, hevents]
    · rw [kernel_setEvents (hw.registered j) hremove]
      have hadded : (w.channel j).index = .kAdded ↔ (w.channel j).events ≠ kNoneEvent :=
        hindex.symm.trans hi
      rw [hadded]
      by_cases hold : (w.channel j).events = kNoneEvent <;>
        by_cases hnew : call.events (w.channel j) = kNoneEvent <;> simp [hremove, hold, hnew]
  · -- a call on another channel leaves the entry alone
    have hne : i ≠ j := fun heq => hj heq.symm
    have hfd : (w.channel i).fd ≠ (w.channel j).fd := fun heq => hne (hw.distinct i j heq)
    have hkernel := (call.op_other (w.channel j) w.epoll hfd).2
    simp only [Silenced, IdleUpdate, Function.update_of_ne hne, hkernel]
    exact ⟨fun _ hidle => hj hidle.1, fun _ => hi⟩

/-- After each call the channel is in the kernel's set exactly when it has events, as long as
    no call leaves the channel without events that had none, and only so. -/
theorem silenced_iff_no_idle_update (address fd : ι → Nat) (hfd : ∀ i j, fd i = fd j → i = j)
    (acts : List (ι × Channel.Call)) (w : World ι)
    (h : run World.step (World.start address fd) acts = some w) (i : ι) :
    Along World.step (fun w act => ∀ w', w.step act = some w' → Silenced w' i)
        (World.start address fd) acts ↔
      Along World.step (fun w act => ¬IdleUpdate w i act) (World.start address fd) acts := by
  have hstart : Agreeing (World.start address fd) ∧ Silenced (World.start address fd) i :=
    ⟨agreeing_start hfd, by simp [Silenced, World.start, Epoll.empty]⟩
  constructor
  · apply along_of_along (I := fun w => Agreeing w ∧ Silenced w i) _ hstart h
    intro w act w' hw hafter hstep
    have hw' := hafter w' hstep
    exact ⟨(silenced_step hw.1 hw.2 hstep).mp hw', agreeing_step hw.1 hstep, hw'⟩
  · apply along_of_along (I := fun w => Agreeing w ∧ Silenced w i) _ hstart h
    intro w act w' hw hidle hstep
    have hw' := (silenced_step hw.1 hw.2 hstep).mpr hidle
    refine ⟨fun u hu => ?_, agreeing_step hw.1 hstep, hw'⟩
    rw [hstep] at hu
    cases hu
    exact hw'

/-- Enabled, then silenced once: out of the set. -/
theorem silenced_iff_no_idle_update_once :
    Along World.step (fun w act => ∀ w', w.step act = some w' → Silenced w' ())
      (World.start (fun _ => 16) fun _ => 5) [((), .enableReading), ((), .disableAll)] :=
  (silenced_iff_no_idle_update (fun _ => 16) (fun _ => 5) (fun _ _ _ => rfl)
    [((), .enableReading), ((), .disableAll)] _ rfl ()).mpr (by
      refine ⟨fun hidle => absurd hidle.2.2.2 (by decide), fun w hw => ⟨fun hidle => ?_, fun _ _ => trivial⟩⟩
      cases hw
      exact absurd hidle.2.2.1 (by decide))

/-- A new channel that is disabled is added to the kernel's set. -/
theorem disableAll_registers_new :
    ∃ w, run World.step (World.start (fun _ => 16) fun _ => 5) [((), .disableAll)] = some w ∧
      (w.channel ()).events = kNoneEvent ∧ w.epoll.kernel 5 = some (kNoneEvent, 16) ∧
      ¬Silenced w () := by
  refine ⟨_, rfl, rfl, rfl, fun hsilenced => ?_⟩
  exact hsilenced.mp (by intro hout; cases hout) rfl

end Epoll
end Youth.Net
