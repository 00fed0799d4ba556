/-
  Youth.Net.Epoll.Spec

  What the channel operations do to the channel and to the poller's entry for its
  descriptor.

  `Registered ep ch` ties the three places together that must agree on a channel:
  its `m_index`, the map and the kernel's interest set.  Every operation keeps it
  (`setEvents_registered`, `remove_registered`), so no `epoll_ctl` fails.
-/

import Youth.Net.Epoll.Basic

namespace Youth.Net

open Youth.Lib

namespace Epoll

/-- The poller agrees with the channel's own idea of its registration. -/
def Registered (ep : Epoll) (ch : Channel) : Prop :=
  match ch.index with
  | .kNew => ep.channelMap ch.fd = none ∧ ep.kernel ch.fd = none
  | .kAdded => ep.channelMap ch.fd = some ch.self ∧ ep.kernel ch.fd = some (ch.events, ch.self)
  | .kDeleted => ep.channelMap ch.fd = some ch.self ∧ ep.kernel ch.fd = none

end Epoll

namespace Channel

open Epoll

variable {ch : Channel} {ep : Epoll}

/-! ## The channel -/

@[simp] theorem updateChannel_events (ch : Channel) (ep : Epoll) :
    (ep.updateChannel ch).val.1.events = ch.events := by
  unfold Epoll.updateChannel
  cases ch.index with
  | kNew => rfl
  | kDeleted => rfl
  | kAdded =>
      simp only [Checked.val_bind, Checked.val_ite, Checked.val_pure]
      split <;> rfl

@[simp] theorem updateChannel_fd (ch : Channel) (ep : Epoll) :
    (ep.updateChannel ch).val.1.fd = ch.fd := by
  unfold Epoll.updateChannel
  cases ch.index with
  | kNew => rfl
  | kDeleted => rfl
  | kAdded =>
      simp only [Checked.val_bind, Checked.val_ite, Checked.val_pure]
      split <;> rfl

/-- An update makes a channel with events an added one. -/
theorem updateChannel_index (h : ch.isNoneEvent = false) :
    (ep.updateChannel ch).val.1.index = .kAdded := by
  unfold Epoll.updateChannel
  cases hindex : ch.index with
  | kNew => rfl
  | kDeleted => rfl
  | kAdded => simp [h, hindex]

@[simp] theorem setEvents_events (events : Channel → Events) (ch : Channel) (ep : Epoll) :
    (setEvents events ch ep).val.1.events = events ch :=
  updateChannel_events _ ep

@[simp] theorem setEvents_fd (events : Channel → Events) (ch : Channel) (ep : Epoll) :
    (setEvents events ch ep).val.1.fd = ch.fd :=
  updateChannel_fd _ ep

@[simp] theorem remove_events (ch : Channel) (ep : Epoll) :
    (ch.remove ep).val.1.events = ch.events := rfl

@[simp] theorem remove_fd (ch : Channel) (ep : Epoll) : (ch.remove ep).val.1.fd = ch.fd := rfl

@[simp] theorem remove_index (ch : Channel) (ep : Epoll) :
    (ch.remove ep).val.1.index = .kNew := rfl

/-! ## The poller -/

/-- Changing the events and updating: the entry follows, and no `epoll_ctl` fails. -/
theorem setEvents_registered (h : ep.Registered ch) (events : Channel → Events) :
    (setEvents events ch ep).val.2.Registered (setEvents events ch ep).val.1 ∧
      (setEvents events ch ep).val.2.fatal = ep.fatal := by
  unfold Epoll.Registered at h
  cases hindex : ch.index with
  | kNew =>
      simp only [hindex] at h
      simp [setEvents, updateChannel, hindex, Registered, Epoll.update, epollCtl, h]
  | kDeleted =>
      simp only [hindex] at h
      simp [setEvents, updateChannel, hindex, Registered, Epoll.update, epollCtl, h]
  | kAdded =>
      simp only [hindex] at h
      by_cases hnone : events ch = kNoneEvent
      · -- no events left: deleted in the kernel, kept in the map
        simp [setEvents, updateChannel, hindex, Registered, Epoll.update, epollCtl, h, hnone,
          isNoneEvent]
      · simp [setEvents, updateChannel, hindex, Registered, Epoll.update, epollCtl, h, hnone,
          isNoneEvent]

/-- Removing: the descriptor is in neither place any more. -/
theorem remove_registered (h : ep.Registered ch) :
    (ch.remove ep).val.2.Registered (ch.remove ep).val.1 ∧
      (ch.remove ep).val.2.fatal = ep.fatal := by
  unfold Epoll.Registered at h
  cases hindex : ch.index with
  | kNew =>
      simp only [hindex] at h
      simp [remove, removeChannel, Registered, hindex, h]
  | kDeleted =>
      simp only [hindex] at h
      simp [remove, removeChannel, Registered, hindex, h]
  | kAdded =>
      simp only [hindex] at h
      simp [remove, removeChannel, Registered, hindex, Epoll.update, epollCtl, h]

theorem update_other (ep : Epoll) (operation : Operation) (ch : Channel) {fd : Nat}
    (h : fd ≠ ch.fd) :
    (ep.update operation ch).channelMap = ep.channelMap ∧
      (ep.update operation ch).kernel fd = ep.kernel fd := by
  unfold Epoll.update epollCtl
  cases operation <;> cases ep.kernel ch.fd <;> simp [h]

/-- The entries of other descriptors stay as they are. -/
theorem setEvents_other (events : Channel → Events) (ch : Channel) (ep : Epoll) {fd : Nat}
    (h : fd ≠ ch.fd) :
    (setEvents events ch ep).val.2.channelMap fd = ep.channelMap fd ∧
      (setEvents events ch ep).val.2.kernel fd = ep.kernel fd := by
  have hupd (ep : Epoll) (operation : Operation) (ch' : Channel) (hfd : ch'.fd = ch.fd) :
      (ep.update operation ch').channelMap = ep.channelMap ∧
        (ep.update operation ch').kernel fd = ep.kernel fd :=
    update_other ep operation ch' (by rw [hfd]; exact h)
  unfold setEvents updateChannel
  cases ch.index with
  | kNew => simp [hupd, h]
  | kDeleted => simp [hupd]
  | kAdded =>
      simp only [Checked.val_bind, Checked.val_ite, Checked.val_pure]
      split <;> simp [hupd]

theorem remove_other (ch : Channel) (ep : Epoll) {fd : Nat} (h : fd ≠ ch.fd) :
    (ch.remove ep).val.2.channelMap fd = ep.channelMap fd ∧
      (ch.remove ep).val.2.kernel fd = ep.kernel fd := by
  have hupd (ep : Epoll) := update_other ep .del ch h
  simp only [remove, removeChannel, Checked.val_bind, Checked.val_pure]
  split <;> simp [hupd, h]

/-- A channel that an update leaves out of the added ones has no entry in the kernel. -/
theorem setEvents_unadded (events : Channel → Events)
    (hindex : (setEvents events ch ep).val.1.index ≠ .kAdded) :
    (setEvents events ch ep).val.2.kernel (setEvents events ch ep).val.1.fd = none := by
  cases hold : ch.index with
  | kNew => simp [setEvents, updateChannel, hold] at hindex
  | kDeleted => simp [setEvents, updateChannel, hold] at hindex
  | kAdded =>
      by_cases hnone : events ch = kNoneEvent
      · -- no events left: the entry is deleted, if there was one
        cases hkernel : ep.kernel ch.fd <;>
          simp [setEvents, updateChannel, hold, isNoneEvent, hnone, Epoll.update, epollCtl, hkernel]
      · simp [setEvents, updateChannel, hold, isNoneEvent, hnone] at hindex

theorem remove_unadded (h : ch.index ≠ .kAdded → ep.kernel ch.fd = none) :
    (ch.remove ep).val.2.kernel (ch.remove ep).val.1.fd = none := by
  by_cases hindex : ch.index = .kAdded
  · cases hkernel : ep.kernel ch.fd <;>
      simp [remove, removeChannel, hindex, Epoll.update, epollCtl, hkernel]
  · simp [remove, removeChannel, hindex, h hindex]

/-- After `remove` the descriptor is out of the map and out of the kernel's set. -/
theorem remove_absent (h : ep.Registered ch) :
    (ch.remove ep).val.2.channelMap ch.fd = none ∧ (ch.remove ep).val.2.kernel ch.fd = none := by
  have hreg := (remove_registered h).1
  simpa only [Registered, remove_index, remove_fd] using hreg

end Channel
end Youth.Net
