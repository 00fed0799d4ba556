/-
  Youth.Lib.Feed

  A loop over a stream that arrives in chunks.

  The state of the loop is the input it has not read.  `feed` puts each chunk behind it
  and runs the loop again.  A turn that is `PrefixDecided` takes the same step, or gives
  the same verdict, with more input behind it; only a turn without a verdict waits for
  more.  Then what the loop reads does not depend on the cut (`feed_eq`): the events
  before the verdict are those of one run over the whole stream, and the verdict, once
  there, is given again at every further chunk.
-/

import Youth.Lib.Loop

namespace Youth.Lib

variable {β ε : Type}

/-- The loop runs after each chunk. -/
def feed (turn : List β → Turn ε (List β)) : List β → List (List β) → Option (List ε × List β)
  | xs, [] => some ([], xs)
  | xs, chunk :: chunks =>
    (loop turn ((xs ++ chunk).length + 1) (xs ++ chunk)).bind fun p =>
      (feed turn p.2 chunks).map fun q => (p.1 ++ q.1, q.2)

/-- More input changes neither a step nor a verdict; a turn that stops reads nothing. -/
structure PrefixDecided (turn : List β → Turn ε (List β)) : Prop where
  next : ∀ {xs ys events}, turn xs = .next events ys →
    ys.length < xs.length ∧ ∀ more, turn (xs ++ more) = .next events (ys ++ more)
  stop : ∀ {xs ys events}, turn xs = .stop events ys →
    ys = xs ∧ (events ≠ [] → ∀ more, turn (xs ++ more) = .stop events (xs ++ more))

/-- The loop reads from `xs` with the events `events` up to `ys`, where it gives `verdict`. -/
inductive Reads (turn : List β → Turn ε (List β)) : List β → List ε → List ε → List β → Prop
  | stop {xs : List β} {verdict : List ε} :
      turn xs = .stop verdict xs → Reads turn xs [] verdict xs
  | next {xs ys zs : List β} {events rest verdict : List ε} :
      turn xs = .next events ys → Reads turn ys rest verdict zs →
        Reads turn xs (events ++ rest) verdict zs

section Reads

variable {turn : List β → Turn ε (List β)} {xs ys zs : List β} {events verdict : List ε}

theorem Reads.loops (h : Reads turn xs events verdict ys) : Loops turn xs (events ++ verdict) ys := by
  induction h with
  | stop hturn => exact .stop hturn
  | next hturn _ ih =>
      rw [List.append_assoc]
      exact .next hturn ih

/-- Where it stops, it gives its verdict. -/
theorem Reads.rests (h : Reads turn xs events verdict ys) : turn ys = .stop verdict ys := by
  induction h with
  | stop hturn => exact hturn
  | next _ _ ih => exact ih

theorem Reads.unique {events' verdict' : List ε} (h : Reads turn xs events verdict ys)
    (h' : Reads turn xs events' verdict' zs) : events = events' ∧ verdict = verdict' ∧ ys = zs := by
  induction h generalizing events' with
  | stop hturn =>
      cases h' with
      | stop hturn' =>
          rw [hturn] at hturn'
          cases hturn'
          exact ⟨rfl, rfl, rfl⟩
      | next hturn' _ =>
          rw [hturn] at hturn'
          cases hturn'
  | next hturn _ ih =>
      cases h' with
      | stop hturn' =>
          rw [hturn] at hturn'
          cases hturn'
      | next hturn' hrest =>
          rw [hturn] at hturn'
          cases hturn'
          obtain ⟨rfl, hverdict, hend⟩ := ih hrest
          exact ⟨rfl, hverdict, hend⟩

variable (hturn : PrefixDecided turn)

include hturn

theorem exists_reads (xs : List β) : ∃ events verdict ys, Reads turn xs events verdict ys := by
  -- Over the length of the input: a turn that goes on has read some of it
  induction hn : xs.length using Nat.strongRecOn generalizing xs with
  | ind n ih =>
      rcases hxs : turn xs with ⟨verdict, ys⟩ | ⟨made, ys⟩
      · obtain ⟨rfl, -⟩ := hturn.stop hxs
        exact ⟨[], verdict, ys, .stop hxs⟩
      · obtain ⟨hlt, -⟩ := hturn.next hxs
        obtain ⟨events, verdict, zs, hzs⟩ := ih ys.length (hn ▸ hlt) ys rfl
        exact ⟨made ++ events, verdict, zs, .next hxs hzs⟩

/-- With more input behind it the loop comes to the same place, and goes on from there. -/
theorem Reads.append {more : List β} {events' verdict' : List ε}
    (h : Reads turn xs events verdict ys) (h' : Reads turn (ys ++ more) events' verdict' zs) :
    Reads turn (xs ++ more) (events ++ events') verdict' zs := by
  induction h with
  | stop _ => exact h'
  | next hxs _ ih =>
      rw [List.append_assoc]
      exact .next ((hturn.next hxs).2 more) (ih h')

/-- A verdict stays, whatever comes behind it. -/
theorem Reads.append_decided (h : Reads turn xs events verdict ys) (hne : verdict ≠ [])
    (more : List β) : Reads turn (xs ++ more) events verdict (ys ++ more) := by
  have hstop := (hturn.stop h.rests).2 hne more
  have happ := h.append hturn (.stop hstop)
  rw [List.append_nil] at happ
  exact happ

/-- The fuel of `feed` is enough. -/
theorem Reads.loop_eq (h : Reads turn xs events verdict ys) :
    loop turn (xs.length + 1) xs = some (events ++ verdict, ys) :=
  loop_of_loops (I := fun _ => True) (m := List.length)
    (fun _ _ _ _ hnext => ⟨trivial, (hturn.next hnext).1⟩) h.loops trivial (Nat.lt_succ_self _)

/-- Behind a verdict nothing is read. -/
theorem feed_decided (hxs : turn xs = .stop verdict xs) (hne : verdict ≠ [])
    (chunks : List (List β)) :
    feed turn xs chunks =
      some ((List.replicate chunks.length verdict).flatten, xs ++ chunks.flatten) := by
  induction chunks generalizing xs with
  | nil => simp [feed]
  | cons chunk chunks ih =>
      have hstop := (hturn.stop hxs).2 hne chunk
      rw [feed, loop_stop hstop, Option.bind_some, ih hstop]
      simp [List.replicate_succ]

/-- However the stream is cut, the loop reads the same and comes to the same verdict. -/
theorem feed_eq (hxs : turn xs = .stop [] xs) {chunks : List (List β)}
    (h : Reads turn (xs ++ chunks.flatten) events verdict ys) :
    ∃ n zs, feed turn xs chunks = some (events ++ (List.replicate n verdict).flatten, zs) ∧
      (verdict ≠ [] → 0 < n) := by
  -- Over the chunks; the loop waits before each until it gives a verdict
  induction chunks generalizing xs events with
  | nil =>
      rw [List.flatten_nil, List.append_nil] at h
      obtain ⟨rfl, rfl, rfl⟩ := h.unique (.stop hxs)
      exact ⟨0, ys, rfl, fun hne => absurd rfl hne⟩
  | cons chunk chunks ih =>
      rw [List.flatten_cons, ← List.append_assoc] at h
      obtain ⟨events1, verdict1, ys1, h1⟩ := exists_reads hturn (xs ++ chunk)
      rw [feed, h1.loop_eq hturn, Option.bind_some]
      by_cases hwait : verdict1 = []
      · subst hwait
        obtain ⟨events2, verdict2, ys2, h2⟩ := exists_reads hturn (ys1 ++ chunks.flatten)
        obtain ⟨rfl, rfl, rfl⟩ := h.unique (h1.append hturn h2)
        obtain ⟨n, zs, hfeed, hpos⟩ := ih h1.rests h2
        refine ⟨n, zs, ?_, hpos⟩
        rw [hfeed]
        simp
      · obtain ⟨rfl, rfl, -⟩ := h.unique (h1.append_decided hturn hwait chunks.flatten)
        refine ⟨chunks.length + 1, ys1 ++ chunks.flatten, ?_, fun _ => Nat.succ_pos _⟩
        rw [feed_decided hturn h1.rests hwait]
        simp [List.replicate_succ]

end Reads

end Youth.Lib
