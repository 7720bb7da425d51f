import TwinServices.Lib.Transition
import Mathlib.Data.List.Destutter

/-!
# Delivery at least once

A channel that keeps what was sent in order and delivers everything at least once. The receiver
acknowledges what it got, in order; what is delivered and not acknowledged may be delivered again
when a connection is lost, a run of it at a time and in its order.

* `merge`: a list with adjacent equal elements merged.
* `Channel`, `step`: the channel and what can happen to it.
* `merged_throughout_iff`: a receiver that reads what it gets receives, up to adjacent repetitions,
  what was sent exactly when everything is readable and nothing but the newest element is ever
  delivered again.
-/

set_option autoImplicit false

namespace Lib.AtLeastOnce

open Lib.Transition

/-! ## Merging adjacent equal elements -/

section merge

variable {α : Type*} [DecidableEq α]

/-- A list with adjacent equal elements merged. -/
def merge (l : List α) : List α := l.destutter (· ≠ ·)

/-- Merging from an element on, with one more element at the end. -/
theorem destutter'_concat (a x : α) (l : List α) :
    (l ++ [x]).destutter' (· ≠ ·) a =
      if (a :: l).getLast? = some x then l.destutter' (· ≠ ·) a
      else l.destutter' (· ≠ ·) a ++ [x] := by
  induction l generalizing a with
  | nil =>
      by_cases h : a = x
      · simp [h]
      · simp [h]
  | cons b l ih =>
      rw [List.cons_append, List.getLast?_cons_cons]
      by_cases h : a = b
      · subst h
        rw [List.destutter'_cons_neg _ (not_not.mpr rfl),
          List.destutter'_cons_neg _ (not_not.mpr rfl)]
        exact ih a
      · rw [List.destutter'_cons_pos _ h, List.destutter'_cons_pos _ h, ih b]
        split_ifs <;> rfl

/-- One more element at the end is merged with the last one if they are equal. -/
theorem merge_concat (l : List α) (x : α) :
    merge (l ++ [x]) = if l.getLast? = some x then merge l else merge l ++ [x] := by
  cases l with
  | nil => rfl
  | cons a l => exact destutter'_concat a x l

/-- Merging keeps the last element. -/
theorem getLast?_merge (l : List α) : (merge l).getLast? = l.getLast? := by
  induction l using List.reverseRecOn with
  | nil => rfl
  | append_singleton l x ih =>
      rw [merge_concat, List.getLast?_concat]
      split_ifs with h
      · rw [ih, h]
      · exact List.getLast?_concat

/-- More elements do not make the merged list shorter. -/
theorem length_merge_append (l m : List α) : (merge l).length ≤ (merge (l ++ m)).length := by
  induction m using List.reverseRecOn with
  | nil => rw [List.append_nil]
  | append_singleton m x ih =>
      rw [← List.append_assoc, merge_concat]
      split_ifs
      · exact ih
      · rw [List.length_append]
        omega

/-- More elements leave the merged list as it is exactly when all of them equal its last one. -/
theorem merge_append_eq_iff (l m : List α) :
    merge (l ++ m) = merge l ↔ ∀ x ∈ m, l.getLast? = some x := by
  induction m generalizing l with
  | nil => simp
  | cons x m ih =>
      rw [← List.singleton_append, ← List.append_assoc]
      by_cases h : l.getLast? = some x
      · have hmerge : merge (l ++ [x]) = merge l := by rw [merge_concat, if_pos h]
        have hlast : (l ++ [x]).getLast? = l.getLast? := by rw [List.getLast?_concat, h]
        rw [← hmerge, ih (l ++ [x]), hlast]
        simp [h]
      · constructor
        · intro heq
          have hlen := length_merge_append (l ++ [x]) m
          rw [heq, merge_concat, if_neg h, List.length_append, List.length_singleton] at hlen
          omega
        · exact fun hall => absurd (hall x (by simp)) h

end merge

/-! ## The channel -/

section channel

variable {α : Type*}

/-- A channel: what was sent, how much of it was acknowledged and how much was delivered, and all
deliveries in order. -/
structure Channel (α : Type*) where
  sent : List α
  acked : ℕ
  delivered : ℕ
  received : List α

/-- A channel before anything is sent. -/
def Channel.empty : Channel α := ⟨[], 0, 0, []⟩

/-- What can happen to a channel. -/
inductive Event (α : Type*)
  | send (x : α)
  /-- The next element is delivered for the first time. -/
  | deliver
  /-- The oldest unacknowledged delivery is acknowledged. -/
  | ack
  /-- The elements from `i` on and before `j` are delivered again. -/
  | redeliver (i j : ℕ)

/-- One event, where it can happen. -/
def step (s : Channel α) : Event α → Option (Channel α)
  | .send x => some { s with sent := s.sent ++ [x] }
  | .deliver =>
      s.sent[s.delivered]?.map fun x =>
        { s with delivered := s.delivered + 1, received := s.received ++ [x] }
  | .ack => if s.acked < s.delivered then some { s with acked := s.acked + 1 } else none
  | .redeliver i j =>
      if s.acked ≤ i ∧ i < j ∧ j ≤ s.delivered then
        some { s with received := s.received ++ (s.sent.take j).drop i }
      else none

/-- What was delivered at least once, in the order in which it was sent. -/
def Channel.first (s : Channel α) : List α := s.sent.take s.delivered

/-- No more is delivered than was sent. -/
def Channel.Bounded (s : Channel α) : Prop := s.delivered ≤ s.sent.length

/-- No step delivers what was not sent. -/
theorem Channel.Bounded.step {s t : Channel α} {e : Event α} (hs : s.Bounded)
    (h : step s e = some t) : t.Bounded := by
  unfold Channel.Bounded at hs ⊢
  cases e with
  | send x =>
      obtain rfl := Option.some.inj h
      have hlen : s.sent.length ≤ (s.sent ++ [x]).length := by
        rw [List.length_append]
        omega
      exact hs.trans hlen
  | deliver =>
      obtain ⟨x, hx, rfl⟩ := Option.map_eq_some_iff.mp h
      obtain ⟨hlt, -⟩ := List.getElem?_eq_some_iff.mp hx
      exact hlt
  | ack =>
      simp only [AtLeastOnce.step] at h
      split_ifs at h
      obtain rfl := Option.some.inj h
      exact hs
  | redeliver i j =>
      simp only [AtLeastOnce.step] at h
      split_ifs at h
      obtain rfl := Option.some.inj h
      exact hs

/-- What each event does: nothing to what was delivered and received, a first delivery, or the
delivery of a part of what was delivered before. -/
theorem step_cases {s t : Channel α} {e : Event α} (hs : s.Bounded) (h : step s e = some t) :
    ((∀ i j, e ≠ .redeliver i j) ∧ e ≠ .deliver ∧ t.first = s.first ∧ t.received = s.received) ∨
    (∃ x, e = .deliver ∧ s.sent[s.delivered]? = some x ∧ t.first = s.first ++ [x] ∧
      t.received = s.received ++ [x]) ∨
    ∃ i j, e = .redeliver i j ∧ (s.sent.take j).drop i ⊆ s.first ∧ t.first = s.first ∧
      t.received = s.received ++ (s.sent.take j).drop i := by
  cases e with
  | send x =>
      obtain rfl := Option.some.inj h
      exact Or.inl ⟨by simp, by simp, List.take_append_of_le_length hs, rfl⟩
  | deliver =>
      obtain ⟨x, hx, rfl⟩ := Option.map_eq_some_iff.mp h
      refine Or.inr (Or.inl ⟨x, rfl, hx, ?_, rfl⟩)
      unfold Channel.first
      rw [List.take_add_one, hx, Option.toList_some]
  | ack =>
      simp only [step] at h
      split_ifs at h
      obtain rfl := Option.some.inj h
      exact Or.inl ⟨by simp, by simp, rfl, rfl⟩
  | redeliver i j =>
      simp only [step] at h
      split_ifs at h with hrun
      obtain rfl := Option.some.inj h
      refine Or.inr (Or.inr ⟨i, j, rfl, fun x hx => ?_, rfl, rfl⟩)
      exact (List.take_prefix_take_left hrun.2.2).subset (List.mem_of_mem_drop hx)

end channel

/-! ## What a reader receives -/

section reader

variable {α : Type*} [DecidableEq α] (read : α → Option α)

/-- Up to adjacent repetitions, what the reader got is what was delivered for the first time. -/
def Merged (s : Channel α) : Prop := merge (s.received.filterMap read) = merge s.first

/-- The reader reads everything that was delivered. -/
def Readable (s : Channel α) : Prop := ∀ x ∈ s.first, read x = some x

/-- A new element is readable, and nothing but the newest element is delivered again. -/
def Harmless (s : Channel α) : Event α → Prop
  | .deliver => ∀ x ∈ s.sent[s.delivered]?, read x = some x
  | .redeliver i j => ∀ x ∈ (s.sent.take j).drop i, s.first.getLast? = some x
  | _ => True

variable {read}

omit [DecidableEq α] in
/-- Readable messages are all read. -/
theorem filterMap_of_readable {l : List α} (h : ∀ x ∈ l, read x = some x) :
    l.filterMap read = l := by
  induction l with
  | nil => rfl
  | cons x l ih =>
      obtain ⟨hx, hl⟩ := List.forall_mem_cons.mp h
      rw [List.filterMap_cons_some hx, ih hl]

/-- Where the two agree, the last element read is the newest. -/
theorem Merged.getLast? {s : Channel α} (h : Merged read s) :
    (s.received.filterMap read).getLast? = s.first.getLast? := by
  rw [← getLast?_merge, h, getLast?_merge]

/-- One step keeps the two in agreement exactly when it is harmless, and then everything delivered
stays readable. -/
theorem merged_step (hread : ∀ x y, read x = some y → y = x) {s t : Channel α} {e : Event α}
    (hmerged : Merged read s) (hreadable : Readable read s) (hbounded : s.Bounded)
    (h : step s e = some t) :
    (Merged read t ↔ Harmless read s e) ∧ (Harmless read s e → Readable read t) := by
  have hlast := hmerged.getLast?
  unfold Merged at hmerged ⊢
  unfold Readable at hreadable ⊢
  rcases step_cases hbounded h with ⟨hredeliver, hdeliver, hfirst, hreceived⟩ |
    ⟨x, rfl, hx, hfirst, hreceived⟩ | ⟨i, j, rfl, hsub, hfirst, hreceived⟩
  · have hharmless : Harmless read s e := by
      cases e with
      | send x => trivial
      | deliver => exact absurd rfl hdeliver
      | ack => trivial
      | redeliver i j => exact absurd rfl (hredeliver i j)
    rw [hfirst, hreceived]
    exact ⟨iff_of_true hmerged hharmless, fun _ => hreadable⟩
  · simp only [Harmless, hx, Option.mem_def, Option.some.injEq, forall_eq']
    rw [hfirst, hreceived, List.filterMap_append]
    rcases hreadx : read x with _ | y
    · -- an unreadable element is missing, as it is not the last one
      rw [List.filterMap_cons_none hreadx, List.filterMap_nil, List.append_nil, hmerged]
      refine ⟨iff_of_false ?_ (by simp), fun hx => absurd hx (by simp)⟩
      intro heq
      have hnewest := (merge_append_eq_iff s.first [x]).mp heq.symm x (List.mem_singleton_self x)
      have := hreadable x (List.mem_of_getLast? hnewest)
      rw [hreadx] at this
      cases this
    · obtain rfl := hread x y hreadx
      rw [List.filterMap_cons_some hreadx, List.filterMap_nil, merge_concat, merge_concat, hlast,
        hmerged]
      refine ⟨iff_of_true rfl rfl, fun _ => ?_⟩
      rw [List.forall_mem_append, List.forall_mem_singleton]
      exact ⟨hreadable, hreadx⟩
  · rw [hfirst, hreceived, List.filterMap_append,
      filterMap_of_readable fun x hx => hreadable x (hsub hx), ← hmerged, merge_append_eq_iff,
      hlast]
    exact ⟨Iff.rfl, fun _ => hreadable⟩

/-- **Delivery at least once, read in order.** In every run, what a reader gets is what was
delivered for the first time, up to adjacent repetitions, in every state exactly when all new
elements are readable and nothing but the newest element is ever delivered again. -/
theorem merged_throughout_iff (hread : ∀ x y, read x = some y → y = x) {l : List (Event α)}
    {s : Channel α} (h : Run step Channel.empty l s) :
    Throughout step Channel.empty (Merged read) l ↔
      AlongSteps step Channel.empty (Harmless read) l := by
  apply h.throughout_iff_of_inv (J := fun s => Readable read s ∧ s.Bounded)
  · rfl
  · exact ⟨fun x hx => absurd hx (by simp [Channel.first, Channel.empty]), Nat.le_refl 0⟩
  · exact fun _ s e t _ hmerged hinv hstep => (merged_step hread hmerged hinv.1 hinv.2 hstep).1
  · exact fun _ s e t _ hmerged hinv hstep hharmless =>
      ⟨(merged_step hread hmerged hinv.1 hinv.2 hstep).2 hharmless, hinv.2.step hstep⟩

end reader

end Lib.AtLeastOnce
