import Mathlib.Algebra.Order.Group.Defs
import Mathlib.Algebra.Order.Group.Unbundled.Basic
import Mathlib.Data.List.Chain
import Mathlib.Tactic.Abel

/-!
# A rate limiter that skips

A loop over timed items that keeps an item unless it comes sooner after the last one it kept than an
interval.

* `spaced`: what it keeps; `spaced_concat`, `lastTime_concat`: one more item.
* `isChain_not_lt_spaced`: what it keeps does not come too soon after what it kept before.
* `isChain_spaced_of_gap`: where the items are never more than a gap apart, what it keeps is never
  more than an interval and a gap apart, and the last item no more behind the last one kept; the
  times of the test may be rounded.
* `spaced_eq_self`: where no item comes too soon it keeps all.
-/

set_option autoImplicit false

namespace Lib.RateLimit

variable {α : Type*}

/-! ## The loop -/

section loop

variable {T : Type*} [Sub T] [LT T] [DecidableLT T] (time : α → T) (interval : T)

/-- The items that are kept, after one that was kept at `last`. -/
def spaced : T → List α → List α
  | _, [] => []
  | last, x :: l => if time x - last < interval then spaced last l else x :: spaced (time x) l

/-- The time of the last item that is kept. -/
def lastTime : T → List α → T
  | last, [] => last
  | last, x :: l => if time x - last < interval then lastTime last l else lastTime (time x) l

/-- What is let through is a sublist of what came. -/
theorem spaced_sublist (last : T) (l : List α) : (spaced time interval last l).Sublist l := by
  induction l generalizing last with
  | nil => exact .slnil
  | cons x l ih =>
      rw [spaced]
      split_ifs
      · exact (ih last).cons x
      · exact (ih (time x)).cons_cons x

/-- One more item, by the time of the last one that was kept. -/
theorem spaced_concat (last : T) (l : List α) (x : α) :
    spaced time interval last (l ++ [x]) = spaced time interval last l ++
      if time x - lastTime time interval last l < interval then [] else [x] := by
  induction l generalizing last with
  | nil => rfl
  | cons y l ih =>
      rw [List.cons_append, spaced, spaced, lastTime]
      by_cases hy : time y - last < interval
      · simp only [if_pos hy, ih last]
      · simp only [if_neg hy, ih (time y), List.cons_append]

/-- The time of the last one let through, after one more came. -/
theorem lastTime_concat (last : T) (l : List α) (x : α) :
    lastTime time interval last (l ++ [x]) =
      if time x - lastTime time interval last l < interval then lastTime time interval last l
      else time x := by
  induction l generalizing last with
  | nil => rfl
  | cons y l ih =>
      rw [List.cons_append, lastTime, lastTime]
      by_cases hy : time y - last < interval
      · simp only [if_pos hy, ih last]
      · simp only [if_neg hy, ih (time y)]

/-- The time of the last item that is kept, from the items that are kept. -/
theorem lastTime_eq_getLast? (last : T) (l : List α) :
    lastTime time interval last l =
      ((spaced time interval last l).getLast?.map time).getD last := by
  induction l generalizing last with
  | nil => rfl
  | cons x l ih =>
      rw [lastTime, spaced]
      split_ifs
      · exact ih last
      · rw [ih, List.getLast?_cons]
        cases (spaced time interval (time x) l).getLast? <;> rfl

/-- An item that does not come too soon is kept. -/
theorem spaced_cons_of_not {last : T} {x : α} (h : ¬ time x - last < interval) (l : List α) :
    spaced time interval last (x :: l) = x :: spaced time interval (time x) l := if_neg h

/-- **What is kept does not come too soon** after what was kept before. -/
theorem isChain_not_lt_spaced (x : α) (l : List α) :
    (x :: spaced time interval (time x) l).IsChain fun a b => ¬ time b - time a < interval := by
  induction l generalizing x with
  | nil => exact List.isChain_singleton x
  | cons y l ih =>
      rw [spaced]
      split_ifs with hy
      · exact ih x
      · exact (ih y).cons_cons hy

/-- Where no item comes too soon after an earlier one all are kept. -/
theorem spaced_eq_self {x : α} {l : List α}
    (h : (x :: l).Pairwise fun a b => ¬ time b - time a < interval) :
    spaced time interval (time x) l = l := by
  induction l generalizing x with
  | nil => rfl
  | cons y l ih =>
      obtain ⟨hx, hrest⟩ := List.pairwise_cons.mp h
      rw [spaced_cons_of_not time interval (hx y (List.mem_cons_self ..)), ih hrest]

end loop

/-! ## How far apart -/

section ordered

variable {T : Type*} [Sub T] [LT T] [DecidableLT T] {time : α → T} {interval : T}
  {K : Type*} [AddCommGroup K] [LinearOrder K] [IsOrderedAddMonoid K] (exact : α → K) {bound : K}

/-- **What is kept is not much more than a bound apart**, where the test means that an item comes no
later than the bound after another one. By induction over the items, after one that was kept, `x`,
and the last one so far, `last`, which came no later than the bound after it. -/
theorem isChain_spaced_of_gap {gap : K}
    (htest : ∀ a b, time b - time a < interval → exact b - exact a ≤ bound)
    (hbound : 0 ≤ bound) (hgap : 0 ≤ gap) {x last : α} {l : List α}
    (hlast : exact last - exact x ≤ bound)
    (h : (last :: l).IsChain fun a b => exact b - exact a ≤ gap) :
    ((x :: spaced time interval (time x) l).IsChain fun a b => exact b - exact a ≤ bound + gap) ∧
      ∀ d ∈ (last :: l).getLast?, ∀ y ∈ (x :: spaced time interval (time x) l).getLast?,
        exact d - exact y ≤ bound + gap := by
  induction l generalizing x last with
  | nil =>
      refine ⟨List.isChain_singleton x, ?_⟩
      rintro d ⟨⟩ y ⟨⟩
      exact hlast.trans (le_add_of_nonneg_right hgap)
  | cons y l ih =>
      obtain ⟨hy, hrest⟩ := List.isChain_cons_cons.mp h
      rw [spaced, List.getLast?_cons_cons]
      split_ifs with hdrop
      · exact ih (htest x y hdrop) hrest
      · -- the item that is kept came a gap after the one before it
        have hfar : exact y - exact x ≤ bound + gap := by
          calc exact y - exact x = (exact last - exact x) + (exact y - exact last) := by abel
            _ ≤ bound + gap := add_le_add hlast hy
        obtain ⟨hchain, hend⟩ := ih (x := y) (by rwa [sub_self]) hrest
        rw [List.getLast?_cons_cons]
        exact ⟨hchain.cons_cons hfar, hend⟩

end ordered

end Lib.RateLimit
