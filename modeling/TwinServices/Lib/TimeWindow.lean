import Mathlib.Algebra.BigOperators.Group.List.Basic
import Mathlib.Algebra.Order.Field.Basic
import Mathlib.Data.List.Perm.Basic
import Mathlib.Data.List.TakeWhile
import Mathlib.Tactic.LinearCombination

/-!
# Windows of stamped samples

Lists of samples that carry a stamp in a linear order. A history that drops expired samples from
its front keeps what a filter would keep exactly when no expired sample is behind one that is not
(`dropWhile_eq_since_iff`), as when the stamps are in order.

* `since stamp c l`: the samples of `l` with stamp at least `c`.
* `between stamp b c l`: the samples from `b` on that are before `c`.
* `meanSquare`: the mean of the squares, zero for no value.
* `meanSquare_since_eq_iff`: when a window that starts too early has the mean square of the right
  one: there is no sample too many, or those have the same mean square themselves.
-/

set_option autoImplicit false

namespace Lib.TimeWindow

/-! ## Windows -/

section windows

variable {α τ : Type*} [LinearOrder τ] (stamp : α → τ)

/-- The stamps are in order. -/
def Ordered (l : List α) : Prop := l.Pairwise fun x y => stamp x ≤ stamp y

/-- The samples from `c` on. -/
def since (c : τ) (l : List α) : List α := l.filter fun x => c ≤ stamp x

/-- The samples from `b` on and before `c`. -/
def between (b c : τ) (l : List α) : List α := l.filter fun x => b ≤ stamp x ∧ stamp x < c

/-- A later window of an earlier one is the later window. -/
theorem since_since {b c : τ} (h : b ≤ c) (l : List α) :
    since stamp c (since stamp b l) = since stamp c l := by
  unfold since
  rw [List.filter_filter]
  refine List.filter_congr fun x _ => ?_
  simp only [decide_eq_decide, ← Bool.decide_and]
  exact ⟨fun hx => hx.1, fun hx => ⟨hx, h.trans hx⟩⟩

/-- What is in an earlier window and not in the later one is between them. -/
theorem perm_between_since {b c : τ} (h : b ≤ c) (l : List α) :
    (between stamp b c l ++ since stamp c l).Perm (since stamp b l) := by
  have hbetween : (since stamp b l).filter (fun x => !decide (c ≤ stamp x)) =
      between stamp b c l := by
    unfold since between
    rw [List.filter_filter]
    refine List.filter_congr fun x _ => ?_
    simp only [← decide_not, not_le, ← Bool.decide_and, decide_eq_decide]
    exact and_comm
  rw [← hbetween, ← since_since stamp h l]
  exact (List.perm_append_comm).trans (List.filter_append_perm _ _)

/-- No sample before `c` is behind one from `c` on. -/
def ExpiredFirst (c : τ) (l : List α) : Prop := l.Pairwise fun x y => stamp y < c → stamp x < c

/-- The stamps of an ordered history expire from its front. -/
theorem Ordered.expiredFirst {l : List α} (h : Ordered stamp l) (c : τ) : ExpiredFirst stamp c l :=
  h.imp fun hle hlt => hle.trans_lt hlt

/-- Whatever is dropped from the front is before the cutoff. -/
theorem exists_dropped (c : τ) (l : List α) :
    ∃ dropped, l = dropped ++ l.dropWhile (fun x => stamp x < c) ∧ ∀ x ∈ dropped, stamp x < c := by
  refine ⟨l.takeWhile fun x => stamp x < c, List.takeWhile_append_dropWhile.symm, fun x hx => ?_⟩
  simpa using List.mem_takeWhile_imp hx

/-- **What dropping from the front drops.** It leaves the samples from `c` on exactly when the
others are all in front of them. -/
theorem dropWhile_eq_since_iff {c : τ} {l : List α} :
    l.dropWhile (fun x => stamp x < c) = since stamp c l ↔ ExpiredFirst stamp c l := by
  unfold ExpiredFirst since
  induction l with
  | nil => simp
  | cons x l ih =>
      rw [List.pairwise_cons]
      by_cases hlt : stamp x < c
      · rw [List.dropWhile_cons_of_pos (by simpa using hlt),
          List.filter_cons_of_neg (by simpa using hlt), ih]
        exact ⟨fun h => ⟨fun _ _ _ => hlt, h⟩, fun h => h.2⟩
      · -- nothing is dropped, so nothing may be before `c`
        rw [List.dropWhile_cons_of_neg (by simpa using hlt), eq_comm, List.filter_eq_self]
        simp only [List.mem_cons, forall_eq_or_imp, decide_eq_true_eq]
        constructor
        · rintro ⟨-, hall⟩
          refine ⟨fun y hy hexpired => absurd (hall y hy) (not_le.mpr hexpired), ?_⟩
          exact List.pairwise_iff_forall_sublist.mpr fun hsub hexpired =>
            absurd (hall _ (hsub.subset (by simp))) (not_le.mpr hexpired)
        · rintro ⟨hfront, -⟩
          exact ⟨not_lt.mp hlt, fun y hy => not_lt.mp fun hexpired => hlt (hfront y hy hexpired)⟩

/-- Dropping up to an earlier cutoff first, and then more samples arrive, makes no difference. -/
theorem dropWhile_dropWhile_append {b c : τ} (h : b ≤ c) (l m : List α) :
    (l.dropWhile (fun x => stamp x < b) ++ m).dropWhile (fun x => stamp x < c) =
      (l ++ m).dropWhile (fun x => stamp x < c) := by
  induction l with
  | nil => rfl
  | cons x l ih =>
      by_cases hlt : stamp x < b
      · rw [List.dropWhile_cons_of_pos (by simpa using hlt), ih, List.cons_append,
          List.dropWhile_cons_of_pos (by simpa using hlt.trans_le h)]
      · rw [List.dropWhile_cons_of_neg (by simpa using hlt)]

end windows

/-! ## Mean squares -/

section meanSquare

variable {K : Type*} [Field K]

/-- The mean of the squares; zero for no value, as a division by zero gives zero. -/
def meanSquare (xs : List K) : K := (xs.map fun x => x * x).sum / xs.length

/-- Nothing has the mean square zero. -/
@[simp] theorem meanSquare_nil : meanSquare ([] : List K) = 0 := by simp [meanSquare]

/-- The order does not matter to the mean square. -/
theorem meanSquare_perm {xs ys : List K} (h : xs.Perm ys) : meanSquare xs = meanSquare ys := by
  unfold meanSquare
  rw [(h.map _).sum_eq, h.length_eq]

/-- Values put in front change the mean square unless they have it themselves. -/
theorem meanSquare_append_eq_iff [CharZero K] (xs ys : List K) :
    meanSquare (xs ++ ys) = meanSquare ys ↔ xs = [] ∨ meanSquare xs = meanSquare ys := by
  rcases eq_or_ne xs [] with rfl | hx
  · simp
  rcases eq_or_ne ys [] with rfl | hy
  · simp [hx]
  have hn : (xs.length : K) ≠ 0 := by simpa using hx
  have hm : (ys.length : K) ≠ 0 := by simpa using hy
  have hnm : (xs.length : K) + ys.length ≠ 0 := by
    rw [← Nat.cast_add, Nat.cast_ne_zero]
    have := List.length_pos_of_ne_nil hx
    omega
  unfold meanSquare
  rw [List.map_append, List.sum_append, List.length_append, Nat.cast_add,
    div_eq_div_iff hnm hm, div_eq_div_iff hn hm]
  simp only [hx, false_or]
  constructor <;> intro h <;> linear_combination h

variable {α τ : Type*} [LinearOrder τ] (stamp : α → τ) (value : α → K)

/-- **A window that starts too early** has the mean square of the right one exactly when it has no
sample too many or those have that mean square themselves. -/
theorem meanSquare_since_eq_iff [CharZero K] {b c : τ} (h : b ≤ c) (l : List α) :
    meanSquare ((since stamp b l).map value) = meanSquare ((since stamp c l).map value) ↔
      between stamp b c l = [] ∨
        meanSquare ((between stamp b c l).map value) =
          meanSquare ((since stamp c l).map value) := by
  rw [← meanSquare_perm ((perm_between_since stamp h l).map value), List.map_append,
    meanSquare_append_eq_iff, List.map_eq_nil_iff]

end meanSquare

end Lib.TimeWindow
