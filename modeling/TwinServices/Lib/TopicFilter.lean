import Mathlib.Data.List.Forall2

/-!
# Topic filters

Topics and the filters of subscriptions, as a message broker compares them: level by level, where
the levels of a text are what its slashes separate. In a filter the level `+` stands for any one
level and the level `#`, which may only come last, for all levels that are left; the parent of these
levels is among them. A filter that begins with a wildcard passes over the topics that begin with
a dollar sign.

* `levels`, `topicMatches`: the comparison.
* `levels_join`, `levels_cons`: the levels of a text that was put together from levels.
* `matchLevels_iff`: a filter without `#` matches the topics that have as many levels, each equal to
  its own or under a `+`.
-/

set_option autoImplicit false

namespace Lib.TopicFilter

/-- The levels of a text. -/
def levels (text : List Char) : List (List Char) := text.splitOn '/'

/-- The text with the given levels. -/
def join (ls : List (List Char)) : List Char := ['/'].intercalate ls

/-- The comparison of the levels of a filter with those of a topic. -/
def matchLevels : List (List Char) → List (List Char) → Bool
  | [], topic => topic.isEmpty
  | f :: filter, topic =>
      if f = ['#'] then filter.isEmpty
      else
        match topic with
        | [] => false
        | t :: topic => (f = ['+'] || f = t) && matchLevels filter topic

/-- The filter begins with a wildcard and the topic with a dollar sign. -/
def passesOver (filter topic : List Char) : Bool :=
  (filter.head? = some '+' || filter.head? = some '#') && topic.head? = some '$'

/-- The filter of a subscription matches a topic. -/
def topicMatches (filter topic : String) : Bool :=
  !passesOver filter.toList topic.toList &&
    matchLevels (levels filter.toList) (levels topic.toList)

/-- A text put together from levels has these levels. -/
theorem levels_join {ls : List (List Char)} (hne : ls ≠ []) (hfree : ∀ l ∈ ls, '/' ∉ l) :
    levels (join ls) = ls := List.splitOn_intercalate '/' hfree hne

/-- What comes before the first slash is the first level. -/
theorem levels_cons {l : List Char} (hfree : '/' ∉ l) (rest : List Char) :
    levels (l ++ '/' :: rest) = l :: levels rest :=
  List.splitOn_append_cons_self_of_not_mem hfree rest

/-- A filter without `#` is compared level by level. -/
theorem matchLevels_iff {filter topic : List (List Char)} (h : ['#'] ∉ filter) :
    matchLevels filter topic = true ↔
      List.Forall₂ (fun f t => f = ['+'] ∨ f = t) filter topic := by
  induction filter generalizing topic with
  | nil =>
      rw [List.forall₂_nil_left_iff]
      exact List.isEmpty_iff
  | cons f filter ih =>
      rw [List.mem_cons, not_or] at h
      cases topic with
      | nil => simp [matchLevels, Ne.symm h.1]
      | cons t topic =>
          rw [List.forall₂_cons, ← ih h.2]
          simp [matchLevels, Ne.symm h.1]

end Lib.TopicFilter
