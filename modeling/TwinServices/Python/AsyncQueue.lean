import TwinServices.Python.Containers

/-!
# Queues that coroutines wait on

`asyncio.Queue` together with the coroutines suspended in its `put`. A `put` that finds the queue
full waits in the list of putters; a `get` wakes the oldest of them; a woken `put` looks at the
queue again when it next runs, and goes to the back of the list if it finds it full. Between the
wake-up and that moment other coroutines run.

* `WaitQueue`, `put`, `resume`, `get`: the queue and what happens to it.
* `line`: what it holds, in the order in which it would be taken if no more came.
* `line_get`, `line_put_perm`, `line_resume_perm`: a `get` takes the head of the line, a `put` adds
  one element to it somewhere, a resumption may move one.
* `Booked`: while nothing is put before a woken `put` has run, there is room for all the woken.
-/

set_option autoImplicit false

namespace TwinServices.Python

/-- An `asyncio.Queue` with the elements of the suspended `put`s: `putters` wait on the full queue,
oldest first, and `woken` have been woken by a `get` and have not run since. -/
structure WaitQueue (α : Type) where
  queue : Queue α
  putters : List α
  woken : List α

namespace WaitQueue

variable {α : Type}

/-- `asyncio.Queue(maxsize=…)`. -/
def new (maxsize : ℕ) : WaitQueue α := ⟨Queue.new maxsize, [], []⟩

/-- A `put` that runs, for the first time or after a wake-up: it inserts, or it waits at the back
of the list of putters where the queue is full. -/
def put (q : WaitQueue α) (x : α) : WaitQueue α :=
  match q.queue.putNowait x with
  | .ok queue => { q with queue := queue }
  | .error _ => { q with putters := q.putters ++ [x] }

/-- The `put` that was woken first runs again. -/
def resume (q : WaitQueue α) : Option (WaitQueue α) :=
  match q.woken with
  | [] => none
  | x :: woken => some ({ q with woken := woken }.put x)

/-- What `await queue.get()` returns, where it need not wait, and the queue after it: the oldest
putter is woken. -/
def get (q : WaitQueue α) : Option (α × WaitQueue α) :=
  match q.queue.getNowait with
  | .error _ => none
  | .ok (x, queue) => some (x, ⟨queue, q.putters.tail, q.woken ++ q.putters.head?.toList⟩)

/-- What the queue holds: its items, then the woken `put`s, then the waiting ones. -/
def line (q : WaitQueue α) : List α := q.queue.items ++ (q.woken ++ q.putters)

/-- On a full queue a `put` waits with its item. -/
theorem put_of_full {q : WaitQueue α} (h : q.queue.full = true) (x : α) :
    q.put x = { q with putters := q.putters ++ [x] } := by
  simp only [put, Queue.putNowait, h, if_true]

/-- On a queue that is not full a `put` adds its item at once. -/
theorem put_of_not_full {q : WaitQueue α} (h : q.queue.full = false) (x : α) :
    q.put x = { q with queue := { q.queue with items := q.queue.items ++ [x] } } := by
  simp only [put, Queue.putNowait, h, Bool.false_eq_true, if_false]

/-- A `put` does not change the size of the queue. -/
@[simp] theorem maxsize_put (q : WaitQueue α) (x : α) :
    (q.put x).queue.maxsize = q.queue.maxsize := by
  rcases h : q.queue.full with _ | _
  · rw [put_of_not_full h]
  · rw [put_of_full h]

/-- A `put` wakes no other one. -/
@[simp] theorem woken_put (q : WaitQueue α) (x : α) : (q.put x).woken = q.woken := by
  rcases h : q.queue.full with _ | _
  · rw [put_of_not_full h]
  · rw [put_of_full h]

/-- The `put` that resumes is the first of the woken ones. -/
theorem resume_eq_some {q q' : WaitQueue α} (h : q.resume = some q') :
    ∃ x woken, q.woken = x :: woken ∧ q' = { q with woken := woken }.put x := by
  unfold resume at h
  rcases hwoken : q.woken with _ | ⟨x, woken⟩
  · simp [hwoken] at h
  · rw [hwoken] at h
    exact ⟨x, woken, rfl, (Option.some.inj h).symm⟩

/-- What is taken is the oldest item. -/
theorem get_eq_some {q q' : WaitQueue α} {x : α} (h : q.get = some (x, q')) :
    ∃ items, q.queue.items = x :: items ∧
      q' = ⟨{ q.queue with items := items }, q.putters.tail,
        q.woken ++ q.putters.head?.toList⟩ := by
  unfold get Queue.getNowait at h
  rcases hitems : q.queue.items with _ | ⟨y, items⟩
  · simp [hitems] at h
  · simp only [hitems, Option.some.injEq, Prod.mk.injEq] at h
    obtain ⟨rfl, rfl⟩ := h
    exact ⟨items, rfl, rfl⟩

/-- A queue that holds an item need not wait. -/
theorem get_of_items {q : WaitQueue α} {x : α} {items : List α} (h : q.queue.items = x :: items) :
    ∃ q', q.get = some (x, q') ∧ q'.queue.items = items := by
  simp only [get, Queue.getNowait, h]
  exact ⟨_, rfl, rfl⟩

/-! ## The line -/

/-- A `get` takes the head of the line and leaves the rest in order. -/
theorem line_get {q q' : WaitQueue α} {x : α} (h : q.get = some (x, q')) :
    q.line = x :: q'.line := by
  obtain ⟨items, hitems, rfl⟩ := get_eq_some h
  have hputters : q.putters.head?.toList ++ q.putters.tail = q.putters := by
    cases q.putters <;> rfl
  simp only [line, hitems, List.append_assoc, hputters, List.cons_append]

/-- A `put` on a full queue goes to the end of the line. -/
theorem line_put_of_full {q : WaitQueue α} (h : q.queue.full = true) (x : α) :
    (q.put x).line = q.line ++ [x] := by
  rw [put_of_full h]
  simp only [line, List.append_assoc]

/-- A `put` on a queue with room goes before all that wait. -/
theorem line_put_of_not_full {q : WaitQueue α} (h : q.queue.full = false) (x : α) :
    (q.put x).line = q.queue.items ++ x :: (q.woken ++ q.putters) := by
  rw [put_of_not_full h]
  simp only [line, List.append_assoc, List.singleton_append]

/-- A `put` adds its element to the line. -/
theorem line_put_perm (q : WaitQueue α) (x : α) : (q.put x).line.Perm (q.line ++ [x]) := by
  rcases h : q.queue.full with _ | _
  · rw [line_put_of_not_full h, line, List.append_assoc]
    apply List.Perm.append_left
    exact (List.perm_append_singleton x _).symm
  · rw [line_put_of_full h]

/-- A resumption neither adds to the line nor takes from it. -/
theorem line_resume_perm {q q' : WaitQueue α} (h : q.resume = some q') : q'.line.Perm q.line := by
  obtain ⟨x, woken, hwoken, rfl⟩ := resume_eq_some h
  apply (line_put_perm _ x).trans
  simp only [line, hwoken, List.append_assoc, List.cons_append]
  apply List.Perm.append_left
  rw [← List.append_assoc]
  exact List.perm_append_singleton x _

/-! ## Room for the woken -/

/-- There is room for all the woken `put`s at once, and while any `put` waits, no more than that. -/
structure Booked (q : WaitQueue α) : Prop where
  bounded : 0 < q.queue.maxsize
  room : q.queue.items.length + q.woken.length ≤ q.queue.maxsize
  tight : q.putters ≠ [] → q.queue.maxsize ≤ q.queue.items.length + q.woken.length

/-- A new queue has booked nothing. -/
theorem booked_new {maxsize : ℕ} (h : 0 < maxsize) : (new maxsize : WaitQueue α).Booked :=
  ⟨h, Nat.zero_le _, fun hne => absurd rfl hne⟩

/-- A bounded queue is full when it holds as many items as it may. -/
theorem Booked.full_iff {q : WaitQueue α} (h : q.Booked) :
    q.queue.full = true ↔ q.queue.maxsize ≤ q.queue.items.length := by
  simp only [Queue.full, Bool.and_eq_true, decide_eq_true_eq, h.bounded, true_and]

/-- On a queue with room and without woken `put`s none waits. -/
theorem Booked.putters_eq_nil {q : WaitQueue α} (h : q.Booked) (hfull : q.queue.full = false)
    (hwoken : q.woken = []) : q.putters = [] := by
  by_contra hne
  have htight := h.tight hne
  rw [hwoken, List.length_nil, Nat.add_zero] at htight
  have := h.full_iff.mpr htight
  rw [hfull] at this
  exact Bool.false_ne_true this

/-- A woken `put` finds room. -/
theorem Booked.not_full_of_woken {q : WaitQueue α} (h : q.Booked) (hwoken : q.woken ≠ []) :
    q.queue.full = false := by
  have hpos : 0 < q.woken.length := List.length_pos_iff.mpr hwoken
  have hroom := h.room
  apply Bool.eq_false_iff.mpr
  rw [Ne, h.full_iff]
  omega

/-- A `get` keeps the booking: the place it frees is for the `put` it wakes. -/
theorem Booked.get {q q' : WaitQueue α} {x : α} (h : q.Booked) (hget : q.get = some (x, q')) :
    q'.Booked := by
  obtain ⟨items, hitems, rfl⟩ := get_eq_some hget
  have hroom := h.room
  have htight := h.tight
  rw [hitems, List.length_cons] at hroom htight
  rcases hputters : q.putters with _ | ⟨y, putters⟩
  · refine ⟨h.bounded, ?_, fun hne => absurd rfl hne⟩
    simp only [List.head?_nil, Option.toList_none, List.append_nil]
    omega
  · have htight := htight (by simp [hputters])
    refine ⟨h.bounded, ?_, fun _ => ?_⟩ <;>
      simp only [List.head?_cons, Option.toList_some, List.length_append, List.length_singleton] <;>
      omega

/-- A `put` keeps the booking where it takes no place that a woken one is to have. -/
theorem Booked.put {q : WaitQueue α} (h : q.Booked) (x : α)
    (hfree : q.queue.full = false → q.woken = []) : (q.put x).Booked := by
  rcases hfull : q.queue.full with _ | _
  · have hwoken := hfree hfull
    have hitems : q.queue.items.length < q.queue.maxsize := by
      have := h.full_iff.not.mp (Bool.eq_false_iff.mp hfull)
      omega
    rw [put_of_not_full hfull]
    refine ⟨h.bounded, ?_, fun hne => absurd (h.putters_eq_nil hfull hwoken) hne⟩
    simp only [hwoken, List.length_append, List.length_singleton, List.length_nil]
    omega
  · rw [put_of_full hfull]
    refine ⟨h.bounded, h.room, fun _ => ?_⟩
    have := h.full_iff.mp hfull
    simp only
    omega

/-- The first woken `put` takes the place that was freed for it: it keeps the booking and the
line. -/
theorem Booked.resume {q q' : WaitQueue α} (h : q.Booked) (hresume : q.resume = some q') :
    q'.Booked ∧ q'.line = q.line := by
  obtain ⟨x, woken, hwoken, rfl⟩ := resume_eq_some hresume
  have hfull : ({ q with woken := woken } : WaitQueue α).queue.full = false :=
    h.not_full_of_woken (by simp [hwoken])
  have hroom := h.room
  have htight := h.tight
  rw [hwoken, List.length_cons] at hroom htight
  constructor
  · rw [put_of_not_full hfull]
    refine ⟨h.bounded, ?_, fun hne => ?_⟩
    · simp only [List.length_append, List.length_singleton]
      omega
    · have := htight hne
      simp only [List.length_append, List.length_singleton]
      omega
  · rw [line_put_of_not_full hfull]
    simp only [line, hwoken, List.cons_append]

end WaitQueue

end TwinServices.Python
