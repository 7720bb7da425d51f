import TwinServices.Python.Basic
import Mathlib.Data.List.Nodup

/-!
# Dictionaries and queues

* `Dict`: the built-in dictionary. Its items keep the order in which their keys came first, and a
  key occurs once, by the type. `Dict.ofItems` is the loop `d[k] = v` over a list of pairs;
  `ofItems_items` says that a dictionary is rebuilt from its own items.
* `Queue`: `asyncio.Queue` through the methods that do not wait.
-/

set_option autoImplicit false

namespace TwinServices.Python

/-! ## Dictionaries -/

/-- A dictionary: the items in the order in which their keys came, each key once. -/
structure Dict (κ ν : Type) where
  items : List (κ × ν)
  nodup : (items.map Prod.fst).Nodup
deriving DecidableEq

section Dict

variable {κ ν : Type} [DecidableEq κ]

/-- The items after `d[k] = v`: in the key's place if it has one, else at the end. -/
def setItem (k : κ) (v : ν) : List (κ × ν) → List (κ × ν)
  | [] => [(k, v)]
  | (k', v') :: items => if k' = k then (k, v) :: items else (k', v') :: setItem k v items

/-- The keys after an assignment are those before and the assigned one. -/
theorem mem_keys_setItem (k k' : κ) (v : ν) (items : List (κ × ν)) :
    k' ∈ (setItem k v items).map Prod.fst ↔ k' = k ∨ k' ∈ items.map Prod.fst := by
  induction items with
  | nil => simp [setItem]
  | cons p items ih =>
      obtain ⟨k₀, v₀⟩ := p
      unfold setItem
      split_ifs with h
      · subst h
        simp
      · rw [List.map_cons, List.mem_cons, ih, List.map_cons, List.mem_cons]
        exact or_left_comm

/-- An assignment keeps the keys distinct. -/
theorem nodup_keys_setItem (k : κ) (v : ν) (items : List (κ × ν))
    (h : (items.map Prod.fst).Nodup) : ((setItem k v items).map Prod.fst).Nodup := by
  induction items with
  | nil => simp [setItem]
  | cons p items ih =>
      obtain ⟨k₀, v₀⟩ := p
      obtain ⟨hk₀, hrest⟩ := List.nodup_cons.mp h
      unfold setItem
      split_ifs with hk
      · rw [List.map_cons, ← hk]
        exact h
      · refine List.nodup_cons.mpr ⟨?_, ih hrest⟩
        rw [mem_keys_setItem]
        rintro (heq | hmem)
        · exact hk heq
        · exact hk₀ hmem

/-- A new key comes last. -/
theorem setItem_of_not_mem {k : κ} (v : ν) {items : List (κ × ν)}
    (h : k ∉ items.map Prod.fst) : setItem k v items = items ++ [(k, v)] := by
  induction items with
  | nil => rfl
  | cons p items ih =>
      obtain ⟨k₀, v₀⟩ := p
      rw [List.map_cons, List.mem_cons, not_or] at h
      rw [setItem, if_neg (Ne.symm h.1), ih h.2, List.cons_append]

namespace Dict

/-- `{}`. -/
def empty : Dict κ ν := ⟨[], List.nodup_nil⟩

/-- `d[k] = v`. -/
def set (d : Dict κ ν) (k : κ) (v : ν) : Dict κ ν :=
  ⟨setItem k v d.items, nodup_keys_setItem k v d.items d.nodup⟩

/-- The dictionary that the pairs of a list leave when they are assigned in order. -/
def ofItems (items : List (κ × ν)) : Dict κ ν := items.foldl (fun d p => d.set p.1 p.2) empty

/-- `bool(d)`. -/
def truthy (d : Dict κ ν) : Bool := !d.items.isEmpty

/-- Assigning items with new keys, one after the other, appends them. -/
theorem items_foldl_set (items : List (κ × ν)) (d : Dict κ ν)
    (h : ((d.items ++ items).map Prod.fst).Nodup) :
    (items.foldl (fun d p => d.set p.1 p.2) d).items = d.items ++ items := by
  induction items generalizing d with
  | nil => simp
  | cons p items ih =>
      have hp : p.1 ∉ d.items.map Prod.fst := by
        rw [List.map_append, List.map_cons, List.nodup_append] at h
        exact fun hmem => h.2.2 _ hmem _ (List.mem_cons_self ..) rfl
      have hset : (d.set p.1 p.2).items = d.items ++ [p] := setItem_of_not_mem p.2 hp
      rw [List.foldl_cons, ih _ (by rwa [hset, List.append_assoc]), hset, List.append_assoc]
      rfl

/-- A dictionary is rebuilt from its own items. -/
theorem ofItems_items (d : Dict κ ν) : ofItems d.items = d := by
  have h : (ofItems d.items).items = d.items :=
    items_foldl_set d.items empty (by simpa [empty] using d.nodup)
  cases hd : ofItems d.items
  rw [hd] at h
  subst h
  rfl

end Dict

end Dict

/-! ## Queues -/

/-- An `asyncio.Queue`: `maxsize` bounds the number of its items unless it is zero. -/
structure Queue (α : Type) where
  maxsize : ℕ
  items : List α

namespace Queue

variable {α : Type}

/-- `asyncio.Queue(maxsize=…)`. -/
def new (maxsize : ℕ) : Queue α := ⟨maxsize, []⟩

/-- `queue.full()`. -/
def full (q : Queue α) : Bool := 0 < q.maxsize && q.maxsize ≤ q.items.length

/-- `queue.get_nowait()`: the oldest item and the queue without it. -/
def getNowait (q : Queue α) : Except PyError (α × Queue α) :=
  match q.items with
  | [] => .error .queueEmpty
  | x :: xs => .ok (x, { q with items := xs })

/-- `queue.put_nowait(x)`. -/
def putNowait (q : Queue α) (x : α) : Except PyError (Queue α) :=
  if q.full then .error .queueFull else .ok { q with items := q.items ++ [x] }

end Queue

end TwinServices.Python
