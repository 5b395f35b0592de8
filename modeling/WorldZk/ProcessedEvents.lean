import Mathlib.Data.Finset.Dedup
import Mathlib.Data.Finset.Card
import Mathlib.Data.Finset.Erase

/-!
# The processed events of the operator

`ProcessedEventTracker`: a set of event ids beside a queue of them in the order of insertion, which
is bounded by forgetting the oldest. It is stored as the queue.
-/

namespace WorldZk.ProcessedEvents

/-! ## The tracker -/

@[irreducible] def MAX_PROCESSED_IDS : ℕ := 10000

structure ProcessedEventTracker where
  set : Finset String
  order : List String
deriving DecidableEq

/-- The loop of `evict_excess`. -/
def evictLoop : Finset String → List String → Finset String × List String
  | set, [] => (set, [])
  | set, oldest :: order =>
    if MAX_PROCESSED_IDS < set.card then evictLoop (set.erase oldest) order
    else (set, oldest :: order)

namespace ProcessedEventTracker

def new : ProcessedEventTracker := ⟨∅, []⟩

def contains (t : ProcessedEventTracker) (id : String) : Bool := decide (id ∈ t.set)

def len (t : ProcessedEventTracker) : ℕ := t.set.card

def evictExcess (t : ProcessedEventTracker) : ProcessedEventTracker :=
  let (set, order) := evictLoop t.set t.order
  ⟨set, order⟩

/-- Whether the id is new, and the tracker with it. -/
def insert (t : ProcessedEventTracker) (id : String) : Bool × ProcessedEventTracker :=
  if t.contains id then (false, t)
  else (true, evictExcess ⟨Insert.insert id t.set, t.order ++ [id]⟩)

def fromVec (items : List String) : ProcessedEventTracker :=
  let kept := items.drop (items.length - MAX_PROCESSED_IDS)
  ⟨kept.toFinset, kept⟩

/-- The array of strings that is written. -/
def serialize (t : ProcessedEventTracker) : List String := t.order

def deserialize (items : List String) : ProcessedEventTracker := fromVec items

def insertAll (t : ProcessedEventTracker) (ids : List String) : ProcessedEventTracker :=
  ids.foldl (fun t id => (t.insert id).2) t

end ProcessedEventTracker

/-! ## A bounded ordered set -/

open ProcessedEventTracker

/-- The last ids, as many as are retained. -/
def recent (ids : List String) : List String := ids.drop (ids.length - MAX_PROCESSED_IDS)

/-- The set and the queue hold the same ids, once each and not too many. A new id is added to the
most recent of them, one that is there changes nothing, and what is stored is read back. -/
structure IsBoundedOrderedSet (t : ProcessedEventTracker) : Prop where
  nodup : t.order.Nodup
  set_eq : t.set = t.order.toFinset
  bounded : t.len ≤ MAX_PROCESSED_IDS
  insert_new : ∀ id, id ∉ t.set → (t.insert id).1 = true ∧
    (t.insert id).2.order = recent (t.order ++ [id]) ∧
    (t.insert id).2.set = (recent (t.order ++ [id])).toFinset
  insert_old : ∀ id, id ∈ t.set → t.insert id = (false, t)
  stored : deserialize t.serialize = t

section Invariant

variable {t : ProcessedEventTracker} {ids items : List String}

theorem recent_of_le (h : ids.length ≤ MAX_PROCESSED_IDS) : recent ids = ids := by
  rw [recent, Nat.sub_eq_zero_of_le h, List.drop_zero]

theorem length_recent_le (ids : List String) : (recent ids).length ≤ MAX_PROCESSED_IDS := by
  rw [recent, List.length_drop]
  omega

theorem nodup_recent (h : ids.Nodup) : (recent ids).Nodup := h.sublist (List.drop_sublist _ _)

theorem evictLoop_eq {order : List String} (h : order.Nodup) :
    evictLoop order.toFinset order = ((recent order).toFinset, recent order) := by
  induction order with
  | nil =>
    rw [recent_of_le (Nat.zero_le _)]
    rfl
  | cons oldest order ih =>
    obtain ⟨holdest, horder⟩ := List.nodup_cons.mp h
    have hcard : (oldest :: order).toFinset.card = order.length + 1 :=
      List.toFinset_card_of_nodup h
    rw [evictLoop, hcard]
    split
    case isTrue hlt =>
      have herase : (oldest :: order).toFinset.erase oldest = order.toFinset := by
        rw [List.toFinset_cons, Finset.erase_insert (by rwa [List.mem_toFinset])]
      have hdrop : recent (oldest :: order) = recent order := by
        rw [recent, recent, List.length_cons, Nat.succ_sub (Nat.le_of_lt_succ hlt),
          List.drop_succ_cons]
      rw [herase, ih horder, hdrop]
    case isFalse hle => rw [@recent_of_le (oldest :: order) (not_lt.mp hle)]

/-- The set and the queue hold the same ids, once each and not too many. -/
structure Coherent (t : ProcessedEventTracker) : Prop where
  nodup : t.order.Nodup
  set_eq : t.set = t.order.toFinset
  length_le : t.order.length ≤ MAX_PROCESSED_IDS

theorem coherent_fromVec (h : (recent items).Nodup) : Coherent (fromVec items) where
  nodup := h
  set_eq := rfl
  length_le := length_recent_le items

theorem nodup_append_new {id : String} (h : ids.Nodup) (hid : id ∉ ids) : (ids ++ [id]).Nodup :=
  List.nodup_append_comm.mp (List.nodup_cons.mpr ⟨hid, h⟩)

theorem insert_of_mem {id : String} (hid : id ∈ t.set) : t.insert id = (false, t) :=
  if_pos (decide_eq_true hid)

theorem Coherent.insert_of_not_mem (h : Coherent t) {id : String} (hid : id ∉ t.set) :
    t.insert id = (true, ⟨(recent (t.order ++ [id])).toFinset, recent (t.order ++ [id])⟩) := by
  have hnew : id ∉ t.order := by rwa [h.set_eq, List.mem_toFinset] at hid
  have hnodup := nodup_append_new h.nodup hnew
  have hset : Insert.insert id t.set = (t.order ++ [id]).toFinset := by
    rw [h.set_eq, List.toFinset_append, Finset.union_comm]
    rfl
  have hcontains : ¬t.contains id = true := fun hc => hid (of_decide_eq_true hc)
  rw [ProcessedEventTracker.insert, if_neg hcontains, evictExcess]
  simp only [hset, evictLoop_eq hnodup]

theorem Coherent.insert (h : Coherent t) (id : String) : Coherent (t.insert id).2 := by
  by_cases hid : id ∈ t.set
  · rw [insert_of_mem hid]
    exact h
  · rw [h.insert_of_not_mem hid]
    have hnew : id ∉ t.order := by rwa [h.set_eq, List.mem_toFinset] at hid
    exact ⟨nodup_recent (nodup_append_new h.nodup hnew), rfl, length_recent_le _⟩

theorem Coherent.insertAll (h : Coherent t) (ids : List String) : Coherent (t.insertAll ids) := by
  induction ids generalizing t with
  | nil => exact h
  | cons id ids ih => exact ih (h.insert id)

theorem Coherent.isBoundedOrderedSet (h : Coherent t) : IsBoundedOrderedSet t where
  nodup := h.nodup
  set_eq := h.set_eq
  bounded := by
    rw [len, h.set_eq, List.toFinset_card_of_nodup h.nodup]
    exact h.length_le
  insert_new := fun id hid => by
    rw [h.insert_of_not_mem hid]
    exact ⟨rfl, rfl, rfl⟩
  insert_old := fun _ => insert_of_mem
  stored := by
    have hrecent := recent_of_le h.length_le
    rw [deserialize, serialize, fromVec]
    rw [recent] at hrecent
    simp only [hrecent, ← h.set_eq]

end Invariant

/-- The tracker behaves as a bounded ordered set after every sequence of insertions into what is
read from a vector exactly when no id is twice among those that are kept of the vector. -/
theorem tracker_is_ordered_set_iff (items : List String) :
    (∀ ids, IsBoundedOrderedSet ((fromVec items).insertAll ids)) ↔ (recent items).Nodup :=
  ⟨fun h => (h []).nodup, fun h ids => ((coherent_fromVec h).insertAll ids).isBoundedOrderedSet⟩

/-- A vector with one id twice. -/
theorem repeated_id_read_twice : ¬IsBoundedOrderedSet ((fromVec ["a", "a"]).insertAll []) := by
  intro h
  have hkept : recent ["a", "a"] = ["a", "a"] :=
    recent_of_le (by rw [MAX_PROCESSED_IDS]; decide)
  have hnodup : (recent ["a", "a"]).Nodup := h.nodup
  rw [hkept] at hnodup
  exact absurd hnodup (by decide)

end WorldZk.ProcessedEvents
