import Mathlib.Data.List.Basic
import Mathlib.Data.List.Nodup

-- The keys that a cache holds, most recently used first. When there is no room for another key, the one is given up
-- that was not used for the longest time.
@[ext]
structure LruCache (α : Type) where
  capacity : Nat
  keys     : List α
  nodup    : keys.Nodup
  bound    : keys.length ≤ capacity

namespace LruCache

def empty (α : Type) (capacity : Nat) : LruCache α :=
  ⟨capacity, [], .nil, Nat.zero_le _⟩

def resize (c : LruCache α) (capacity : Nat) : LruCache α where
  capacity := capacity
  keys     := c.keys.take capacity
  nodup    := c.nodup.sublist (List.take_sublist _ _)
  bound    := List.length_take_le _ _

theorem keys_resize (c : LruCache α) (n : Nat) : (c.resize n).keys = c.keys.take n :=
  rfl

-- A cache that holds more keys than another one, in the same order.
structure Extends (d c : LruCache α) : Prop where
  capacity : c.capacity ≤ d.capacity
  keys     : c.keys <+: d.keys

section

variable [DecidableEq α]

theorem nodup_moved {l : List α} (h : l.Nodup) (a : α) : (a :: l.erase a).Nodup :=
  List.nodup_cons.mpr ⟨h.not_mem_erase, h.erase a⟩

def access (c : LruCache α) (a : α) : LruCache α where
  capacity := c.capacity
  keys     := (a :: c.keys.erase a).take c.capacity
  nodup    := (nodup_moved c.nodup a).sublist (List.take_sublist _ _)
  bound    := List.length_take_le _ _

theorem keys_access (c : LruCache α) (a : α) : (c.access a).keys = (a :: c.keys.erase a).take c.capacity :=
  rfl

def accesses (c : LruCache α) : List α → LruCache α
  | []      => c
  | a :: as => (c.access a).accesses as

-- How many of the keys are not there when they are used.
def misses (c : LruCache α) : List α → Nat
  | []      => 0
  | a :: as => (if a ∈ c.keys then 0 else 1) + (c.access a).misses as

variable {c d : LruCache α}

-- A key that the cache holds is moved to the front.
theorem access_hit (h : a ∈ c.keys) : (c.access a).keys = a :: c.keys.erase a := by
  have hpos := List.length_pos_of_mem h
  have hle := c.bound
  refine List.take_of_length_le ?_
  rw [List.length_cons, List.length_erase_of_mem h]
  omega

theorem access_room (h : a ∉ c.keys) (hr : c.keys.length < c.capacity) : (c.access a).keys = a :: c.keys := by
  rw [keys_access, List.erase_of_not_mem h]
  exact List.take_of_length_le hr

theorem access_full (h : a ∉ c.keys) (hf : c.keys.length = c.capacity) (hpos : 0 < c.capacity) :
    (c.access a).keys = a :: c.keys.dropLast := by
  rw [keys_access, List.erase_of_not_mem h, List.dropLast_eq_take, hf]
  obtain ⟨n, hn⟩ := Nat.exists_eq_add_one.mpr hpos
  rw [hn]
  rfl

theorem erase_isPrefix {l m : List α} (h : l <+: m) (a : α) : l.erase a <+: m.erase a := by
  obtain ⟨r, rfl⟩ := h
  rw [List.erase_append]
  split
  case isTrue => exact List.prefix_append _ _
  case isFalse ha =>
    rw [List.erase_of_not_mem ha]
    exact List.prefix_append _ _

-- Whatever is used next, a larger cache goes on to hold what a smaller one holds.
theorem Extends.access (h : d.Extends c) (a : α) : (d.access a).Extends (c.access a) where
  capacity := h.capacity
  keys     := by
    have hp : a :: c.keys.erase a <+: a :: d.keys.erase a := List.cons_prefix_cons.mpr ⟨rfl, erase_isPrefix h.keys a⟩
    exact List.prefix_take_iff.mpr ⟨(List.take_prefix _ _).trans hp, Nat.le_trans (List.length_take_le _ _) h.capacity⟩

theorem Extends.accesses (h : d.Extends c) (as : List α) : (d.accesses as).Extends (c.accesses as) := by
  induction as generalizing c d
  case nil => exact h
  case cons a as ih => exact ih (h.access a)

theorem Extends.misses_le (h : d.Extends c) (as : List α) : d.misses as ≤ c.misses as := by
  induction as generalizing c d
  case nil => exact Nat.le_refl _
  case cons a as ih =>
    refine Nat.add_le_add ?_ (ih (h.access a))
    by_cases ha : a ∈ c.keys
    case pos => simp [ha, h.keys.subset ha]
    case neg =>
      rw [if_neg ha]
      split <;> omega

end

theorem extends_empty (h : m ≤ n) : (empty α n).Extends (empty α m) :=
  ⟨h, List.prefix_refl _⟩

-- Keys that are used in turn, `n` of them, again and again.
structure Cycles (f : Nat → α) (n : Nat) : Prop where
  pos  : 0 < n
  same : ∀ i j, f i = f j ↔ i % n = j % n

-- The keys that were used before the use number `i`, most recently used first.
def recent (f : Nat → α) (n i : Nat) : List α :=
  (List.range (min i n)).map fun k => f (i - 1 - k)

namespace Cycles

variable {f : Nat → α}

theorem ne (h : Cycles f n) (hk : k + 1 < n) (hi : k < i) : f (i - 1 - k) ≠ f i := by
  intro he
  have hm := Nat.sub_mod_eq_zero_of_mod_eq ((h.same _ _).mp he).symm
  rw [show i - (i - 1 - k) = k + 1 by omega, Nat.mod_eq_of_lt hk] at hm
  exact Nat.succ_ne_zero k hm

theorem not_mem (h : Cycles f n) (hm : m < n) (hi : m ≤ i) : f i ∉ (List.range m).map fun k => f (i - 1 - k) := by
  intro hmem
  obtain ⟨k, hk, he⟩ := List.mem_map.mp hmem
  have hk := List.mem_range.mp hk
  exact h.ne (by omega) (by omega) he

theorem back (h : Cycles f n) (hi : n ≤ i) : f (i - n) = f i :=
  (h.same _ _).mpr (Nat.mod_eq_sub_mod hi).symm

theorem mem_recent (h : Cycles f n) : f i ∈ recent f n i ↔ n ≤ i := by
  have hpos := h.pos
  constructor
  case mp =>
    intro hm
    by_contra hlt
    rw [recent, Nat.min_eq_left (by omega)] at hm
    exact h.not_mem (by omega) (Nat.le_refl i) hm
  case mpr =>
    intro hle
    refine List.mem_map.mpr ⟨n - 1, List.mem_range.mpr (by omega), ?_⟩
    rw [show i - 1 - (n - 1) = i - n by omega, h.back hle]

-- A cache that is too small for all of them has given up the key that comes next.
theorem miss {c : LruCache α} (h : Cycles f n) (hc : c.keys <+: recent f n i) (hn : c.capacity < n) : f i ∉ c.keys := by
  have hle := hc.length_le
  have hbound := c.bound
  rw [recent, List.length_map, List.length_range] at hle
  rw [List.prefix_iff_eq_take.mp hc, recent, ← List.map_take, List.take_range, Nat.min_eq_left (by omega)]
  exact h.not_mem (by omega) (by omega)

variable [DecidableEq α]

theorem recent_succ (h : Cycles f n) (i : Nat) : recent f n (i + 1) = f i :: (recent f n i).erase (f i) := by
  have hpos := h.pos
  have hsucc : ∀ m, (List.range (m + 1)).map (fun k => f (i + 1 - 1 - k)) =
      f i :: (List.range m).map fun k => f (i - 1 - k) := by
    intro m
    rw [List.range_succ_eq_map, List.map_cons, List.map_map]
    refine congrArg (f i :: ·) <| List.map_congr_left fun k _ => ?_
    exact congrArg f (by simp only [Nat.succ_eq_add_one]; omega)
  rw [recent, recent]
  by_cases hlt : i < n
  case pos =>
    rw [Nat.min_eq_left (by omega), Nat.min_eq_left (by omega), hsucc, List.erase_of_not_mem]
    exact h.not_mem hlt (Nat.le_refl i)
  case neg =>
    -- The key was used `n` times ago and is the last one.
    obtain ⟨m, rfl⟩ := Nat.exists_eq_add_one.mpr hpos
    rw [Nat.min_eq_right (by omega), Nat.min_eq_right (by omega), hsucc, List.range_succ, List.map_append,
      List.erase_append_right _ (h.not_mem (by omega) (by omega))]
    have hlast : f (i - 1 - m) = f i := by
      rw [show i - 1 - m = i - (m + 1) by omega, h.back (by omega)]
    simp [hlast]

variable {c : LruCache α}

theorem access_isPrefix (h : Cycles f n) (hc : c.keys <+: recent f n i) :
    (c.access (f i)).keys <+: recent f n (i + 1) := by
  rw [h.recent_succ]
  exact (List.take_prefix _ _).trans <| List.cons_prefix_cons.mpr ⟨rfl, erase_isPrefix hc _⟩

-- A cache with room for all of them gives up none.
theorem access_eq (h : Cycles f n) (hc : c.keys = recent f n i) (hn : n ≤ c.capacity) :
    (c.access (f i)).keys = recent f n (i + 1) := by
  rw [keys_access, hc, ← h.recent_succ]
  refine List.take_of_length_le ?_
  rw [recent, List.length_map, List.length_range]
  omega

end Cycles

end LruCache
