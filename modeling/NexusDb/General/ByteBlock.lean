import Mathlib.Data.List.OfFn
import Mathlib.Data.List.Basic
import Mathlib.Tactic.Ring

abbrev Bytes := List UInt8

namespace Bytes

-- Little-endian numbers: the first byte is the least significant one.
def leNat : Bytes → Nat
  | []      => 0
  | b :: bs => b.toNat + 256 * leNat bs

-- The low `w` bytes of `v`; higher ones are cut off, as a cast to a `w`-byte integer does.
def leBytes : Nat → Nat → Bytes
  | 0,     _ => []
  | w + 1, v => UInt8.ofNat v :: leBytes w (v / 256)

@[simp]
theorem length_leBytes (w v : Nat) : (leBytes w v).length = w := by
  induction w generalizing v <;> simp [leBytes, *]

theorem leNat_lt (bs : Bytes) : leNat bs < 256 ^ bs.length := by
  induction bs <;> simp [leNat]
  case cons b bs hi =>
    have hb : b.toNat < 256 := b.toNat_lt
    have he : 256 ^ (bs.length + 1) = 256 * 256 ^ bs.length := by ring
    omega

theorem leNat_leBytes (w v : Nat) : leNat (leBytes w v) = v % 256 ^ w := by
  induction w generalizing v
  case zero => simp [leBytes, leNat, Nat.mod_one]
  case succ w hi =>
    have he : 256 ^ (w + 1) = 256 * 256 ^ w := by ring
    rw [leBytes, leNat, hi, he, Nat.mod_mul]
    simp

theorem leNat_leBytes_of_lt (h : v < 256 ^ w) : leNat (leBytes w v) = v := by
  rw [leNat_leBytes, Nat.mod_eq_of_lt h]

theorem leBytes_leNat (bs : Bytes) : leBytes bs.length (leNat bs) = bs := by
  induction bs <;> simp [leBytes, leNat]
  case cons b bs hi =>
    have hb : b.toNat < 256 := b.toNat_lt
    have hd : (b.toNat + 256 * leNat bs) / 256 = leNat bs := by omega
    rw [hd, hi]

end Bytes

open Bytes

-- A fixed-size buffer of `n` bytes.
abbrev ByteBlock (n : Nat) := Fin n → UInt8

namespace ByteBlock

def fill (n : Nat) (v : UInt8) : ByteBlock n :=
  fun _ => v

def get (d : ByteBlock n) (i : Nat) : UInt8 :=
  if h : i < n then d ⟨i, h⟩ else 0

def slice (d : ByteBlock n) (off len : Nat) : Bytes :=
  (List.range len).map fun k => d.get (off + k)

def write (d : ByteBlock n) (off : Nat) (bs : Bytes) : ByteBlock n :=
  fun i => if off ≤ i.val ∧ i.val < off + bs.length then bs.getD (i.val - off) 0 else d i

def natAt (d : ByteBlock n) (off w : Nat) : Nat :=
  leNat (d.slice off w)

def writeNat (d : ByteBlock n) (off w v : Nat) : ByteBlock n :=
  d.write off (leBytes w v)

def toBytes (d : ByteBlock n) : Bytes :=
  List.ofFn d

def ofBytes (n : Nat) (bs : Bytes) : ByteBlock n :=
  fun i => bs.getD i.val 0

-- Memory accesses of a program that holds a pointer to the block: an access that leaves the block
-- is undefined behavior, and so has no result.
def load (d : ByteBlock n) (off len : Nat) : Option Bytes :=
  if off + len ≤ n then some (d.slice off len) else none

def loadNat (d : ByteBlock n) (off w : Nat) : Option Nat :=
  (d.load off w).map leNat

def store (d : ByteBlock n) (off : Nat) (bs : Bytes) : Option (ByteBlock n) :=
  if off + bs.length ≤ n then some (d.write off bs) else none

def storeNat (d : ByteBlock n) (off w v : Nat) : Option (ByteBlock n) :=
  d.store off (leBytes w v)

variable {d d₁ d₂ : ByteBlock n}

theorem ext_get (h : ∀ i < n, d₁.get i = d₂.get i) : d₁ = d₂ := by
  funext i
  simpa [get] using h i.val i.isLt

theorem get_write :
    (d.write off bs).get i
      = if off ≤ i ∧ i < off + bs.length ∧ i < n then bs.getD (i - off) 0 else d.get i := by
  by_cases h : i < n
  case pos => simp [get, write, h]
  case neg => simp [get, h]

theorem write_nil : d.write off [] = d := by
  funext i
  simp [write]

@[simp]
theorem length_slice : (d.slice off len).length = len := by
  simp [slice]

theorem getElem?_slice (h : k < len) : (d.slice off len)[k]? = some (d.get (off + k)) := by
  simp [slice, h]

theorem slice_eq_iff :
    d₁.slice o₁ len = d₂.slice o₂ len ↔ ∀ k < len, d₁.get (o₁ + k) = d₂.get (o₂ + k) := by
  simp [slice]

theorem slice_write_of_disjoint (h : off + len ≤ o ∨ o + bs.length ≤ off) :
    (d.write o bs).slice off len = d.slice off len := by
  rw [slice_eq_iff]
  intro k hk
  rw [get_write, if_neg]
  omega

theorem slice_write_self (h : off + bs.length ≤ n) (hl : len = bs.length) :
    (d.write off bs).slice off len = bs := by
  subst hl
  apply List.ext_getElem?
  intro k
  by_cases hk : k < bs.length
  case pos =>
    rw [getElem?_slice hk, get_write, if_pos (by omega)]
    simp [hk]
  case neg =>
    rw [List.getElem?_eq_none (by simpa using hk), List.getElem?_eq_none (by simpa using hk)]

theorem slice_slice (h : o + l ≤ len) : ((d.slice off len).drop o).take l = d.slice (off + o) l := by
  apply List.ext_getElem?
  intro k
  by_cases hk : k < l
  case pos =>
    rw [List.getElem?_take_of_lt hk, List.getElem?_drop, getElem?_slice (by omega),
      getElem?_slice hk, Nat.add_assoc]
  case neg =>
    rw [List.getElem?_eq_none, List.getElem?_eq_none] <;> simp <;> omega

theorem slice_write_inside (h : off + bs.length ≤ n) (h₁ : off ≤ o) (h₂ : o + len ≤ off + bs.length) :
    (d.write off bs).slice o len = (bs.drop (o - off)).take len := by
  have hs : (d.write off bs).slice off bs.length = bs := slice_write_self h rfl
  rw [← hs, slice_slice (by omega), hs]
  congr
  omega

theorem natAt_lt (d : ByteBlock n) (off w : Nat) : d.natAt off w < 256 ^ w := by
  have h := leNat_lt (d.slice off w)
  rwa [length_slice] at h

theorem natAt_write_of_disjoint (h : off + w ≤ o ∨ o + bs.length ≤ off) :
    (d.write o bs).natAt off w = d.natAt off w := by
  rw [natAt, slice_write_of_disjoint h, natAt]

theorem slice_writeNat_of_disjoint (h : off + len ≤ o ∨ o + w ≤ off) :
    (d.writeNat o w v).slice off len = d.slice off len :=
  slice_write_of_disjoint (by simpa using h)

theorem natAt_writeNat_of_disjoint (h : off + w ≤ o ∨ o + w' ≤ off) :
    (d.writeNat o w' v).natAt off w = d.natAt off w :=
  natAt_write_of_disjoint (by simpa using h)

theorem natAt_writeNat_self (h : off + w ≤ n) (hv : v < 256 ^ w) :
    (d.writeNat off w v).natAt off w = v := by
  simp [natAt, writeNat, slice_write_self, h, leNat_leBytes_of_lt hv]

theorem load_of_le (h : off + len ≤ n) : d.load off len = some (d.slice off len) :=
  if_pos h

theorem loadNat_of_le (h : off + w ≤ n) : d.loadNat off w = some (d.natAt off w) := by
  simp [loadNat, load_of_le h, natAt]

theorem store_of_le (h : off + bs.length ≤ n) : d.store off bs = some (d.write off bs) :=
  if_pos h

theorem storeNat_of_le (h : off + w ≤ n) : d.storeNat off w v = some (d.writeNat off w v) :=
  if_pos (by simpa using h)

@[simp]
theorem length_toBytes : d.toBytes.length = n := by
  simp [toBytes]

theorem eq_of_mem_toBytes_fill (h : b ∈ (fill n v).toBytes) : b = v := by
  have ⟨_, hi⟩ := List.mem_ofFn.mp h
  exact hi.symm

theorem ofBytes_toBytes_append : ofBytes n (d.toBytes ++ bs) = d := by
  funext i
  have hi : i.val < d.toBytes.length := by simp
  rw [ofBytes, List.getD_eq_getElem?_getD, List.getElem?_append_left hi]
  simp [toBytes]

theorem ofBytes_toBytes : ofBytes n d.toBytes = d := by
  have h : ofBytes n (d.toBytes ++ []) = d := ofBytes_toBytes_append
  rwa [List.append_nil] at h

theorem toBytes_ofBytes (h : bs.length = n) : (ofBytes n bs).toBytes = bs := by
  subst h
  apply List.ext_getElem <;> simp +contextual [toBytes, ofBytes]

end ByteBlock
