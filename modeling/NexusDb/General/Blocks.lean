import NexusDb.General.ByteBlock

namespace Bytes

-- Writing into a file at a position that is not beyond its end.
def writeAt (file : Bytes) (pos : Nat) (bs : Bytes) : Bytes :=
  file.take pos ++ bs ++ file.drop (pos + bs.length)

theorem length_writeAt {file bs : Bytes} (h : pos + bs.length ≤ file.length) :
    (writeAt file pos bs).length = file.length := by
  simp [writeAt]
  omega

theorem writeAt_length {file bs : Bytes} : writeAt file file.length bs = file ++ bs := by
  rw [writeAt, List.take_length, List.drop_eq_nil_of_le (Nat.le_add_right _ _), List.append_nil]

end Bytes

namespace ByteBlock

-- The bytes of blocks of one size, one block after the other.
def join (ps : List (ByteBlock n)) : Bytes :=
  ps.flatMap toBytes

variable {ps : List (ByteBlock n)} {bs : Bytes}

@[simp]
theorem length_join : (join ps).length = ps.length * n := by
  simp [join, List.length_flatMap]

theorem join_append : join (ps ++ ps') = join ps ++ join ps' :=
  List.flatMap_append

theorem join_singleton : join [d] = d.toBytes := by
  simp [join]

theorem drop_join (i : Nat) : (join ps).drop (i * n) = join (ps.drop i) := by
  induction i generalizing ps
  case zero => simp
  case succ i hi =>
    cases ps
    case nil => simp [join]
    case cons p ps =>
      have hl : p.toBytes.length = n := length_toBytes
      rw [List.drop_succ_cons, ← hi, join, List.flatMap_cons, Nat.succ_mul, Nat.add_comm, ← List.drop_drop,
        List.drop_append_of_le_length hl.ge, List.drop_eq_nil_of_le hl.le, List.nil_append]
      rfl

theorem take_join (i : Nat) : (join ps).take (i * n) = join (ps.take i) := by
  have h : (join ps).take (i * n) ++ join (ps.drop i) = join (ps.take i) ++ join (ps.drop i) := by
    rw [← drop_join, List.take_append_drop, drop_join, ← join_append, List.take_append_drop]
  exact List.append_cancel_right h

theorem drop_join_getElem (h : i < ps.length) : (join ps).drop (i * n) = ps[i].toBytes ++ join (ps.drop (i + 1)) := by
  rw [drop_join, List.drop_eq_getElem_cons h]
  rfl

theorem block_join (h : ps[i]? = some d) : ((join ps).drop (i * n)).take n = d.toBytes := by
  have ⟨hi, he⟩ := List.getElem?_eq_some_iff.mp h
  have hl : d.toBytes.length = n := length_toBytes
  rw [drop_join_getElem hi, he, List.take_append_of_le_length hl.ge, List.take_of_length_le hl.le]

-- A write to one block.
theorem writeAt_join (h : i < ps.length) : Bytes.writeAt (join ps) (i * n) d.toBytes = join (ps.set i d) := by
  rw [Bytes.writeAt, length_toBytes, ← Nat.succ_mul, take_join, drop_join, List.set_eq_take_append_cons_drop,
    if_pos h, join_append, List.append_assoc]
  rfl

-- A write at the end that adds a block.
theorem writeAt_join_end : Bytes.writeAt (join ps) (ps.length * n) d.toBytes = join (ps ++ [d]) := by
  rw [← length_join, Bytes.writeAt_length, join_append, join_singleton]

theorem exists_join (h : bs.length = k * n) : ∃ ps : List (ByteBlock n), ps.length = k ∧ join ps = bs := by
  induction k generalizing bs
  case zero =>
    have hb : bs = [] := List.eq_nil_of_length_eq_zero (by simpa using h)
    exact ⟨[], rfl, hb.symm⟩
  case succ k hi =>
    have hn : n ≤ bs.length := by rw [h, Nat.succ_mul]; exact Nat.le_add_left _ _
    have hd : (bs.drop n).length = k * n := by rw [List.length_drop, h, Nat.succ_mul, Nat.add_sub_cancel]
    have ⟨ps, hp, hj⟩ := hi hd
    refine ⟨ofBytes n (bs.take n) :: ps, by simp [hp], ?_⟩
    rw [join, List.flatMap_cons, toBytes_ofBytes (List.length_take_of_le hn)]
    rw [join] at hj
    rw [hj, List.take_append_drop]

end ByteBlock
