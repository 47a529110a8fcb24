import NexusDb.Manager.Manager

namespace NexusDb

theorem strtol_ofInt (hmin : -2 ^ 63 ≤ n) (hmax : n < 2 ^ 63) : strtol (Decimal.ofInt n) = n := by
  rw [strtol, Decimal.scan_ofInt]
  cases lt_or_ge n 0
  case inl hn =>
    rw [decide_eq_true hn]
    simp only
    omega
  case inr hn =>
    rw [decide_eq_false (Int.not_lt.mpr hn)]
    simp only
    omega

theorem strtoul_padded (h : n < 2 ^ 64) : strtoul (Decimal.padded 1 n) = UInt64.ofNat n := by
  rw [strtoul, Decimal.scan_padded (by decide)]
  simp only
  rw [if_neg (Nat.not_le.mpr h)]
  rfl

namespace ContainerMeta

variable {m : ContainerMeta} {es : List KeyValue.Entry}

-- No field has a newline, so that no line of the text is taken for one of another field.
structure Plain (m : ContainerMeta) : Prop where
  id     : '\n' ∉ m.id
  engine : '\n' ∉ m.engine
  cgroup : '\n' ∉ m.cgroup

theorem Plain.set (h : m.Plain) (hv : '\n' ∉ e.snd) : (m.set e).Plain := by
  rw [ContainerMeta.set]
  split_ifs
  all_goals constructor
  all_goals first | exact hv | exact h.id | exact h.engine | exact h.cgroup

theorem Plain.foldl (h : m.Plain) (hv : ∀ e ∈ es, '\n' ∉ e.snd) : (es.foldl ContainerMeta.set m).Plain := by
  induction es generalizing m
  case nil => exact h
  case cons e es hi =>
    exact hi (h.set (hv e List.mem_cons_self)) fun x hx => hv x (List.mem_cons_of_mem e hx)

theorem load_plain (name text : Text) : (load name text).Plain :=
  Plain.foldl ⟨List.not_mem_nil, List.not_mem_nil, List.not_mem_nil⟩
    fun _ he => KeyValue.newline_not_mem_value he

theorem set_state (h : e.fst ≠ "state".toList) : (m.set e).state = m.state := by
  rw [set]
  split_ifs
  all_goals rfl

theorem foldl_state (h : ∀ e ∈ es, e.fst ≠ "state".toList) : (es.foldl set m).state = m.state := by
  induction es generalizing m
  case nil => rfl
  case cons e es hi =>
    rw [List.foldl_cons, hi fun x hx => h x (List.mem_cons_of_mem e hx), set_state (h e List.mem_cons_self)]

theorem set_id (h : e.fst ≠ "id".toList) : (m.set e).id = m.id := by
  rw [set]
  split_ifs
  all_goals rfl

theorem foldl_id (h : ∀ e ∈ es, e.fst ≠ "id".toList) : (es.foldl set m).id = m.id := by
  induction es generalizing m
  case nil => rfl
  case cons e es hi =>
    rw [List.foldl_cons, hi fun x hx => h x (List.mem_cons_of_mem e hx), set_id (h e List.mem_cons_self)]

-- The entries before the one of the state, which is the last.
def front (m : ContainerMeta) : List KeyValue.Entry :=
  m.entries.dropLast

theorem entries_eq : m.entries = m.front ++ [("state".toList, Decimal.ofInt m.state)] :=
  rfl

def keys : List Text :=
  ["name", "id", "memory", "cpu", "engine", "cgroup", "pid", "state"].map String.toList

theorem front_keys (h : k ∈ m.front.map Prod.fst) : k ≠ "state".toList := by
  have hk : ∀ k ∈ keys.dropLast, k ≠ "state".toList := by decide
  exact hk k h

theorem newline_not_mem_padded : '\n' ∉ Decimal.padded w n :=
  fun h => absurd (Decimal.isDigit_of_mem_padded h) (by decide)

theorem newline_not_mem_ofInt : '\n' ∉ Decimal.ofInt n := by
  rw [Decimal.ofInt]
  split
  case isTrue => exact fun h => newline_not_mem_padded (List.mem_of_ne_of_mem (by decide) h)
  case isFalse => exact newline_not_mem_padded

theorem Plain.entries (h : m.Plain) (hn : '\n' ∉ m.name) : ∀ e ∈ m.entries, KeyValue.Plain e := by
  have hk : ∀ k ∈ keys, '\n' ∉ k ∧ '=' ∉ k := by decide
  have hv : ∀ v ∈ m.entries.map Prod.snd, '\n' ∉ v := by
    simp only [ContainerMeta.entries, List.map_cons, List.map_nil, List.forall_mem_cons]
    exact ⟨hn, h.id, newline_not_mem_padded, newline_not_mem_padded, h.engine, h.cgroup,
      newline_not_mem_ofInt, newline_not_mem_ofInt, List.forall_mem_nil _⟩
  exact fun e he => ⟨hk e.fst (List.mem_map_of_mem he), hv e.snd (List.mem_map_of_mem he)⟩

-- The state is a single digit.
theorem ofInt_code (s : Container.State) : ∃ c, Decimal.ofInt s.code = [c] ∧ strtol [c] = s.code := by
  cases s
  · exact ⟨'0', by decide, by decide⟩
  · exact ⟨'1', by decide, by decide⟩
  · exact ⟨'2', by decide, by decide⟩
  · exact ⟨'3', by decide, by decide⟩

-- The pid is a value of `long`, the state one of `int`.
structure Fits (m : ContainerMeta) : Prop where
  pid   : -2 ^ 63 ≤ m.pid ∧ m.pid < 2 ^ 63
  state : -2 ^ 31 ≤ m.state ∧ m.state < 2 ^ 31

theorem Fits.of_code {s : Container.State} (hs : m.state = s.code) (hmin : -2 ^ 63 ≤ m.pid) (hmax : m.pid < 2 ^ 63) :
    m.Fits := by
  refine ⟨⟨hmin, hmax⟩, ?_⟩
  rw [hs]
  cases s <;> decide

theorem foldl_entries (h : m.Fits) (m₀ : ContainerMeta) : m.entries.foldl set m₀ = m := by
  have ⟨⟨hmin, hmax⟩, hsmin, hsmax⟩ := h
  have hmem : strtoul (Decimal.padded 1 m.memory.toNat) = m.memory := by
    rw [strtoul_padded m.memory.toNat_lt, UInt64.ofNat_toNat]
  have hcpu : (strtoul (Decimal.padded 1 m.cpu.toNat)).toUInt32 = m.cpu := by
    have hlt := m.cpu.toNat_lt
    rw [strtoul_padded (by omega), UInt64.toUInt32_ofNat', UInt32.ofNat_toNat]
  have hstate : (strtol (Decimal.ofInt m.state)).bmod (2 ^ 32) = m.state := by
    rw [strtol_ofInt (by omega) (by omega)]
    exact Int.bmod_eq_of_le (by omega) (by omega)
  simp only [entries, List.foldl_cons, List.foldl_nil, set, hstate]
  simp [hmem, hcpu, strtol_ofInt hmin hmax]

-- What is saved is read back, whatever the file is called.
theorem load_text (hp : m.Plain) (hn : '\n' ∉ m.name) (h : m.Fits) (name : Text) : load name m.text = m := by
  rw [load, text, KeyValue.entries_encode (hp.entries hn), foldl_entries h]

-- Nothing that is read has a newline.
theorem load_text_iff (hn : '\n' ∉ m.name) (hid : '\n' ∉ m.id) (h : m.Fits) (name : Text) :
    load name m.text = m ↔ '\n' ∉ m.engine ∧ '\n' ∉ m.cgroup := by
  constructor
  case mp =>
    intro he
    have hp := load_plain name m.text
    rw [he] at hp
    exact ⟨hp.engine, hp.cgroup⟩
  case mpr => exact fun ⟨hengine, hcgroup⟩ => load_text ⟨hid, hengine, hcgroup⟩ hn h name

-- What is left of the text of an id, which is in the second line.
theorem load_take_id (hp : m.Plain) (hn : '\n' ∉ m.name) (name : Text) (n : Nat) :
    (load name (m.text.take n)).id = m.id.take (n - (m.name.length + 9)) := by
  have hrest : ∀ k, ∀ e ∈ KeyValue.cut (m.entries.drop 2) k, e.fst ≠ "id".toList := by
    intro k e he
    have hkeys : ∀ x ∈ keys.drop 2, x ≠ "id".toList := by decide
    exact hkeys _ (KeyValue.key_mem_of_mem_cut he)
  have hname : "name".toList.length = 4 := by decide
  have hid : "id".toList.length = 2 := by decide
  have hentries : m.entries = ("name".toList, m.name) :: ("id".toList, m.id) :: m.entries.drop 2 := rfl
  have hempty : n ≤ m.name.length + 9 → m.id.take (n - (m.name.length + 9)) = [] := by
    intro h
    rw [Nat.sub_eq_zero_of_le h, List.take_zero]
  rw [load, text, KeyValue.entries_take (hp.entries hn), hentries, KeyValue.cut]
  dsimp only
  rw [hname]
  split
  case isTrue h => exact (hempty (by omega)).symm
  case isFalse h =>
    split
    case isTrue h => exact (hempty (by omega)).symm
    case isFalse h =>
      rw [KeyValue.cut, KeyValue.length_line]
      dsimp only
      rw [hname, hid]
      split
      case isTrue h => exact (hempty (by omega)).symm
      case isFalse h =>
        split
        case isTrue h =>
          change m.id.take _ = _
          congr 1
          omega
        case isFalse h =>
          rw [List.foldl_cons, List.foldl_cons, foldl_id (hrest _), List.take_of_length_le (by omega)]
          rfl

-- What is left of the text of a state.
theorem load_take (hp : m.Plain) (hn : '\n' ∉ m.name) {s : Container.State} (hs : m.state = s.code)
    (name : Text) (n : Nat) :
    (m.text.length ≤ n + 1 ∧ load name (m.text.take n) = m.entries.foldl set { name }) ∨
    (n + 1 < m.text.length ∧ (load name (m.text.take n)).state = 0) := by
  have ⟨c, hc, _⟩ := ofInt_code s
  have hcut : load name (m.text.take n) = (KeyValue.cut m.entries n).foldl set { name } := by
    rw [load, text, KeyValue.entries_take (hp.entries hn)]
  have hlength : m.text.length = (KeyValue.encode m.front).length + 8 := by
    rw [text, entries_eq, hs, hc]
    simp [KeyValue.encode, KeyValue.line]
  rw [hcut, hlength]
  cases Nat.le_total n (KeyValue.encode m.front).length
  case inl h =>
    refine .inr ⟨by omega, foldl_state fun e he => front_keys (m := m) ?_⟩
    rw [entries_eq] at he
    exact KeyValue.cut_snoc h e he
  case inr h =>
    generalize hk : n - (KeyValue.encode m.front).length = k
    rw [entries_eq, KeyValue.cut_append h, hk, hs, hc, KeyValue.cut, KeyValue.cut]
    have hfront : (m.front.foldl set { name }).state = 0 :=
      foldl_state fun e he => front_keys (List.mem_map_of_mem he)
    split
    case isTrue h₁ =>
      have h₁ : k ≤ 5 := h₁
      rw [List.append_nil]
      exact .inr ⟨by omega, hfront⟩
    case isFalse h₁ =>
      have h₁ : ¬k ≤ 5 := h₁
      split
      case isTrue h₂ =>
        have h₂ : k ≤ 5 + 1 + 1 := h₂
        have hlen : "state".toList.length = 5 := by decide
        cases Nat.lt_or_ge k 7
        case inl h₃ =>
          have he : k - ("state".toList.length + 1) = 0 := by rw [hlen]; omega
          rw [he, List.foldl_append]
          exact .inr ⟨by omega, by simp [set]; decide⟩
        case inr h₃ =>
          have he : k - ("state".toList.length + 1) = 1 := by rw [hlen]; omega
          rw [he]
          exact .inl ⟨by omega, rfl⟩
      case isFalse h₂ =>
        have h₂ : ¬k ≤ 5 + 1 + 1 := h₂
        exact .inl ⟨by omega, rfl⟩

end ContainerMeta
end NexusDb
