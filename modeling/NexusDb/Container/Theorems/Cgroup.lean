import NexusDb.Container.Cgroup

namespace NexusDb.Cgroup

open Decimal (word inWord Numeral)
open Container (pathMax)

-- The text is entirely a decimal number, and the number fits.
structure IsNumber (t : Text) (n : UInt64) : Prop where
  some   : t ≠ []
  digits : ∀ c ∈ t, c.isDigit
  value  : Decimal.value t = n.toNat

-- The values that stand in the files. Only `max` is read as 0.
def Reads (current max : Text) (m : CgroupMetrics δ) : Prop :=
  IsNumber (word current) m.memoryCurrent ∧
    (word max = "max".toList ∧ m.memoryMax = 0 ∨ IsNumber (word max) m.memoryMax ∧ m.memoryMax ≠ 0)

-- Nothing is made up: there is an error or a reading of what stands in the files.
def Honest (current max : Text) : Option (Rc × CgroupMetrics δ) → Prop
  | none         => False
  | some (rc, m) => rc = .process ∨ rc = .ok ∧ Reads current max m

-- What of the limit gets into the buffer.
def limitBuffer (max : Text) : Text :=
  cString ((word max).take 31)

-- Neither `max` nor a number that fits, with or without a sign.
def Refused (max : Text) : Prop :=
  limitBuffer max ≠ "max".toList ∧ ∀ negative ds, Numeral (limitBuffer max) negative ds [] → 2 ^ 64 ≤ Decimal.value ds

-- What the kernel writes.
structure Plain (current max : Text) : Prop where
  current : ∃ n, IsNumber (word current) n
  max     : word max = "max".toList ∨ ∃ n, IsNumber (word max) n ∧ n ≠ 0 ∧ (word max).length ≤ 31

def CpuReadable (files : Text → Option Text) (path : Text) : Prop :=
  ∀ s, files (cpuStatPath path) = some s → (cpuUsage s).isSome

section

variable {current max : Text}

theorem IsNumber.numeral (h : IsNumber t n) : Numeral t false t [] :=
  .of_digits h.some h.digits

theorem scanULong_mismatch : scanULong s = .mismatch ↔ ¬∃ negative ds rest, Numeral (word s) negative ds rest := by
  rw [scanULong]
  constructor
  case mp =>
    rintro h ⟨negative, ds, _, hn⟩
    obtain ⟨rest, hn⟩ := hn.of_takeWhile
    rw [Decimal.number_iff.mpr ⟨ds, hn, rfl⟩] at h
    split at h
    case h_1 he => cases he
    case h_2 => split at h <;> cases h
  case mpr =>
    intro h
    cases he : Decimal.number s
    case none => rfl
    case some x =>
      obtain ⟨ds, hn, _⟩ := Decimal.number_iff.mp he
      exact absurd ⟨_, ds, _, hn.takeWhile⟩ h

theorem scanULong_numeral (h : Numeral (word s) negative ds r) :
    scanULong s = .undefined ∧ 2 ^ 64 ≤ Decimal.value ds ∨
      ∃ rest, scanULong s = .value (ulong negative (Decimal.value ds)) rest ∧ Decimal.value ds < 2 ^ 64 := by
  have ⟨rest, hn⟩ := h.of_takeWhile
  rw [scanULong, Decimal.number_iff.mpr ⟨ds, hn, rfl⟩]
  simp only
  split
  case isTrue hle => exact .inl ⟨rfl, hle⟩
  case isFalse hlt => exact .inr ⟨rest, rfl, Nat.lt_of_not_le hlt⟩

theorem scanULong_value (h : scanULong s = .value n rest) :
    ∃ negative ds r, Numeral (word s) negative ds r ∧ Decimal.value ds < 2 ^ 64 := by
  by_cases hn : ∃ negative ds r, Numeral (word s) negative ds r
  case neg => cases h.symm.trans (scanULong_mismatch.mpr hn)
  case pos =>
    have ⟨negative, ds, r, hn⟩ := hn
    rcases scanULong_numeral hn with ⟨hs, _⟩ | ⟨_, _, hlt⟩
    · cases h.symm.trans hs
    · exact ⟨negative, ds, r, hn, hlt⟩

theorem ulong_toNat (n : UInt64) : ulong false n.toNat = n :=
  UInt64.ofNat_toNat

theorem IsNumber.scanULong (h : IsNumber (word s) n) : ∃ rest, scanULong s = .value n rest := by
  rcases scanULong_numeral h.numeral with ⟨_, hle⟩ | ⟨rest, hs, _⟩
  · rw [h.value] at hle
    exact absurd n.toNat_lt (Nat.not_lt.mpr hle)
  · rw [h.value, ulong_toNat] at hs
    exact ⟨rest, hs⟩

theorem inWord_limitBuffer : ∀ c ∈ limitBuffer max, inWord c := fun _ hc =>
  List.mem_takeWhile_imp <| List.mem_of_mem_take <| (List.takeWhile_sublist _).subset hc

theorem dropWhile_limitBuffer : (limitBuffer max).dropWhile Decimal.isSpace = limitBuffer max := by
  cases h : limitBuffer max
  case nil => rfl
  case cons c cs =>
    have hc : inWord c := inWord_limitBuffer c (h ▸ List.mem_cons_self)
    rw [List.dropWhile_cons_of_neg]
    rw [inWord] at hc
    simpa using hc

theorem parseLimit_none : parseLimit (limitBuffer max) = none ↔ Refused max := by
  rw [parseLimit, Refused]
  split
  case isTrue h => exact ⟨nofun, fun hr => absurd h hr.left⟩
  case isFalse h =>
    constructor
    case mp =>
      refine fun hp => ⟨h, fun negative ds hn => ?_⟩
      have hd := hn
      rw [← dropWhile_limitBuffer] at hd
      rw [Decimal.number_iff.mpr ⟨ds, hd, rfl⟩] at hp
      simpa using hp
    case mpr =>
      intro hr
      split
      case h_2 => rfl
      case h_1 negative n hn =>
        have ⟨ds, hd, hv⟩ := Decimal.number_iff.mp hn
        rw [dropWhile_limitBuffer] at hd
        rw [if_pos (hv ▸ hr.right negative ds hd)]

theorem parseLimit_number (h : IsNumber (limitBuffer max) n) : parseLimit (limitBuffer max) = some n := by
  have hd := h.numeral
  rw [← dropWhile_limitBuffer] at hd
  have hmax : limitBuffer max ≠ "max".toList := fun he => by
    have hm := h.digits 'm' (by rw [he]; decide)
    cases hm
  rw [parseLimit, if_neg hmax, Decimal.number_iff.mpr ⟨_, hd, rfl⟩]
  simp only [dropWhile_limitBuffer, h.value, ulong_toNat]
  exact if_neg (Nat.not_le.mpr n.toNat_lt)

theorem limitBuffer_digits (h : ∀ c ∈ word max, c.isDigit) : limitBuffer max = (word max).take 31 := by
  refine List.takeWhile_eq_self_iff.mpr fun c hc => ?_
  have hd := h c (List.mem_of_mem_take hc)
  rw [decide_eq_true_iff]
  rintro rfl
  cases hd

-- More digits than fit into the buffer make another number, unless all of them are zeros.
theorem length_le_of_isNumber (h : IsNumber (word max) n) (hn : n ≠ 0)
    (hp : parseLimit (limitBuffer max) = some n) : (word max).length ≤ 31 := by
  refine Nat.le_of_not_lt fun hlt => hn ?_
  have hb := limitBuffer_digits h.digits
  have hrest : (word max).drop 31 ≠ [] := by
    rw [← List.length_pos_iff, List.length_drop]
    omega
  have hten : 10 * Decimal.value ((word max).take 31) ≤ Decimal.value ((word max).take 31 ++ (word max).drop 31) :=
    Decimal.ten_mul_value_le hrest
  rw [List.take_append_drop, h.value] at hten
  have hfits : Decimal.value ((word max).take 31) < 2 ^ 64 := by
    have := n.toNat_lt
    omega
  have hval := UInt64.toNat_ofNat_of_lt' hfits
  have hnum : IsNumber (limitBuffer max) (UInt64.ofNat (Decimal.value ((word max).take 31))) := by
    refine ⟨?_, fun c hc => h.digits c (List.mem_of_mem_take (hb ▸ hc)), by rw [hb, hval]⟩
    rw [hb, ← List.length_pos_iff, List.length_take]
    omega
  have he := Option.some_inj.mp <| hp.symm.trans (parseLimit_number hnum)
  rw [← he] at hval
  exact UInt64.toNat_inj.mp (by rw [UInt64.toNat_zero]; omega)

theorem limit_iff (h : parseLimit (limitBuffer max) = some limit) :
    (word max = "max".toList ∧ limit = 0 ∨ IsNumber (word max) limit ∧ limit ≠ 0) ↔
      (word max = "max".toList ∨ ∃ n, IsNumber (word max) n ∧ n ≠ 0 ∧ (word max).length ≤ 31) := by
  constructor
  case mp =>
    rintro (⟨hm, _⟩ | ⟨hn, h0⟩)
    · exact .inl hm
    · exact .inr ⟨limit, hn, h0, length_le_of_isNumber hn h0 h⟩
  case mpr =>
    rintro (hm | ⟨n, hn, h0, hlen⟩)
    · have hb : limitBuffer max = "max".toList := by
        rw [limitBuffer, hm]
        decide
      rw [hb, parseLimit, if_pos rfl, Option.some_inj] at h
      exact .inl ⟨hm, h.symm⟩
    · have hb : limitBuffer max = word max := by rw [limitBuffer_digits hn.digits, List.take_of_length_le hlen]
      have he := h.symm.trans (parseLimit_number (hb ▸ hn))
      rw [Option.some_inj] at he
      exact .inr ⟨he ▸ hn, he ▸ h0⟩

end

section

variable [Double δ] {files : Text → Option Text} {path current max : Text} {m : CgroupMetrics δ}

-- What is read of the limit, with an empty buffer when there is no word.
theorem scanWord_limit (max : Text) :
    (scanWord 31 max = none ∧ parseLimit (limitBuffer max) = none) ∨
      ∃ rest, scanWord 31 max = some ((word max).take 31, rest) := by
  rw [scanWord]
  split
  case isTrue he =>
    refine .inl ⟨rfl, ?_⟩
    rw [limitBuffer, he]
    decide
  case isFalse => exact .inr ⟨_, rfl⟩

-- How a call ends when the files can be opened.
inductive Outcome (files : Text → Option Text) (path current max : Text) : Option (Rc × CgroupMetrics δ) → Prop
  | mismatch (hc : scanULong current = .mismatch) : Outcome files path current max (some (.process, r))
  | overflow (hc : scanULong current = .undefined) : Outcome files path current max none
  | refused (hc : scanULong current = .value n rest) (hm : parseLimit (limitBuffer max) = none) :
      Outcome files path current max (some (.process, r))
  | cpu (hc : scanULong current = .value n rest) (hm : parseLimit (limitBuffer max) = some limit)
      (hs : ¬CpuReadable files path) : Outcome files path current max none
  | read (hc : scanULong current = .value r.memoryCurrent rest)
      (hm : parseLimit (limitBuffer max) = some r.memoryMax) (hs : CpuReadable files path) :
      Outcome files path current max (some (.ok, r))

theorem readMetrics_outcome (hp : path ≠ []) (hc : files (memoryCurrentPath path) = some current)
    (hm : files (memoryMaxPath path) = some max) : Outcome files path current max (readMetrics files path m) := by
  rw [readMetrics, if_neg hp, hc, hm, Option.map_some, Option.bind_some]
  cases hs : scanULong current
  case mismatch => exact .mismatch hs
  case undefined => exact .overflow hs
  case value n rest =>
    simp only
    rcases scanWord_limit max with ⟨hw, hl⟩ | ⟨_, hw⟩
    · rw [hw]
      exact .refused hs hl
    · rw [hw]
      simp only
      split
      case h_1 hl => exact .refused hs hl
      case h_2 limit hl =>
        split
        case h_1 hcpu =>
          refine .cpu hs hl fun hr => ?_
          cases hf : files (cpuStatPath path)
          case none => rw [hf] at hcpu; cases hcpu
          case some s =>
            have hsome := hr s hf
            rw [hf, Option.elim_some] at hcpu
            rw [hcpu] at hsome
            cases hsome
        case h_2 hcpu =>
          refine .read hs hl fun s hf => ?_
          rw [hf] at hcpu
          exact Option.isSome_of_eq_some hcpu

-- The texts for which nothing is made up.
def Sufficient (files : Text → Option Text) (path current max : Text) : Prop :=
  (¬∃ negative ds rest, Numeral (word current) negative ds rest) ∨
  ((∃ negative ds rest, Numeral (word current) negative ds rest ∧ Decimal.value ds < 2 ^ 64) ∧ Refused max) ∨
  (Plain current max ∧ CpuReadable files path)

theorem Outcome.honest_iff (h : Outcome files path current max r) :
    Honest current max r ↔ Sufficient files path current max := by
  cases h
  case mismatch hc => exact iff_of_true (.inl rfl) (.inl (scanULong_mismatch.mp hc))
  case overflow hc =>
    refine iff_of_false id ?_
    rintro (h | ⟨⟨negative, ds, rest, hn, hlt⟩, _⟩ | ⟨hp, _⟩)
    · cases hc.symm.trans (scanULong_mismatch.mpr h)
    · rcases scanULong_numeral hn with ⟨_, hle⟩ | ⟨_, hv, _⟩
      · exact absurd hlt (Nat.not_lt.mpr hle)
      · cases hc.symm.trans hv
    · have ⟨n, hn⟩ := hp.current
      have ⟨_, hv⟩ := hn.scanULong
      cases hc.symm.trans hv
  case refused hc hm => exact iff_of_true (.inl rfl) (.inr <| .inl ⟨scanULong_value hc, parseLimit_none.mp hm⟩)
  case cpu hc hm hs =>
    refine iff_of_false id ?_
    rintro (h | ⟨_, hr⟩ | ⟨_, hr⟩)
    · cases hc.symm.trans (scanULong_mismatch.mpr h)
    · cases hm.symm.trans (parseLimit_none.mpr hr)
    · exact hs hr
  case read _ r hc hm hs =>
    have hcurrent : IsNumber (word current) r.memoryCurrent ↔ ∃ n, IsNumber (word current) n := by
      refine ⟨fun h => ⟨_, h⟩, fun ⟨n, hn⟩ => ?_⟩
      have ⟨_, hv⟩ := hn.scanULong
      cases hc.symm.trans hv
      exact hn
    constructor
    case mp =>
      rintro (h | ⟨_, hread, hlimit⟩)
      · cases h
      · exact .inr <| .inr ⟨⟨hcurrent.mp hread, (limit_iff hm).mp hlimit⟩, hs⟩
    case mpr =>
      rintro (h | ⟨_, hr⟩ | ⟨hp, _⟩)
      · cases hc.symm.trans (scanULong_mismatch.mpr h)
      · cases hm.symm.trans (parseLimit_none.mpr hr)
      · exact .inr ⟨rfl, hcurrent.mpr hp.current, (limit_iff hm).mpr hp.max⟩

end

section

variable {files files' : Text → Option Text} {path : Text}

theorem childPath_eq (hp : path.length < pathMax) (hf : file.length ≤ 30) : childPath path file = path ++ '/' :: file := by
  refine List.take_of_length_le ?_
  have hp : path.length < 256 := hp
  have hmax : pathMax + 31 = 287 := rfl
  rw [List.length_append, List.length_cons, hmax]
  omega

theorem cpuMaxPath_ne (hp : path.length < pathMax) : memoryMaxPath path ≠ cpuMaxPath path := by
  rw [memoryMaxPath, cpuMaxPath, childPath_eq hp (by decide), childPath_eq hp (by decide), Ne,
    List.append_cancel_left_eq]
  decide

-- The limit of the memory is written before the one of the CPU, into another file.
theorem setLimits_memoryMax (hp : path.length < pathMax)
    (h : setLimits files path memoryBytes cpuPercent memory cpu = (.ok, files')) :
    path ≠ [] ∧ files' (memoryMaxPath path) = some (memoryLimit memoryBytes ++ ['\n']) := by
  rw [setLimits] at h
  split at h
  case isTrue => cases h
  case isFalse hne =>
    refine ⟨hne, ?_⟩
    split at h
    case isTrue => cases h
    case isFalse =>
      cases memory
      case failed => cases h
      case complete =>
        cases cpu
        case failed => cases h
        case complete =>
          cases h
          rw [Function.update_of_ne (cpuMaxPath_ne hp), Function.update_self]

theorem inWord_memoryLimit (n : UInt64) : ∀ c ∈ memoryLimit n, inWord c := by
  rw [memoryLimit]
  split
  case isTrue => exact fun c hc => Decimal.inWord_digit (Decimal.isDigit_of_mem_padded hc)
  case isFalse => exact List.all_eq_true.mp rfl

theorem word_line {t : Text} (h : ∀ c ∈ t, inWord c) : word (t ++ ['\n']) = t := by
  have hdrop : (t ++ ['\n']).dropWhile Decimal.isSpace = t ++ ['\n'] ∨ t = [] := by
    cases t
    case nil => exact .inr rfl
    case cons c cs =>
      have hc := h c List.mem_cons_self
      rw [inWord, Bool.not_eq_true'] at hc
      exact .inl (List.dropWhile_cons_of_neg (by rw [hc]; rintro ⟨⟩))
  rcases hdrop with hd | rfl
  · rw [word, hd]
    exact (Decimal.takeWhile_append_ends h (by rintro _ ⟨⟩; rintro ⟨⟩)).left
  · rfl

theorem parseLimit_memoryLimit (n : UInt64) : parseLimit (limitBuffer (memoryLimit n ++ ['\n'])) = some n := by
  have hw := word_line (inWord_memoryLimit n)
  by_cases hn : n > 0
  case neg =>
    have h0 : n = 0 := UInt64.le_zero_iff.mp (UInt64.not_lt.mp hn)
    subst h0
    decide +kernel
  case pos =>
    have hl : memoryLimit n = Decimal.padded 1 n.toNat := if_pos hn
    have hd : ∀ c ∈ word (memoryLimit n ++ ['\n']), c.isDigit := by
      rw [hw, hl]
      exact fun c hc => Decimal.isDigit_of_mem_padded hc
    have hlen : (Decimal.padded 1 n.toNat).length ≤ 20 :=
      Decimal.length_padded_le (k := 20) (n.toNat_lt.trans (by decide))
    refine parseLimit_number ?_
    rw [limitBuffer_digits hd, hw, hl, List.take_of_length_le (by omega)]
    refine ⟨?_, fun c hc => Decimal.isDigit_of_mem_padded hc, Decimal.value_padded⟩
    rw [← List.length_pos_iff]
    exact Decimal.length_padded_pos (by decide)

end

section

variable [Double δ] {files files' : Text → Option Text} {path current : Text} {m : CgroupMetrics δ}

theorem readMetrics_setLimits (hp : path.length < pathMax)
    (h : setLimits files path memoryBytes cpuPercent memory cpu = (.ok, files'))
    (hc : files' (memoryCurrentPath path) = some current) (hn : IsNumber (word current) n)
    (hs : CpuReadable files' path) :
    ∃ r, readMetrics files' path m = some (.ok, r) ∧ r.memoryCurrent = n ∧ r.memoryMax = memoryBytes := by
  have ⟨hne, hm⟩ := setLimits_memoryMax hp h
  have ⟨_, hv⟩ := hn.scanULong
  have hl := parseLimit_memoryLimit memoryBytes
  have ho := readMetrics_outcome (m := m) hne hc hm
  generalize readMetrics files' path m = x at ho ⊢
  cases ho
  case mismatch hx => cases hv.symm.trans hx
  case overflow hx => cases hv.symm.trans hx
  case refused hx => cases hl.symm.trans hx
  case cpu hx => exact absurd hs hx
  case read r hcurrent hlimit _ =>
    refine ⟨r, rfl, ?_, ?_⟩
    · cases hv.symm.trans hcurrent
      rfl
    · exact Option.some_inj.mp <| hlimit.symm.trans hl

-- The readings of the memory are those of the files under conditions on their texts, and a limit that was
-- set is read back. A path of a cgroup is shorter than `pathMax` everywhere.
theorem memory_readings_iff :
    (∀ files path current max (m : CgroupMetrics δ), path ≠ [] → files (memoryCurrentPath path) = some current →
      files (memoryMaxPath path) = some max →
      (Honest current max (readMetrics files path m) ↔ Sufficient files path current max)) ∧
    (∀ files files' path memoryBytes cpuPercent memory cpu, path.length < pathMax →
      setLimits files path memoryBytes cpuPercent memory cpu = (.ok, files') →
      ∀ current n (m : CgroupMetrics δ), files' (memoryCurrentPath path) = some current → IsNumber (word current) n →
      CpuReadable files' path →
      ∃ r, readMetrics files' path m = some (.ok, r) ∧ r.memoryCurrent = n ∧ r.memoryMax = memoryBytes) := by
  constructor
  · intro files path current max m hp hc hm
    exact (readMetrics_outcome hp hc hm).honest_iff
  · intro files files' path memoryBytes cpuPercent memory cpu hp h current n m hc hn hs
    exact readMetrics_setLimits hp h hc hn hs

end

def twoFiles (current max : Text) (path : Text) : Option Text :=
  if path = memoryCurrentPath ['c'] then
    some current
  else if path = memoryMaxPath ['c'] then
    some max
  else
    none

def reading (current max : Text) : Option (Rc × UInt64 × UInt64) :=
  (readMetrics (δ := Float) (twoFiles current max) ['c'] ⟨0, 0, 0, 0⟩).map fun (rc, m) =>
    (rc, m.memoryCurrent, m.memoryMax)

-- A rest after the number, signs, a limit of 0, a NUL and digits beyond the buffer are not noticed.
theorem fabricated_readings :
    reading "12abc\n".toList "1000\n".toList = some (.ok, 12, 1000) ∧
    reading "-1\n".toList "-1\n".toList = some (.ok, 18446744073709551615, 18446744073709551615) ∧
    reading "5\n".toList "0\n".toList = some (.ok, 5, 0) ∧
    reading "5\n".toList "max\x00100\n".toList = some (.ok, 5, 0) ∧
    reading "5\n".toList (List.replicate 31 '0' ++ "77\n".toList) = some (.ok, 5, 0) := by
  decide +kernel

end NexusDb.Cgroup
