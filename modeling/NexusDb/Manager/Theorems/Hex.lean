import NexusDb.Database.Theorems.CrashRecovery
import NexusDb.Manager.Theorems.Parsing
import NexusDb.Manager.Theorems.Stored

namespace NexusDb.Cli

-- The digits of either case.
def hexDigits : Text := "0123456789abcdefABCDEF".toList

theorem char_of_bounds {c : Char} (hl : lo ≤ c.toNat) (hh : c.toNat ≤ lo + n) :
    ∃ i ≤ n, c = Char.ofNat (lo + i) :=
  ⟨c.toNat - lo, by omega, by rw [Nat.add_sub_cancel' hl, Char.ofNat_toNat]⟩

theorem mem_hexDigits_of_hexVal (h : hexVal c = some d) : c ∈ hexDigits := by
  rw [hexVal] at h
  have hrange : ∀ lo n, (∀ i ≤ n, Char.ofNat (lo + i) ∈ hexDigits) → lo ≤ c.toNat → c.toNat ≤ lo + n → c ∈ hexDigits := by
    intro lo n hall hl hh
    have ⟨i, hi, hc⟩ := char_of_bounds hl hh
    exact hc ▸ hall i hi
  split at h
  case isTrue hc => exact hrange 48 9 (by decide) hc.left hc.right
  case isFalse =>
    split at h
    case isTrue hc => exact hrange 97 5 (by decide) hc.left hc.right
    case isFalse =>
      split at h
      case isTrue hc => exact hrange 65 5 (by decide) hc.left hc.right
      case isFalse => cases h

theorem hexVal_of_mem (h : c ∈ hexDigits) :
    ∃ d, hexVal c = some d ∧ d < 16 ∧ hexDigit (UInt8.ofNat d) = c.toLower := by
  have hall : hexDigits.all fun c =>
      (hexVal c).any fun d => decide (d < 16 ∧ hexDigit (UInt8.ofNat d) = c.toLower) := by decide
  have ⟨d, hd, hp⟩ := (Option.any_eq_true _ _).mp <| List.all_eq_true.mp hall c h
  exact ⟨d, hd, of_decide_eq_true hp⟩

theorem hexVal_hexDigit (h : d < 16) : hexVal (hexDigit (UInt8.ofNat d)) = some d := by
  revert h
  revert d
  decide

-- A byte and its two digits.

theorem exists_nibbles (b : UInt8) : ∃ hi < 16, ∃ lo < 16, b = UInt8.ofNat (hi <<< 4 ||| lo) := by
  have hlt := b.toNat_lt
  refine ⟨b.toNat / 16, by omega, b.toNat % 16, Nat.mod_lt _ (by decide), ?_⟩
  rw [← Nat.shiftLeft_add_eq_or_of_lt (Nat.mod_lt _ (by decide)), Nat.shiftLeft_eq, Nat.div_add_mod', UInt8.ofNat_toNat]

theorem nibbles (hh : hi < 16) (hl : lo < 16) :
    UInt8.ofNat (hi <<< 4 ||| lo) >>> 4 &&& 0xF = UInt8.ofNat hi ∧
      UInt8.ofNat (hi <<< 4 ||| lo) &&& 0xF = UInt8.ofNat lo := by
  have hall : ∀ hi < 16, ∀ lo < 16, UInt8.ofNat (hi <<< 4 ||| lo) >>> 4 &&& 0xF = UInt8.ofNat hi ∧
      UInt8.ofNat (hi <<< 4 ||| lo) &&& 0xF = UInt8.ofNat lo := by decide
  exact hall hi hh lo hl

theorem hexEncode_cons (hh : hi < 16) (hl : lo < 16) :
    hexEncode (UInt8.ofNat (hi <<< 4 ||| lo) :: bs) =
      hexDigit (UInt8.ofNat hi) :: hexDigit (UInt8.ofNat lo) :: hexEncode bs := by
  have ⟨h₁, h₂⟩ := nibbles hh hl
  rw [hexEncode, List.flatMap_cons, h₁, h₂]
  rfl

theorem hexPairs_cons (hh : hexVal hi = some a) (hl : hexVal lo = some b) :
    hexPairs (hi :: lo :: cs) = (hexPairs cs).map (UInt8.ofNat (a <<< 4 ||| b) :: ·) := by
  rw [hexPairs, hh, hl]

theorem length_hexEncode (bs : Bytes) : (hexEncode bs).length = 2 * bs.length := by
  induction bs
  case nil => rfl
  case cons b bs ih =>
    rw [hexEncode, List.flatMap_cons, List.length_append, List.length_cons] at *
    rw [ih]
    simp only [List.length_cons, List.length_nil]
    omega

theorem hexPairs_hexEncode (bs : Bytes) : hexPairs (hexEncode bs) = some bs := by
  induction bs
  case nil => rfl
  case cons b bs ih =>
    have ⟨hi, hh, lo, hl, hb⟩ := exists_nibbles b
    rw [hb, hexEncode_cons hh hl, hexPairs_cons (hexVal_hexDigit hh) (hexVal_hexDigit hl), ih]
    rfl

theorem even_tail (h : (hi :: lo :: cs).length % 2 = 0) : cs.length % 2 = 0 := by
  rw [List.length_cons, List.length_cons] at h
  omega

theorem hexPairs_some (he : text.length % 2 = 0) (hd : ∀ c ∈ text, c ∈ hexDigits) :
    ∃ bs, hexPairs text = some bs ∧ hexEncode bs = text.map Char.toLower := by
  fun_induction hexPairs text
  case case1 hi lo cs a b hb ha ih =>
    have ⟨bs, hbs, hcs⟩ := ih (even_tail he) fun c hc => hd c (List.mem_cons_of_mem _ (List.mem_cons_of_mem _ hc))
    have ⟨_, ha', ha₁, ha₂⟩ := hexVal_of_mem (hd hi List.mem_cons_self)
    have ⟨_, hb', hb₁, hb₂⟩ := hexVal_of_mem (hd lo (List.mem_cons_of_mem _ List.mem_cons_self))
    cases ha.symm.trans ha'
    cases hb.symm.trans hb'
    refine ⟨_, by rw [hbs]; rfl, ?_⟩
    rw [hexEncode_cons ha₁ hb₁, ha₂, hb₂, hcs]
    rfl
  case case2 hi lo cs hn =>
    have ⟨a, ha, _⟩ := hexVal_of_mem (hd hi List.mem_cons_self)
    have ⟨b, hb, _⟩ := hexVal_of_mem (hd lo (List.mem_cons_of_mem _ List.mem_cons_self))
    exact absurd hb (hn a b ha)
  case case3 cs hn =>
    match cs with
    | []           => exact ⟨[], rfl, rfl⟩
    | [_]          => cases he
    | hi :: lo :: cs => exact absurd rfl (hn hi lo cs)

theorem mem_hexDigits_of_hexPairs (he : text.length % 2 = 0) (h : hexPairs text = some bs) : ∀ c ∈ text, c ∈ hexDigits := by
  fun_induction hexPairs text generalizing bs
  case case1 hi lo cs a b hb ha ih =>
    have ⟨bs, hbs, _⟩ := Option.map_eq_some_iff.mp h
    have hcs := ih (even_tail he) hbs
    rw [List.forall_mem_cons, List.forall_mem_cons]
    exact ⟨mem_hexDigits_of_hexVal ha, mem_hexDigits_of_hexVal hb, hcs⟩
  case case2 => cases h
  case case3 cs hn =>
    match cs with
    | []           => exact nofun
    | [_]          => cases he
    | hi :: lo :: cs => exact absurd rfl (hn hi lo cs)

theorem hexDecode_hexEncode (bs : Bytes) : hexDecode (hexEncode bs) = some bs := by
  rw [hexDecode, length_hexEncode, if_neg (by omega), hexPairs_hexEncode]

theorem isSome_hexDecode (text : Text) :
    (hexDecode text).isSome ↔ text.length % 2 = 0 ∧ ∀ c ∈ text, c ∈ hexDigits := by
  rw [hexDecode]
  split
  case isTrue hn => exact ⟨nofun, fun h => absurd h.left hn⟩
  case isFalse hn =>
    have he := Decidable.not_not.mp hn
    constructor
    case mp =>
      intro h
      have ⟨bs, hbs⟩ := Option.isSome_iff_exists.mp h
      exact ⟨he, mem_hexDigits_of_hexPairs he hbs⟩
    case mpr =>
      intro h
      have ⟨bs, hbs, _⟩ := hexPairs_some he h.right
      rw [hbs]
      rfl

theorem hexEncode_of_hexDecode (h : hexDecode text = some bs) : hexEncode bs = text.map Char.toLower := by
  have ⟨he, hd⟩ := (isSome_hexDecode text).mp (by rw [h]; rfl)
  rw [hexDecode, if_neg (by omega)] at h
  have ⟨bs', hbs, hlower⟩ := hexPairs_some he hd
  cases h.symm.trans hbs
  exact hlower

-- What the commands do to the databases.

variable {l : Ledger} {h h' : Host} {env : Environment} {cmd : Command} {r : Result} {name table : Text} {t bs : Bytes}
  {id : RecordId}

-- The command makes one query of its database, about the record that it names.
inductive Queries (h : Host) (env : Environment) (cmd : Command) (h' : Host) : Prop
  | intro {call : QueryExecutor → Prog (Except Error α)} {q : Query} {R : Except Error α → Answer → Prop}
    (asks   : Asks call q R)
    (made   : h.withDb cmd.name env call = some (res, h'))
    (target : ∀ t id, q.target = some (t, id) →
      (cmd.kind = .update ∨ cmd.kind = .delete) ∧ t = cmd.table.bytes ∧ id = ⟨cmd.page, cmd.slot⟩)

theorem Queries.of_bind {call : QueryExecutor → Prog (Except Error α)} {k : Except Error α → Result} (ha : Asks call q R)
    (hb : ((h.withDb cmd.name env call).bind fun x => some (k x.fst, x.snd)) = some (r, h'))
    (ht : ∀ t id, q.target = some (t, id) →
      (cmd.kind = .update ∨ cmd.kind = .delete) ∧ t = cmd.table.bytes ∧ id = ⟨cmd.page, cmd.slot⟩) :
    Queries h env cmd h' := by
  have ⟨⟨res, h₁⟩, hw, he⟩ := Option.bind_eq_some_iff.mp hb
  cases he
  exact ⟨ha, hw, ht⟩

theorem dispatch_cases (hd : dispatch h env cmd = some (r, h')) :
    (h'.databases = h.databases ∧ h'.unclosed = h.unclosed) ∨ Queries h env cmd h' := by
  rw [dispatch] at hd
  simp only at hd
  split at hd
  case h_7 => exact .inr <| .of_bind Host.asks_dbInit hd nofun
  case h_8 => exact .inr <| .of_bind Host.asks_tableCreate hd nofun
  case h_9 => exact .inr <| .of_bind Host.asks_tableList hd nofun
  case h_10 => exact .inr <| .of_bind Host.asks_insert hd nofun
  case h_11 => exact .inr <| .of_bind Host.asks_get hd nofun
  case h_12 hk =>
    refine .inr <| .of_bind Host.asks_update hd fun t id ht => ?_
    cases ht
    exact ⟨.inl hk, rfl, rfl⟩
  case h_13 hk =>
    refine .inr <| .of_bind Host.asks_delete hd fun t id ht => ?_
    cases ht
    exact ⟨.inr hk, rfl, rfl⟩
  case h_14 => exact .inr <| .of_bind Host.asks_scan hd nofun
  all_goals
    cases hd
    exact .inl ⟨rfl, rfl⟩

-- The command updates or deletes the record.
def Changes (name : Text) (t : Bytes) (id : RecordId) (args : List Text) : Prop :=
  ∃ cmd, parseArgs args = .ok cmd ∧ (cmd.kind = .update ∨ cmd.kind = .delete) ∧
    cmd.name = name ∧ cmd.table.bytes = t ∧ (⟨cmd.page, cmd.slot⟩ : RecordId) = id

theorem run_cases (hr : run h env args = some (r, h')) :
    h' = h ∨ ∃ cmd, parseArgs args = .ok cmd ∧ dispatch h env cmd = some (r, h') := by
  rw [run] at hr
  split at hr
  case h_1 =>
    cases hr
    exact .inl rfl
  case h_2 cmd hp => exact .inr ⟨cmd, hp, hr⟩

theorem unclosed_run (hr : run h env args = some (r, h')) (hc : h'.unclosed name = false) : h.unclosed name = false := by
  rcases run_cases hr with rfl | ⟨cmd, _, hd⟩
  · exact hc
  · rcases dispatch_cases hd with ⟨_, hu⟩ | ⟨_, hw, _⟩
    · exact hu ▸ hc
    · exact Host.unclosed_withDb hw hc

theorem openable_run (hl : l.Openable (h.databases name)) (hr : run h env args = some (r, h'))
    (hc : h'.unclosed name = false) :
    ∃ l' : Ledger, l'.Openable (h'.databases name) ∧
      ∀ t id bs, l.saved t id bs → ¬Changes name t id args → l'.saved t id bs := by
  rcases run_cases hr with rfl | ⟨cmd, hp, hd⟩
  · exact ⟨l, hl, fun _ _ _ hs _ => hs⟩
  · rcases dispatch_cases hd with ⟨hdb, _⟩ | ⟨ha, hw, ht⟩
    · exact ⟨l, hdb ▸ hl, fun _ _ _ hs _ => hs⟩
    · have ⟨l', hl', hkeep⟩ := Host.openable_withDb hl ha hw hc
      refine ⟨l', hl', fun t id bs hs hn => hkeep t id bs hs fun hname htarget => hn ⟨cmd, hp, ?_⟩⟩
      have ⟨hk, ht, hid⟩ := ht t id htarget
      exact ⟨hk, hname, ht.symm, hid.symm⟩

theorem unclosed_runAll (hr : runAll h cmds = some h') (hc : h'.unclosed name = false) : h.unclosed name = false := by
  induction cmds generalizing h
  case nil => exact Option.some.inj hr ▸ hc
  case cons cmd cmds ih =>
    have ⟨⟨r, h₁⟩, hrun, hr⟩ := Option.bind_eq_some_iff.mp hr
    exact unclosed_run hrun (ih hr)

-- A record stays as long as no command changes it.
theorem openable_runAll (hl : l.Openable (h.databases name)) (hr : runAll h cmds = some h') (hc : h'.unclosed name = false) :
    ∃ l' : Ledger, l'.Openable (h'.databases name) ∧
      ∀ t id bs, l.saved t id bs → (∀ cmd ∈ cmds, ¬Changes name t id cmd.snd) → l'.saved t id bs := by
  induction cmds generalizing h l
  case nil => exact ⟨l, Option.some.inj hr ▸ hl, fun _ _ _ hs _ => hs⟩
  case cons cmd cmds ih =>
    have ⟨⟨r, h₁⟩, hrun, hr⟩ := Option.bind_eq_some_iff.mp hr
    have ⟨l₁, hl₁, hkeep₁⟩ := openable_run hl hrun (unclosed_runAll hr hc)
    have ⟨l', hl', hkeep⟩ := ih hl₁ hr
    refine ⟨l', hl', fun t id bs hs hn => hkeep t id bs (hkeep₁ t id bs hs (hn cmd List.mem_cons_self)) ?_⟩
    exact fun cmd hm => hn cmd (List.mem_cons_of_mem _ hm)

-- The commands for records, and what they print.

def insertArgs (name table hex : Text) : List Text :=
  ["insert".toList, name, table, hex]

def getArgs (name table : Text) (id : RecordId) : List Text :=
  ["get".toList, name, table, Decimal.padded 1 id.page.toNat, Decimal.padded 1 id.slot.toNat]

def scanArgs (name table : Text) : List Text :=
  ["scan".toList, name, table]

theorem parseArgs_insert : parseArgs (insertArgs name table hex) = parseData { kind := .insert, name, table } hex :=
  rfl

theorem parseArgs_get : parseArgs (getArgs name table id) =
    parseRecord { kind := .get, name, table } (Decimal.padded 1 id.page.toNat) (Decimal.padded 1 id.slot.toNat) :=
  rfl

theorem report_ok {f : α → Text} (h : (report f res).exitCode = .ok) : ∃ v, res = .ok v ∧ (report f res).output = f v := by
  cases res
  case ok v => exact ⟨v, rfl, rfl⟩
  case error e =>
    rw [report, mapStatus] at h
    split at h <;> cases h

theorem parseUint_padded {max : UInt64} (h : n ≤ max.toNat) :
    parseUint (Decimal.padded 1 n) max = some (UInt64.ofNat n) := by
  have hpos := Decimal.length_padded_pos (n := n) Nat.one_pos
  rw [parseUint, if_neg (List.ne_nil_of_length_pos hpos),
    (uintDigits_bounded max).read_iff toNat_injective (Nat.zero_le _)]
  have hv : Decimal.continued (UInt64.toNat 0) (Decimal.padded 1 n) = n := Decimal.value_padded
  have hlt := max.toNat_lt
  exact ⟨fun _ => Decimal.isDigit_of_mem_padded, hv.symm ▸ h, by rw [hv, UInt64.toNat_ofNat', Nat.mod_eq_of_lt (by omega)]⟩

theorem run_insert (hr : run h env (insertArgs name table text) = some (r, h')) (hok : r.exitCode = .ok) :
    ∃ bs id, hexDecode text = some bs ∧ h.insert name table bs env = some (.ok id, h') ∧
      r.output = buf ("inserted ".toList ++ location id.page id.slot) := by
  rw [run, parseArgs_insert, parseData] at hr
  cases hd : hexDecode text
  case none =>
    rw [hd] at hr
    cases hr
    cases hok
  case some bs =>
    cases bs
    case nil =>
      rw [hd] at hr
      cases hr
      cases hok
    case cons b bs =>
      rw [hd] at hr
      have ⟨⟨res, h₁⟩, hi, he⟩ := Option.bind_eq_some_iff.mp hr
      cases he
      have ⟨id, hid, ho⟩ := report_ok hok
      cases hid
      exact ⟨_, id, rfl, hi, ho⟩

theorem parse_get {id : RecordId} (hid : id.page ≠ invalidId) :
    parseArgs (getArgs name table id) = .ok { kind := .get, name, table, page := id.page, slot := id.slot } := by
  have hp : id.page.toNat ≤ (invalidId.toUInt64 - 1).toNat := by
    have hlt := id.page.toNat_lt
    have hne : id.page.toNat ≠ invalidId.toNat := fun he => hid (UInt32.toNat_inj.mp he)
    change id.page.toNat ≠ 4294967295 at hne
    change id.page.toNat ≤ 4294967294
    omega
  have hs : id.slot.toNat ≤ (0xFFFF : UInt64).toNat := Nat.le_of_lt_succ id.slot.toNat_lt
  rw [parseArgs_get, parseRecord, parseUint_padded hp, parseUint_padded hs]
  simp only [UInt64.toUInt32_ofNat', UInt32.ofNat_toNat, UInt64.toUInt16_ofNat', UInt16.ofNat_toNat]

theorem run_get (hid : id.page ≠ invalidId) : run h env (getArgs name table id) =
    (h.get name table id env).bind fun x => some (report (recordText id.page id.slot) x.fst, x.snd) := by
  rw [run, parse_get hid]
  rfl

theorem run_scan : run h env (scanArgs name table) =
    (h.scan name table env).bind fun x => some (report scanText x.fst, x.snd) :=
  rfl

-- The buffers are large enough.

theorem length_location (page : PageId) (slot : SlotId) : (location page slot).length ≤ 26 := by
  have hp : (Decimal.padded 1 page.toNat).length ≤ max 1 10 :=
    Decimal.length_padded_le (page.toNat_lt.trans (by decide))
  have hs : (Decimal.padded 1 slot.toNat).length ≤ max 1 5 :=
    Decimal.length_padded_le (slot.toNat_lt.trans (by decide))
  have hl : (location page slot).length =
      5 + (Decimal.padded 1 page.toNat).length + 6 + (Decimal.padded 1 slot.toNat).length := by
    unfold location
    rw [List.length_append, List.length_append, List.length_append]
    rfl
  omega

theorem buf_inserted (page : PageId) (slot : SlotId) :
    buf ("inserted ".toList ++ location page slot) = "inserted ".toList ++ location page slot := by
  have hl := length_location page slot
  refine List.take_of_length_le ?_
  rw [List.length_append]
  change 9 + _ ≤ 63
  omega

-- A record that is printed in full.
def line (id : RecordId) (hex : Text) : Text :=
  location id.page id.slot ++ " len=".toList ++ Decimal.padded 1 (hex.length / 2) ++ " hex=".toList ++ hex

theorem recordText_eq (h : bs.length ≤ SlottedPage.maxRecordSize) :
    recordText id.page id.slot bs = line id (hexEncode bs) := by
  have hl := length_location id.page id.slot
  have hn : (Decimal.padded 1 bs.length).length ≤ max 1 4 := Decimal.length_padded_le (h.trans_lt (by decide))
  have hbuf : (location id.page id.slot ++ " len=".toList ++ Decimal.padded 1 bs.length ++ " hex=".toList).length ≤ 63 := by
    rw [List.length_append, List.length_append, List.length_append]
    change _ + 5 + _ + 5 ≤ 63
    omega
  rw [recordText, buf, List.take_of_length_le hbuf, line, length_hexEncode, Nat.mul_div_cancel_left _ Nat.two_pos]

theorem scanText_of_mem (h : (id, bs) ∈ rows) :
    ∃ pre post, scanText rows = pre ++ recordText id.page id.slot bs ++ '\n' :: post := by
  have ⟨before, after, hrows⟩ := List.append_of_mem h
  let row (r : RecordId × Bytes) : Text := recordText r.fst.page r.fst.slot r.snd ++ ['\n']
  have htext : scanText rows = rows.flatMap row := by
    cases rows
    case nil => cases h
    case cons => rfl
  refine ⟨before.flatMap row, after.flatMap row, ?_⟩
  rw [htext, hrows, List.flatMap_append, List.flatMap_cons]
  simp only [row, List.append_assoc, List.cons_append, List.nil_append]

theorem stores_bounds (hs : h.Stores name t id bs) : bs.length ≤ SlottedPage.maxRecordSize ∧ id.page ≠ invalidId := by
  have ⟨l, hl, hsaved⟩ := hs
  rcases hl with ⟨_, hn⟩ | ⟨x, L, _, hx⟩
  · exact absurd hsaved (hn t id bs)
  · exact (hx.saved t id bs hsaved).bounds hx.laid.realized

-- What `get` and `scan` print of a record. They print something, unless something goes wrong.
structure Prints (h : Host) (name table : Text) (id : RecordId) (hex : Text) : Prop where
  get   : ∀ env r h', run h env (getArgs name table id) = some (r, h') → r.exitCode = .ok → r.output = line id hex
  scan  : ∀ env r h', run h env (scanArgs name table) = some (r, h') → r.exitCode = .ok →
    ∃ pre post, r.output = pre ++ line id hex ++ '\n' :: post
  getOk : ∀ env, h.Accessible name env → ∃ r h', run h env (getArgs name table id) = some (r, h') ∧ r.exitCode = .ok
  scanOk : ∀ env, h.Accessible name env → ∃ r h', run h env (scanArgs name table) = some (r, h') ∧ r.exitCode = .ok

theorem prints_of_stores (hs : h.Stores name table.bytes id bs) (hc : h.unclosed name = false) :
    Prints h name table id (hexEncode bs) := by
  have ⟨hlen, hid⟩ := stores_bounds hs
  constructor
  case get =>
    intro env r h' hr hok
    rw [run_get hid] at hr
    have ⟨⟨res, h₁⟩, hg, he⟩ := Option.bind_eq_some_iff.mp hr
    cases he
    have ⟨bs', hres, ho⟩ := report_ok hok
    cases hres
    rw [ho, hs.get hc hg, recordText_eq hlen]
  case scan =>
    intro env r h' hr hok
    rw [run_scan] at hr
    have ⟨⟨res, h₁⟩, hg, he⟩ := Option.bind_eq_some_iff.mp hr
    cases he
    have ⟨rows, hres, ho⟩ := report_ok hok
    cases hres
    rw [ho, ← recordText_eq hlen]
    exact scanText_of_mem (hs.scan hc hg)
  case getOk =>
    intro env ha
    have ⟨h', hg⟩ := ha.get hs
    exact ⟨_, h', by rw [run_get hid, hg]; rfl, rfl⟩
  case scanOk =>
    intro env ha
    have ⟨rows, h', hg⟩ := ha.scan hs
    exact ⟨_, h', by rw [run_scan, hg]; rfl, rfl⟩

-- Records go in and come out as they are, in lower case. A database may have been used in any way before its name is given
-- to commands.
theorem hex_payloads :
    (∀ bs, hexDecode (hexEncode bs) = some bs) ∧
    (∀ text, (hexDecode text).isSome ↔ text.length % 2 = 0 ∧ ∀ c ∈ text, c ∈ hexDigits) ∧
    (∀ text bs, hexDecode text = some bs → hexEncode bs = text.map Char.toLower) ∧
    (∀ {l h h₀ h₁ name table text before env r}, History (.closed (h.databases name)) l → runAll h before = some h₀ →
      run h₀ env (insertArgs name table text) = some (r, h₁) → r.exitCode = .ok →
      ∃ id : RecordId, r.output = "inserted ".toList ++ location id.page id.slot ∧
        ∀ cmds h₂, runAll h₁ cmds = some h₂ → h₂.unclosed name = false →
          (∀ cmd ∈ cmds, ¬Changes name table.bytes id cmd.snd) → Prints h₂ name table id (text.map Char.toLower)) := by
  refine ⟨hexDecode_hexEncode, isSome_hexDecode, fun _ _ => hexEncode_of_hexDecode, ?_⟩
  intro l h h₀ h₁ name table text before env r hhist hbefore hr hok
  have ⟨bs, id, hd, hi, ho⟩ := run_insert hr hok
  refine ⟨id, ho.trans (buf_inserted _ _), fun cmds h₂ hall hc hn => ?_⟩
  have hc₁ := unclosed_runAll hall hc
  have ⟨_, hl₀, _⟩ := openable_runAll hhist.agrees hbefore (unclosed_run hr hc₁)
  have ⟨l₁, hl₁, hs₁⟩ := Host.stores_insert hl₀ hi hc₁
  have ⟨l₂, hl₂, hkeep⟩ := openable_runAll hl₁ hall hc
  rw [← hexEncode_of_hexDecode hd]
  exact prints_of_stores ⟨l₂, hl₂, hkeep _ _ _ hs₁ hn⟩ hc

example : (do
    let (_, h) ← run {} {} (["table", "create", "a", "t"].map String.toList)
    let (_, h) ← run h {} (insertArgs ['a'] ['t'] "0aFf".toList)
    let (r, _) ← run h {} (getArgs ['a'] ['t'] ⟨3, 0⟩)
    return r.output) = some "page=3 slot=0 len=2 hex=0aff".toList := by
  decide +kernel

end NexusDb.Cli
