import NexusDb.Manager.Theorems.Serial

namespace NexusDb

namespace Tables

variable {T T' : Tables} {t table name : Bytes} {id id' : RecordId} {bs : Bytes} {q : Query} {a : Answer}

theorem find_create (hn : T.contents name = none) : (T.create name).find t id = T.find t id := by
  simp only [find, create]
  by_cases ht : t = name
  case pos =>
    rw [ht, Function.update_self, hn]
    rfl
  case neg => rw [Function.update_of_ne ht]

theorem find_write_self (ht : (T.contents table).isSome) : (T.write table id record).find table id = record := by
  have ⟨M, hM⟩ := Option.isSome_iff_exists.mp ht
  simp only [find, write]
  rw [Function.update_self, hM, Option.map_some, Option.bind_some, Function.update_self]

theorem find_write_ne (h : ¬(t = table ∧ id' = id)) : (T.write table id record).find t id' = T.find t id' := by
  simp only [find, write]
  by_cases ht : t = table
  case neg => rw [Function.update_of_ne ht]
  case pos =>
    rw [ht, Function.update_self]
    cases T.contents table
    case none => rfl
    case some M => rw [Option.map_some, Option.bind_some, Option.bind_some, Function.update_of_ne fun hid => h ⟨ht, hid⟩]

-- A record has an id that its table has returned.
def Issued (T : Tables) : Prop :=
  ∀ t id bs, T.find t id = some bs → T.issuer id = some t

theorem issued_empty : empty.Issued := by
  rintro _ _ _ ⟨⟩

-- What every attempt keeps. An id belongs to its table for good, and a record stays until somebody tries to change it.
structure Keeps (T T' : Tables) (touched : Bytes → RecordId → Prop) : Prop where
  issued : T'.Issued
  issuer : ∀ {id t}, T.issuer id = some t → T'.issuer id = some t
  find   : ∀ {t id bs}, ¬touched t id → T.find t id = some bs → T'.find t id = some bs

theorem Keeps.mono {P Q : Bytes → RecordId → Prop} (h : T.Keeps T' P) (hPQ : ∀ t id, P t id → Q t id) : T.Keeps T' Q :=
  ⟨h.issued, h.issuer, fun hn => h.find fun hP => hn (hPQ _ _ hP)⟩

theorem Keeps.trans {P : Bytes → RecordId → Prop} (h₁ : T.Keeps T' P) (h₂ : T'.Keeps T'' P) : T.Keeps T'' P :=
  ⟨h₂.issued, fun h => h₂.issuer (h₁.issuer h), fun hn h => h₂.find hn (h₁.find hn h)⟩

theorem Issued.keeps (hi : T.Issued) (P : Bytes → RecordId → Prop) : T.Keeps T P :=
  ⟨hi, id, fun _ => id⟩

-- The record of another id is replaced or removed.
theorem Issued.write (hi : T.Issued) (hf : (T.find table id).isSome) :
    T.Keeps (T.write table id record) fun t i => t = table ∧ i = id := by
  refine ⟨fun t i bs h => ?_, fun h => h, fun hn h => (find_write_ne hn).trans h⟩
  by_cases hti : t = table ∧ i = id
  case neg => exact hi t i bs (find_write_ne hti ▸ h)
  case pos =>
    obtain ⟨rfl, rfl⟩ := hti
    have ⟨_, hf⟩ := Option.isSome_iff_exists.mp hf
    exact hi _ _ _ hf

theorem Issued.insert (hi : T.Issued) (hn : T.issuer id = none) :
    T.Keeps ((T.write table id (some bs)).issue table id) fun _ _ => False := by
  have hissuer : ∀ {i t}, T.issuer i = some t → ((T.write table id (some bs)).issue table id).issuer i = some t := by
    intro i t h
    have hne : i ≠ id := fun he => by rw [he, hn] at h; cases h
    exact (Function.update_of_ne hne ..).trans h
  refine ⟨fun t i _ h => ?_, hissuer, fun {t i _} _ h => ?_⟩
  · by_cases hti : t = table ∧ i = id
    case neg =>
      have h : (T.write table id (some bs)).find t i = _ := h
      exact hissuer (hi t i _ (find_write_ne hti ▸ h))
    case pos =>
      obtain ⟨rfl, rfl⟩ := hti
      exact Function.update_self ..
  · change (T.write table id (some bs)).find t i = _
    rw [find_write_ne, h]
    rintro ⟨_, rfl⟩
    cases (hi t _ _ h).symm.trans hn

theorem Issued.attempt (hi : T.Issued) (h : T.Attempt q a T') : T.Keeps T' fun t id => q.target = some (t, id) := by
  cases h
  case failed => exact hi.keeps _
  case done h =>
    cases h
    case create hn =>
      exact ⟨fun t i bs h => hi t i bs (find_create hn ▸ h), fun h => h, fun _ h => (find_create hn).trans h⟩
    case insert hid => exact (hi.insert hid).mono (by rintro _ _ ⟨⟩)
    case update hf _ => exact (hi.write hf).mono (by rintro _ _ ⟨rfl, rfl⟩; rfl)
    case delete hf => exact (hi.write hf).mono (by rintro _ _ ⟨rfl, rfl⟩; rfl)
    all_goals exact hi.keeps _

-- What is known about attempts that succeed.

theorem Attempt.inserted (h : T.Attempt (.insert t (some bs)) a T') (he : a.error? = none) :
    ∃ id, a = .inserted (.ok id) ∧ ¬BadRecord (some bs) ∧ (T.contents t).isSome ∧ T.issuer id = none ∧
      T' = (T.write t id (some bs)).issue t id := by
  cases h
  case failed hf => cases hf.symm.trans he
  case done h =>
    cases h
    case insertFails => cases he
    case insert id hid ht hr => exact ⟨id, rfl, hr, ht, hid, rfl⟩

theorem Attempt.found (h : T.Attempt (.get t id) a T') (he : a.error? = none) :
    ∃ bs, a = .record (.ok bs) ∧ T.find t id = some bs := by
  cases h
  case failed hf => cases hf.symm.trans he
  case done h =>
    cases h
    case getFails => cases he
    case get bs hf => exact ⟨bs, rfl, hf⟩

theorem Attempt.scanned (h : T.Attempt (.scan t (some visitor)) a T') (he : a.error? = none) :
    ∃ rows, a = .visited (.ok ()) (seen visitor rows) ∧ ∀ id bs, (id, bs) ∈ rows ↔ T.find t id = some bs := by
  cases h
  case failed hf => cases hf.symm.trans he
  case done h =>
    cases h
    case scanFails => cases he
    case scan M rows hn hrows ht =>
      refine ⟨rows, rfl, fun id bs => ?_⟩
      rw [hrows, find, ht]
      rfl

end Tables

-- The job tries to update or delete a record.
def Job.Changes (name : Text) (t : Bytes) (id : RecordId) (job : Job) : Prop :=
  ∃ cmd q, job.asks name = some (cmd, q) ∧ q.target = some (t, id)

theorem Tables.Serial.keeps {T T' : Tables} (h : T.Serial name jobs rs T') (hi : T.Issued) :
    T.Keeps T' fun t id => ∃ job ∈ jobs, job.Changes name t id := by
  induction h
  case nil => exact hi.keeps _
  case asks hq ht _ _ ih =>
    have hk := hi.attempt ht
    refine .trans (hk.mono fun t id htarget => ?_) ((ih hk.issued).mono fun t id hc => ?_)
    · exact ⟨_, List.mem_cons_self, _, _, hq, htarget⟩
    · have ⟨job, hm, hc⟩ := hc
      exact ⟨job, List.mem_cons_of_mem _ hm, hc⟩
  case other ih =>
    refine (ih hi).mono fun t id hc => ?_
    have ⟨job, hm, hc⟩ := hc
    exact ⟨job, List.mem_cons_of_mem _ hm, hc⟩

namespace Cli

-- Nothing of a text is lost when it is printed.
def Printable (text : Text) : Prop :=
  ∀ c ∈ text, c ≠ '\x00' ∧ c ≠ '\n'

theorem Printable.append (h : Printable text) (h' : Printable text') : Printable (text ++ text') := by
  intro c hc
  rcases List.mem_append.mp hc with hc | hc
  · exact h c hc
  · exact h' c hc

theorem printable_padded : Printable (Decimal.padded w n) := by
  intro c hc
  have hd := Decimal.isDigit_of_mem_padded hc
  constructor <;> rintro rfl <;> cases hd

theorem printable_location (page : PageId) (slot : SlotId) : Printable (location page slot) := by
  have hpage : Printable "page=".toList := by simp [Printable]
  have hslot : Printable " slot=".toList := by simp [Printable]
  exact ((hpage.append printable_padded).append hslot).append printable_padded

theorem exit_printable (h : Printable text) (hne : text ≠ []) :
    Result.exit { output := text } = { code := 0, stdout := text ++ ['\n'] } := by
  have hall : text.takeWhile (· ≠ '\x00') = text := List.takeWhile_eq_self_iff.mpr fun c hc => by simpa using (h c hc).left
  have hlast : text.getLast? ≠ some '\n' := fun hl => (h _ (List.mem_of_getLast? hl)).right rfl
  simp only [Result.exit, if_neg hne, hall, if_neg hlast]
  rfl

theorem printable_hexEncode (bs : Bytes) : Printable (hexEncode bs) := by
  have hdigits : (hexDigits.all fun c => c ≠ '\x00' ∧ c ≠ '\n') = true := by decide
  intro c hc
  have hm := ((isSome_hexDecode (hexEncode bs)).mp (by rw [hexDecode_hexEncode]; rfl)).right c hc
  simpa using List.all_eq_true.mp hdigits c hm

theorem printable_line (id : RecordId) (bs : Bytes) : Printable (line id (hexEncode bs)) := by
  have hlen : Printable " len=".toList := by simp [Printable]
  have hhex : Printable " hex=".toList := by simp [Printable]
  exact ((((printable_location _ _).append hlen).append printable_padded).append hhex).append (printable_hexEncode bs)

-- The text of a location tells which one it is.
theorem location_injective (h : location page slot = location page' slot') : page = page' ∧ slot = slot' := by
  have htake : ∀ (n : Nat) (text : Text), (Decimal.padded 1 n ++ ' ' :: text).takeWhile Char.isDigit = Decimal.padded 1 n := by
    intro n text
    rw [List.takeWhile_append_of_pos fun _ => Decimal.isDigit_of_mem_padded]
    exact List.append_nil _
  have hcut : ∀ (page : PageId) (slot : SlotId), location page slot =
      "page=".toList ++ (Decimal.padded 1 page.toNat ++ ' ' :: ("slot=".toList ++ Decimal.padded 1 slot.toNat)) := by
    intro page slot
    unfold location
    rw [List.append_assoc, List.append_assoc]
    rfl
  rw [hcut, hcut, List.append_cancel_left_eq] at h
  have hpage := congrArg (List.takeWhile Char.isDigit) h
  rw [htake, htake] at hpage
  rw [hpage, List.append_cancel_left_eq, List.cons.injEq, List.append_cancel_left_eq] at h
  exact ⟨UInt32.toNat_inj.mp (Decimal.padded_injective hpage), UInt16.toNat_inj.mp (Decimal.padded_injective h.right)⟩

theorem exit_code (r : Result) : r.exit.code = r.exitCode.code := by
  rw [Result.exit]
  split <;> rfl

-- A command that succeeds has made a query that succeeds.
theorem shown_ok (h : (Command.shown cmd a).exit.code = 0) : a.error? = none := by
  rw [exit_code, Command.shown] at h
  split at h
  case h_2 hn => exact hn
  case h_1 =>
    simp only [mapStatus] at h
    split at h <;> cases h

theorem exit_inserted (name table : Text) (data : Bytes) (id : RecordId) :
    (Command.shown { kind := .insert, name, table, data } (.inserted (.ok id))).exit =
      { code := 0, stdout := "inserted ".toList ++ location id.page id.slot ++ ['\n'] } := by
  have htext : Command.text { kind := .insert, name, table, data } (.inserted (.ok id)) =
      "inserted ".toList ++ location id.page id.slot := buf_inserted _ _
  have hprint : Printable ("inserted ".toList ++ location id.page id.slot) :=
    .append (by simp [Printable]) (printable_location _ _)
  have hshown : Command.shown { kind := .insert, name, table, data } (.inserted (.ok id)) =
      { output := "inserted ".toList ++ location id.page id.slot } := congrArg (Result.mk .ok) htext
  rw [hshown, exit_printable hprint (by simp)]

theorem exit_record {id : RecordId} (hlen : bs.length ≤ SlottedPage.maxRecordSize) :
    (Command.shown { kind := .get, name, table, page := id.page, slot := id.slot } (.record (.ok bs))).exit =
      { code := 0, stdout := line id (hexEncode bs) ++ ['\n'] } := by
  have hshown : Command.shown { kind := .get, name, table, page := id.page, slot := id.slot } (.record (.ok bs)) =
      { output := line id (hexEncode bs) } := congrArg (Result.mk .ok) (recordText_eq hlen)
  have hne : line id (hexEncode bs) ≠ [] := by
    unfold line location
    simp
  rw [hshown, exit_printable (printable_line id bs) hne]

theorem printable_recordText (page : PageId) (slot : SlotId) (bs : Bytes) : Printable (recordText page slot bs) := by
  have hlen : Printable " len=".toList := by simp [Printable]
  have hhex : Printable " hex=".toList := by simp [Printable]
  have hbuf := (((printable_location page slot).append hlen).append (printable_padded (w := 1) (n := bs.length))).append hhex
  exact .append (fun c hc => hbuf c (List.mem_of_mem_take hc)) (printable_hexEncode bs)

-- The lines of a scan are printed, and perhaps the end of a line.
theorem exit_scan (rows : List (RecordId × Bytes)) : ∃ post, (Result.exit { output := scanText rows }).stdout = scanText rows ++ post := by
  have hall : ∀ c ∈ scanText rows, c ≠ '\x00' := by
    cases rows
    case nil =>
      have hnone : ((scanText []).all (· ≠ '\x00')) = true := by decide
      exact fun c hc => by simpa using List.all_eq_true.mp hnone c hc
    case cons r rows =>
      intro c hc
      obtain ⟨r, _, hc⟩ := List.mem_flatMap.mp hc
      rcases List.mem_append.mp hc with hc | hc
      · exact (printable_recordText _ _ _ c hc).left
      · rw [List.mem_singleton.mp hc]
        decide
  have htake : (scanText rows).takeWhile (· ≠ '\x00') = scanText rows :=
    List.takeWhile_eq_self_iff.mpr fun c hc => by simpa using hall c hc
  rw [Result.exit, if_pos rfl]
  simp only [htake]
  split
  case isTrue h => exact ⟨[], by rw [h]; rfl⟩
  case isFalse => exact ⟨_, rfl⟩

theorem seen_all (rows : List (RecordId × Bytes)) : Tables.seen (fun _ _ => true) rows = rows := by
  induction rows
  case nil => rfl
  case cons ih => rw [Tables.seen, if_pos rfl, ih]

end Cli

-- Ids are those of pages.
theorem Tables.Held.page_ne {T : Tables} {id : RecordId} (h : T.Held f) (hi : T.issuer id = some t) : id.page ≠ invalidId := by
  have ⟨x, L, hx, hd⟩ := h
  have ⟨e, he, _, hm, _⟩ := hd.issued hi
  exact (hx.laid.realized.stored e he).ne_invalidId (List.mem_append_right _ hm)

namespace Host

open Cli (insertArgs getArgs scanArgs location line)

variable {h h' : Host} {name table text : Text} {T : Tables} {x : Cli.Exit} {id : RecordId}

-- The arguments of an insert that succeeds are accepted.
theorem Happens.parse_insert (hs : h.Happens (.command (insertArgs name table text)) (some x) h') (hx : x.code = 0) :
    ∃ bs, Cli.hexDecode text = some bs ∧
      Cli.parseArgs (insertArgs name table text) = .ok { kind := .insert, name, table, data := bs } := by
  rw [Cli.parseArgs_insert, Cli.parseData]
  cases hs
  case command hm =>
    obtain ⟨⟨r, h₁⟩, hr, he⟩ := Option.bind_eq_some_iff.mp hm
    cases he
    rw [Cli.run, Cli.parseArgs_insert, Cli.parseData] at hr
    split at hr
    case h_1 hp =>
      split at hp
      case h_3 => cases hp
      all_goals
        cases hp
        cases hr
        cases hx
    case h_2 hp =>
      split at hp
      case h_3 bs _ hd => exact ⟨bs, hd, rfl⟩
      all_goals cases hp

theorem Happens.answered (hs : h.Happens (.command args) (some x) h') (hx : x.code = 0) (hp : Cli.parseArgs args = .ok cmd)
    (hq : cmd.query = some q) (hT : T.Held (h.databases cmd.name)) (hc : h'.unclosed cmd.name = false) :
    ∃ a T', T.Attempt q a T' ∧ T'.Held (h'.databases cmd.name) ∧ a.error? = none ∧ x = (cmd.shown a).exit := by
  obtain ⟨T', hT', hseen⟩ := hs.seen hT hc
  rw [Seen, asks_of_query hp hq] at hseen
  obtain ⟨a, ha, hsaid⟩ := hseen
  have hout := hsaid x rfl
  exact ⟨a, T', ha, hT', Cli.shown_ok (hout ▸ hx), hout⟩

-- An insert that succeeds has returned a new id.
theorem Happens.inserted (hs : h.Happens (.command (insertArgs name table text)) (some x) h') (hx : x.code = 0)
    (hT : T.Held (h.databases name)) (hc : h'.unclosed name = false) :
    ∃ bs T' id, Cli.hexDecode text = some bs ∧ bs.length ≤ SlottedPage.maxRecordSize ∧
      T.Attempt (.insert table.bytes (some bs)) (.inserted (.ok id)) T' ∧ T'.Held (h'.databases name) ∧
      T.issuer id = none ∧ T'.issuer id = some table.bytes ∧ T'.find table.bytes id = some bs ∧
      x.stdout = "inserted ".toList ++ location id.page id.slot ++ ['\n'] := by
  have ⟨bs, hd, hp⟩ := hs.parse_insert hx
  have ⟨a, T', ha, hT', he, hout⟩ := hs.answered hx hp rfl hT hc
  obtain ⟨id, rfl, hr, ht, hid, rfl⟩ := ha.inserted he
  refine ⟨bs, _, id, hd, Nat.not_lt.mp fun hlt => hr (.inr hlt), ha, hT', hid, Function.update_self .., ?_, ?_⟩
  · exact Tables.find_write_self ht
  · rw [hout, Cli.exit_inserted]

theorem Happens.found (hs : h.Happens (.command (getArgs name table id)) (some x) h') (hx : x.code = 0)
    (hT : T.Held (h.databases name)) (hc : h'.unclosed name = false) (hi : T.issuer id = some t)
    (hf : T.find table.bytes id = some bs) (hlen : bs.length ≤ SlottedPage.maxRecordSize) :
    x.stdout = line id (Cli.hexEncode bs) ++ ['\n'] := by
  have ⟨a, T', ha, _, he, hout⟩ := hs.answered hx (Cli.parse_get (hT.page_ne hi)) rfl hT hc
  obtain ⟨bs', rfl, hf'⟩ := ha.found he
  cases hf.symm.trans hf'
  rw [hout, Cli.exit_record hlen]

theorem Happens.scanned (hs : h.Happens (.command (scanArgs name table)) (some x) h') (hx : x.code = 0)
    (hT : T.Held (h.databases name)) (hc : h'.unclosed name = false)
    (hf : T.find table.bytes id = some bs) (hlen : bs.length ≤ SlottedPage.maxRecordSize) :
    ∃ pre post, x.stdout = pre ++ line id (Cli.hexEncode bs) ++ '\n' :: post := by
  have hp : Cli.parseArgs (scanArgs name table) = .ok { kind := .scan, name, table } := rfl
  have ⟨a, T', ha, _, he, hout⟩ := hs.answered hx hp rfl hT hc
  obtain ⟨rows, rfl, hrows⟩ := ha.scanned he
  have ⟨pre, post, htext⟩ := Cli.scanText_of_mem ((hrows id bs).mpr hf)
  have ⟨post', hexit⟩ := Cli.exit_scan rows
  have hshown : Cli.Command.shown { kind := .scan, name, table } (.visited (.ok ()) rows) =
      { output := Cli.scanText rows } := rfl
  rw [hout, Cli.seen_all, hshown, hexit, htext, Cli.recordText_eq hlen]
  exact ⟨pre, post ++ post', by rw [List.append_assoc, List.cons_append]⟩

-- A record that was inserted stays as long as nobody tries to change it, however many commands and engines are killed. Its
-- id is not given to another one.
theorem acknowledged_insert {h₀ h₁ h₂ : Host} (hf : Database.isFresh (h₀.databases name)) (hr₀ : h₀.Runs jobs₀ rs₀ h₁)
    (hi : h₁.Happens (.command (insertArgs name table text)) (some x) h₂) (hx : x.code = 0)
    (hc₂ : h₂.unclosed name = false) :
    ∃ id : RecordId, x.stdout = "inserted ".toList ++ location id.page id.slot ++ ['\n'] ∧
      ∀ {jobs rs} {h₃ h₄ : Host} {args y}, h₂.Runs jobs rs h₃ → h₃.Happens (.command args) (some y) h₄ →
        h₄.unclosed name = false → y.code = 0 →
        (∀ table' text', args = insertArgs name table' text' → y.stdout ≠ x.stdout) ∧
        ((∀ job ∈ jobs, ¬job.Changes name table.bytes id) →
          (args = getArgs name table id → y.stdout = line id (text.map Char.toLower) ++ ['\n']) ∧
          (args = scanArgs name table →
            ∃ pre post, y.stdout = pre ++ line id (text.map Char.toLower) ++ '\n' :: post)) := by
  have ⟨T₁, hs₁, hT₁⟩ := hr₀.serial (Tables.held_fresh hf) (hi.unclosed hc₂)
  have ⟨bs, T₂, id, hd, hlen, ha, hT₂, _, hissuer, hfind, hout⟩ := hi.inserted hx hT₁ hc₂
  have hissued := ((hs₁.keeps Tables.issued_empty).issued.attempt ha).issued
  refine ⟨id, hout, fun {jobs rs h₃ h₄ args y} hr hs hc hy => ?_⟩
  have ⟨T₃, hs₃, hT₃⟩ := hr.serial hT₂ (hs.unclosed hc)
  have hk := hs₃.keeps hissued
  constructor
  · rintro table' text' rfl
    have ⟨_, _, id', _, _, _, _, hid', _, _, hout'⟩ := hs.inserted hy hT₃ hc
    rw [hout, hout']
    intro he
    rw [List.append_cancel_right_eq, List.append_cancel_left_eq] at he
    have ⟨hpage, hslot⟩ := Cli.location_injective he
    have hsame : id' = id := RecordId.ext hpage hslot
    rw [hsame, hk.issuer hissuer] at hid'
    cases hid'
  · intro hn
    have hfind := hk.find (fun ⟨job, hm, hc⟩ => hn job hm hc) hfind
    rw [← Cli.hexEncode_of_hexDecode hd]
    constructor
    · rintro rfl
      exact hs.found hy hT₃ hc (hk.issuer hissuer) hfind hlen
    · rintro rfl
      exact hs.scanned hy hT₃ hc hfind hlen

-- A record is inserted, then another insert is killed, and the record is looked for.
theorem durable_run :
    (do
      let (_, h₁) ← Cli.main {} {} (["table", "create", "a", "t"].map String.toList)
      let (x, h₂) ← Cli.main h₁ {} (insertArgs ['a'] ['t'] "0aFf".toList)
      let (y, h₃) ← Cli.main h₂ {} (scanArgs ['a'] ['t'])
      return decide (x.code = 0 ∧ y.code = 0 ∧ h₂.unclosed ['a'] = false ∧ h₃.unclosed ['a'] = false)) = some true := by
  decide +kernel

theorem acknowledged_insert_scan : ∃ (x y : Cli.Exit) (h₁ h₂ h₃ : Host) (id : RecordId) (pre post : Text),
    h₁.Happens (.command (insertArgs ['a'] ['t'] "0aFf".toList)) (some x) h₂ ∧
    h₂.Happens (.command (insertArgs ['a'] ['t'] "00".toList)) none h₂ ∧
    h₂.Happens (.command (scanArgs ['a'] ['t'])) (some y) h₃ ∧
    x.stdout = "inserted ".toList ++ location id.page id.slot ++ ['\n'] ∧
    y.stdout = pre ++ line id "0aff".toList ++ '\n' :: post := by
  have hrun := durable_run
  obtain ⟨⟨w, h₁⟩, hm₁, hrun⟩ := Option.bind_eq_some_iff.mp hrun
  obtain ⟨⟨x, h₂⟩, hm₂, hrun⟩ := Option.bind_eq_some_iff.mp hrun
  obtain ⟨⟨y, h₃⟩, hm₃, hrun⟩ := Option.bind_eq_some_iff.mp hrun
  obtain ⟨hx, hy, hc₂, hc₃⟩ := of_decide_eq_true (Option.some.inj hrun)
  have hkill : h₂.Happens (.command (insertArgs ['a'] ['t'] "00".toList)) none h₂ :=
    Happens.killed_at_start rfl (q := .insert [0x74] (some [0])) rfl
  have hfresh : Database.isFresh (({} : Host).databases ['a']) := rfl
  obtain ⟨id, hout, hall⟩ := acknowledged_insert hfresh (.cons (.command hm₁) .nil) (.command hm₂) hx hc₂
  obtain ⟨_, hkept⟩ := hall (.cons hkill .nil) (.command hm₃) hc₃ hy
  have hn : ∀ job ∈ [Job.command (insertArgs ['a'] ['t'] "00".toList)], ¬job.Changes ['a'] (Text.bytes ['t']) id := by
    rintro _ hm ⟨cmd, q, hq, ht⟩
    cases List.mem_singleton.mp hm
    cases hq
    cases ht
  obtain ⟨pre, post, hscan⟩ := (hkept hn).right rfl
  exact ⟨x, y, h₁, h₂, h₃, id, pre, post, .command hm₂, hkill, .command hm₃, hout, hscan⟩

end Host
end NexusDb
