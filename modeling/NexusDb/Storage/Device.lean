import NexusDb.Storage.PageStorage

namespace NexusDb

-- Who writes a page: the buffer pool, when it writes back a frame, the code that has just allocated
-- the page, or the recovery.
inductive Writer
  | pool
  | direct
  | recovery

-- What the buffer pool and the tables work on: a page storage and the log sink of the pool, which
-- accepts everything when there is none. Every call can fail. As long as no call has failed because
-- of the environment, the device is `ok`.
--
-- `numPages` is the number of whole pages that there are, `countPages` is the call that asks for it.
-- `touch` does nothing. It tells the device that a page was modified in memory.
class Device (σ : Type) where
  numPages        : σ → PageId
  countPages      : σ → Except Error PageId × σ
  readPage        : σ → PageId → Except Error Page × σ
  writePage       : σ → Writer → Page → Status × σ
  allocatePage    : σ → Except Error Page × σ
  beforePageWrite : σ → Page → Status × σ
  touch           : σ → PageId → PageData → σ
  -- The bytes that the storage has for a page.
  page?           : σ → PageId → Option PageData
  ok              : σ → Prop
  page?_isSome    : (page? s i).isSome ↔ i < numPages s
  count_ok        : countPages s = (.ok n, s') → n = numPages s
  count_fails     : countPages s = (.error e, s') → ¬ok s'
  count_page?     : page? (countPages s).snd = page? s
  count_mono      : ok (countPages s).snd → ok s
  read_ok         : readPage s i = (.ok p, s') → p.id = i ∧ p.dirty = false ∧ page? s i = some p.data
  read_error      : readPage s i = (.error e, s') → ok s' →
                      ¬i < numPages s ∧ e = PageStorage.beyondEnd i (numPages s)
  read_page?      : page? (readPage s i).snd = page? s
  read_mono       : ok (readPage s i).snd → ok s
  write_ok        : writePage s w p = (.ok (), s') → ∀ j,
                      page? s' j = if j = p.id then some p.data else page? s j
  -- A failed write may leave anything on the page.
  write_error     : writePage s w p = (.error e, s') → ∀ j,
                      (page? s' j).isSome = (page? s j).isSome ∧ (j ≠ p.id → page? s' j = page? s j)
  write_fails     : writePage s w p = (.error e, s') → ok s' → ¬p.id < numPages s
  write_mono      : ok (writePage s w p).snd → ok s
  alloc_ok        : allocatePage s = (.ok p, s') → numPages s ≠ invalidId ∧ p = { id := numPages s } ∧
                      ∀ j, page? s' j = if j = p.id then some zeroPage else page? s j
  alloc_error     : allocatePage s = (.error e, s') → page? s' = page? s
  alloc_fails     : allocatePage s = (.error e, s') → ok s' →
                      numPages s = invalidId ∧ e = PageStorage.exhausted
  alloc_mono      : ok (allocatePage s).snd → ok s
  log_page?       : page? (beforePageWrite s p).snd = page? s
  log_fails       : beforePageWrite s p = (.error e, s') → ok s' → p.id = invalidId
  log_mono        : ok (beforePageWrite s p).snd → ok s
  touch_page?     : page? (touch s i d) = page? s
  touch_ok        : ok (touch s i d) ↔ ok s

end NexusDb
