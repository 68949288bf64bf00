import Bitkey.Time
import Bitkey.Collections

/-!
# `Service::get_stale_txs`, one call at a time

The mempool indexer keeps a watermark, `stale_txs_expiring_after`, and on each call of
`get_stale_txs` asks the repository for the transaction records of its network expiring at
or after it.  Under the same write guard it moves the watermark one second past the
latest expiry it was given.  It then keeps the records whose txid is still in the mempool
snapshot, cuts them into batches of `WRITE_BATCH_MAX`, and hands each batch to
`update_expiry`, yielding what an `Ok` returns and only logging an `Err`.

This file transcribes that function for a call that runs alone and whose stream is
drained.  `Streams.lean` splits the same code into the steps that interleave with other
calls.

## What is a parameter

The repository's two queries and the constant `WRITE_BATCH_MAX` live outside this
development, so `Repository` takes the queries as fields over an arbitrary table state
`σ` and error type `ε`, and the batch size is an argument `writeBatchMax`.  A
`TransactionRecord` keeps the two fields the scan reads.
-/

namespace Bitkey.MempoolIndexer

/-- A `bitcoin::Txid`: the double-SHA256 of a transaction. -/
structure Txid where
  /-- The 32 bytes of the hash. -/
  hash : BitVec 256
deriving DecidableEq, Repr

/-- `bitcoin::Network`. -/
inductive Network
  | bitcoin
  | testnet
  | signet
  | regtest
deriving DecidableEq, Repr

/-- A row of the indexer's table, as far as `get_stale_txs` reads it. -/
structure TransactionRecord where
  txid : Txid
  expiringAt : OffsetDateTime
deriving DecidableEq, Repr

/-- The queries of `MempoolIndexerRepository` that `get_stale_txs` makes, over a table
state `σ`.  A fetch only reads the table; an update may change it whether or not it
fails. -/
structure Repository (σ ε : Type) where
  fetchExpiringTransactions : σ → Network → OffsetDateTime → Except ε (List TransactionRecord)
  updateExpiry : σ → List TransactionRecord → Except ε (List TransactionRecord) × σ

/-- The parts of the indexer's `Service` that `get_stale_txs` reads and writes. -/
structure Service (σ : Type) where
  /-- `settings.network`. -/
  network : Network
  /-- The watermark behind its `RwLock`. -/
  staleTxsExpiringAfter : Option OffsetDateTime
  /-- The mempool snapshot behind its `RwLock`. -/
  currentMempoolTxids : HashSet Txid
  /-- The repository's table. -/
  repo : σ

variable {σ ε : Type}

/-! ## The guarded block -/

/-- The watermark after a fetch that returned `txs`: the latest expiry plus one second, or
the old watermark when nothing came back.  `none` is the panic of `+`. -/
def newExpiringAfter (txs : List TransactionRecord) (w : Option OffsetDateTime) :
    Option (Option OffsetDateTime) :=
  match (txs.map (·.expiringAt)).max? with
  | none => some w
  | some maxExpiringAt => (maxExpiringAt.add (Duration.seconds 1)).map some

/-- How the block run under the watermark's write guard ends. -/
inductive Guarded (ε : Type)
  /-- The fetch failed: `?` yields the error and ends the stream. -/
  | failed (e : ε)
  /-- The fetch returned `txs`, and adding a second to their latest expiry panicked. -/
  | panicked (txs : List TransactionRecord)
  /-- The fetch returned `txs`, and the watermark became `w`. -/
  | fetched (txs : List TransactionRecord) (w : Option OffsetDateTime)

/-- The guarded block: fetch from the watermark, or from `now` before it is first set,
then advance the watermark. -/
def guarded (R : Repository σ ε) (svc : Service σ) (now : OffsetDateTime) : Guarded ε :=
  match R.fetchExpiringTransactions svc.repo svc.network (svc.staleTxsExpiringAfter.getD now) with
  | .error e => .failed e
  | .ok txs =>
    match newExpiringAfter txs svc.staleTxsExpiringAfter with
    | none => .panicked txs
    | some w => .fetched txs w

/-- The records the fetch returned, whether or not the call went on. -/
def Guarded.txs : Guarded ε → List TransactionRecord
  | .failed _ => []
  | .panicked txs | .fetched txs _ => txs

/-- The records the watermark was moved past: those of a block that did not panic. -/
def Guarded.passed : Guarded ε → List TransactionRecord
  | .fetched txs _ => txs
  | _ => []

theorem Guarded.passed_subset_txs (g : Guarded ε) : g.passed ⊆ g.txs := by
  cases g <;> simp [Guarded.passed, Guarded.txs]

/-- The watermark a block leaves behind, `w` being the one it found. -/
def Guarded.expiringAfter (w : Option OffsetDateTime) : Guarded ε → Option OffsetDateTime
  | .fetched _ w' => w'
  | _ => w

/-! ## Selecting and batching -/

/-- `expiring_tx_ids`. -/
def expiringTxIds (txs : List TransactionRecord) : HashSet Txid := .ofList (txs.map (·.txid))

/-- `update_tx_ids`: the mempool snapshot intersected with the fetched txids. -/
def updateTxIds (mempool : HashSet Txid) (txs : List TransactionRecord) : List Txid :=
  mempool.intersection (expiringTxIds txs)

/-- `tx_records_to_update`. -/
def txRecordsToUpdate (mempool : HashSet Txid) (txs : List TransactionRecord) :
    List TransactionRecord :=
  txs.filter fun tx ↦ (updateTxIds mempool txs).contains tx.txid

/-- One call of `update_expiry`: the batch and what it returned. -/
abbrev UpdateCall (ε : Type) := List TransactionRecord × Except ε (List TransactionRecord)

/-- The loop over the batches: every batch goes to `update_expiry` in turn, whatever the
earlier ones returned. -/
def updateBatches (R : Repository σ ε) : σ → List (List TransactionRecord) → List (UpdateCall ε) × σ
  | s, [] => ([], s)
  | s, b :: bs =>
    let (r, s') := R.updateExpiry s b
    let (calls, s'') := updateBatches R s' bs
    ((b, r) :: calls, s'')

/-- What the loop yields: the value of every `Ok`; an `Err` is only logged. -/
def yielded (calls : List (UpdateCall ε)) : List (Except ε (List TransactionRecord)) :=
  calls.filterMap fun c ↦ c.2.toOption.map .ok

/-! ## The whole call -/

/-- The effects of one drained `get_stale_txs` stream. -/
structure Scan (ε : Type) where
  /-- The items the stream yields, in order. -/
  items : List (Except ε (List TransactionRecord))
  /-- The calls of `update_expiry`, in order. -/
  updates : List (UpdateCall ε)
  /-- Whether the call ended in a panic. -/
  panicked : Bool

/-- `get_stale_txs`, run alone and drained.  A panic ends the call but keeps what the
call had already written: after the guarded block, the new watermark. -/
def getStaleTxs (R : Repository σ ε) (writeBatchMax : Nat) (now : OffsetDateTime)
    (svc : Service σ) : Scan ε × Service σ :=
  match guarded R svc now with
  | .failed e => (⟨[.error e], [], false⟩, svc)
  | .panicked _ => (⟨[], [], true⟩, svc)
  | .fetched txs w =>
    let svc := { svc with staleTxsExpiringAfter := w }
    if (expiringTxIds txs).len = 0 then (⟨[], [], false⟩, svc)
    else
      match chunks writeBatchMax (txRecordsToUpdate svc.currentMempoolTxids txs) with
      | none => (⟨[], [], true⟩, svc)
      | some batches =>
        let (calls, s) := updateBatches R svc.repo batches
        (⟨yielded calls, calls, false⟩, { svc with repo := s })

/-- A table of records that answers a fetch with those expiring at or after the bound,
the reading of `fetch_expiring_transactions` the scan relies on, and whose `update_expiry`
writes nothing and succeeds exactly when `ok`. -/
def Repository.table (ok : Bool) : Repository (List TransactionRecord) Unit where
  fetchExpiringTransactions s _ bound := .ok (s.filter fun r ↦ bound ≤ r.expiringAt)
  updateExpiry s batch := (if ok then .ok batch else .error (), s)

/-! ## The watermark a fetch leaves -/

theorem le_of_max?_eq_some {l : List OffsetDateTime} {m a : OffsetDateTime}
    (h : l.max? = some m) (ha : a ∈ l) : a ≤ m :=
  (List.max?_le_iff (fun _ _ _ ↦ max_le_iff) h).1 le_rfl a ha

@[simp] theorem newExpiringAfter_nil (w : Option OffsetDateTime) :
    newExpiringAfter [] w = some w := rfl

/-- After a fetch that returned records, the watermark is the latest expiry plus one
second, strictly after every record fetched. -/
theorem newExpiringAfter_of_ne_nil {txs : List TransactionRecord} {w w' : Option OffsetDateTime}
    (hne : txs ≠ []) (h : newExpiringAfter txs w = some w') :
    ∃ m u, (txs.map (·.expiringAt)).max? = some m ∧ m.add (Duration.seconds 1) = some u ∧
      w' = some u ∧ ∀ r ∈ txs, r.expiringAt < u := by
  unfold newExpiringAfter at h
  split at h
  · simp_all
  · rename_i m hm
    obtain ⟨u, hu, rfl⟩ := Option.map_eq_some'.mp h
    refine ⟨m, u, hm, hu, rfl, fun r hr ↦ ?_⟩
    exact lt_of_le_of_lt (le_of_max?_eq_some hm (List.mem_map_of_mem _ hr))
      (OffsetDateTime.lt_of_add_seconds_one hu)

/-- The watermark never panics when no record expires after `maxLessOneSecond`. -/
theorem newExpiringAfter_isSome {txs : List TransactionRecord} (w : Option OffsetDateTime)
    (h : ∀ r ∈ txs, r.expiringAt ≤ OffsetDateTime.maxLessOneSecond) :
    (newExpiringAfter txs w).isSome := by
  unfold newExpiringAfter
  split
  · rfl
  · rename_i m hm
    obtain ⟨r, hr, rfl⟩ := List.mem_map.mp (List.max?_mem (fun _ _ ↦ max_choice _ _) hm)
    simpa using OffsetDateTime.add_seconds_one_isSome (h r hr)

/-- The guarded block after a fetch that returned `txs`. -/
theorem guarded_of_fetch {R : Repository σ ε} {svc : Service σ} {now : OffsetDateTime}
    {txs : List TransactionRecord}
    (h : R.fetchExpiringTransactions svc.repo svc.network (svc.staleTxsExpiringAfter.getD now) =
      .ok txs) :
    guarded R svc now = match newExpiringAfter txs svc.staleTxsExpiringAfter with
      | none => .panicked txs
      | some w => .fetched txs w := by
  rw [guarded, h]

/-- The repository keeps the query's contract: nothing it fetches expires before the
bound. -/
def Repository.FetchesFrom (R : Repository σ ε) : Prop :=
  ∀ s network bound txs, R.fetchExpiringTransactions s network bound = .ok txs →
    ∀ r ∈ txs, bound ≤ r.expiringAt

/-- The contract, and no record it fetches expires at or after `maxLessOneSecond`. -/
def Repository.FetchesWithin (R : Repository σ ε) : Prop :=
  ∀ s network bound txs, R.fetchExpiringTransactions s network bound = .ok txs →
    ∀ r ∈ txs, bound ≤ r.expiringAt ∧ r.expiringAt < OffsetDateTime.maxLessOneSecond

theorem Repository.FetchesWithin.fetchesFrom {R : Repository σ ε} (h : R.FetchesWithin) :
    R.FetchesFrom := fun s n b txs hf r hr ↦ (h s n b txs hf r hr).1

theorem table_fetchesFrom (ok : Bool) : (Repository.table ok).FetchesFrom := by
  intro s _ bound txs hf r hr
  cases hf
  simpa using (List.mem_filter.mp hr).2

/-- Under the contract, a guarded block fetches nothing before its bound. -/
theorem bound_le_of_mem_txs {R : Repository σ ε} (hR : R.FetchesFrom) (svc : Service σ)
    (now : OffsetDateTime) {r : TransactionRecord} (hr : r ∈ (guarded R svc now).txs) :
    svc.staleTxsExpiringAfter.getD now ≤ r.expiringAt := by
  unfold guarded at hr
  split at hr
  · simp [Guarded.txs] at hr
  · rename_i txs hf
    exact hR _ _ _ txs hf r (by split at hr <;> simpa [Guarded.txs] using hr)

/-- A guarded block either leaves the watermark as it was and passes nothing, or moves it
strictly past the records it fetched, which are then the records it passed. -/
theorem guarded_expiringAfter (R : Repository σ ε) (svc : Service σ) (now : OffsetDateTime) :
    let g := guarded R svc now
    (g.expiringAfter svc.staleTxsExpiringAfter = svc.staleTxsExpiringAfter ∧ g.passed = []) ∨
      ∃ u, g.expiringAfter svc.staleTxsExpiringAfter = some u ∧ g.passed = g.txs ∧
        g.txs ≠ [] ∧ ∀ r ∈ g.txs, r.expiringAt < u := by
  unfold guarded
  split
  · exact .inl ⟨rfl, rfl⟩
  · rename_i txs _
    split
    · exact .inl ⟨rfl, rfl⟩
    · rename_i w hw
      by_cases hnil : txs = []
      · subst hnil
        cases hw
        exact .inl ⟨rfl, rfl⟩
      · obtain ⟨m, u, -, -, rfl, hu⟩ := newExpiringAfter_of_ne_nil hnil hw
        exact .inr ⟨u, rfl, rfl, hnil, hu⟩

/-- Under the contract, a guarded block never moves a set watermark back. -/
theorem le_expiringAfter {R : Repository σ ε} (hR : R.FetchesFrom) (svc : Service σ)
    (now : OffsetDateTime) {t : OffsetDateTime} (ht : svc.staleTxsExpiringAfter = some t) :
    ∃ t', (guarded R svc now).expiringAfter svc.staleTxsExpiringAfter = some t' ∧ t ≤ t' := by
  rcases guarded_expiringAfter R svc now with ⟨hw, -⟩ | ⟨u, hu, -, hne, hlt⟩
  · exact ⟨t, hw.trans ht, le_rfl⟩
  · obtain ⟨r, hr⟩ := List.exists_mem_of_ne_nil _ hne
    have hb := bound_le_of_mem_txs hR svc now hr
    rw [ht, Option.getD_some] at hb
    exact ⟨u, hu, hb.trans (hlt r hr).le⟩

/-- Within the range, no guarded block panics: it passes every record it fetched. -/
theorem passed_guarded {R : Repository σ ε} (hR : R.FetchesWithin) (svc : Service σ)
    (now : OffsetDateTime) : (guarded R svc now).passed = (guarded R svc now).txs := by
  unfold guarded
  split
  · rfl
  · rename_i txs hf
    obtain ⟨w, hw⟩ := Option.isSome_iff_exists.mp (newExpiringAfter_isSome
      svc.staleTxsExpiringAfter fun r hr ↦ (hR _ _ _ txs hf r hr).2.le)
    rw [hw]
    rfl

/-! ## Selection -/

theorem expiringTxIds_len_eq_zero {txs : List TransactionRecord} :
    (expiringTxIds txs).len = 0 ↔ txs = [] := by
  rw [expiringTxIds, HashSet.len_ofList_eq_zero, List.map_eq_nil_iff]

/-- The intersection and the `contains` filter together keep exactly the records whose txid
is in the snapshot, in fetch order and with repeats. -/
theorem txRecordsToUpdate_eq_filter (mempool : HashSet Txid) (txs : List TransactionRecord) :
    txRecordsToUpdate mempool txs = txs.filter fun r ↦ r.txid ∈ mempool.elems := by
  refine List.filter_congr fun r hr ↦ ?_
  have : r.txid ∈ (expiringTxIds txs).elems := by
    simpa [expiringTxIds] using List.mem_map_of_mem _ hr
  simp [updateTxIds, this]

/-- The loop calls `update_expiry` once per batch, in order, whatever each call returns. -/
@[simp] theorem updateBatches_map_fst (R : Repository σ ε) (s : σ)
    (bs : List (List TransactionRecord)) : (updateBatches R s bs).1.map Prod.fst = bs := by
  induction bs generalizing s with
  | nil => rfl
  | cons b bs ih => simp [updateBatches, ih]

/-! ## The batches of one call -/

/-- A call whose guarded block fetched records and did not panic, with a positive batch
size, hands the chunks of its selection to `update_expiry`. -/
theorem getStaleTxs_of_fetched {R : Repository σ ε} {writeBatchMax : Nat}
    (hmax : 0 < writeBatchMax) {now : OffsetDateTime} {svc : Service σ}
    {txs : List TransactionRecord} {w : Option OffsetDateTime}
    (hg : guarded R svc now = .fetched txs w) (hne : txs ≠ []) :
    let batches := chunksOf writeBatchMax (txRecordsToUpdate svc.currentMempoolTxids txs)
    getStaleTxs R writeBatchMax now svc =
      (⟨yielded (updateBatches R svc.repo batches).1, (updateBatches R svc.repo batches).1, false⟩,
        { svc with staleTxsExpiringAfter := w, repo := (updateBatches R svc.repo batches).2 }) := by
  simp [getStaleTxs, hg, expiringTxIds_len_eq_zero, hne, chunks_of_pos hmax]

/-- The batches one drained call hands to `update_expiry`, when its fetch returns `txs`
and the watermark does not overflow: put together they are the fetched records whose txid
is in the mempool snapshot, in fetch order with repeats; each is non-empty and at most
`writeBatchMax` long, and all but the last are exactly that long.  When no fetched txid is
in the snapshot there is no call at all. -/
theorem getStaleTxs_updates {R : Repository σ ε} {writeBatchMax : Nat} (hmax : 0 < writeBatchMax)
    {now : OffsetDateTime} {svc : Service σ} {txs : List TransactionRecord}
    (hfetch : R.fetchExpiringTransactions svc.repo svc.network
      (svc.staleTxsExpiringAfter.getD now) = .ok txs)
    (hrange : ∀ r ∈ txs, r.expiringAt ≤ OffsetDateTime.maxLessOneSecond) :
    let scan := (getStaleTxs R writeBatchMax now svc).1
    scan.panicked = false ∧
      (scan.updates.map Prod.fst).flatten =
        txs.filter (fun r ↦ r.txid ∈ svc.currentMempoolTxids.elems) ∧
      (∀ b ∈ scan.updates.map Prod.fst, 0 < b.length ∧ b.length ≤ writeBatchMax) ∧
      (∀ b ∈ (scan.updates.map Prod.fst).dropLast, b.length = writeBatchMax) ∧
      ((∀ r ∈ txs, r.txid ∉ svc.currentMempoolTxids.elems) → scan.updates = []) := by
  obtain ⟨w, hw⟩ := Option.isSome_iff_exists.mp
    (newExpiringAfter_isSome svc.staleTxsExpiringAfter hrange)
  have hg : guarded R svc now = .fetched txs w := by rw [guarded_of_fetch hfetch, hw]
  by_cases hnil : txs = []
  · subst hnil
    simp [getStaleTxs, hg, expiringTxIds_len_eq_zero]
  · rw [getStaleTxs_of_fetched hmax hg hnil, txRecordsToUpdate_eq_filter]
    simp only [updateBatches_map_fst]
    refine ⟨trivial, flatten_chunksOf hmax _, fun b hb ↦ length_of_mem_chunksOf hmax hb,
      fun b hb ↦ length_of_mem_dropLast_chunksOf hb, fun hnone ↦ ?_⟩
    rw [← List.map_eq_nil_iff (f := Prod.fst), updateBatches_map_fst, chunksOf_eq_nil_iff,
      List.filter_eq_nil_iff]
    simpa using hnone

/-- A record five seconds after the epoch, its txid in the mempool snapshot. -/
def mempoolRecord : TransactionRecord := ⟨⟨1⟩, ⟨5000000000, by decide, by decide⟩⟩

/-- The indexer with `mempoolRecord` in its table and its txid in the mempool snapshot. -/
def mempoolService : Service (List TransactionRecord) :=
  ⟨.bitcoin, none, .ofList [mempoolRecord.txid], [mempoolRecord]⟩

theorem getStaleTxs_updates_on_table :
    0 < 25 ∧
      (Repository.table true).fetchExpiringTransactions mempoolService.repo
        mempoolService.network (mempoolService.staleTxsExpiringAfter.getD .UNIX_EPOCH) =
        .ok [mempoolRecord] ∧
      (∀ r ∈ [mempoolRecord], r.expiringAt ≤ OffsetDateTime.maxLessOneSecond) ∧
      let scan := (getStaleTxs (Repository.table true) 25 .UNIX_EPOCH mempoolService).1
      scan.panicked = false ∧
        (scan.updates.map Prod.fst).flatten =
          [mempoolRecord].filter (fun r ↦ r.txid ∈ mempoolService.currentMempoolTxids.elems) ∧
        (∀ b ∈ scan.updates.map Prod.fst, 0 < b.length ∧ b.length ≤ 25) ∧
        (∀ b ∈ (scan.updates.map Prod.fst).dropLast, b.length = 25) ∧
        ((∀ r ∈ [mempoolRecord], r.txid ∉ mempoolService.currentMempoolTxids.elems) →
          scan.updates = []) :=
  ⟨by decide, rfl, by decide, getStaleTxs_updates (by decide) rfl (by decide)⟩

/-- The record the table holds expires at `OffsetDateTime::MAX` and its txid is in the
mempool, yet `update_expiry` is never called: adding a second to its expiry panics. -/
theorem getStaleTxs_panics_at_max :
    let last : TransactionRecord := ⟨⟨1⟩, .MAX⟩
    let scan := (getStaleTxs (Repository.table true) 25 .UNIX_EPOCH
      ⟨.bitcoin, none, .ofList [last.txid], [last]⟩).1
    scan.panicked = true ∧ scan.updates.map Prod.fst = [] ∧
      [last].filter (fun r ↦ r.txid ∈ (HashSet.ofList [last.txid]).elems) = [last] := by
  decide

end Bitkey.MempoolIndexer
