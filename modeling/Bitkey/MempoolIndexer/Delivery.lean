import Bitkey.MempoolIndexer.Refinement

/-!
# What the streams hand to `update_expiry`

Three facts about what the streams, however they interleave, hand to `update_expiry`.

* **At most once.**  When a fetch returns each record at most once, no record is handed
  to `update_expiry` twice in any run, by one stream or by two (`updates_nodup`).  Within a
  stream, the batches are chunks of a sublist of what the fetch returned; across streams,
  what an earlier stream passed expires before anything a later one fetched, so the two
  cannot share a record.
* **Only what was in the mempool.**  Every record handed on had its txid in the mempool
  snapshot at some earlier point of the run (`updated_txid_was_in_mempool`), since a
  stream selects from the snapshot it reads.
* **How many calls.**  A stream makes one call per `writeBatchMax` records it selected,
  rounded up, once it has returned, and never more (`length_updates_le_ceil`).

None needs the watermark to stay in range.  The first needs the fetch to keep to its
bound, and the last a positive batch size.
-/

namespace Bitkey.MempoolIndexer

variable {σ ε : Type}

/-- The repository returns each record at most once per fetch. -/
def Repository.FetchesNodup (R : Repository σ ε) : Prop :=
  ∀ s network bound txs, R.fetchExpiringTransactions s network bound = .ok txs → txs.Nodup

/-- `Repository.table` with each record fetched once and every update succeeding. -/
def Repository.dedupTable : Repository (List TransactionRecord) Unit where
  fetchExpiringTransactions s _ bound := .ok (s.filter fun r ↦ bound ≤ r.expiringAt).dedup
  updateExpiry s batch := (.ok batch, s)

theorem dedupTable_fetchesFrom : Repository.dedupTable.FetchesFrom := by
  intro s _ bound txs hf r hr
  cases hf
  simpa using (List.mem_filter.mp (List.mem_dedup.mp hr)).2

theorem dedupTable_fetchesNodup : Repository.dedupTable.FetchesNodup := by
  intro s _ _ txs hf
  cases hf
  exact List.nodup_dedup _

theorem Guarded.passed_sublist_txs (g : Guarded ε) : g.passed.Sublist g.txs := by
  cases g <;> simp [Guarded.passed, Guarded.txs]

theorem nodup_guarded_txs {R : Repository σ ε} (hnodup : R.FetchesNodup) (svc : Service σ)
    (now : OffsetDateTime) : (guarded R svc now).txs.Nodup := by
  unfold guarded
  split
  · exact List.nodup_nil
  · rename_i txs hf
    split <;> exact hnodup _ _ _ txs hf

/-- What a stream hands to `update_expiry`, put together, is a sublist of what its guarded
block passed. -/
theorem Stream.Coherent.flatten_updates_sublist {writeBatchMax : Nat} {st : Stream ε}
    (h : st.Coherent writeBatchMax) :
    (st.updates.map Prod.fst).flatten.Sublist st.guarded.passed := by
  obtain ⟨rest, hrest⟩ := h.initial_chunks
  calc List.Sublist (st.updates.map Prod.fst).flatten (st.updates.map Prod.fst ++ rest).flatten
      := by rw [List.flatten_append]; exact List.sublist_append_left _ _
    _ = ((chunks writeBatchMax st.selected).getD []).flatten := by rw [hrest]
    List.Sublist _ st.selected := flatten_getD_chunks_sublist _ _
    List.Sublist _ st.guarded.passed := h.selected_sublist

namespace System

variable {R : Repository σ ε} {writeBatchMax : Nat}

/-! ## At most once -/

/-- Along every run, no guarded block has fetched a record twice. -/
theorem nodup_txs_run (hnodup : R.FetchesNodup) (svc : Service σ) (es : List (Event σ)) :
    ∀ g ∈ (run R writeBatchMax (init svc) es).guardeds, g.txs.Nodup :=
  run_induction (fun _ gs ↦ ∀ g ∈ gs, g.txs.Nodup)
    (fun svc now _ h g hg ↦ (List.mem_append.mp hg).elim (h g)
      fun hg ↦ List.mem_singleton.mp hg ▸ nodup_guarded_txs hnodup svc now)
    (init svc) (fun _ hg ↦ absurd hg (List.not_mem_nil _)) es

/-- When the fetch keeps to its bound and returns each record at most once, no record is
handed to `update_expiry` twice in any run: not within one stream, and not by two. -/
theorem updates_nodup (hR : R.FetchesFrom) (hnodup : R.FetchesNodup) (svc : Service σ)
    (es : List (Event σ)) :
    ((run R writeBatchMax (init svc) es).streams.flatMap fun st ↦
      (st.updates.map Prod.fst).flatten).Nodup := by
  obtain ⟨hcoh, hpair⟩ := streams_run writeBatchMax hR svc es
  refine List.nodup_flatMap.mpr ⟨fun st hst ↦ ?_, hpair.imp_of_mem fun {st st'} hst hst' hold ↦ ?_⟩
  · -- within a stream: a sublist of one fetch
    exact ((hcoh st hst).flatten_updates_sublist.trans st.guarded.passed_sublist_txs).nodup
      (nodup_txs_run hnodup svc es _ (List.mem_map_of_mem _ hst))
  · -- across streams: the earlier one's records expire before the later one's
    intro r hr hr'
    exact lt_irrefl _ (hold r ((hcoh st hst).flatten_updates_sublist.subset hr) r
      (st'.guarded.passed_subset_txs ((hcoh st' hst').flatten_updates_sublist.subset hr')))

theorem updates_nodup_on_laterScans :
    Repository.dedupTable.FetchesFrom ∧ Repository.dedupTable.FetchesNodup ∧
      ((run Repository.dedupTable 25 (init mempoolService) laterScans).streams.flatMap fun st ↦
        (st.updates.map Prod.fst).flatten).Nodup :=
  ⟨dedupTable_fetchesFrom, dedupTable_fetchesNodup,
    updates_nodup dedupTable_fetchesFrom dedupTable_fetchesNodup mempoolService laterScans⟩

/-! ## Only what was in the mempool -/

/-- A step keeps each stream's selection, or draws it from the mempool snapshot of the
moment; a new stream has selected nothing. -/
theorem selected_step (sys : System σ ε) (e : Event σ) :
    ∀ st' ∈ (step R writeBatchMax sys e).streams,
      (∃ st ∈ sys.streams, st'.selected = st.selected) ∨
        ∀ r ∈ st'.selected, r.txid ∈ sys.service.currentMempoolTxids.elems := by
  intro st' hst'
  by_cases hb : ∃ now, e = .getStaleTxs now
  · obtain ⟨now, rfl⟩ := hb
    rcases List.mem_append.mp hst' with h | h
    · exact .inl ⟨st', h, rfl⟩
    · exact .inr fun r hr ↦ by simp [List.mem_singleton.mp h, Stream.start] at hr
  · obtain ⟨-, hs | ⟨i, st, st'', hi, hs, -, -, hsel⟩⟩ :=
      step_cases sys fun now he ↦ hb ⟨now, he⟩
    · exact .inl ⟨st', hs ▸ hst', rfl⟩
    · rw [hs] at hst'
      rcases List.mem_or_eq_of_mem_set hst' with h | rfl
      · exact .inl ⟨st', h, rfl⟩
      · exact hsel.imp (fun h ↦ ⟨st, List.getElem?_mem hi, h⟩) id

/-- Along every run from the start, whatever a stream selected had its txid in the
mempool snapshot at some earlier point of the run. -/
theorem selected_in_mempool_run (svc : Service σ) (es : List (Event σ)) :
    ∀ st ∈ (run R writeBatchMax (init svc) es).streams, ∀ r ∈ st.selected, ∃ k ≤ es.length,
      r.txid ∈ (run R writeBatchMax (init svc) (es.take k)).service.currentMempoolTxids.elems := by
  induction es using List.reverseRecOn with
  | nil => exact fun _ h ↦ absurd h (List.not_mem_nil _)
  | append_singleton es e ih =>
    intro st' hst' r hr
    rw [run_append, run_cons, run_nil] at hst'
    rcases selected_step _ e st' hst' with ⟨st, hst, hsel⟩ | hin
    · -- selected before the last step
      obtain ⟨k, hk, hmem⟩ := ih st hst r (hsel ▸ hr)
      refine ⟨k, by simp only [List.length_append, List.length_singleton]; omega, ?_⟩
      rwa [List.take_append_of_le_length hk]
    · -- selected by the last step, from the snapshot before it
      exact ⟨es.length, by simp, by rw [List.take_left]; exact hin r hr⟩

/-- In every run, every record a stream hands to `update_expiry` had its txid in the
mempool snapshot at some earlier point of that run: a stream never extends the expiry of a
transaction that the indexer never saw in the mempool. -/
theorem updated_txid_was_in_mempool (svc : Service σ) (es : List (Event σ)) :
    ∀ st ∈ (run R writeBatchMax (init svc) es).streams, ∀ c ∈ st.updates, ∀ r ∈ c.1,
      ∃ k ≤ es.length, r.txid ∈
        (run R writeBatchMax (init svc) (es.take k)).service.currentMempoolTxids.elems := by
  intro st hst c hc r hr
  have hpre := (coherent_run (R := R) (init svc) (fun _ h ↦ absurd h (List.not_mem_nil _)) es
    st hst).initial_chunks
  exact selected_in_mempool_run svc es st hst r
    (mem_of_mem_chunks (hpre.subset (List.mem_map_of_mem _ hc)) hr)

theorem updated_txid_was_in_mempool_on_twoScans :
    ∃ st ∈ (run (Repository.table true) 25 (init mempoolService) twoScans).streams,
      ∃ c ∈ st.updates, ∃ r ∈ c.1, ∃ k ≤ twoScans.length, r.txid ∈
        (run (Repository.table true) 25 (init mempoolService)
          (twoScans.take k)).service.currentMempoolTxids.elems := by
  obtain ⟨st, hst, c, hc, r, hr, -⟩ :
      ∃ st ∈ (run (Repository.table true) 25 (init mempoolService) twoScans).streams,
        ∃ c ∈ st.updates, ∃ r ∈ c.1, True := by
    decide
  exact ⟨st, hst, c, hc, r, hr, updated_txid_was_in_mempool mempoolService twoScans st hst c hc r hr⟩

/-! ## How many calls -/

/-- In every run, with a positive batch size, a stream makes at most one call of
`update_expiry` per `writeBatchMax` records it selected, rounded up, and exactly that many
once it has returned. -/
theorem length_updates_le_ceil (hmax : 0 < writeBatchMax) (svc : Service σ)
    (es : List (Event σ)) :
    ∀ st ∈ (run R writeBatchMax (init svc) es).streams,
      st.updates.length ≤ (st.selected.length + writeBatchMax - 1) / writeBatchMax ∧
        (st.phase = .finished →
          st.updates.length = (st.selected.length + writeBatchMax - 1) / writeBatchMax) := by
  intro st hst
  have hc := coherent_run (R := R) (init svc) (fun _ h ↦ absurd h (List.not_mem_nil _)) es
    st hst
  have hpre := hc.initial_chunks
  rw [chunks_of_pos hmax, Option.getD_some] at hpre
  refine ⟨?_, fun hf ↦ ?_⟩
  · simpa [length_chunksOf hmax] using hpre.length_le
  · have hph := hc.2
    simp only [hf, chunks_of_pos hmax, Option.getD_some] at hph
    rw [← length_chunksOf hmax, hph, List.length_map]

theorem length_updates_le_ceil_on_twoScans :
    0 < 25 ∧ ∀ st ∈ (run (Repository.table true) 25 (init mempoolService) twoScans).streams,
      st.updates.length ≤ (st.selected.length + 25 - 1) / 25 ∧
        (st.phase = .finished → st.updates.length = (st.selected.length + 25 - 1) / 25) :=
  ⟨by decide, length_updates_le_ceil (by decide) mempoolService twoScans⟩

end System

end Bitkey.MempoolIndexer
