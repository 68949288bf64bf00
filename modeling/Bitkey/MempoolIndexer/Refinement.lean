import Bitkey.MempoolIndexer.Streams

/-!
# The stepped streams against the sequential call

`Streams.lean` cuts `get_stale_txs` into the steps that interleave; `GetStaleTxs.lean`
runs it in one piece.  The two agree: a stream whose steps run one after another, with
nothing in between, leaves the indexer as the sequential call does, having made the same
calls of `update_expiry` and yielded the same items (`run_alone`).

Interleaved with anything else, a stream still hands `update_expiry` the leading chunks,
in order, of the records it passed whose txid is in the snapshot it read: all of them once
it has finished, some of them if the consumer dropped it, and none before it has read a
snapshot (`updates_prefix_chunks`).
-/

namespace Bitkey.MempoolIndexer

namespace System

variable {σ ε : Type} {R : Repository σ ε} {writeBatchMax : Nat}

theorem set_eq_self_of_getElem? {α : Type} {l : List α} {i : Nat} {a : α} (h : l[i]? = some a) :
    l.set i a = l := by
  refine List.ext_getElem? fun j ↦ ?_
  rw [List.getElem?_set]
  split
  · subst j
    rw [if_pos (List.getElem?_eq_some_iff.mp h).1, h]
  · rfl

theorem updateExpiry_of_updating {sys : System σ ε} {i : Nat} {st : Stream ε}
    (hst : sys.streams[i]? = some st) {b : List TransactionRecord}
    {bs : List (List TransactionRecord)} (hp : st.phase = .updating (b :: bs)) :
    updateExpiry R sys i =
      { service := { sys.service with repo := (R.updateExpiry sys.service.repo b).2 }
        streams := sys.streams.set i
          { st with updates := st.updates ++ [(b, (R.updateExpiry sys.service.repo b).1)]
                    phase := .ofBatches bs } } := by
  simp only [updateExpiry, hst, hp]

/-- Run to its end, the loop of stream `i` makes one call of `update_expiry` per batch,
as the sequential loop does. -/
theorem run_updateExpiry_replicate (sys : System σ ε) {i : Nat} {st : Stream ε}
    (hst : sys.streams[i]? = some st) (bs : List (List TransactionRecord))
    (hp : st.phase = .ofBatches bs) :
    run R writeBatchMax sys (List.replicate bs.length (.updateExpiry i)) =
      { service := { sys.service with repo := (updateBatches R sys.service.repo bs).2 }
        streams := sys.streams.set i
          { st with updates := st.updates ++ (updateBatches R sys.service.repo bs).1
                    phase := .finished } } := by
  induction bs generalizing sys st with
  | nil =>
    have hst' : { st with phase := .finished } = st := by
      cases st
      simp_all [Phase.ofBatches]
    simp only [List.length_nil, List.replicate_zero, run_nil, updateBatches, List.append_nil,
      hst', set_eq_self_of_getElem? hst]
  | cons b bs ih =>
    have hi : i < sys.streams.length := (List.getElem?_eq_some_iff.mp hst).1
    rw [List.length_cons, List.replicate_succ, run_cons, step, updateExpiry_of_updating hst hp,
      ih _ (List.getElem?_set_self hi) rfl]
    simp [updateBatches, List.set_set]

theorem set_length_append {α : Type} (l : List α) (a b : α) :
    (l ++ [a]).set l.length b = l ++ [b] := by
  simp [List.set_append_right]

/-- The stream a guarded block starts is the last one. -/
theorem getElem?_begin (sys : System σ ε) (now : OffsetDateTime) :
    (begin R sys now).streams[sys.streams.length]? = some (Stream.start (guarded R sys.service now)) := by
  simp [begin]

/-- A stream whose steps run one after another computes the sequential call: the same
service afterwards, the same calls of `update_expiry`, the same items, and it finishes. -/
theorem run_alone (sys : System σ ε) (now : OffsetDateTime) :
    ∃ k, let i := sys.streams.length
    let sys' := run R writeBatchMax sys
      (.getStaleTxs now :: .readMempool i :: List.replicate k (.updateExpiry i))
    sys'.service = (getStaleTxs R writeBatchMax now sys.service).2 ∧
      ∃ st, sys'.streams = sys.streams ++ [st] ∧ st.phase = .finished ∧
        st.updates = (getStaleTxs R writeBatchMax now sys.service).1.updates ∧
        st.items = (getStaleTxs R writeBatchMax now sys.service).1.items := by
  have hi := getElem?_begin (R := R) sys now
  cases hg : guarded R sys.service now with
  | failed e | panicked txs =>
    exact ⟨0, by simp [run, step, readMempool, hi, hg, begin, getStaleTxs, Stream.start,
      Stream.items, Guarded.expiringAfter, yielded]⟩
  | fetched txs w =>
    by_cases hlen : (expiringTxIds txs).len = 0
    · exact ⟨0, by simp [run, step, readMempool, hi, hg, begin, getStaleTxs, Stream.start,
        Stream.items, Guarded.expiringAfter, hlen, yielded]⟩
    · cases hc : chunks writeBatchMax (txRecordsToUpdate sys.service.currentMempoolTxids txs) with
      | none =>
        exact ⟨0, by simp [run, step, readMempool, hi, hg, begin, getStaleTxs, Stream.start,
          Stream.items, Guarded.expiringAfter, hlen, hc, yielded, set_length_append]⟩
      | some bs =>
        refine ⟨bs.length, ?_⟩
        -- after its guarded block and its read of the snapshot, the stream is in its loop
        let st : Stream ε :=
          ⟨.fetched txs w, some sys.service.currentMempoolTxids,
            txRecordsToUpdate sys.service.currentMempoolTxids txs, [], .ofBatches bs⟩
        have hread : step R writeBatchMax (step R writeBatchMax sys (.getStaleTxs now))
            (.readMempool sys.streams.length) =
            ⟨{ sys.service with staleTxsExpiringAfter := w }, sys.streams ++ [st]⟩ := by
          simp [step, readMempool, hi, hg, begin, Stream.start, Guarded.expiringAfter, hlen, hc,
            set_length_append, st]
        have hst : (sys.streams ++ [st])[sys.streams.length]? = some st := by simp
        simp only [run_cons, hread]
        rw [run_updateExpiry_replicate _ hst bs rfl]
        simp [getStaleTxs, hg, hlen, hc, Stream.items, set_length_append, st]

/-! ## Interleaved streams -/

/-- In every run, with a positive batch size, each stream has handed `update_expiry` the
leading chunks, in order, of the records it passed whose txid was in the snapshot of
`current_mempool_txids` it read: all of them once it has finished, some of them while it
runs or once dropped; before it has read a snapshot it has handed on nothing. -/
theorem updates_prefix_chunks (hmax : 0 < writeBatchMax) (svc : Service σ)
    (es : List (Event σ)) :
    ∀ st ∈ (run R writeBatchMax (init svc) es).streams,
      (st.snapshot = none → st.updates = []) ∧ ∀ m, st.snapshot = some m →
        let batches := chunksOf writeBatchMax (st.guarded.passed.filter fun r ↦ r.txid ∈ m.elems)
        st.updates.map Prod.fst <+: batches ∧
          (st.phase = .finished → st.updates.map Prod.fst = batches) := by
  intro st hst
  have hc := coherent_run (R := R) (init svc) (fun _ h ↦ absurd h (List.not_mem_nil _)) es st hst
  have hpre := hc.initial_chunks
  rw [chunks_of_pos hmax, Option.getD_some, hc.1] at hpre
  refine ⟨fun hnone ↦ ?_, fun m hm ↦ ?_⟩
  · -- nothing selected, so nothing handed on
    rwa [Stream.inSnapshot, hnone, chunksOf_nil, List.prefix_nil, List.map_eq_nil_iff] at hpre
  · rw [Stream.inSnapshot, hm] at hpre
    refine ⟨hpre, fun hf ↦ ?_⟩
    have hph := hc.2
    simp only [hf, hc.1, Stream.inSnapshot, hm, chunks_of_pos hmax, Option.getD_some] at hph
    exact hph.symm

theorem updates_prefix_chunks_on_twoScans :
    0 < 25 ∧ ∀ st ∈ (run (Repository.table true) 25 (init mempoolService) twoScans).streams,
      (st.snapshot = none → st.updates = []) ∧ ∀ m, st.snapshot = some m →
        let batches := chunksOf 25 (st.guarded.passed.filter fun r ↦ r.txid ∈ m.elems)
        st.updates.map Prod.fst <+: batches ∧
          (st.phase = .finished → st.updates.map Prod.fst = batches) :=
  ⟨by decide, updates_prefix_chunks (by decide) mempoolService twoScans⟩

/-- Under the fetch's contract no record is handed to `update_expiry` by two streams:
every record a stream writes expires before every record any later stream writes. -/
theorem updates_ordered (hR : R.FetchesFrom) (svc : Service σ) (es : List (Event σ)) :
    (run R writeBatchMax (init svc) es).streams.Pairwise fun st st' ↦
      ∀ c ∈ st.updates, ∀ c' ∈ st'.updates, ∀ r ∈ c.1, ∀ r' ∈ c'.1,
        r.expiringAt < r'.expiringAt :=
  have h := streams_run writeBatchMax hR svc es
  h.2.imp_of_mem fun ha hb hab _ hc _ hc' r hr r' hr' ↦
    hab r ((h.1 _ ha).mem_passed_of_mem_updates hc hr) r'
      (Guarded.passed_subset_txs _ ((h.1 _ hb).mem_passed_of_mem_updates hc' hr'))

theorem updates_ordered_on_laterScans :
    (Repository.table true).FetchesFrom ∧
      (run (Repository.table true) 25 (init mempoolService) laterScans).streams.Pairwise
        fun st st' ↦ ∀ c ∈ st.updates, ∀ c' ∈ st'.updates, ∀ r ∈ c.1, ∀ r' ∈ c'.1,
          r.expiringAt < r'.expiringAt :=
  ⟨table_fetchesFrom true, updates_ordered (table_fetchesFrom true) mempoolService laterScans⟩

/-- In `laterScans` both streams run to the end and write: the first `mempoolRecord`, the
second `laterRecord`. -/
example : (run (Repository.table true) 25 (init mempoolService) laterScans).streams.map
    (fun st ↦ (st.phase, st.updates.map Prod.fst)) =
      [(.finished, [[mempoolRecord]]), (.finished, [[laterRecord]])] := by
  decide

/-- No call of `update_expiry`, in any run, is empty or longer than `writeBatchMax`. -/
theorem length_of_mem_updates (hmax : 0 < writeBatchMax) (svc : Service σ)
    (es : List (Event σ)) :
    ∀ st ∈ (run R writeBatchMax (init svc) es).streams, ∀ c ∈ st.updates,
      0 < c.1.length ∧ c.1.length ≤ writeBatchMax := by
  intro st hst c hc
  have hpre := (coherent_run (R := R) (init svc) (fun _ h ↦ absurd h (List.not_mem_nil _)) es
    st hst).initial_chunks
  rw [chunks_of_pos hmax, Option.getD_some] at hpre
  exact length_of_mem_chunksOf hmax (hpre.subset (List.mem_map_of_mem _ hc))

theorem length_of_mem_updates_on_twoScans :
    0 < 25 ∧ ∀ st ∈ (run (Repository.table true) 25 (init mempoolService) twoScans).streams,
      ∀ c ∈ st.updates, 0 < c.1.length ∧ c.1.length ≤ 25 :=
  ⟨by decide, length_of_mem_updates (by decide) mempoolService twoScans⟩

end System

end Bitkey.MempoolIndexer
