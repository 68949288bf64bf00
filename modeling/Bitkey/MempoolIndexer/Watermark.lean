import Bitkey.MempoolIndexer.Streams

/-!
# What the watermark guarantees across runs

Over every run of the indexer, whatever the interleaving of the streams, the failures of
`update_expiry` and the streams the consumer drops:

* once set, the watermark never moves back;
* a stream whose fetch returns records moves it to their latest expiry plus one second,
  strictly past everything it and all earlier streams fetched, and a stream whose fetch
  returns nothing or fails leaves it alone;
* so every stream fetches only records strictly later than all that earlier streams
  fetched, and no record is fetched twice;
* and a record stored with an expiry the watermark has already passed is never fetched
  (`later_fetches_after_watermark`).

Within the range no guarded block of any run panics (`no_guarded_panic`), so the overflow
at the end of the range is the only panic of a run with a positive batch size.

What the watermark stands for follows: after every run it is one second past the latest
expiry among all the records passed so far, or where it started if none was
(`watermark_eq_latest_passed`), so the incremental update under the write guard keeps
exactly the summary of the run's history that the next fetch needs.

The first three need the fetch to keep to its bound, and to stop short of the last
instant to which a second can be added; the last needs only the bound.  With only the
bound, every record a stream's guarded block moved the watermark past expires before
anything a later stream fetches (`passed_expire_before_later_fetches`).  Because the
watermark moves before the stream reads the mempool or writes any batch, that is also why
a record whose batch fails, or is never written because the stream is dropped, is not
fetched again: `failed_batch_not_refetched` replays such a run.  A block that panics
moves nothing, and what it fetched may come back.
-/

namespace Bitkey.MempoolIndexer

namespace System

variable {σ ε : Type} {R : Repository σ ε} {writeBatchMax : Nat}

/-! ## The watermark advances -/

/-- The watermark over every run in which the fetch keeps within its bound and the range:
it never moves back; a stream whose fetch returns records sets it to their latest expiry
plus one second, strictly after every record it and all earlier streams fetched; a stream
whose fetch returns nothing or fails leaves it unchanged; and each stream fetches only
records strictly later than those of every earlier stream. -/
theorem watermark_advances (hR : R.FetchesWithin) (svc : Service σ) (es : List (Event σ)) :
    let sys := run R writeBatchMax (init svc) es
    let fetch := fun now ↦ R.fetchExpiringTransactions sys.service.repo sys.service.network
      (sys.service.staleTxsExpiringAfter.getD now)
    (∀ t es', sys.service.staleTxsExpiringAfter = some t →
      ∃ t', (run R writeBatchMax sys es').service.staleTxsExpiringAfter = some t' ∧ t ≤ t') ∧
    (∀ now txs, fetch now = .ok txs → txs ≠ [] →
      ∃ m u, (txs.map (·.expiringAt)).max? = some m ∧ m.add (Duration.seconds 1) = some u ∧
        (step R writeBatchMax sys (.getStaleTxs now)).service.staleTxsExpiringAfter = some u ∧
        ∀ st ∈ (step R writeBatchMax sys (.getStaleTxs now)).streams,
          ∀ r ∈ st.guarded.txs, r.expiringAt < u) ∧
    (∀ now, (fetch now = .ok [] ∨ ∃ e, fetch now = .error e) →
      (step R writeBatchMax sys (.getStaleTxs now)).service.staleTxsExpiringAfter =
        sys.service.staleTxsExpiringAfter) ∧
    sys.streams.Pairwise fun st st' ↦
      ∀ r ∈ st.guarded.txs, ∀ r' ∈ st'.guarded.txs, r.expiringAt < r'.expiringAt := by
  intro sys fetch
  refine ⟨fun t es' ht ↦ watermark_le_run hR.fetchesFrom sys es' ht, ?_, ?_, ?_⟩
  · intro now txs hf hne
    obtain ⟨w, hw⟩ := Option.isSome_iff_exists.mp (newExpiringAfter_isSome
      sys.service.staleTxsExpiringAfter fun r hr ↦ (hR _ _ _ txs hf r hr).2.le)
    obtain ⟨m, u, hm, hu, rfl, -⟩ := newExpiringAfter_of_ne_nil hne hw
    have hwu : (step R writeBatchMax sys (.getStaleTxs now)).service.staleTxsExpiringAfter =
        some u := by
      simp [step, begin, guarded_of_fetch hf, hw, Guarded.expiringAfter]
    refine ⟨m, u, hm, hu, hwu, fun st hst r hr ↦ ?_⟩
    -- one step further, the watermark `u` is ahead of everything every stream passed
    have hrun : run R writeBatchMax (init svc) (es ++ [.getStaleTxs now]) =
        step R writeBatchMax sys (.getStaleTxs now) := by
      rw [run_append]; rfl
    rw [← hrun] at hst hwu
    have hmem := List.mem_map_of_mem (·.guarded) hst
    obtain ⟨t, ht, hrt⟩ := (ahead_run hR.fetchesFrom svc _).1 _ hmem r
      (passed_eq_txs_run hR svc _ _ hmem ▸ hr)
    rw [hwu, Option.some.injEq] at ht
    exact ht ▸ hrt
  · rintro now (hf | ⟨e, hf⟩) <;> simp only [fetch] at hf <;>
      simp [step, begin, guarded, hf, Guarded.expiringAfter]
  · have hpassed : ∀ g ∈ sys.guardeds, g.passed = g.txs := passed_eq_txs_run hR svc es
    have hpair : sys.guardeds.Pairwise Older := (ahead_run hR.fetchesFrom svc es).2
    rw [guardeds, List.pairwise_map] at hpair
    exact List.Pairwise.imp_of_mem (fun ha _ hab r hr ↦
      hab r (hpassed _ (List.mem_map_of_mem _ ha) ▸ hr)) hpair

/-- A table that only returns records in the range. -/
def windowTable : Repository (List TransactionRecord) Unit where
  fetchExpiringTransactions s _ bound :=
    .ok (s.filter fun r ↦ bound ≤ r.expiringAt ∧ r.expiringAt < OffsetDateTime.maxLessOneSecond)
  updateExpiry s batch := (.ok batch, s)

theorem windowTable_fetchesWithin : windowTable.FetchesWithin := by
  intro s _ bound txs hf r hr
  cases hf
  simpa using (List.mem_filter.mp hr).2

theorem watermark_advances_on_twoScans :
    windowTable.FetchesWithin ∧
    let sys := run windowTable 25 (init mempoolService) twoScans
    let fetch := fun now ↦ windowTable.fetchExpiringTransactions sys.service.repo
      sys.service.network (sys.service.staleTxsExpiringAfter.getD now)
    (∀ t es', sys.service.staleTxsExpiringAfter = some t →
      ∃ t', (run windowTable 25 sys es').service.staleTxsExpiringAfter = some t' ∧ t ≤ t') ∧
    (∀ now txs, fetch now = .ok txs → txs ≠ [] →
      ∃ m u, (txs.map (·.expiringAt)).max? = some m ∧ m.add (Duration.seconds 1) = some u ∧
        (step windowTable 25 sys (.getStaleTxs now)).service.staleTxsExpiringAfter = some u ∧
        ∀ st ∈ (step windowTable 25 sys (.getStaleTxs now)).streams,
          ∀ r ∈ st.guarded.txs, r.expiringAt < u) ∧
    (∀ now, (fetch now = .ok [] ∨ ∃ e, fetch now = .error e) →
      (step windowTable 25 sys (.getStaleTxs now)).service.staleTxsExpiringAfter =
        sys.service.staleTxsExpiringAfter) ∧
    sys.streams.Pairwise fun st st' ↦
      ∀ r ∈ st.guarded.txs, ∀ r' ∈ st'.guarded.txs, r.expiringAt < r'.expiringAt :=
  ⟨windowTable_fetchesWithin, watermark_advances windowTable_fetchesWithin mempoolService twoScans⟩

/-! ## What the watermark stands for -/

theorem max?_append_of_lt {l₁ l₂ : List OffsetDateTime} (h : ∀ a ∈ l₁, ∀ b ∈ l₂, a < b)
    {m : OffsetDateTime} (hm : l₂.max? = some m) : (l₁ ++ l₂).max? = some m := by
  have mem_of_max? : ∀ {l : List OffsetDateTime} {a}, l.max? = some a → a ∈ l :=
    List.max?_mem fun _ _ ↦ max_choice _ _
  have hmem : m ∈ l₁ ++ l₂ := List.mem_append_right l₁ (mem_of_max? hm)
  obtain ⟨m', hm'⟩ := Option.isSome_iff_exists.mp (List.isSome_max?_of_mem hmem)
  have hle : m ≤ m' := le_of_max?_eq_some hm' hmem
  rcases List.mem_append.mp (mem_of_max? hm') with h₁ | h₂
  · exact absurd hle (not_le.mpr (h m' h₁ m (mem_of_max? hm)))
  · rw [hm', le_antisymm (le_of_max?_eq_some hm h₂) hle]

theorem newExpiringAfter_of_guarded {R : Repository σ ε} {svc : Service σ} {now : OffsetDateTime}
    {txs : List TransactionRecord} {w : Option OffsetDateTime}
    (h : guarded R svc now = .fetched txs w) :
    newExpiringAfter txs svc.staleTxsExpiringAfter = some w := by
  unfold guarded at h
  split at h
  · cases h
  · split at h
    · cases h
    · cases h
      assumption

/-- A block that passed records moved the watermark to one second past the latest of
them. -/
theorem expiringAfter_of_passed_ne_nil (R : Repository σ ε) (svc : Service σ)
    (now : OffsetDateTime) (hne : (guarded R svc now).passed ≠ []) :
    ∃ m, ((guarded R svc now).passed.map (·.expiringAt)).max? = some m ∧
      (guarded R svc now).expiringAfter svc.staleTxsExpiringAfter =
        m.add (Duration.seconds 1) := by
  cases hg : guarded R svc now with
  | fetched txs w =>
    rw [hg] at hne
    obtain ⟨m, u, hm, hu, rfl, -⟩ := newExpiringAfter_of_ne_nil hne (newExpiringAfter_of_guarded hg)
    exact ⟨m, hm, hu.symm⟩
  | failed _ | panicked _ => simp [hg, Guarded.passed] at hne

/-- The watermark sums up the run: after every run from the start, it is one second past
the latest expiry among all the records passed so far, or where it started if none was. -/
theorem watermark_eq_latest_passed (hR : R.FetchesFrom) (svc : Service σ)
    (es : List (Event σ)) :
    let sys := run R writeBatchMax (init svc) es
    sys.service.staleTxsExpiringAfter =
      match ((sys.guardeds.flatMap Guarded.passed).map (·.expiringAt)).max? with
      | none => svc.staleTxsExpiringAfter
      | some m => m.add (Duration.seconds 1) := by
  refine (run_induction (fun w gs ↦ (Behind w gs ∧ gs.Pairwise Older) ∧
      w = match ((gs.flatMap Guarded.passed).map (·.expiringAt)).max? with
        | none => svc.staleTxsExpiringAfter
        | some m => m.add (Duration.seconds 1)) ?_ (init svc)
    ⟨⟨fun _ hg ↦ absurd hg (List.not_mem_nil _), .nil⟩, rfl⟩ es).2
  rintro svc' now gs ⟨hahead, hw⟩
  have hnext := ahead_begin hR svc' now hahead
  refine ⟨hnext, ?_⟩
  rw [List.flatMap_append, List.flatMap_singleton, List.map_append]
  by_cases hp : (guarded R svc' now).passed = []
  · -- a block that passed nothing leaves the watermark where it was
    rw [hp, List.map_nil, List.append_nil, ← hw]
    rcases guarded_expiringAfter R svc' now with ⟨hw', -⟩ | ⟨u, -, hp', hne, -⟩
    · exact hw'
    · exact absurd (hp' ▸ hp) hne
  · -- one that passed records moves it past them, and they are later than all before
    obtain ⟨m, hm, hwm⟩ := expiringAfter_of_passed_ne_nil R svc' now hp
    have hlt : ∀ a ∈ (gs.flatMap Guarded.passed).map (·.expiringAt),
        ∀ b ∈ (guarded R svc' now).passed.map (·.expiringAt), a < b := by
      simp only [List.mem_map, List.mem_flatMap]
      rintro _ ⟨r, ⟨g, hg, hr⟩, rfl⟩ _ ⟨r', hr', rfl⟩
      exact (List.pairwise_append.mp hnext.2).2.2 g hg _ (List.mem_singleton_self _) r hr r'
        (Guarded.passed_subset_txs _ hr')
    rw [max?_append_of_lt hlt hm, hwm]

theorem watermark_eq_latest_passed_on_twoScans :
    (Repository.table true).FetchesFrom ∧
      let sys := run (Repository.table true) 25 (init mempoolService) twoScans
      sys.service.staleTxsExpiringAfter =
        match ((sys.guardeds.flatMap Guarded.passed).map (·.expiringAt)).max? with
        | none => mempoolService.staleTxsExpiringAfter
        | some m => m.add (Duration.seconds 1) :=
  ⟨table_fetchesFrom true,
    watermark_eq_latest_passed (table_fetchesFrom true) mempoolService twoScans⟩

/-! ## No panic within the range -/

theorem guarded_ne_panicked (hR : R.FetchesWithin) (svc : Service σ) (now : OffsetDateTime)
    (txs : List TransactionRecord) : guarded R svc now ≠ .panicked txs := by
  unfold guarded
  split
  · nofun
  · rename_i txs' hf
    obtain ⟨w, hw⟩ := Option.isSome_iff_exists.mp (newExpiringAfter_isSome
      svc.staleTxsExpiringAfter fun r hr ↦ (hR _ _ _ txs' hf r hr).2.le)
    rw [hw]
    nofun

/-- When the fetch keeps within its bound and the range, no stream of any run panics in its
guarded block: adding a second to the latest expiry it fetched never overflows. -/
theorem no_guarded_panic (hR : R.FetchesWithin) (svc : Service σ) (es : List (Event σ)) :
    ∀ st ∈ (run R writeBatchMax (init svc) es).streams, ∀ txs, st.guarded ≠ .panicked txs :=
  fun _ hst ↦ run_induction (fun _ gs ↦ ∀ g ∈ gs, ∀ txs, g ≠ .panicked txs)
    (fun svc now _ h g hg ↦ (List.mem_append.mp hg).elim (h g)
      fun hg ↦ List.mem_singleton.mp hg ▸ guarded_ne_panicked hR svc now)
    (init svc) (fun _ hg ↦ absurd hg (List.not_mem_nil _)) es _ (List.mem_map_of_mem _ hst)

theorem no_guarded_panic_on_twoScans :
    windowTable.FetchesWithin ∧
      ∀ st ∈ (run windowTable 25 (init mempoolService) twoScans).streams, ∀ txs,
        st.guarded ≠ .panicked txs :=
  ⟨windowTable_fetchesWithin, no_guarded_panic windowTable_fetchesWithin mempoolService twoScans⟩

/-! ## Records behind the watermark -/

/-- The blocks that start after a point of a run fetch nothing the watermark was behind at
that point: it stays at least as far on, and each block's bound is the watermark. -/
theorem ahead_of_watermark_run (hR : R.FetchesFrom) (sys : System σ ε) {t : OffsetDateTime}
    (ht : sys.service.staleTxsExpiringAfter = some t) (es : List (Event σ)) :
    ∀ g ∈ (run R writeBatchMax sys es).guardeds.drop sys.streams.length,
      ∀ r ∈ g.txs, t ≤ r.expiringAt := by
  refine (run_induction (fun w gs ↦ (∃ t', w = some t' ∧ t ≤ t') ∧
      sys.streams.length ≤ gs.length ∧ ∀ g ∈ gs.drop sys.streams.length, ∀ r ∈ g.txs,
        t ≤ r.expiringAt) ?_ sys ⟨⟨t, ht, le_rfl⟩, ?_, ?_⟩ es).2.2
  · rintro svc now gs ⟨⟨t', hw, hle⟩, hk, hgs⟩
    obtain ⟨t'', hw', hle'⟩ := le_expiringAfter hR svc now hw
    refine ⟨⟨t'', hw', hle.trans hle'⟩, by simp only [List.length_append]; omega, ?_⟩
    rw [List.drop_append_of_le_length hk]
    intro g hg r hr
    rcases List.mem_append.mp hg with hg | hg
    · exact hgs g hg r hr
    · have hb := bound_le_of_mem_txs hR svc now (List.mem_singleton.mp hg ▸ hr)
      rw [hw, Option.getD_some] at hb
      exact hle.trans hb
  · simp [guardeds]
  · simp [guardeds, ← List.map_drop]

/-- Once the watermark has passed an instant, no stream that starts later, in any
continuation of the run, fetches a record expiring before it: a record that another writer
stores behind the watermark is never returned by `get_stale_txs`. -/
theorem later_fetches_after_watermark (hR : R.FetchesFrom) (sys : System σ ε)
    {t : OffsetDateTime} (ht : sys.service.staleTxsExpiringAfter = some t)
    (es : List (Event σ)) :
    ∀ st ∈ (run R writeBatchMax sys es).streams.drop sys.streams.length,
      ∀ r ∈ st.guarded.txs, t ≤ r.expiringAt := fun st hst ↦
  ahead_of_watermark_run hR sys ht es st.guarded (by
    rw [guardeds, ← List.map_drop]
    exact List.mem_map_of_mem _ hst)

theorem later_fetches_after_watermark_on_table :
    let sys := run (Repository.table true) 25 (init mempoolService) [.getStaleTxs .UNIX_EPOCH]
    let sixSeconds : OffsetDateTime := ⟨6000000000, by decide, by decide⟩
    let lateRecord : TransactionRecord := ⟨⟨2⟩, ⟨5500000000, by decide, by decide⟩⟩
    (Repository.table true).FetchesFrom ∧ sys.service.staleTxsExpiringAfter = some sixSeconds ∧
      ∀ st ∈ (run (Repository.table true) 25 sys
          [.writeRepo (sys.service.repo ++ [lateRecord]), .getStaleTxs .UNIX_EPOCH]).streams.drop
          sys.streams.length,
        ∀ r ∈ st.guarded.txs, sixSeconds ≤ r.expiringAt :=
  ⟨table_fetchesFrom true, by decide,
    later_fetches_after_watermark (table_fetchesFrom true) _ (by decide) _⟩

/-- Every record a stream's guarded block moved the watermark past, that is every record
it fetched unless adding a second to the latest of them panicked, expires strictly before
every record any later stream fetches.  That holds whether or not the stream went on to
read the mempool, whether its batch's update succeeded, failed or was never made, and
whether or not the consumer dropped it: the watermark has passed the record before the
stream reads the snapshot or writes a batch. -/
theorem passed_expire_before_later_fetches (hR : R.FetchesFrom) (svc : Service σ)
    (es : List (Event σ)) :
    (run R writeBatchMax (init svc) es).streams.Pairwise fun st st' ↦
      ∀ r ∈ st.guarded.passed, ∀ r' ∈ st'.guarded.txs, r.expiringAt < r'.expiringAt :=
  (streams_run writeBatchMax hR svc es).2

theorem passed_expire_before_later_fetches_on_laterScans :
    (Repository.table false).FetchesFrom ∧
      (run (Repository.table false) 25 (init mempoolService) laterScans).streams.Pairwise
        fun st st' ↦
          ∀ r ∈ st.guarded.passed, ∀ r' ∈ st'.guarded.txs, r.expiringAt < r'.expiringAt :=
  ⟨table_fetchesFrom false,
    passed_expire_before_later_fetches (table_fetchesFrom false) mempoolService laterScans⟩

/-- In `laterScans` with every write failing, the first stream's batch fails and the
second stream fetches only `laterRecord`, the transaction's later expiry. -/
example : (run (Repository.table false) 25 (init mempoolService) laterScans).streams.map
    (fun st ↦ (st.guarded.txs, st.updates.map fun c ↦ c.2.toBool)) =
      [([mempoolRecord], [false]), ([laterRecord], [false])] := by
  decide

/-- With every write failing, the first stream selects `mempoolRecord`, whose txid stays in
the mempool, and its only batch fails; the second stream fetches nothing, since the
watermark already passed the record. -/
theorem failed_batch_not_refetched :
    let sys := run (Repository.table false) 25 (init mempoolService) twoScans
    sys.streams.map (·.selected) = [[mempoolRecord], []] ∧
      sys.streams.map (fun st ↦ st.updates.map fun c ↦ (c.1, c.2.toBool)) =
        [[([mempoolRecord], false)], []] ∧
      mempoolRecord.txid ∈ sys.service.currentMempoolTxids.elems ∧
      sys.streams.map (·.guarded.txs) = [[mempoolRecord], []] := by
  decide

end System

end Bitkey.MempoolIndexer
