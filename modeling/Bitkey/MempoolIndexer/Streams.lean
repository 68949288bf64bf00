import Bitkey.MempoolIndexer.GetStaleTxs

/-!
# Concurrent `get_stale_txs` streams

`get_stale_txs` returns a lazy stream, and the indexer may poll several of them at once.
A stream touches shared state at four points, and each is one step here:

* the guarded block (lines 20–30), atomic because the watermark's write guard is held
  across the awaited fetch, so no other stream reads or writes the watermark in between;
* the read of `current_mempool_txids` (line 42), under its read guard;
* each `update_expiry` of the loop (line 59);
* the consumer dropping the stream, after which its remaining batches never run.

The other tasks of the indexer replace the mempool snapshot, and other writers may change
the table; both are steps too.  A `System` keeps every stream started so far, in the
order in which their guarded blocks ran, with the records it fetched, the records it
selected, the mempool snapshot it read and the `update_expiry` calls it made: the ghost
state that the properties below speak about.
-/

namespace Bitkey.MempoolIndexer

/-- Where a stream is suspended. -/
inductive Phase
  /-- Waiting for the read guard on the mempool snapshot, holding the fetched records. -/
  | readMempool (txs : List TransactionRecord)
  /-- In the loop, with these batches still to go to `update_expiry`. -/
  | updating (batches : List (List TransactionRecord))
  /-- Returned, failed or panicked. -/
  | finished
  /-- Dropped by the consumer. -/
  | dropped
deriving DecidableEq, Repr

/-- The loop with `bs` left to run; it returns once none is left. -/
def Phase.ofBatches : List (List TransactionRecord) → Phase
  | [] => .finished
  | b :: bs => .updating (b :: bs)

variable {σ ε : Type}

/-- One `get_stale_txs` stream. -/
structure Stream (ε : Type) where
  /-- How its guarded block ended. -/
  guarded : Guarded ε
  /-- The snapshot of `current_mempool_txids` it read, once it has. -/
  snapshot : Option (HashSet Txid)
  /-- `tx_records_to_update`, once it has read the mempool snapshot. -/
  selected : List TransactionRecord
  /-- Its calls of `update_expiry` so far, in order. -/
  updates : List (UpdateCall ε)
  phase : Phase

/-- The items the stream has yielded: the fetch's error, or what the `Ok` updates
returned. -/
def Stream.items (st : Stream ε) : List (Except ε (List TransactionRecord)) :=
  match st.guarded with
  | .failed e => [.error e]
  | _ => yielded st.updates

/-- The stream left by its guarded block. -/
def Stream.start (g : Guarded ε) : Stream ε where
  guarded := g
  snapshot := none
  selected := []
  updates := []
  phase := match g with
    | .fetched txs _ => if (expiringTxIds txs).len = 0 then .finished else .readMempool txs
    | _ => .finished

/-- The indexer and every stream started so far, in the order of their guarded blocks. -/
structure System (σ ε : Type) where
  service : Service σ
  streams : List (Stream ε)

/-- The indexer before any stream has started. -/
def System.init (svc : Service σ) : System σ ε := ⟨svc, []⟩

/-- The steps that interleave. -/
inductive Event (σ : Type)
  /-- A new stream runs its guarded block, having read the clock as `now`. -/
  | getStaleTxs (now : OffsetDateTime)
  /-- Stream `i` reads the mempool snapshot and cuts its batches. -/
  | readMempool (i : Nat)
  /-- Stream `i` hands its next batch to `update_expiry`. -/
  | updateExpiry (i : Nat)
  /-- The consumer drops stream `i`. -/
  | drop (i : Nat)
  /-- Another task of the indexer replaces the mempool snapshot. -/
  | setMempool (txids : HashSet Txid)
  /-- Another writer changes the table. -/
  | writeRepo (s : σ)

namespace System

variable (R : Repository σ ε) (writeBatchMax : Nat)

/-- The guarded block of a new stream. -/
def begin (sys : System σ ε) (now : OffsetDateTime) : System σ ε :=
  let g := guarded R sys.service now
  { service := { sys.service with
      staleTxsExpiringAfter := g.expiringAfter sys.service.staleTxsExpiringAfter }
    streams := sys.streams ++ [Stream.start g] }

/-- Stream `i` reads the snapshot, filters its records and cuts them into batches; with a
batch size of zero `chunks` panics and the stream ends. -/
def readMempool (sys : System σ ε) (i : Nat) : System σ ε :=
  match sys.streams[i]? with
  | some st =>
    match st.phase with
    | .readMempool txs =>
      let selected := txRecordsToUpdate sys.service.currentMempoolTxids txs
      let phase := match chunks writeBatchMax selected with
        | none => .finished
        | some bs => .ofBatches bs
      { sys with
        streams := sys.streams.set i
          { st with snapshot := some sys.service.currentMempoolTxids, selected, phase } }
    | _ => sys
  | none => sys

/-- Stream `i` hands its next batch to `update_expiry`. -/
def updateExpiry (sys : System σ ε) (i : Nat) : System σ ε :=
  match sys.streams[i]? with
  | some st =>
    match st.phase with
    | .updating (b :: bs) =>
      let (r, s) := R.updateExpiry sys.service.repo b
      { service := { sys.service with repo := s }
        streams := sys.streams.set i
          { st with updates := st.updates ++ [(b, r)], phase := .ofBatches bs } }
    | _ => sys
  | none => sys

/-- The consumer drops stream `i`; one that has returned has nothing left to drop. -/
def drop (sys : System σ ε) (i : Nat) : System σ ε :=
  match sys.streams[i]? with
  | some st =>
    match st.phase with
    | .finished => sys
    | _ => { sys with streams := sys.streams.set i { st with phase := .dropped } }
  | none => sys

/-- One step of the indexer. -/
def step (sys : System σ ε) : Event σ → System σ ε
  | .getStaleTxs now => begin R sys now
  | .readMempool i => readMempool writeBatchMax sys i
  | .updateExpiry i => updateExpiry R sys i
  | .drop i => drop sys i
  | .setMempool m => { sys with service := { sys.service with currentMempoolTxids := m } }
  | .writeRepo s => { sys with service := { sys.service with repo := s } }

/-- A run: the steps in order. -/
def run (sys : System σ ε) (es : List (Event σ)) : System σ ε := es.foldl (step R writeBatchMax) sys

@[simp] theorem run_nil (sys : System σ ε) : run R writeBatchMax sys [] = sys := rfl

@[simp] theorem run_cons (sys : System σ ε) (e : Event σ) (es : List (Event σ)) :
    run R writeBatchMax sys (e :: es) = run R writeBatchMax (step R writeBatchMax sys e) es := rfl

theorem run_append (sys : System σ ε) (es es' : List (Event σ)) :
    run R writeBatchMax sys (es ++ es') = run R writeBatchMax (run R writeBatchMax sys es) es' :=
  List.foldl_append _ _ _ _

/-- Two streams over `mempoolService`, the second started after the first has written. -/
def twoScans : List (Event (List TransactionRecord)) :=
  [.getStaleTxs .UNIX_EPOCH, .readMempool 0, .updateExpiry 0, .getStaleTxs .UNIX_EPOCH]

/-- The transaction of `mempoolRecord` with its expiry moved to ten seconds after the
epoch. -/
def laterRecord : TransactionRecord := ⟨⟨1⟩, ⟨10000000000, by decide, by decide⟩⟩

/-- Two streams over `mempoolService` that both write: between them another writer stores
`laterRecord`, past the watermark the first stream left. -/
def laterScans : List (Event (List TransactionRecord)) :=
  [.getStaleTxs .UNIX_EPOCH, .readMempool 0, .updateExpiry 0,
    .writeRepo [mempoolRecord, laterRecord], .getStaleTxs .UNIX_EPOCH, .readMempool 1,
    .updateExpiry 1]

end System

/-! ## What each stream's fields say about each other -/

/-- The records a stream's guarded block passed whose txid is in the snapshot it read;
none before it has read one. -/
def Stream.inSnapshot (st : Stream ε) : List TransactionRecord :=
  match st.snapshot with
  | none => []
  | some m => st.guarded.passed.filter fun r ↦ r.txid ∈ m.elems

/-- A stream selects the records its guarded block passed whose txid is in the snapshot it
read, and the batches it handed to `update_expiry` come first in the chunks of that
selection: followed by those still to go, at least one, while it runs, all of them once
it has finished, some of them if it was dropped. -/
def Stream.Coherent (writeBatchMax : Nat) (st : Stream ε) : Prop :=
  st.selected = st.inSnapshot ∧
    match st.phase with
    | .readMempool txs => txs = st.guarded.passed ∧ st.updates = []
    | .updating bs =>
      bs ≠ [] ∧ (chunks writeBatchMax st.selected).getD [] = st.updates.map Prod.fst ++ bs
    | .finished => (chunks writeBatchMax st.selected).getD [] = st.updates.map Prod.fst
    | .dropped => st.updates.map Prod.fst <+: (chunks writeBatchMax st.selected).getD []

theorem Stream.Coherent.selected_sublist {writeBatchMax : Nat} {st : Stream ε}
    (h : st.Coherent writeBatchMax) : st.selected.Sublist st.guarded.passed := by
  rw [h.1, Stream.inSnapshot]
  split
  · exact List.nil_sublist _
  · exact List.filter_sublist _

theorem Stream.Coherent.selected_subset {writeBatchMax : Nat} {st : Stream ε}
    (h : st.Coherent writeBatchMax) : st.selected ⊆ st.guarded.passed :=
  h.selected_sublist.subset

/-- In every phase, the batches a stream handed on come first in the chunks of its
selection. -/
theorem Stream.Coherent.initial_chunks {writeBatchMax : Nat} {st : Stream ε}
    (h : st.Coherent writeBatchMax) :
    st.updates.map Prod.fst <+: (chunks writeBatchMax st.selected).getD [] := by
  obtain ⟨-, hph⟩ := h
  split at hph
  · simp [hph.2]
  · exact ⟨_, hph.2.symm⟩
  · exact hph ▸ List.prefix_refl _
  · exact hph

/-- A stream hands `update_expiry` only records it passed. -/
theorem Stream.Coherent.mem_passed_of_mem_updates {writeBatchMax : Nat} {st : Stream ε}
    (h : st.Coherent writeBatchMax) {c : UpdateCall ε} (hc : c ∈ st.updates)
    {r : TransactionRecord} (hr : r ∈ c.1) : r ∈ st.guarded.passed :=
  h.selected_subset (mem_of_mem_chunks (h.initial_chunks.subset (List.mem_map_of_mem _ hc)) hr)

theorem getD_chunks_nil (writeBatchMax : Nat) :
    (chunks writeBatchMax ([] : List TransactionRecord)).getD [] = [] := by
  unfold chunks
  split <;> rfl

theorem Stream.coherent_start {writeBatchMax : Nat} (g : Guarded ε) :
    (Stream.start g).Coherent writeBatchMax := by
  refine ⟨rfl, ?_⟩
  cases g with
  | fetched txs w =>
    by_cases h : (expiringTxIds txs).len = 0 <;>
      simp [Stream.start, h, Guarded.passed, getD_chunks_nil]
  | _ => simp [Stream.start, getD_chunks_nil]

/-- The loop with `bs` left, where the chunks are the batches handed on followed by
`bs`. -/
theorem Stream.coherent_ofBatches {writeBatchMax : Nat} (st : Stream ε)
    {bs : List (List TransactionRecord)} (hsel : st.selected = st.inSnapshot)
    (h : (chunks writeBatchMax st.selected).getD [] = st.updates.map Prod.fst ++ bs) :
    { st with phase := .ofBatches bs }.Coherent writeBatchMax := by
  refine ⟨hsel, ?_⟩
  cases bs with
  | nil => simpa [Phase.ofBatches] using h
  | cons b bs => exact ⟨List.cons_ne_nil b bs, h⟩

theorem Stream.Coherent.readMempool {writeBatchMax : Nat} {st : Stream ε}
    (hst : st.Coherent writeBatchMax) {txs : List TransactionRecord}
    (hp : st.phase = .readMempool txs) (m : HashSet Txid) :
    { st with
      snapshot := some m
      selected := txRecordsToUpdate m txs
      phase := match chunks writeBatchMax (txRecordsToUpdate m txs) with
        | none => .finished
        | some bs => .ofBatches bs }.Coherent writeBatchMax := by
  obtain ⟨-, hph⟩ := hst
  rw [hp] at hph
  obtain ⟨rfl, hupd⟩ := hph
  have hsel := txRecordsToUpdate_eq_filter m st.guarded.passed
  split
  next hnone => exact ⟨hsel, by simp [hupd, hnone]⟩
  next bs hbs =>
    exact Stream.coherent_ofBatches
      { st with snapshot := some m, selected := txRecordsToUpdate m _ } hsel
      (by simp [hupd, hbs])

theorem Stream.Coherent.updateExpiry {writeBatchMax : Nat} {st : Stream ε}
    (hst : st.Coherent writeBatchMax) {b : List TransactionRecord}
    {bs : List (List TransactionRecord)} (hp : st.phase = .updating (b :: bs))
    (r : Except ε (List TransactionRecord)) :
    { st with updates := st.updates ++ [(b, r)], phase := .ofBatches bs }.Coherent
      writeBatchMax := by
  obtain ⟨hsel, hph⟩ := hst
  rw [hp] at hph
  exact Stream.coherent_ofBatches { st with updates := st.updates ++ [(b, r)] } hsel
    (by simp [hph.2])

theorem Stream.Coherent.drop {writeBatchMax : Nat} {st : Stream ε}
    (hst : st.Coherent writeBatchMax) : { st with phase := .dropped }.Coherent writeBatchMax :=
  ⟨hst.1, hst.initial_chunks⟩

namespace System

/-! ## What a step does to the watermark and the guarded blocks

Only a guarded block touches the watermark, and every other step at most replaces one
stream by one with the same guarded block (`step_cases`).  So every property of the
watermark and the list of ended blocks that one guarded block keeps holds along every run,
however the other steps interleave: that is `run_induction`. -/

variable {R : Repository σ ε} {writeBatchMax : Nat}

/-- How the guarded blocks run so far ended, in order. -/
def guardeds (sys : System σ ε) : List (Guarded ε) := sys.streams.map (·.guarded)

theorem map_guarded_set {l : List (Stream ε)} {i : Nat} {st st' : Stream ε}
    (h : l[i]? = some st) (hg : st'.guarded = st.guarded) :
    (l.set i st').map (·.guarded) = l.map (·.guarded) := by
  refine List.ext_getElem? fun j ↦ ?_
  simp only [List.getElem?_map, List.getElem?_set]
  split
  · subst j
    simp [h, hg, (List.getElem?_eq_some_iff.mp h).1]
  · rfl

theorem guardeds_begin (sys : System σ ε) (now : OffsetDateTime) :
    (begin R sys now).guardeds = sys.guardeds ++ [guarded R sys.service now] := by
  simp [begin, guardeds, Stream.start]

theorem forall_mem_set {P : Stream ε → Prop} {l : List (Stream ε)} {i : Nat} {st : Stream ε}
    (h : ∀ s ∈ l, P s) (hst : P st) : ∀ s ∈ l.set i st, P s := fun s hs ↦
  (List.mem_or_eq_of_mem_set hs).elim (h s) fun e ↦ e ▸ hst

/-- What a step other than a guarded block can do: it leaves the watermark alone, and it
leaves the streams alone or replaces one of them by one with the same guarded block, which
is coherent if the one it replaces was, and whose selection is the old one or drawn from
the mempool snapshot. -/
theorem step_cases (sys : System σ ε) {e : Event σ} (he : ∀ now, e ≠ .getStaleTxs now) :
    (step R writeBatchMax sys e).service.staleTxsExpiringAfter =
        sys.service.staleTxsExpiringAfter ∧
      ((step R writeBatchMax sys e).streams = sys.streams ∨
        ∃ i st st', sys.streams[i]? = some st ∧
          (step R writeBatchMax sys e).streams = sys.streams.set i st' ∧
          st'.guarded = st.guarded ∧
          (st.Coherent writeBatchMax → st'.Coherent writeBatchMax) ∧
          (st'.selected = st.selected ∨
            ∀ r ∈ st'.selected, r.txid ∈ sys.service.currentMempoolTxids.elems)) := by
  cases e with
  | getStaleTxs now => exact absurd rfl (he now)
  | readMempool i =>
    simp only [step, readMempool]
    split
    next _ st hst =>
      split
      next txs hp =>
        refine ⟨rfl, .inr ⟨i, st, _, hst, rfl, rfl, fun hc ↦ hc.readMempool hp _,
          .inr fun r hr ↦ ?_⟩⟩
        rw [txRecordsToUpdate_eq_filter] at hr
        simpa using (List.mem_filter.mp hr).2
      · exact ⟨rfl, .inl rfl⟩
    · exact ⟨rfl, .inl rfl⟩
  | updateExpiry i =>
    simp only [step, updateExpiry]
    split
    next _ st hst =>
      split
      next b bs hp =>
        exact ⟨rfl, .inr ⟨i, st, _, hst, rfl, rfl, fun hc ↦ hc.updateExpiry hp _, .inl rfl⟩⟩
      · exact ⟨rfl, .inl rfl⟩
    · exact ⟨rfl, .inl rfl⟩
  | drop i =>
    simp only [step, drop]
    split
    next _ st hst =>
      split
      · exact ⟨rfl, .inl rfl⟩
      · exact ⟨rfl, .inr ⟨i, st, _, hst, rfl, rfl, Stream.Coherent.drop, .inl rfl⟩⟩
    · exact ⟨rfl, .inl rfl⟩
  | setMempool m => exact ⟨rfl, .inl rfl⟩
  | writeRepo s => exact ⟨rfl, .inl rfl⟩

/-- Every step but a guarded block leaves the watermark and the ended blocks alone. -/
theorem step_frame (sys : System σ ε) {e : Event σ} (he : ∀ now, e ≠ .getStaleTxs now) :
    (step R writeBatchMax sys e).guardeds = sys.guardeds ∧
      (step R writeBatchMax sys e).service.staleTxsExpiringAfter =
        sys.service.staleTxsExpiringAfter := by
  obtain ⟨hw, hs | ⟨i, st, st', hst, hs, hg, -, -⟩⟩ := step_cases sys he
  · exact ⟨by rw [guardeds, hs, guardeds], hw⟩
  · exact ⟨by rw [guardeds, hs]; exact map_guarded_set hst hg, hw⟩

/-- A property of the watermark and the ended blocks that every guarded block keeps holds
after every run. -/
theorem run_induction (P : Option OffsetDateTime → List (Guarded ε) → Prop)
    (hbegin : ∀ (svc : Service σ) now gs, P svc.staleTxsExpiringAfter gs →
      P ((guarded R svc now).expiringAfter svc.staleTxsExpiringAfter) (gs ++ [guarded R svc now]))
    (sys : System σ ε) (h : P sys.service.staleTxsExpiringAfter sys.guardeds)
    (es : List (Event σ)) :
    P (run R writeBatchMax sys es).service.staleTxsExpiringAfter
      (run R writeBatchMax sys es).guardeds := by
  induction es generalizing sys with
  | nil => exact h
  | cons e es ih =>
    refine ih _ ?_
    by_cases hb : ∃ now, e = .getStaleTxs now
    · obtain ⟨now, rfl⟩ := hb
      rw [step, guardeds_begin]
      exact hbegin _ _ _ h
    · have hne : ∀ now, e ≠ .getStaleTxs now := fun now he ↦ hb ⟨now, he⟩
      rw [(step_frame sys hne).1, (step_frame sys hne).2]
      exact h

/-! ## The watermark stays ahead -/

/-- Every record the watermark was moved past expires before it. -/
def Behind (w : Option OffsetDateTime) (gs : List (Guarded ε)) : Prop :=
  ∀ g ∈ gs, ∀ r ∈ g.passed, ∃ t, w = some t ∧ r.expiringAt < t

/-- What `g` passed expires before anything the later block `g'` fetched. -/
def Older (g g' : Guarded ε) : Prop :=
  ∀ r ∈ g.passed, ∀ r' ∈ g'.txs, r.expiringAt < r'.expiringAt

/-- One guarded block keeps the watermark ahead of every record passed so far, and fetches
only records later than all of them. -/
theorem ahead_begin (hR : R.FetchesFrom) (svc : Service σ) (now : OffsetDateTime)
    {gs : List (Guarded ε)} (h : Behind svc.staleTxsExpiringAfter gs ∧ gs.Pairwise Older) :
    Behind ((guarded R svc now).expiringAfter svc.staleTxsExpiringAfter)
        (gs ++ [guarded R svc now]) ∧
      (gs ++ [guarded R svc now]).Pairwise Older := by
  obtain ⟨hbehind, hpair⟩ := h
  have hlater : ∀ g ∈ gs, Older g (guarded R svc now) := by
    intro g hg r hr r' hr'
    obtain ⟨t, ht, hlt⟩ := hbehind g hg r hr
    have hb := bound_le_of_mem_txs hR svc now hr'
    rw [ht, Option.getD_some] at hb
    exact lt_of_lt_of_le hlt hb
  refine ⟨?_, List.pairwise_append.mpr ⟨hpair, List.pairwise_singleton _ _,
    fun g hg g' hg' ↦ List.mem_singleton.mp hg' ▸ hlater g hg⟩⟩
  intro g hg r hr
  rcases List.mem_append.mp hg with hg | hg
  · obtain ⟨t, ht, hrt⟩ := hbehind g hg r hr
    obtain ⟨t', ht', hle⟩ := le_expiringAfter hR svc now ht
    exact ⟨t', ht', lt_of_lt_of_le hrt hle⟩
  · rw [List.mem_singleton.mp hg] at hr
    rcases guarded_expiringAfter R svc now with ⟨-, hp⟩ | ⟨u, hu, hp, -, hlt⟩
    · exact absurd (hp ▸ hr) (List.not_mem_nil r)
    · exact ⟨u, hu, hlt r (hp ▸ hr)⟩

/-- Along every run, the watermark is ahead of every record it was moved past, and each
block's passed records expire before anything a later block fetched. -/
theorem ahead_run (hR : R.FetchesFrom) (svc : Service σ) (es : List (Event σ)) :
    Behind (run R writeBatchMax (init svc) es).service.staleTxsExpiringAfter
        (run R writeBatchMax (init svc) es).guardeds ∧
      (run R writeBatchMax (init svc) es).guardeds.Pairwise Older :=
  run_induction (fun w gs ↦ Behind w gs ∧ gs.Pairwise Older)
    (fun svc now _ h ↦ ahead_begin hR svc now h) (init svc)
    ⟨fun _ hg ↦ absurd hg (List.not_mem_nil _), List.Pairwise.nil⟩ es

/-- Within the range no block panics, so every block passed all it fetched. -/
theorem passed_eq_txs_run (hR : R.FetchesWithin) (svc : Service σ) (es : List (Event σ)) :
    ∀ g ∈ (run R writeBatchMax (init svc) es).guardeds, g.passed = g.txs :=
  run_induction (fun _ gs ↦ ∀ g ∈ gs, g.passed = g.txs)
    (fun svc now _ h g hg ↦ (List.mem_append.mp hg).elim (h g)
      fun hg ↦ List.mem_singleton.mp hg ▸ passed_guarded hR svc now)
    (init svc) (fun _ hg ↦ absurd hg (List.not_mem_nil _)) es

/-- No step moves a set watermark back. -/
theorem watermark_le_step (hR : R.FetchesFrom) (sys : System σ ε) (e : Event σ)
    {t : OffsetDateTime} (ht : sys.service.staleTxsExpiringAfter = some t) :
    ∃ t', (step R writeBatchMax sys e).service.staleTxsExpiringAfter = some t' ∧ t ≤ t' := by
  by_cases hb : ∃ now, e = .getStaleTxs now
  · obtain ⟨now, rfl⟩ := hb
    exact le_expiringAfter hR sys.service now ht
  · exact ⟨t, (step_frame sys fun now he ↦ hb ⟨now, he⟩).2.trans ht, le_rfl⟩

/-- No run moves a set watermark back. -/
theorem watermark_le_run (hR : R.FetchesFrom) (sys : System σ ε) (es : List (Event σ))
    {t : OffsetDateTime} (ht : sys.service.staleTxsExpiringAfter = some t) :
    ∃ t', (run R writeBatchMax sys es).service.staleTxsExpiringAfter = some t' ∧ t ≤ t' := by
  induction es generalizing sys t with
  | nil => exact ⟨t, ht, le_rfl⟩
  | cons e es ih =>
    obtain ⟨t₁, h₁, hle₁⟩ := watermark_le_step hR sys e ht
    obtain ⟨t₂, h₂, hle₂⟩ := ih _ h₁
    exact ⟨t₂, h₂, hle₁.trans hle₂⟩

/-! ## Every stream stays coherent -/

/-- Every step keeps every stream coherent. -/
theorem coherent_step (sys : System σ ε) (h : ∀ st ∈ sys.streams, st.Coherent writeBatchMax)
    (e : Event σ) : ∀ st ∈ (step R writeBatchMax sys e).streams, st.Coherent writeBatchMax := by
  by_cases hb : ∃ now, e = .getStaleTxs now
  · obtain ⟨now, rfl⟩ := hb
    intro st hst
    rcases List.mem_append.mp hst with hst | hst
    · exact h st hst
    · exact List.mem_singleton.mp hst ▸ Stream.coherent_start _
  · obtain ⟨-, hs | ⟨i, st, st', hst, hs, -, hc, -⟩⟩ :=
      step_cases sys fun now he ↦ hb ⟨now, he⟩
    · exact hs ▸ h
    · exact hs ▸ forall_mem_set h (hc (h st (List.getElem?_mem hst)))

/-- Along every run, every stream is coherent. -/
theorem coherent_run (sys : System σ ε) (h : ∀ st ∈ sys.streams, st.Coherent writeBatchMax)
    (es : List (Event σ)) :
    ∀ st ∈ (run R writeBatchMax sys es).streams, st.Coherent writeBatchMax := by
  induction es generalizing sys with
  | nil => exact h
  | cons e es ih => exact ih _ (coherent_step sys h e)

variable (writeBatchMax) in
/-- Along every run from the start, every stream is coherent, and what a stream passed
expires before anything a later stream fetched. -/
theorem streams_run (hR : R.FetchesFrom) (svc : Service σ) (es : List (Event σ)) :
    (∀ st ∈ (run R writeBatchMax (init svc) es).streams, st.Coherent writeBatchMax) ∧
      (run R writeBatchMax (init svc) es).streams.Pairwise fun st st' ↦
        Older st.guarded st'.guarded :=
  ⟨coherent_run (init svc) (fun _ h ↦ absurd h (List.not_mem_nil _)) es,
    List.pairwise_map.mp (ahead_run hR svc es).2⟩

end System

end Bitkey.MempoolIndexer
