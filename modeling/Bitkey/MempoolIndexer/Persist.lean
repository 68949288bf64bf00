import Bitkey.MempoolIndexer.GetStaleTxs

/-!
# `MempoolIndexerRepository::persist_batch`

The indexer's other writer of its table.  `persist_batch` turns every record into a write
request before it writes anything: collecting into a `Result` stops at the first record
that cannot be turned into one, and by then nothing has been written.  Only when every
record has its request are they handed, one per record and in order, to
`PersistBatchTrait::persist`.

The table's name, the conversion of one record (`try_to_item`, then `PutRequest::build`)
and `persist` live outside this development, so they are the fields of `Persistence`.
-/

namespace Bitkey.MempoolIndexer

variable {σ ε ρ : Type}

section mapM

variable {α β : Type} {f : α → Except ε β}

end mapM

/-! ## What `persist_batch` writes -/

end Bitkey.MempoolIndexer
