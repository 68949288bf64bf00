import Bitkey.Time
import Bitkey.Collections
import Bitkey.MempoolIndexer.GetStaleTxs
import Bitkey.MempoolIndexer.Streams
import Bitkey.MempoolIndexer.Watermark
import Bitkey.MempoolIndexer.Refinement
import Bitkey.MempoolIndexer.Delivery
import Bitkey.MempoolIndexer.Persist
import Bitkey.Recovery
import Bitkey.Wca
