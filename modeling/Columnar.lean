import Columnar.Bitmap.Lemmas
import Columnar.Cache.KeyColumns
import Columnar.Cache.RowSum
import Columnar.Chunk.Builder
import Columnar.Hash.Folding
import Columnar.Index.Operation
import Columnar.Index.Read
import Columnar.Json.DataType
import Columnar.Json.Options
import Columnar.Json.Standard
import Columnar.Proofs.OffsetTable
import Columnar.Proofs.WellFormed
import Columnar.Proofs.Locate
import Columnar.Proofs.Results
import Columnar.Proofs.Growth
import Columnar.Proofs.Reachable
import Columnar.Proofs.Merge
import Columnar.Proofs.CopyBlock
import Columnar.Proofs.KeyLists
import Columnar.Proofs.Bitmap
import Columnar.Proofs.CacheFlags
import Columnar.Proofs.Routing
import Columnar.Proofs.CachedReads
import Columnar.Proofs.Address
import Columnar.Proofs.Cells
import Columnar.Proofs.Reads
import Columnar.Proofs.Bounds
import Columnar.Proofs.AddressOrder
import Columnar.Proofs.TextCells
import Columnar.Proofs.Built
import Columnar.Proofs.CellKeys
import Columnar.Proofs.Cleared
import Columnar.Proofs.FailedCopies
import Columnar.Proofs.Extension
import Columnar.Proofs.BitList
import Columnar.Proofs.ReadBack
import Columnar.Proofs.RowStops
import Columnar.Proofs.CacheStages
import Columnar.Proofs.AddressCodec
import Columnar.Proofs.BitWrites
import Columnar.Proofs.NullPayloads
import Columnar.Proofs.KeySchema
import Columnar.Proofs.KeyCopies
import Columnar.Proofs.AppendedRows
import Columnar.Proofs.MergeGrouping
import Columnar.Proofs.Gathering
import Columnar.Proofs.CopyOrder
import Columnar.Proofs.LocateBatch
import Columnar.Proofs.BufferRoom
import Columnar.Proofs.Bookkeeping
import Columnar.Proofs.CacheSize
import Columnar.Proofs.Canonical
import Columnar.Proofs.RangeCopy
import Columnar.Proofs.BlockSize
import Columnar.Proofs.JsonTokens
import Columnar.Proofs.JsonGrammar
import Columnar.Proofs.RecordText
import Columnar.Proofs.StandardCodec
import Columnar.Proofs.OptionsText
