import ForSt.Util.HeapSpec
import ForSt.Log.Agreement
import ForSt.Db.DbformatSpec
import ForSt.Db.WriteBatchAppendSpec
import ForSt.Utilities.MergeOperatorsSpec
import ForSt.Db.MemTableInserterSpec
import ForSt.Db.Compaction.CompactionIteratorSpec
import ForSt.Db.VersionEditHandlerSpec
import ForSt.Db.ExternalSstFileIngestionJobSpec
import ForSt.Db.RangeTombstoneFragmenterCompaction
import ForSt.Db.RangeTombstoneIteratorSpec
import ForSt.Table.IndexBuilderSpec
import ForSt.Utilities.Transactions.PointLockManagerSpec
import ForSt.Utilities.Transactions.DeadlockDetectionSpec
import ForSt.Utilities.Transactions.PointLockTrackerSpec
import ForSt.Utilities.Transactions.WritePreparedTxnDbSpec
import ForSt.Utilities.Transactions.PreparedHeapSpec
import ForSt.Db.FilePickerSpec
import ForSt.Log.FragmentBufferedReader
import ForSt.Utilities.Flink.FlinkCompactionFilterSpec
import ForSt.Table.BlockSeekSpec
import ForSt.Table.DataBlockHashIndexSpec
import ForSt.Table.FormatSpec
import ForSt.Table.UniqueIdSpec
import ForSt.Db.Compaction.CompactionSpec
import ForSt.Db.SeqnoToTimeMappingEncodeSpec
import ForSt.Db.SeqnoToTimeMappingAppendSpec
import ForSt.Db.Wide.WideColumnSerializationSpec
import ForSt.Db.OverlappingInputsSpec
import ForSt.Table.FilterPolicySpec
