import Daisy.Library.Runs
import Daisy.Library.Indexes
import Daisy.Storages.MergeTree.SequenceInfo
import Daisy.Storages.MergeTree.MissingRanges
import Daisy.Storages.MergeTree.MissingRangesGroups
import Daisy.Storages.MergeTree.MissingRangesCorrect
import Daisy.Library.Split
import Daisy.IO.Text
import Daisy.Storages.MergeTree.SequenceInfoText
import Daisy.Library.InOrder
import Daisy.Storages.DistributedMergeTree.Sequences
import Daisy.Storages.DistributedMergeTree.SequencesCorrect
import Daisy.Storages.DistributedMergeTree.Recovery
import Daisy.Library.Codes
import Daisy.DistributedWriteAheadLog.Names
import Daisy.IO.Binary
import Daisy.DataStreams.Native
import Daisy.DataTypes.Serializations
import Daisy.Library.Frames
import Daisy.Contrib.CityHash
import Daisy.Compression.CompressionFactory
import Daisy.Compression.CompressedBuffers
import Daisy.DistributedWriteAheadLog.Record
import Daisy.Library.Loops
import Daisy.DistributedMetadata.CatalogService
import Daisy.DistributedMetadata.CatalogIndexes
import Daisy.DistributedMetadata.CatalogConsistent
import Daisy.Contrib.Libdivide
import Daisy.Interpreters.BlockSelector
import Daisy.Storages.DistributedMergeTree.Sharding
import Daisy.Library.Grouping
import Daisy.Interpreters.Cluster
import Daisy.DistributedMetadata.TableCluster
import Daisy.Parsers.Lexer
import Daisy.Server.RestRouterHandlers
import Daisy.Library.Faults
import Daisy.Common.SimpleJSON
import Daisy.Server.JSONHelper
import Daisy.DistributedMetadata.TaskStatusService
import Daisy.Coordination.SnapshotableHashTable
import Daisy.Coordination.SnapshotableIndex
import Daisy.Coordination.SessionExpiryQueue
import Daisy.Coordination.KeeperStorage
import Daisy.Coordination.KeeperSnapshotManager
import Daisy.Common.SipHash
import Daisy.Coordination.Changelog
import Daisy.Coordination.ChangelogPack
import Daisy.Compression.ICompressionCodec
import Daisy.Compression.CompressionCodecDoubleDelta
import Daisy.Compression.CompressionCodecGorilla
import Daisy.Compression.CompressionCodecT64
import Daisy.IO.ReadIntText
import Daisy.Storages.MergeTree.MergeTreePartInfo
import Daisy.Compression.CompressionCodecDelta
import Daisy.Library.Bits
import Daisy.IO.BitStream
import Daisy.Compression.CompressionCodecDoubleDeltaCorrect
import Daisy.Compression.CompressionCodecGorillaCorrect
import Daisy.Compression.CompressionCodecT64Correct
import Daisy.Compression.CompressionCodecMultiple
import Daisy.Storages.DistributedMergeTree.StorageDistributedMergeTree
import Daisy.Storages.DistributedMergeTree.RecoveryCorrect
import Daisy.Storages.MergeTree.SequenceInfoMerge
import Daisy.Storages.MergeTree.ActiveDataPartSet
import Daisy.Storages.MergeTree.ActiveDataPartSetInvariant
import Daisy.Storages.MergeTree.MergeTreeData
import Daisy.Storages.MergeTree.MergeTreeDeduplicationLog
import Daisy.Common.HashTable.HashTable
import Daisy.Library.LinearProbing
import Daisy.Common.HashTable.Invariant
import Daisy.Interpreters.QueryStatusPollId
import Daisy.Storages.DistributedMergeTree.IngestingBlocks
import Daisy.DistributedMetadata.CatalogBuild
import Daisy.Interpreters.AddTimeParamVisitor
import Daisy.Processors.Formats.JSONCompactEachRow
import Daisy.Processors.Formats.RawStore
import Daisy.Storages.DistributedMergeTree.IdempotentKeys
import Daisy.DistributedMetadata.PlacementStrategy
import Daisy.Common.HashTable.Erase
import Daisy.Common.HashTable.Resize
import Daisy.Common.HashTable.Map
