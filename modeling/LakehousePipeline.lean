import LakehousePipeline.Library.Window
import LakehousePipeline.Library.Timeline
import LakehousePipeline.Library.Relational
import LakehousePipeline.Library.MergeInto
import LakehousePipeline.Library.LastWriterWins
import LakehousePipeline.Library.Allocation
import LakehousePipeline.Library.Runs
import LakehousePipeline.Library.TransactionalAppend
import LakehousePipeline.Library.Checks
import LakehousePipeline.Library.Dictionaries
import LakehousePipeline.Library.Json
import LakehousePipeline.Library.JsonText
import LakehousePipeline.Library.JoinedText
import LakehousePipeline.Library.ThreeValued
import LakehousePipeline.Library.SqlCondition
import LakehousePipeline.Spark
import LakehousePipeline.Contracts
import LakehousePipeline.Adapters.Upsert
import LakehousePipeline.Control.CloudLock
import LakehousePipeline.Silver.CurrentState
import LakehousePipeline.Silver.Convergence
import LakehousePipeline.Silver.ChangeHistory
import LakehousePipeline.Silver.Lake
import LakehousePipeline.Gold.Scd2Replay
import LakehousePipeline.Gold.Scd2Versions
import LakehousePipeline.Gold.Scd2AsOf
import LakehousePipeline.Gold.Scd2Dimensions
import LakehousePipeline.Gold.Dimensions
import LakehousePipeline.Gold.FactSales
import LakehousePipeline.Gold.FactJoins
import LakehousePipeline.Gold.FactKeys
import LakehousePipeline.Gold.FactLocality
import LakehousePipeline.Gold.FactMoney
import LakehousePipeline.Gold.Tables
import LakehousePipeline.Gold.Quality
import LakehousePipeline.Gold.Changes
import LakehousePipeline.Gold.FactIncremental
import LakehousePipeline.Gold.Builder
import LakehousePipeline.Gold.Releases
import LakehousePipeline.Gold.ReleaseContent
import LakehousePipeline.Gold.AcceptedRows
import LakehousePipeline.Gold.ReferentialClosure
import LakehousePipeline.Library.TableLog
import LakehousePipeline.Streaming.TypedBronze
import LakehousePipeline.Streaming.Readiness
import LakehousePipeline.Streaming.SourceOrder
import LakehousePipeline.Gold.AmountBounds
import LakehousePipeline.Gold.Scd2Gate
import LakehousePipeline.Gold.Progress
import LakehousePipeline.Gold.RecordedVersions
import LakehousePipeline.Control.GoldReconcileQueue
import LakehousePipeline.Streaming.UnifiedSilver
import LakehousePipeline.Silver.HeldEvent
import LakehousePipeline.Gold.CurrentRows
import LakehousePipeline.Ingestion.BatchBronze
import LakehousePipeline.Jobs.RunBatch
import LakehousePipeline.Gold.AcceptedVersions
import LakehousePipeline.Gold.Scd2Redelivery
import LakehousePipeline.Gold.Scd2Keys
import LakehousePipeline.Silver.SnapshotEquality
import LakehousePipeline.Jobs.FullRebuild
import LakehousePipeline.Ingestion.ExtractToBronze
import LakehousePipeline.Ingestion.BronzeStage
import LakehousePipeline.Gold.HistoryTimelines
import LakehousePipeline.Gold.Scd2Instants
import LakehousePipeline.Gold.ProductJoin
import LakehousePipeline.Gold.CompositeOrder
import LakehousePipeline.Gold.CategoryJoin
import LakehousePipeline.Gold.CategoryReplay
import LakehousePipeline.Gold.ScopedReplay
import LakehousePipeline.Gold.ProductScope
import LakehousePipeline.Gold.CategoryScope
import LakehousePipeline.Gold.EchoedEvents
import LakehousePipeline.Gold.ReplayTrigger
import LakehousePipeline.Library.ChangeFeed
import LakehousePipeline.Silver.ChangeFeed
import LakehousePipeline.Gold.SubstantiveChanges
import LakehousePipeline.Adapters.ScopedReplacement
import LakehousePipeline.Gold.FullBuildClosure
import LakehousePipeline.Streaming.ReadyScopes
import LakehousePipeline.Ingestion.SourceRegression
import LakehousePipeline.Jobs.SilverProgress
import LakehousePipeline.Jobs.HistoryOnce
import LakehousePipeline.Streaming.CdcDecoder
import LakehousePipeline.Streaming.ComparableEvents
import LakehousePipeline.Config.Lakehouse
import LakehousePipeline.Config.TableReferences
import LakehousePipeline.Gold.NaturalHash
import LakehousePipeline.Control.Manifests
import LakehousePipeline.Adapters.NewerCondition
import LakehousePipeline.Silver.CollapsedMerge
import LakehousePipeline.Library.RowLog
import LakehousePipeline.Source.ChangeCapture
import LakehousePipeline.Source.SilverMirror
import LakehousePipeline.Silver.Cleaning
import LakehousePipeline.Jobs.Validation
import LakehousePipeline.Control.GoldReleases
import LakehousePipeline.Gold.StoredReleases
import LakehousePipeline.Library.KeyedTables
import LakehousePipeline.Generator.Database
import LakehousePipeline.Generator.Orders
import LakehousePipeline.Generator.ChangeEvents
import LakehousePipeline.Generator.InsertedOrders
import LakehousePipeline.Generator.Soundness
import LakehousePipeline.Generator.SoundChanges
import LakehousePipeline.Generator.Scenarios
import LakehousePipeline.Generator.StreamedOrders
import LakehousePipeline.Gold.GeneratedFacts
import LakehousePipeline.Streaming.QueueDrain
