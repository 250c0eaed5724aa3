import ConfigManager.Library.LabelledTree
import ConfigManager.Library.TreePaths
import ConfigManager.Library.TreeEdits
import ConfigManager.Library.TreeWrites
import ConfigManager.Library.TreeFrames
import ConfigManager.Library.TreeLeaves
import ConfigManager.Library.TreeMerge
import ConfigManager.Library.LeafMap
import ConfigManager.Library.TreeAssignments
import ConfigManager.Library.TreeSections
import ConfigManager.Library.FreeList
import ConfigManager.Library.Consecutive
import ConfigManager.Library.Ranking
import ConfigManager.Library.Judging
import ConfigManager.Library.Recency
import ConfigManager.Library.PlaceNames
import ConfigManager.Library.Utf8
import ConfigManager.Library.CountedScan
import ConfigManager.Library.Throwing
import ConfigManager.Library.Resumption
import ConfigManager.Library.Interleaving
import ConfigManager.Library.FloatFormat
import ConfigManager.Library.PositionIndex
import ConfigManager.Source.Result
import ConfigManager.Source.ConfigValue
import ConfigManager.Source.ValueBuilding
import ConfigManager.Source.ConfigPath
import ConfigManager.Source.NodeArena
import ConfigManager.Source.ConfigModel
import ConfigManager.Source.Unwinding
import ConfigManager.Source.ScalarConversion
import ConfigManager.Source.FloatingConversion
import ConfigManager.Source.VersionCatalog
import ConfigManager.Source.MigrationRegistry
import ConfigManager.Source.MigrationEngine
import ConfigManager.Source.ConfigRuntime
import ConfigManager.Source.Boundary
import ConfigManager.Source.JsonInterface
import ConfigManager.Source.XmlText
import ConfigManager.Source.XmlInterface
import ConfigManager.Source.XmlBuilding
import ConfigManager.Source.FsPath
import ConfigManager.Source.FileSystem
import ConfigManager.Source.CheckpointStore
import ConfigManager.Reference.ConfigTree
import ConfigManager.Reference.PathGrammar
import ConfigManager.Reference.JsonText
import ConfigManager.Reference.XmlDocument
import ConfigManager.Reference.XmlCharacters
import ConfigManager.Reference.JsonDocument
import ConfigManager.Reference.JsonLiterals
import ConfigManager.Reference.XmlMeaning
import ConfigManager.Reference.XmlFragment
import ConfigManager.Reference.Disk
import ConfigManager.Reference.SharedDisk
import ConfigManager.Reference.Volume
import ConfigManager.Refinement.ValueBuilding
import ConfigManager.Refinement.ArenaSlots
import ConfigManager.Refinement.Representation
import ConfigManager.Refinement.BuildFree
import ConfigManager.Refinement.AnchoredEdits
import ConfigManager.Refinement.PlannedWrites
import ConfigManager.Refinement.ModelOperations
import ConfigManager.Refinement.ModelRuns
import ConfigManager.Refinement.StorageGrowth
import ConfigManager.Refinement.UnwoundWrites
import ConfigManager.Refinement.Handles
import ConfigManager.Refinement.IntegerConversions
import ConfigManager.Refinement.FloatingConversions
import ConfigManager.Refinement.PathScanning
import ConfigManager.Refinement.KeyPaths
import ConfigManager.Refinement.Repair
import ConfigManager.Refinement.MigrationWalk
import ConfigManager.Refinement.Registrations
import ConfigManager.Refinement.Synchronization
import ConfigManager.Refinement.Restructuring
import ConfigManager.Refinement.Walks
import ConfigManager.Refinement.JsonEncoding
import ConfigManager.Refinement.JsonDecoding
import ConfigManager.Refinement.Utf8Decoding
import ConfigManager.Refinement.XmlEncoding
import ConfigManager.Refinement.XmlBuilding
import ConfigManager.Refinement.XmlDecoding
import ConfigManager.Refinement.JsonReading
import ConfigManager.Refinement.JsonScanning
import ConfigManager.Refinement.JsonConditions
import ConfigManager.Refinement.XmlReading
import ConfigManager.Refinement.XmlLiterals
import ConfigManager.Refinement.XmlConversion
import ConfigManager.Refinement.XmlDocuments
import ConfigManager.Refinement.XmlFormatting
import ConfigManager.Refinement.StoredConfigs
import ConfigManager.Refinement.TemporaryFiles
import ConfigManager.Refinement.WriterStages
import ConfigManager.Refinement.WriterTurns
import ConfigManager.Refinement.CheckpointNames
import ConfigManager.Refinement.CheckpointReading
import ConfigManager.Refinement.UnfailingCalls
import ConfigManager.Refinement.StatelessCallbacks
import ConfigManager.Refinement.CheckpointSelection
import ConfigManager.Refinement.CheckpointPruning
import ConfigManager.Refinement.CheckpointHistory
import ConfigManager.Refinement.AdditionalEntry
import ConfigManager.Refinement.CallFrames
import ConfigManager.Refinement.VolumeLookups
import ConfigManager.Refinement.VolumeCalls
import ConfigManager.Refinement.CallInvariants
import ConfigManager.Refinement.FormatConversion
import ConfigManager.Programs.FirmwareRollback
import ConfigManager.Programs.FirmwarePhases
import ConfigManager.Programs.ApplicationLaunch
import ConfigManager.Programs.KeyMoves
import ConfigManager.Programs.MovedKeys
import ConfigManager.Programs.MovingPrograms
import ConfigManager.Programs.Relaygate
import ConfigManager.Guarantees.ModelRefinement
import ConfigManager.Guarantees.ArenaInvariant
import ConfigManager.Guarantees.FailedAllocations
import ConfigManager.Guarantees.HandleValidity
import ConfigManager.Guarantees.RepairMerges
import ConfigManager.Guarantees.Synchronization
import ConfigManager.Guarantees.JsonAcceptance
import ConfigManager.Guarantees.JsonRoundTrip
import ConfigManager.Guarantees.XmlAcceptance
import ConfigManager.Guarantees.TrailingText
import ConfigManager.Guarantees.CharacterData
import ConfigManager.Guarantees.XmlRoundTrip
import ConfigManager.Guarantees.StarvedSaves
import ConfigManager.Guarantees.LoadSave
import ConfigManager.Guarantees.DirectMigration
import ConfigManager.Guarantees.CheckpointNaming
import ConfigManager.Guarantees.CheckpointAtomicity
import ConfigManager.Guarantees.CommittedCapture
import ConfigManager.Guarantees.CheckpointRestore
import ConfigManager.Guarantees.CheckpointPrune
import ConfigManager.Guarantees.BadEntries
import ConfigManager.Guarantees.CheckpointLifecycle
import ConfigManager.Guarantees.CanonicalFile
import ConfigManager.Guarantees.RuntimeCreation
import ConfigManager.Guarantees.PathParsing
import ConfigManager.Guarantees.TextEncoding
import ConfigManager.Guarantees.IntegerReads
import ConfigManager.Guarantees.FloatingReads
import ConfigManager.Guarantees.LoaderResources
import ConfigManager.Guarantees.ValueBuilder
import ConfigManager.Guarantees.RepairedPaths
import ConfigManager.Guarantees.WriteOrder
import ConfigManager.Guarantees.Assignments
import ConfigManager.Guarantees.StorageBound
import ConfigManager.Guarantees.Renaming
import ConfigManager.Guarantees.FirmwareUpgrade
import ConfigManager.Guarantees.FirmwareRestore
import ConfigManager.Guarantees.FirmwareHistory
import ConfigManager.Guarantees.ConcurrentWriters
import ConfigManager.Guarantees.Relaunch
import ConfigManager.Guarantees.FormatConversion
import ConfigManager.Guarantees.MovedUpgrades
import ConfigManager.Guarantees.RelaygateMigrations
import ConfigManager.Guarantees.RelaygateUpgrade
