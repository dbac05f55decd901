import ParameterLog.Bytes.Blake3
import ParameterLog.Bytes.Hex
import ParameterLog.Json.Printer
import ParameterLog.Json.Skip
import ParameterLog.Event
import ParameterLog.Frame.Delivery
import ParameterLog.Assembly
import ParameterLog.Catalog
import ParameterLog.FileStore
import ParameterLog.Disk
import ParameterLog.StoreConfig
import ParameterLog.Store
import ParameterLog.Inspect.Report
import ParameterLog.Main
import ParameterLog.Proofs.OneWinner
import ParameterLog.Proofs.AbandonedWrites
import ParameterLog.Proofs.ReadingTimes
import ParameterLog.Proofs.CatalogChanges
import ParameterLog.Proofs.PieceReading
import ParameterLog.Proofs.ShortestDecimals
import ParameterLog.Proofs.JsonEcho
import ParameterLog.Proofs.RecordReading
import ParameterLog.Proofs.Sameness
import ParameterLog.Proofs.SoleWriter
import ParameterLog.Proofs.Refinement
import ParameterLog.Proofs.Channel
import ParameterLog.Proofs.FirstRecords
import ParameterLog.Proofs.CleanSaves
import ParameterLog.Proofs.DurableSaves
import ParameterLog.Proofs.PendingGroups
import ParameterLog.Proofs.DamagedFrames
import ParameterLog.Proofs.SuccessivePasses
import ParameterLog.Proofs.Mixtures
import ParameterLog.Proofs.FrameFields
import ParameterLog.Proofs.FrameStream
import ParameterLog.Proofs.FrameArrival
import ParameterLog.Proofs.ExactSplitting
import ParameterLog.Proofs.TruncationMark
import ParameterLog.Proofs.EntryForms
import ParameterLog.Proofs.MemberHashes
import ParameterLog.Proofs.SetRevisions
import ParameterLog.Proofs.FaithfulRecords
import ParameterLog.Proofs.Marks
import ParameterLog.Proofs.Deletes
