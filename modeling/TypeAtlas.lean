import TypeAtlas.Analysis.PackageResults
import TypeAtlas.Concurrency.Join
import TypeAtlas.Concurrency.Limiter
import TypeAtlas.Concurrency.RoundResults
import TypeAtlas.Main
import TypeAtlas.Proofs.Analysis.Orphans
import TypeAtlas.Proofs.Analysis.Progress
import TypeAtlas.Proofs.Analysis.Schedules
import TypeAtlas.Proofs.Config.KeyOrder
import TypeAtlas.Proofs.Config.NamedFiles
import TypeAtlas.Proofs.Config.Numerals
import TypeAtlas.Proofs.Java.DependencySet
import TypeAtlas.Proofs.Java.Rejections
import TypeAtlas.Proofs.Slots.Runs
import TypeAtlas.Proofs.Java.Exclusions
import TypeAtlas.Proofs.Report.Lossless
import TypeAtlas.Proofs.Report.Outline
import TypeAtlas.Proofs.Analysis.DistinctNames
import TypeAtlas.Proofs.Analysis.Naming
import TypeAtlas.Proofs.Analysis.Additions
import TypeAtlas.Proofs.Command.Failures
import TypeAtlas.Proofs.Java.Programs.Extraction
import TypeAtlas.Proofs.Join.Waiting
import TypeAtlas.Proofs.Java.UniqueReading
import TypeAtlas.Proofs.Analysis.EntryPoint
import TypeAtlas.Proofs.Analysis.Subpackages
import TypeAtlas.Proofs.Java.Composition
import TypeAtlas.Proofs.Analysis.Spellings
import TypeAtlas.Proofs.Analysis.LineEnds
import TypeAtlas.Proofs.Command.Endings
import TypeAtlas.Proofs.Report.Readings
import TypeAtlas.Proofs.Slots.Overlaps
import TypeAtlas.Proofs.Analysis.Closing
import TypeAtlas.Proofs.Join.LostFailures
