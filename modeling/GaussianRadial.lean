import GaussianRadial.FileStore
import GaussianRadial.Main
import GaussianRadial.Proofs.Acceptance
import GaussianRadial.Proofs.AcceptedJobs
import GaussianRadial.Proofs.AllOrNothing
import GaussianRadial.Proofs.AppendOnly
import GaussianRadial.Proofs.AuxiliaryCache
import GaussianRadial.Proofs.Blocks
import GaussianRadial.Proofs.Comments
import GaussianRadial.Proofs.ExtendedReals
import GaussianRadial.Proofs.FileContents
import GaussianRadial.Proofs.FileItems
import GaussianRadial.Proofs.GridValidation
import GaussianRadial.Proofs.InnerMonotone
import GaussianRadial.Proofs.Layout
import GaussianRadial.Proofs.LetterCase
import GaussianRadial.Proofs.OuterIntegral
import GaussianRadial.Proofs.PlainTokens
import GaussianRadial.Proofs.RoundTrip
import GaussianRadial.Proofs.RowsAndSums
import GaussianRadial.Proofs.Runs
import GaussianRadial.Proofs.Scaling
import GaussianRadial.Proofs.SectionOrder
import GaussianRadial.Proofs.Spelling
import GaussianRadial.Proofs.Switchover
import GaussianRadial.Proofs.UnusedOptions
import GaussianRadial.Proofs.WellFormedGrids
import GaussianRadial.Proofs.FullRangeLimits
import GaussianRadial.Proofs.AtomicRuns
import GaussianRadial.Proofs.GridSpacing
import GaussianRadial.Proofs.OuterMonotone
import GaussianRadial.Proofs.ExponentCount
import GaussianRadial.Proofs.ReaderHistory
import GaussianRadial.Proofs.RequestFaults
import GaussianRadial.Proofs.NumberLists
import GaussianRadial.Proofs.UntouchedFiles
import GaussianRadial.Proofs.DecimalDigits
import GaussianRadial.Proofs.NumberTexts
import GaussianRadial.Proofs.AlignedTables
import GaussianRadial.Proofs.ReportData
import GaussianRadial.Word
import GaussianRadial.WordIntegrals
import GaussianRadial.Proofs.DoubleProducts
import GaussianRadial.Proofs.WordLoops
import GaussianRadial.Proofs.WordSeries
import GaussianRadial.Proofs.WordRanges
import GaussianRadial.Proofs.SeriesConvergence
import GaussianRadial.Proofs.SeriesTruncation
import GaussianRadial.Proofs.FactorialUses
