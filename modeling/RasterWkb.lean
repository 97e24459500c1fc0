import RasterWkb.Build
import RasterWkb.SampleArray
import RasterWkb.Session
import RasterWkb.Settings.Session
import RasterWkb.View
import RasterWkb.Proofs.HeaderBytes
import RasterWkb.Proofs.Outcomes
import RasterWkb.Proofs.WholeRecords
import RasterWkb.Proofs.SampleBytes
import RasterWkb.Proofs.RoundTrip
import RasterWkb.Proofs.Rebuild
import RasterWkb.Proofs.ConsumedPrefix
import RasterWkb.Proofs.StayingWalk
import RasterWkb.Proofs.PartingModes
import RasterWkb.Proofs.SparedBytes
import RasterWkb.Proofs.EitherOrder
import RasterWkb.Proofs.CursorRuns
import RasterWkb.Proofs.ReaderRuns
import RasterWkb.Proofs.LogLines
import RasterWkb.Proofs.HeaderRoundTrip
import RasterWkb.Proofs.SettingsHistory
import RasterWkb.Proofs.OverlookedSamples
import RasterWkb.Proofs.SpelledBytes
import RasterWkb.Proofs.PaintingWalk
import RasterWkb.Proofs.PaintedChannels
import RasterWkb.Proofs.BuiltLayout
import RasterWkb.Proofs.StridedViews
