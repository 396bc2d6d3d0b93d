import ManiaChart.Binary64.Arithmetic
import ManiaChart.Binary64.Interchange
import ManiaChart.Binary64.Decimal
import ManiaChart.Text.Blank
import ManiaChart.Text.Shape
import ManiaChart.Text.Located
import ManiaChart.Text.Numeral
import ManiaChart.Beatmap.Basic
import ManiaChart.Beatmap.Problem
import ManiaChart.Beatmap.Line
import ManiaChart.Beatmap.Field
import ManiaChart.Beatmap.Record
import ManiaChart.Beatmap.Entry
import ManiaChart.Beatmap.Cursor
import ManiaChart.Beatmap.Reading
import ManiaChart.Timing.Lookup
import ManiaChart.Timing.Point
import ManiaChart.Timing.Basic
import ManiaChart.Timing.MeasureLine
import ManiaChart.Timing.Keyed
import ManiaChart.Chart.Mode
import ManiaChart.Chart.Note
import ManiaChart.Chart.Timeline
import ManiaChart.Chart.Basic
import ManiaChart.Chart.Draft
import ManiaChart.Chart.LaneLayout
import ManiaChart.Conversion.Refusal
import ManiaChart.Conversion.Media
import ManiaChart.Conversion.Placement
import ManiaChart.Conversion.Stroke
import ManiaChart.Conversion.Plan
import ManiaChart.Digest.BlockHash
import ManiaChart.Digest.Md5
import ManiaChart.Digest.Sha256
import ManiaChart.Digest.Fingerprint
import ManiaChart.Encoding.JisRows
import ManiaChart.Encoding.Decoder
import ManiaChart.Encoding.Utf8
import ManiaChart.Encoding.Utf16
import ManiaChart.Encoding.ShiftJis
import ManiaChart.Encoding.Basic
import ManiaChart.Source.Reader
import ManiaChart.Source.Buffered
import ManiaChart.Source.Loading
import ManiaChart.Beatmap.Report
import ManiaChart.Proofs.Chart.Writing
import ManiaChart.Proofs.Conversion.Drawing
import ManiaChart.Proofs.Timing.Lookup
import ManiaChart.Proofs.Conversion.Planning
import ManiaChart.Proofs.Conversion.LastWriter
import ManiaChart.Proofs.Conversion.Milliseconds
import ManiaChart.Proofs.Chart.Storing
import ManiaChart.Proofs.Conversion.Cells
import ManiaChart.Proofs.Conversion.LongNotes
import ManiaChart.Proofs.Conversion.ActiveTempo
import ManiaChart.Proofs.Conversion.LaneNotes
import ManiaChart.Proofs.Conversion.SoundNotes
import ManiaChart.Proofs.Timing.StableOrder
import ManiaChart.Proofs.Conversion.Objects
import ManiaChart.Proofs.Conversion.Accounting
import ManiaChart.Proofs.Conversion.Alike
import ManiaChart.Proofs.Conversion.Skipping
import ManiaChart.Proofs.Binary64.Exact
import ManiaChart.Proofs.Timing.MeasurePosition
import ManiaChart.Proofs.Chart.Counting
import ManiaChart.Proofs.Conversion.Winners
import ManiaChart.Proofs.Conversion.MediaFiles
import ManiaChart.Proofs.Chart.Renumbering
import ManiaChart.Proofs.Conversion.Reordering
import ManiaChart.Proofs.Binary64.Order
import ManiaChart.Proofs.Binary64.Quotients
import ManiaChart.Proofs.Timing.MeasureSum
import ManiaChart.Proofs.Timing.MeasureOrder
import ManiaChart.Proofs.Timing.MeasureGrowth
import ManiaChart.Proofs.Beatmap.Range
import ManiaChart.Proofs.Beatmap.Lines
import ManiaChart.Proofs.Beatmap.Scanning
import ManiaChart.Proofs.Beatmap.Rereading
import ManiaChart.Proofs.Beatmap.Meaning
import ManiaChart.Proofs.Conversion.TimeRange
import ManiaChart.Proofs.Conversion.MeasureAscent
import ManiaChart.Proofs.Conversion.WholeNumbers
import ManiaChart.Proofs.Chart.Pairing
import ManiaChart.Proofs.Chart.Coherence
import ManiaChart.Proofs.Timing.Parting
import ManiaChart.Proofs.Timing.SkippedPoints
import ManiaChart.Proofs.Timing.SeriesMeaning
import ManiaChart.Proofs.Timing.LastStretch
import ManiaChart.Proofs.Source.Streaming
import ManiaChart.Proofs.Chart.Placing
import ManiaChart.Proofs.Timing.LineCount
import ManiaChart.Proofs.Timing.LineOrder
import ManiaChart.Proofs.Conversion.Lanes
import ManiaChart.Proofs.Conversion.LastTime
import ManiaChart.Proofs.Text.Parts
import ManiaChart.Proofs.Text.Numerals
import ManiaChart.Proofs.Beatmap.Fields
import ManiaChart.Proofs.Beatmap.Grammar
import ManiaChart.Proofs.Binary64.Shifts
import ManiaChart.Proofs.Conversion.WrittenTimes
import ManiaChart.Proofs.Beatmap.SoleEvent
import ManiaChart.Proofs.Conversion.QuotedNames
import ManiaChart.Proofs.Timing.RangeLookup
import ManiaChart.Proofs.Chart.Copies
