import Mend.Atlas.Basic
import Mend.Atlas.Blast
import Mend.Atlas.Paint
import Mend.Atlas.Restore
import Mend.Capped
import Mend.Damage.Completion
import Mend.Damage.Content
import Mend.Damage.DamageId
import Mend.Damage.Event
import Mend.Damage.IdText
import Mend.Damage.Json
import Mend.Damage.Tally
import Mend.Geometry.Ball
import Mend.Geometry.Box
import Mend.Geometry.Coord
import Mend.Geometry.Pos
import Mend.Intake.Funnel
import Mend.Intake.Pending
import Mend.Intake.Sift
import Mend.Journal
import Mend.Json.Token
import Mend.Json.Value
import Mend.Ledger
import Mend.LogFilter
import Mend.Main
import Mend.Pacing
import Mend.Queue.Agenda
import Mend.Queue.Drain
import Mend.Queue.Layer
import Mend.Random.Xoshiro
import Mend.Run.Controls
import Mend.Run.Loop
import Mend.Scenario.Basic
import Mend.Scenario.Document
import Mend.Scenario.Script
import Mend.Scheduler.Accept
import Mend.Scheduler.Basic
import Mend.Scheduler.Host
import Mend.Scheduler.Report
import Mend.Scheduler.Tick
import Mend.Session.Basic
import Mend.Session.Error
import Mend.Session.Exit
import Mend.Settings.Basic
import Mend.Settings.Document
import Mend.Text.Blank
import Mend.Text.Bytes
import Mend.Text.Decimal
import Mend.Text.Hex
import Mend.Text.Sign
import Mend.Time.Clock
import Mend.Time.Date
import Mend.Time.Instant
import Mend.Time.Rfc3339
import Mend.Yaml.Cursor
import Mend.Yaml.Datum
import Mend.Yaml.Layout
import Mend.Yaml.Node
import Mend.Yaml.Number
import Mend.Yaml.Room
import Mend.Yaml.Scalar
import Mend.Yaml.Scan
import Mend.Yaml.Section
import Mend.Proofs.Intake.Sifting
import Mend.Proofs.Scheduler.Phases
import Mend.Proofs.Scheduler.History
import Mend.Proofs.Ledger.Counting
import Mend.Proofs.Scheduler.Bookkeeping
import Mend.Proofs.Scheduler.Shutdown
import Mend.Proofs.Atlas.Carving
import Mend.Proofs.Atlas.PuttingBack
import Mend.Proofs.Healing
import Mend.Proofs.Scheduler.Completion
import Mend.Proofs.Queue.Deadlines
import Mend.Proofs.Queue.Elevations
import Mend.Proofs.Scheduler.Turns
import Mend.Proofs.Scheduler.LowestFirst
import Mend.Proofs.Scheduler.Pace
import Mend.Proofs.Scheduler.Punctual
import Mend.Proofs.Atlas.Firing
import Mend.Proofs.Restoring
import Mend.Proofs.Scheduler.Likeness
import Mend.Proofs.Scheduler.Independence
import Mend.Proofs.Scheduler.Handover
import Mend.Proofs.Scheduler.Conservation
import Mend.Proofs.Pacing
import Mend.Proofs.Scheduler.Draining
import Mend.Proofs.Run.UntilIdle
import Mend.Proofs.Scheduler.Passage
import Mend.Proofs.Scheduler.BottomUp
import Mend.Proofs.Site
import Mend.Proofs.Provenance
import Mend.Proofs.Run.Salvos
import Mend.Proofs.Run.Scenes
import Mend.Proofs.Run.Scripted
import Mend.Proofs.Queue.Interleaving
import Mend.Proofs.Atlas.Reordering
import Mend.Proofs.Scheduler.Accounts
import Mend.Proofs.Scheduler.Shuffling
import Mend.Proofs.EitherOrder
import Mend.Proofs.Geometry.Balls
import Mend.Proofs.Atlas.Painting
import Mend.Proofs.Atlas.Refusals
import Mend.Proofs.Atlas.Craters
import Mend.Proofs.Scheduler.AllOrNothing
import Mend.Proofs.Intake.Choice
import Mend.Proofs.Pacing.Unsaturated
import Mend.Proofs.Run.Steering
import Mend.Proofs.Run.TickLoop
import Mend.Proofs.Scheduler.Hazards
import Mend.Proofs.Queue.StableOrder
import Mend.Proofs.Queue.Backlog
import Mend.Proofs.Queue.Tickets
import Mend.Proofs.Queue.Merging
import Mend.Proofs.Queue.Keyed
import Mend.Proofs.Intake.Grouping
import Mend.Proofs.Scenario.Terrain
import Mend.Proofs.Text.Digits
import Mend.Proofs.Json.Scanning
import Mend.Proofs.Json.ReadBack
import Mend.Proofs.Time.ReadBack
import Mend.Proofs.Damage.ReadBack
import Mend.Proofs.Yaml.Fields
import Mend.Proofs.Settings.Overwriting
import Mend.Proofs.Intake.PendingSet
import Mend.Proofs.Ledger.Tallies
import Mend.Proofs.Ledger.Histories
