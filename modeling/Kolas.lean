import Kolas.Lib.FixedWidth
import Kolas.Lib.Lists
import Kolas.Lib.Newest
import Kolas.Lib.Reorder
import Kolas.Lib.Run
import Kolas.Lib.Words
import Kolas.Lib.Wrapper
import Kolas.Config.Laws
import Kolas.Config.Load
import Kolas.Config.Names
import Kolas.Config.Overridable
import Kolas.Config.Overrides
import Kolas.Config.Typed
import Kolas.Di.Callers
import Kolas.Di.Cells
import Kolas.Di.Container
import Kolas.Di.Cycles
import Kolas.Di.Deadlock
import Kolas.Di.Ends
import Kolas.Di.Erasure
import Kolas.Di.Frozen
import Kolas.Di.Instances
import Kolas.Di.Isolation
import Kolas.Di.Needs
import Kolas.Di.Report
import Kolas.Di.Requests
import Kolas.Di.Sequential
import Kolas.Di.Simulation
import Kolas.Di.Slots
import Kolas.Di.Traversal
import Kolas.Routing.Coverage
import Kolas.Routing.Order
import Kolas.Http.Api
import Kolas.Http.ContentLength
import Kolas.Http.Idempotent
import Kolas.Http.OtherBodies
import Kolas.Http.Seen
import Kolas.Schedule.Accounts
import Kolas.Schedule.Agreement
import Kolas.Schedule.Builder
import Kolas.Schedule.Cron
import Kolas.Schedule.Drain
import Kolas.Schedule.Event
import Kolas.Schedule.EveryMinutes
import Kolas.Schedule.Exclusion
import Kolas.Schedule.Meaning
import Kolas.Schedule.Modifiers
import Kolas.Schedule.Overlap
import Kolas.Schedule.Registry
import Kolas.Schedule.RunOnce
import Kolas.Schedule.Scheduler
import Kolas.Schedule.Sleep
import Kolas.Schedule.Sticky
import Kolas.Schedule.Validate
import Kolas.Schedule.WorkLocks
import Kolas.Schedule.WorkOccurrences
import Kolas.Schedule.WorkSkips
import Kolas.Logging.DatabaseSink
import Kolas.Logging.Delivery
import Kolas.Logging.Dropped
import Kolas.Logging.Filter
import Kolas.Logging.Format
import Kolas.Logging.Guard
import Kolas.Logging.Init
import Kolas.Logging.Layer
import Kolas.Logging.Losses
import Kolas.Logging.Queue
import Kolas.Logging.Retention
import Kolas.Logging.Rotation
import Kolas.Logging.Section
import Kolas.Logging.Tasks
import Kolas.Database.AutoMigrate
import Kolas.Database.Boot
import Kolas.Database.Config
import Kolas.Database.Driver
import Kolas.Database.Facade
import Kolas.Database.Manager
import Kolas.Database.Migrate
import Kolas.Database.MigrationCreate
import Kolas.Database.Overrides
import Kolas.Console.Bootstrap
import Kolas.Console.CommandLine
import Kolas.Console.Kernel
