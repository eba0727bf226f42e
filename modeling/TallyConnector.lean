import TallyConnector.Effects.Machine
import TallyConnector.Sync.Engine
import TallyConnector.World.Groups
import TallyConnector.Properties.Checkpoint
import TallyConnector.Properties.Staleness
import TallyConnector.Properties.Duplicates
import TallyConnector.Properties.Skipping
import TallyConnector.Properties.Draining
import TallyConnector.Properties.Isolation
import TallyConnector.Properties.Conduct
import TallyConnector.Properties.Convergence
import TallyConnector.Properties.Progress
import TallyConnector.Properties.Counting
import TallyConnector.Properties.Uninterrupted
import TallyConnector.Properties.ExitStatus
import TallyConnector.Models.SyncOrder
import TallyConnector.Properties.Responses
import TallyConnector.Properties.Rerun
import TallyConnector.Properties.Quantities
import TallyConnector.Properties.Scrubbing
import TallyConnector.Properties.Parsing
import TallyConnector.Properties.Versions
import TallyConnector.Properties.Ranges
import TallyConnector.Properties.Renaming
import TallyConnector.Properties.FieldNames
import TallyConnector.Properties.DueTimes
import TallyConnector.Properties.Queueing
import TallyConnector.Properties.Redaction
import TallyConnector.Properties.Credentials
import TallyConnector.Properties.LogMessages
import TallyConnector.Properties.Mirror
import TallyConnector.Properties.Integrity
import TallyConnector.Properties.Payloads
import TallyConnector.Services.Scheduler
import TallyConnector.Properties.Service
import TallyConnector.Properties.Deliveries
import TallyConnector.Properties.DataFlow
import TallyConnector.Properties.Opening
import TallyConnector.Properties.RequestTrees
