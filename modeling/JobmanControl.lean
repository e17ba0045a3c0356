import JobmanControl.Authority.Evidence
import JobmanControl.Authority.Versions
import JobmanControl.Catalog.Agreement
import JobmanControl.Catalog.Arrays
import JobmanControl.Catalog.Chronicle
import JobmanControl.Catalog.Fairness
import JobmanControl.Catalog.Replays
import JobmanControl.Concurrency.Acceptance
import JobmanControl.Concurrency.AuditExport
import JobmanControl.Concurrency.Credentials
import JobmanControl.Concurrency.Limits
import JobmanControl.Concurrency.Quota
import JobmanControl.Concurrency.Rolling
import JobmanControl.Concurrency.Skipping
import JobmanControl.Directory.Connection
import JobmanControl.Directory.History
import JobmanControl.Lifecycle.Dependencies
import JobmanControl.Lifecycle.FailFast
import JobmanControl.Lifecycle.Silence
import JobmanControl.Monitoring.Checkpoint
