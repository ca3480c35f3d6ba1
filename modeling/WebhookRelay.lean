import WebhookRelay.Delivery.Completes
import WebhookRelay.Delivery.WholeRun
import WebhookRelay.Delivery.SlowEndpoints
import WebhookRelay.Delivery.Signed
import WebhookRelay.Runs.Stranded
import WebhookRelay.Runs.Overlap
import WebhookRelay.Runs.DeadLetters
import WebhookRelay.Queue.Handover
import WebhookRelay.Queue.Poll
import WebhookRelay.Ingestion.Idempotency
import WebhookRelay.Circuit.Overlap
import WebhookRelay.Circuit.Reference
import WebhookRelay.Circuit.Window
import WebhookRelay.Replay.Guard
import WebhookRelay.Signing.Inbound
import WebhookRelay.Delivery.Backoff
import WebhookRelay.Circuit.OpenCircuits
import WebhookRelay.Listing
import WebhookRelay.Ingestion.History
import WebhookRelay.Replay.Coverage
import WebhookRelay.Replay.OneByOne
import WebhookRelay.Runs.Deadlock
import WebhookRelay.Runs.Deactivation
import WebhookRelay.Runs.Truthful
import WebhookRelay.Runs.Provenance
import WebhookRelay.Wiring.Refusals
