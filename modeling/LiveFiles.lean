import LiveFiles.Main
import LiveFiles.Proofs.Arming
import LiveFiles.Proofs.Authority
import LiveFiles.Proofs.Bookkeeping
import LiveFiles.Proofs.Bursts
import LiveFiles.Proofs.Convergence
import LiveFiles.Proofs.Counting
import LiveFiles.Proofs.Deliveries
import LiveFiles.Proofs.Departures
import LiveFiles.Proofs.Disconnects
import LiveFiles.Proofs.Dispersal
import LiveFiles.Proofs.Draining
import LiveFiles.Proofs.EventStreams
import LiveFiles.Proofs.Exclusion
import LiveFiles.Proofs.ExternalDates
import LiveFiles.Proofs.Failures
import LiveFiles.Proofs.Finality
import LiveFiles.Proofs.Following
import LiveFiles.Proofs.Freshness
import LiveFiles.Proofs.Isolation
import LiveFiles.Proofs.Landing
import LiveFiles.Proofs.Lifetimes
import LiveFiles.Proofs.Loading
import LiveFiles.Proofs.Overtaking
import LiveFiles.Proofs.Ownership
import LiveFiles.Proofs.PoolWaits
import LiveFiles.Proofs.ReadYourWrites
import LiveFiles.Proofs.Requests
import LiveFiles.Proofs.Rounds
import LiveFiles.Proofs.Slots
import LiveFiles.Proofs.Spellings
import LiveFiles.Proofs.Streams
import LiveFiles.Proofs.Summaries
import LiveFiles.Proofs.Targets
import LiveFiles.Proofs.Tickets
import LiveFiles.Proofs.WatchList
import LiveFiles.Session.Engine
import LiveFiles.Session.Locks
import LiveFiles.Session.Signals
import LiveFiles.Session.Trees
