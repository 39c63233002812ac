import Matchmaker.Database.Damage
import Matchmaker.Database.Storage
import Matchmaker.Main
import Matchmaker.Proofs.Broker.Quiet
import Matchmaker.Proofs.Concurrency.Bookkeeping
import Matchmaker.Proofs.Concurrency.Conservation
import Matchmaker.Proofs.Concurrency.Exclusion
import Matchmaker.Proofs.Script.Protocol
import Matchmaker.Proofs.Store.Consistency
import Matchmaker.Store.Fault
import Matchmaker.Proofs.Store.Sight
import Matchmaker.Proofs.Broker.Selection
import Matchmaker.Proofs.Concurrency.Handout
import Matchmaker.Proofs.Queue.Fingerprint
import Matchmaker.Proofs.Concurrency.Filing
import Matchmaker.Proofs.Concurrency.Reopening
import Matchmaker.Proofs.Broker.Basis
import Matchmaker.Proofs.Broker.Trial
import Matchmaker.Proofs.Broker.Recalculation
import Matchmaker.Proofs.Broker.Sweep
import Matchmaker.Proofs.Broker.Freshness
import Matchmaker.Proofs.Resource.Admission
import Matchmaker.Proofs.Broker.Insertion
import Matchmaker.Proofs.Broker.Tidiness
import Matchmaker.Proofs.Broker.Matching
import Matchmaker.Proofs.Broker.Repricing
import Matchmaker.Proofs.Scalar.Rational
import Matchmaker.Proofs.Usage.Bounds
import Matchmaker.Proofs.Broker.Sharing
import Matchmaker.Proofs.Broker.Submission
import Matchmaker.Proofs.Broker.Rearrangement
import Matchmaker.Proofs.Broker.Deletion
import Matchmaker.Proofs.Broker.Atomicity
import Matchmaker.Proofs.Concurrency.Endurance
import Matchmaker.Proofs.Usage.Refreshing
import Matchmaker.Proofs.Usage.Fairness
import Matchmaker.Proofs.Broker.Reprioritization
import Matchmaker.Proofs.Broker.Recovery
import Matchmaker.Proofs.Usage.Comparison
import Matchmaker.Proofs.Share.Book
import Matchmaker.Proofs.Share.Split
import Matchmaker.Proofs.Broker.Snapshot
import Matchmaker.Proofs.Broker.Cleaning
import Matchmaker.Proofs.Scalar.Exact
import Matchmaker.Proofs.Random.Ranking
import Matchmaker.Proofs.Random.Promotion
import Matchmaker.Proofs.Random.Weighing
import Matchmaker.Proofs.Concurrency.Views
import Matchmaker.Proofs.Queue.Document
import Matchmaker.Proofs.Job.Priority
import Matchmaker.Proofs.Broker.Draining
import Matchmaker.Proofs.CommandLine.Change
