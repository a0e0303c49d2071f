import DatagramCircuits.Circuit.Chronicle
import DatagramCircuits.Datagram.Client
import DatagramCircuits.Proofs.Books
import DatagramCircuits.Jobs.Timeline
import DatagramCircuits.Server.Completion
import DatagramCircuits.Server.Running
import DatagramCircuits.Server.Timeline
import DatagramCircuits.Proofs.Sequencing
import DatagramCircuits.Proofs.Outcomes
import DatagramCircuits.Proofs.Resending
import DatagramCircuits.Proofs.Reading
import DatagramCircuits.Circuit.Peers
import DatagramCircuits.Proofs.Acknowledging
import DatagramCircuits.Proofs.Peers
import DatagramCircuits.Datagram.Checked
import DatagramCircuits.Proofs.Acceptance
import DatagramCircuits.Proofs.Fragments
import DatagramCircuits.Proofs.Signals
import DatagramCircuits.Proofs.Owing
import DatagramCircuits.Proofs.Emission
import DatagramCircuits.Proofs.Recall
import DatagramCircuits.Proofs.Registry
import DatagramCircuits.Proofs.Lifecycle
import DatagramCircuits.Proofs.Handshakes
import DatagramCircuits.Proofs.Ended
import DatagramCircuits.Proofs.Accounting
import DatagramCircuits.Proofs.Ranges
import DatagramCircuits.Proofs.Apportionment
import DatagramCircuits.Proofs.Withdrawal
import DatagramCircuits.Proofs.Silence
import DatagramCircuits.Proofs.Notices
import DatagramCircuits.Proofs.Surplus
import DatagramCircuits.Proofs.Backlog
import DatagramCircuits.Proofs.Spacing
import DatagramCircuits.Proofs.Oldest
import DatagramCircuits.Proofs.Counters
import DatagramCircuits.Proofs.Sampling
import DatagramCircuits.Proofs.Tallies
import DatagramCircuits.Proofs.ShortestForm
import DatagramCircuits.Proofs.Trailers
import DatagramCircuits.Proofs.Isolation
import DatagramCircuits.Message.Checked
import DatagramCircuits.Proofs.Bodies
import DatagramCircuits.Collection.Operation
import DatagramCircuits.Proofs.Shards
