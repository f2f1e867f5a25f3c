import AtomHeap.Blob.Summary
import AtomHeap.Session.Exec
import AtomHeap.System.Race
import AtomHeap.Proofs.Blob.History
import AtomHeap.Proofs.Hashing
import AtomHeap.Proofs.Memory.Accounts
import AtomHeap.Proofs.Memory.Demand
import AtomHeap.Proofs.Memory.Hoards
import AtomHeap.Proofs.Memory.Links
import AtomHeap.Proofs.Memory.Order
import AtomHeap.Proofs.Memory.Owning
import AtomHeap.Proofs.Memory.Rounding
import AtomHeap.Proofs.Store.Custody
import AtomHeap.Proofs.Store.Refusals
import AtomHeap.Proofs.Store.Represented
import AtomHeap.Proofs.Store.Strings
import AtomHeap.Proofs.Store.Sweeping
import AtomHeap.Proofs.Store.Withdrawal
import AtomHeap.Proofs.Cycle.Calls
import AtomHeap.Proofs.Cycle.Figures
import AtomHeap.Proofs.Cycle.Polls
import AtomHeap.Proofs.Cycle.Programs
import AtomHeap.Proofs.Cycle.Races
import AtomHeap.Proofs.Cycle.Requests
import AtomHeap.Proofs.Cycle.Scans
import AtomHeap.Proofs.Cycle.Sites
import AtomHeap.Proofs.Cycle.Vacancies
import AtomHeap.Proofs.Cycle.Watches
