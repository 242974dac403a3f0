import TableStore.Pool.Scan
import TableStore.Proofs.Lock.Consistency
import TableStore.Proofs.Lock.Run
import TableStore.Proofs.Lock.Held
import TableStore.Proofs.Lock.Waiting
import TableStore.Proofs.Lock.Protocol
import TableStore.Proofs.Lock.Signals
import TableStore.Proofs.Lock.Alone
import TableStore.Proofs.Pool.Cache
import TableStore.Proofs.Pool.Load
import TableStore.Proofs.Pool.End
import TableStore.Proofs.Pool.Move
import TableStore.Proofs.Pool.Protection
import TableStore.Proofs.Page.Formed
import TableStore.Proofs.Page.RoundTrip
import TableStore.Proofs.Page.Canonical
import TableStore.Proofs.Page.Slots
import TableStore.Proofs.TableFile
import TableStore.Proofs.Page.Local
import TableStore.Proofs.PageArray
import TableStore.Proofs.Pool.Data
import TableStore.Proofs.Ledger.Basic
import TableStore.Proofs.Ledger.Refinement
import TableStore.Proofs.Ledger.Run
import TableStore.Proofs.Ledger.Conservation
import TableStore.Proofs.Ledger.Rows
import TableStore.Proofs.Pool.Alone
import TableStore.Proofs.Pool.Deed
import TableStore.Proofs.Pool.Deadlock
import TableStore.Proofs.Pool.Place
import TableStore.Proofs.Pool.Frame
import TableStore.Proofs.Pool.Backing
import TableStore.Proofs.Pool.Failure
import TableStore.Proofs.Pool.Own
import TableStore.Proofs.Pool.Durability
import TableStore.Proofs.Pool.Eviction
import TableStore.Proofs.Pool.Visit
import TableStore.Proofs.Pool.Search
import TableStore.Proofs.Pool.Refusal
import TableStore.Proofs.Pool.Agreement
import TableStore.Proofs.Pool.FirstFit
import TableStore.Proofs.Pool.Image
import TableStore.Proofs.Pool.Dealings
import TableStore.Proofs.Pool.Course
import TableStore.Proofs.Pool.Victim
import TableStore.Proofs.Pool.Apart
import TableStore.Proofs.Ledger.Reads
import TableStore.Proofs.Serial.Files
import TableStore.Proofs.Serial.Work
import TableStore.Proofs.Serial.Found
import TableStore.Proofs.Serial.VictimFree
import TableStore.Proofs.Serial.Record
import TableStore.Proofs.Serial.Alone
import TableStore.Proofs.Serial.Order
import TableStore.Proofs.Scan.Fetch
import TableStore.Proofs.Scan.Cursor
import TableStore.Proofs.RecencyList
import TableStore.Proofs.Catalog.Indexes
import TableStore.Proofs.Words
import TableStore.Proofs.Catalog.SchemaLine
import TableStore.Proofs.Reordered
import TableStore.Proofs.Lock.Reordered
import TableStore.Proofs.Pool.Reordered
import TableStore.Proofs.Pool.Enumeration
import TableStore.Proofs.Page.Field
import TableStore.Proofs.Page.Layout
import TableStore.Proofs.Pool.Balance
import TableStore.Proofs.Pool.Counters
import TableStore.Proofs.Opening
import TableStore.Proofs.Catalog.Listing
import TableStore.Proofs.Catalog.Loading
