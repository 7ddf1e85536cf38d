import SourceBook.Document.Boundary
import SourceBook.Run
import SourceBook.Main
import SourceBook.Proofs.Document.RoundTrip
import SourceBook.Proofs.Walk.Entries
import SourceBook.Proofs.Collection
import SourceBook.Proofs.Document.Grouping
import SourceBook.Proofs.Text.LineBreak
import SourceBook.Proofs.Sources
import SourceBook.Proofs.Document.Collected
import SourceBook.Proofs.FileSystem.Writing
import SourceBook.Proofs.Run
import SourceBook.Proofs.Output
import SourceBook.Proofs.Rerun
import SourceBook.Proofs.Inventory
import SourceBook.Proofs.Document.Rejection
import SourceBook.Proofs.Document.Continuation
import SourceBook.Proofs.Walk.Naming
import SourceBook.Proofs.Independence
import SourceBook.Proofs.Sizes
import SourceBook.Proofs.Json.Listing
import SourceBook.Proofs.Verbosity
import SourceBook.Document.Scanning
import SourceBook.Proofs.CommandLine.AnyOrder
import SourceBook.Proofs.Text.Places
import SourceBook.Proofs.Document.Search
import SourceBook.Proofs.Document.Scanning
import SourceBook.Proofs.CommandLine.AnyOrder
import SourceBook.Proofs.Document.Scanning
import SourceBook.Proofs.Log
