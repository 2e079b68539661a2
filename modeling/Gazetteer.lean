import Gazetteer.Main
import Gazetteer.Proofs.Ascending
import Gazetteer.Proofs.Catalog.Identity
import Gazetteer.Proofs.Query.TextMatches
import Gazetteer.Proofs.Search.Trajectory
import Gazetteer.Proofs.Search.Decision
import Gazetteer.Proofs.Search.Tour
import Gazetteer.Proofs.Search.Independence
import Gazetteer.Proofs.Binary64.Order
import Gazetteer.Proofs.Binary64.Rounding
import Gazetteer.Proofs.Binary64.Exact
import Gazetteer.Proofs.Geometry.Cells
import Gazetteer.Proofs.Geometry.KeyRanges
import Gazetteer.Proofs.Geometry.Squares
import Gazetteer.Proofs.Geometry.Covering
import Gazetteer.Proofs.Geometry.Bounding
import Gazetteer.Proofs.Geometry.Locating
import Gazetteer.Proofs.Search.Growth
import Gazetteer.Proofs.MessagePack.Reading
import Gazetteer.Proofs.MessagePack.Views
import Gazetteer.Proofs.CellIndex.Contents
import Gazetteer.Proofs.CellIndex.Codec
import Gazetteer.Proofs.Partition.Built
import Gazetteer.Proofs.Partition.PlaceIndex
import Gazetteer.Proofs.Query.PlaceMatches
import Gazetteer.Proofs.Trie.Insertion
import Gazetteer.Proofs.Trie.Validation
import Gazetteer.Proofs.Trie.Codec
import Gazetteer.Proofs.Partition.TextIndex
import Gazetteer.Proofs.Query.NameMatches
import Gazetteer.Proofs.Search.Coverage
import Gazetteer.Proofs.Catalog.History
import Gazetteer.Proofs.Search.Reordering
import Gazetteer.Proofs.Search.Lifecycle
import Gazetteer.Proofs.Search.Session
import Gazetteer.Proofs.Search.Completeness
import Gazetteer.Proofs.Trie.Walks
import Gazetteer.Proofs.Trie.Entries
import Gazetteer.Proofs.MessagePack.Sizes
import Gazetteer.Proofs.MessagePack.Prefixes
import Gazetteer.Proofs.Partition.StoredIndexes
import Gazetteer.Proofs.Partition.Codec
import Gazetteer.Proofs.Partition.Consistency
import Gazetteer.Proofs.Partition.Truncation
import Gazetteer.Proofs.Binary64.Finiteness
import Gazetteer.Proofs.Binary64.Thresholds
import Gazetteer.Proofs.Search.Termination
import Gazetteer.Proofs.Text.Runs
import Gazetteer.Proofs.Text.CharSets
import Gazetteer.Proofs.Text.Lowering
import Gazetteer.Proofs.Text.Words
import Gazetteer.Proofs.Text.Stability
import Gazetteer.Proofs.Text.Beginnings
import Gazetteer.Proofs.Query.Beginnings
import Gazetteer.Proofs.Query.Narrowing
import Gazetteer.Proofs.Catalog.Versions
import Gazetteer.Proofs.CommandLine.Files
import Gazetteer.Proofs.Search.Stopping
import Gazetteer.Proofs.Search.Widening
import Gazetteer.Proofs.Search.Ceiling
import Gazetteer.Proofs.Search.Stillness
import Gazetteer.Proofs.Search.Lookups
import Gazetteer.Proofs.Search.Upkeep
import Gazetteer.Proofs.Trie.Faults
import Gazetteer.Proofs.CellIndex.Building
import Gazetteer.Proofs.CellIndex.Scans
import Gazetteer.Proofs.Geometry.Spreading
import Gazetteer.Proofs.Geometry.Hierarchy
import Gazetteer.Proofs.Geometry.Nesting
import Gazetteer.Proofs.Catalog.Offers
