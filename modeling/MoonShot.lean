import MoonShot.Index.BuildThenRead
import MoonShot.Cache.Pool
import MoonShot.Cache.System
import MoonShot.Cache.Safety
import MoonShot.Cache.Runs
import MoonShot.Lib.WrappedScan
import MoonShot.Cache.Eviction
import MoonShot.Lib.Cursor
import MoonShot.Reader.Conjunction
import MoonShot.Reader.Disjunction
import MoonShot.Reader.Tree
import MoonShot.Index.ReaderTree
import MoonShot.Index.Scores
import MoonShot.Format.Header
import MoonShot.Format.PathPrefixes
import MoonShot.Format.SidecarWriter
import MoonShot.Format.DocData
import MoonShot.Format.Paths
import MoonShot.Search.Queue
import MoonShot.Cache.Worker
import MoonShot.Query.Compiler
import MoonShot.Query.Content
import MoonShot.Query.Conjunction
import MoonShot.Query.Negation
import MoonShot.Context.IndexData
import MoonShot.Context.State
import MoonShot.Context.DocPaths
import MoonShot.Context.Search
import MoonShot.Context.Saved
import MoonShot.Context.FailedLoad
import MoonShot.Context.StreamAverages
import MoonShot.Postings.Runs
import MoonShot.Postings.Statistics
import MoonShot.Serializer.BuildOrder
import MoonShot.Query.Frequencies
import MoonShot.Lib.Clauses
import MoonShot.Query.Union
import MoonShot.Query.Grammar
import MoonShot.Lib.TopK
import MoonShot.Search.Executor
import MoonShot.Lib.Extents
import MoonShot.Format.Sections
import MoonShot.Context.Merge
import MoonShot.Lib.Packing
import MoonShot.Serializer.PageCounts
import MoonShot.Index.EntryFields
import MoonShot.Reader.Faults
import MoonShot.Index.ReadFailures
import MoonShot.Reader.Skipping
import MoonShot.Index.Skipping
import MoonShot.Lib.Slots
import MoonShot.Serializer.TermMphf
import MoonShot.Serializer.TermSlots
import MoonShot.Index.TermMphfLookup
import MoonShot.Context.BatchPostings
import MoonShot.Context.PostingSplits
import MoonShot.Context.MergedEntries
import MoonShot.Context.MergedPaths
import MoonShot.Context.WrittenHeaders
import MoonShot.Lib.Checked
import MoonShot.Untrusted.Pages
import MoonShot.Untrusted.Decode
import MoonShot.Untrusted.Load
import MoonShot.Untrusted.Lookup
import MoonShot.Untrusted.Averages
import MoonShot.Untrusted.Reader
import MoonShot.Untrusted.Open
import MoonShot.Programs.QueryString
import MoonShot.Programs.DeltaPath
import MoonShot.Tokenizer.Stemmer
import MoonShot.Tokenizer.Porter2
import MoonShot.Tokenizer.Spelling
import MoonShot.Tokenizer.StemmerSteps
import MoonShot.Tokenizer.StemmerRange
import MoonShot.Tokenizer.SuffixTables
import MoonShot.Tokenizer.StepAgreement
import MoonShot.Tokenizer.StemmerAgreement
import MoonShot.Lib.Heap
import MoonShot.Lib.Stops
import MoonShot.Vector.Graph
import MoonShot.Vector.Layers
import MoonShot.Vector.LayerSearch
import MoonShot.Vector.Rewiring
import MoonShot.Vector.Insertion
import MoonShot.Vector.Comparators
import MoonShot.Vector.WellFormed
import MoonShot.Vector.Reachable
import MoonShot.Vector.Queries
import MoonShot.Vector.Refinement
import MoonShot.Vector.Scores
import MoonShot.Vector.Degenerate
import MoonShot.Cache.Alone
import MoonShot.Reader.Cached
import MoonShot.Context.CacheSizes
import MoonShot.Context.RoundTrip
import MoonShot.Lib.Ascending
import MoonShot.Search.Readers
import MoonShot.Search.Documents
import MoonShot.Lib.Joined
import MoonShot.Context.MergedTerms
