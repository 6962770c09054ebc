import GlobSieve.Engine.Audit
import GlobSieve.Engine.Render
import GlobSieve.Engine.Stats
import GlobSieve.Proofs.Literal.LongestSuffix
import GlobSieve.Proofs.Literal.Lookup
import GlobSieve.Proofs.Literal.Spelling
import GlobSieve.Scanner.Automaton
import GlobSieve.Scanner.Scripted
import GlobSieve.Proofs.Literal.Accepted
import GlobSieve.Proofs.Literal.Links
import GlobSieve.Proofs.Literal.Scan
import GlobSieve.Proofs.Literal.Capacity
import GlobSieve.Proofs.Literal.Integrity
import GlobSieve.Proofs.Literal.Findings
import GlobSieve.Proofs.Glob.InPlace
import GlobSieve.Proofs.Fragment.Presence
import GlobSieve.Proofs.Fragment.Agreement
import GlobSieve.Proofs.Fragment.Slices
import GlobSieve.Proofs.Fragment.Wildcards
import GlobSieve.Proofs.Pattern.Grouping
import GlobSieve.Proofs.Pattern.Interning
import GlobSieve.Proofs.Pattern.Origin
import GlobSieve.Proofs.Pattern.Filing
import GlobSieve.Proofs.Query.Discovery
import GlobSieve.Proofs.Query.SeenSet
import GlobSieve.Proofs.Engine.Offering
import GlobSieve.Proofs.Engine.Reachable
import GlobSieve.Proofs.Engine.Exactness
import GlobSieve.Proofs.Engine.Lifecycle
import GlobSieve.Proofs.Engine.Refusal
import GlobSieve.Proofs.Engine.Validity
import GlobSieve.Proofs.Archive.Words
import GlobSieve.Proofs.Archive.RoundTrip
import GlobSieve.Proofs.Engine.Reload
import GlobSieve.Proofs.Engine.Census
import GlobSieve.Proofs.Engine.Folding
import GlobSieve.Proofs.Engine.Accounting
import GlobSieve.Proofs.Engine.Atomicity
import GlobSieve.Proofs.Archive.Damage
import GlobSieve.Proofs.Pattern.Store
import GlobSieve.Proofs.Pattern.Sharing
import GlobSieve.Proofs.Engine.Literals
import GlobSieve.Proofs.Glob.FoldedPattern
import GlobSieve.Proofs.Glob.Canonical
import GlobSieve.Proofs.Glob.Dangling
import GlobSieve.Proofs.Fragment.Gaps
import GlobSieve.Proofs.Engine.Repeats
import GlobSieve.Proofs.Fragment.Rejoining
import GlobSieve.Literal.Finder
import GlobSieve.Proofs.Literal.Drafting
import GlobSieve.Proofs.Literal.Linking
import GlobSieve.Proofs.Literal.InPlace
import GlobSieve.Proofs.Literal.Offers
import GlobSieve.Proofs.Literal.Finder
import GlobSieve.Proofs.Literal.Edges
import GlobSieve.Engine.Matcher
import GlobSieve.Proofs.Engine.Matcher
