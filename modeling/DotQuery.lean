import DotQuery.Main
import DotQuery.Proofs.Console.Candidates
import DotQuery.Proofs.Document.History
import DotQuery.Proofs.Document.RoundTrip
import DotQuery.Proofs.Path.Joining
import DotQuery.Proofs.Path.Pieces
import DotQuery.Proofs.Session.Candidates
import DotQuery.Proofs.Session.Runs
import DotQuery.Proofs.Suggestions.Membership
import DotQuery.Proofs.Document.ShownText
import DotQuery.Proofs.Session.Rendering
import DotQuery.Proofs.Console.Commands
import DotQuery.Proofs.Console.Interference
import DotQuery.Proofs.CommandLine.Batch
import DotQuery.Proofs.Console.Stopping
import DotQuery.Proofs.Console.Transcript
import DotQuery.Proofs.Json.ScalarLocality
import DotQuery.Proofs.Json.Locality
import DotQuery.Proofs.Console.Loading
import DotQuery.Proofs.CommandLine.Status
import DotQuery.Proofs.Suggestions.Preorder
import DotQuery.Proofs.Suggestions.Subtrees
import DotQuery.Proofs.Path.Faults
import DotQuery.Proofs.Path.Printing
import DotQuery.Proofs.Path.Steps
import DotQuery.Proofs.Path.Outcomes
import DotQuery.Proofs.Console.Spelling
import DotQuery.Proofs.Path.Respelling
import DotQuery.Proofs.Document.WholeText
import DotQuery.Proofs.Json.Members
import DotQuery.Path.Cursor
import DotQuery.Proofs.Document.RepeatedKeys
import DotQuery.Proofs.Path.CursorReading
import DotQuery.Proofs.Path.CursorRuns
import DotQuery.Proofs.Options.Decoding
import DotQuery.Proofs.Document.Cause
import DotQuery.Proofs.CommandLine.Stages
