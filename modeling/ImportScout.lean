import ImportScout.Delivery
import ImportScout.Main
import ImportScout.Workspace.Store
import ImportScout.Proofs.Bundle.RoundTrip
import ImportScout.Proofs.Command.Places
import ImportScout.Proofs.Glob.Cache
import ImportScout.Proofs.Import.Completeness
import ImportScout.Proofs.Rank.Existence
import ImportScout.Proofs.Rank.Failure
import ImportScout.Proofs.Rank.Line
import ImportScout.Proofs.Rank.Presence
import ImportScout.Proofs.Rank.Queries
import ImportScout.Proofs.Rank.Reads
import ImportScout.Proofs.Rank.Report
import ImportScout.Proofs.Rank.Snippets
import ImportScout.Proofs.Rank.Spelling
import ImportScout.Proofs.Rank.Threshold
import ImportScout.Proofs.Resolve.Containment
import ImportScout.Proofs.Resolve.Escape
import ImportScout.Proofs.Resolve.Fallback
import ImportScout.Proofs.Resolve.Priority
import ImportScout.Proofs.Resolve.Relative
import ImportScout.Proofs.Tree.Heavy
import ImportScout.Proofs.Workspace.Changes
import ImportScout.Proofs.Workspace.Confinement
import ImportScout.Proofs.Workspace.Exclusion
import ImportScout.Proofs.Workspace.Scan
