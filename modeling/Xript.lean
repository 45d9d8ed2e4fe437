import Xript.Sanitize.StyleClean
import Xript.Sanitize.TwoSyntaxes
import Xript.Bus.Tickets
import Xript.Bus.Declare
import Xript.Bus.Runs
import Xript.Bus.PoolRuns
import Xript.Bus.Dispatch
import Xript.Expr.RustParserAgrees
import Xript.Repeat.PatchMinimal
import Xript.Bus.CrossingExact
import Xript.Expr.EvalReads
import Xript.Fragment.Nesting
import Xript.Extends.Agree
import Xript.Extends.Unclobbered
import Xript.Extends.Cycles
import Xript.Capability.Match
import Xript.Calls.PendingRuns
import Xript.Mods.LoadOrder
import Xript.Debug.Resumes
import Xript.Sandbox.InterruptRuns
import Xript.Crossing.JsonRoute
import Xript.Sanitize.Uri
import Xript.Callers.Context
import Xript.Callers.Attribution
import Xript.Callers.Follows
import Xript.Pool.Shedding
import Xript.Pool.Retirement
import Xript.Pool.Weighed
import Xript.Pool.Driven
import Xript.Pool.Unreached
import Xript.Sanitize.References
import Xript.Fragment.SiteIds
import Xript.Json.RustCanonical
import Xript.Sanitize.Segments
import Xript.Sanitize.SegmentIssues
import Xript.Sanitize.SegmentSource
import Xript.Sanitize.SegmentStable
import Xript.Fragment.Ceiling
import Xript.Sanitize.ReadBack
import Xript.Sanitize.FirstAttribute
import Xript.Number.Integers
import Xript.Ops.NodeRef
import Xript.Ops.Apply
import Xript.Ops.ApplyFrame
import Xript.Retain.TypeRef
import Xript.Retain.Positions
import Xript.Retain.ValidatorRef
import Xript.Retain.TypeGrammar
import Xript.Retain.TypeRefAgree
import Xript.Retain.OneReading
import Xript.Retain.Registry
import Xript.Retain.RegistryRuns
import Xript.Crossing.Markers
import Xript.Crossing.Copy
import Xript.Crossing.FastPass
import Xript.Sanitize.Fragment
import Xript.Fragment.Harmless
import Xript.Ops.Finalize
import Xript.Fragment.Rendered
import Xript.Fragment.Within
import Xript.Fragment.Addresses
import Xript.Fragment.ReadNames
import Xript.Repeat.Longest
import Xript.Number.RadixInteger
import Xript.Score.Score
import Xript.Score.Diff
import Xript.Text.Brackets
import Xript.Crossing.StackGuard
import Xript.Presence.Declared
import Xript.Presence.Host
import Xript.Presence.Script
import Xript.Commands.Fills
import Xript.Commands.Agree
import Xript.Commands.Loads
import Xript.Order.Stable
import Xript.Commands.Lookup
import Xript.Commands.Reference
import Xript.Text.Regex
import Xript.Order.Acyclic
import Xript.Debug.Locals
import Xript.Debug.LocalsText
import Xript.Entry.CommonJs
import Xript.Entry.Sites
import Xript.Entry.RustSites
import Xript.Debug.LocalsShown
import Xript.Crossing.GuardedFollows
import Xript.Number.Layout
import Xript.Number.Fixed
import Xript.Expr.RustRepeat
