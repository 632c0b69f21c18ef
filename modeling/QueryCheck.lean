import QueryCheck.Main
import QueryCheck.Settings.Toml.Writer
import QueryCheck.Syntax.Build
import QueryCheck.Syntax.Store
import QueryCheck.Proofs.Syntax.Tree
import QueryCheck.Proofs.Walk.Calls
import QueryCheck.Proofs.Typing.Along
import QueryCheck.Proofs.Validation.Isolation
import QueryCheck.Proofs.Validation.Findings
import QueryCheck.Proofs.Validation.Independence
import QueryCheck.Proofs.Source.Blocks
import QueryCheck.Proofs.Source.Number
import QueryCheck.Proofs.Source.Tokens
import QueryCheck.Proofs.Source.Lexemes
import QueryCheck.Proofs.Syntax.QuotedStrings
import QueryCheck.Proofs.Syntax.EscapedQuotes
import QueryCheck.Proofs.Syntax.Grammar
import QueryCheck.Proofs.Syntax.Unlocated
import QueryCheck.Proofs.Written.Soundness
import QueryCheck.Proofs.Written.Completeness
import QueryCheck.Proofs.Syntax.Clone
import QueryCheck.Proofs.Written.Documents
import QueryCheck.Proofs.Syntax.RoundTrip
import QueryCheck.Proofs.Walk.Composition
import QueryCheck.Proofs.Walk.Depth
import QueryCheck.Proofs.Validation.Depth
import QueryCheck.Proofs.Validation.Unlocated
import QueryCheck.Proofs.Validation.Appended
import QueryCheck.Proofs.Command.Verdicts
import QueryCheck.Proofs.Validation.Directives
import QueryCheck.Proofs.Command.Listing
import QueryCheck.Proofs.Validation.Declared
import QueryCheck.Command.Pool
import QueryCheck.Proofs.Command.Pool
import QueryCheck.Proofs.Source.Places
import QueryCheck.Proofs.Syntax.Located
import QueryCheck.Proofs.Written.Placed
import QueryCheck.Proofs.Command.Charged
import QueryCheck.Proofs.Data.Json
import QueryCheck.Proofs.Syntax.Equality
import QueryCheck.Proofs.Data.MessagePack
import QueryCheck.Proofs.Syntax.Packed
import QueryCheck.Proofs.Written.Queries
import QueryCheck.Proofs.Validation.Located
import QueryCheck.Proofs.Report.Underline
import QueryCheck.Proofs.Command.Underlined
import QueryCheck.Proofs.Syntax.Typed
import QueryCheck.Proofs.Walk.Spots
import QueryCheck.Proofs.Validation.Tables
import QueryCheck.Proofs.Validation.Single
import QueryCheck.Proofs.Validation.TypeNames
import QueryCheck.Proofs.Validation.FragmentNames
import QueryCheck.Proofs.Validation.RequiredArguments
import QueryCheck.Proofs.Typing.Scope
import QueryCheck.Proofs.Validation.ArgumentNames
import QueryCheck.Proofs.Syntax.Consistent
import QueryCheck.Proofs.Validation.TypeContext
import QueryCheck.Proofs.Walk.Schedule
import QueryCheck.Proofs.Walk.Trace
import QueryCheck.Proofs.Source.Gaps
import QueryCheck.Proofs.Syntax.Sought
import QueryCheck.Proofs.Written.Traced
import QueryCheck.Proofs.Syntax.BlockStrings
import QueryCheck.Proofs.Syntax.Fragments
import QueryCheck.Proofs.Text.Double
import QueryCheck.Proofs.Text.Ranked
import QueryCheck.Proofs.Syntax.Enumeration
import QueryCheck.Syntax.Shelf
import QueryCheck.Proofs.Syntax.Fields
import QueryCheck.Proofs.Syntax.Building
import QueryCheck.Proofs.Syntax.Shared
import QueryCheck.Proofs.Syntax.Copied
import QueryCheck.Proofs.Syntax.Apart
import QueryCheck.Proofs.Report.Snippet
import QueryCheck.Proofs.Text.Edits
import QueryCheck.Proofs.Validation.Lookups
import QueryCheck.Proofs.Settings.Precedence
import QueryCheck.Proofs.Command.Suggested
