import CollisionRules.Ability
import CollisionRules.Ability.Alias
import CollisionRules.Ability.Roster
import CollisionRules.CommandLine.Log
import CollisionRules.CommandLine.LogFilter
import CollisionRules.CommandLine.Options
import CollisionRules.CommandLine.Run
import CollisionRules.Error
import CollisionRules.Event
import CollisionRules.Failure
import CollisionRules.File.Access
import CollisionRules.File.Path
import CollisionRules.File.Tree
import CollisionRules.Group
import CollisionRules.Host
import CollisionRules.Load
import CollisionRules.Main
import CollisionRules.Proofs.Ability.Roster
import CollisionRules.Proofs.Ability.Table
import CollisionRules.Proofs.CommandLine.Acceptance
import CollisionRules.Proofs.CommandLine.Arguments
import CollisionRules.Proofs.CommandLine.Dumps
import CollisionRules.Proofs.File.Path
import CollisionRules.Proofs.File.Tree
import CollisionRules.Proofs.Host.FailedLoad
import CollisionRules.Proofs.Host.History
import CollisionRules.Proofs.Host.Lifecycle
import CollisionRules.Proofs.Host.Reload
import CollisionRules.Proofs.Load.Account
import CollisionRules.Proofs.Load.Layout
import CollisionRules.Proofs.Load.SavedRules
import CollisionRules.Proofs.Load.Splitting
import CollisionRules.Proofs.Load.Stream
import CollisionRules.Proofs.Load.Truncated
import CollisionRules.Proofs.Load.Verbosity
import CollisionRules.Proofs.Load.WholeLines
import CollisionRules.Proofs.Resolution.Account
import CollisionRules.Proofs.Resolution.Canonical
import CollisionRules.Proofs.Resolution.Extension
import CollisionRules.Proofs.Resolution.Mirror
import CollisionRules.Proofs.Resolution.Products
import CollisionRules.Proofs.Resolution.Reachable
import CollisionRules.Proofs.Resolution.Restriction
import CollisionRules.Proofs.Resolution.Rewording
import CollisionRules.Proofs.Resolution.Value
import CollisionRules.Proofs.Resolution.Verbosity
import CollisionRules.Proofs.Rule.Mirror
import CollisionRules.Proofs.Rule.Restriction
import CollisionRules.Proofs.Rule.Survivors
import CollisionRules.Proofs.Settings.Preparation
import CollisionRules.Proofs.Settings.RoundTrip
import CollisionRules.Proofs.Source.Arrival
import CollisionRules.Proofs.Statement.Blame
import CollisionRules.Proofs.Statement.Concatenation
import CollisionRules.Proofs.Statement.EndOfInput
import CollisionRules.Proofs.Statement.Grammar
import CollisionRules.Proofs.Statement.Isolation
import CollisionRules.Proofs.Statement.Lookahead
import CollisionRules.Proofs.Statement.Names
import CollisionRules.Proofs.Statement.Progress
import CollisionRules.Proofs.Statement.Recognition
import CollisionRules.Proofs.Statement.Relocation
import CollisionRules.Proofs.Statement.RoundTrip
import CollisionRules.Proofs.Statement.RuleText
import CollisionRules.Proofs.Text.Cut
import CollisionRules.Proofs.Text.Lossy
import CollisionRules.Proofs.Text.Trim
import CollisionRules.Proofs.Text.Utf8
import CollisionRules.Proofs.Token.Failures
import CollisionRules.Proofs.Token.Layout
import CollisionRules.Proofs.Token.Lines
import CollisionRules.Proofs.Token.Tokenization
import CollisionRules.Proofs.Yaml.Quoting
import CollisionRules.Proofs.Yaml.Scalar
import CollisionRules.Proofs.Yaml.Token
import CollisionRules.Report
import CollisionRules.Resolution
import CollisionRules.Rule
import CollisionRules.Settings
import CollisionRules.Settings.Text
import CollisionRules.Source
import CollisionRules.Statement
import CollisionRules.Statement.Parser
import CollisionRules.Statement.Sequence
import CollisionRules.Text.Blank
import CollisionRules.Text.Lines
import CollisionRules.Text.Utf8
import CollisionRules.Token
import CollisionRules.Token.Line
import CollisionRules.Token.Reader
import CollisionRules.Token.Stream
import CollisionRules.Yaml.Block
import CollisionRules.Yaml.Cursor
import CollisionRules.Yaml.Library
import CollisionRules.Yaml.Node
import CollisionRules.Yaml.Number
import CollisionRules.Yaml.Quoting
import CollisionRules.Yaml.Scalar
import CollisionRules.Yaml.Token
import CollisionRules.Proofs.Token.Cursor
import CollisionRules.Proofs.Resolution.Registry
import CollisionRules.Proofs.Load.Registry
