import TypedConfig.Main
import TypedConfig.Schema.Cache
import TypedConfig.Proofs.Soundness
import TypedConfig.Proofs.Yaml.RoundTrip
import TypedConfig.Proofs.Limits.Keeps
import TypedConfig.Proofs.Limits.Programs
import TypedConfig.Proofs.Limits.Schemas
import TypedConfig.Proofs.Limits.Checks
import TypedConfig.Proofs.Limits.Evals
import TypedConfig.Proofs.Limits.Compile
import TypedConfig.Proofs.Schema.Reading
import TypedConfig.Proofs.Schema.Aliases
import TypedConfig.Proofs.Schema.Loaded
import TypedConfig.Proofs.Check.Finishes
import TypedConfig.Proofs.CallDepth
import TypedConfig.Proofs.Cache.Run
import TypedConfig.Proofs.Layout.Compile
import TypedConfig.Proofs.Number.Whole
import TypedConfig.Proofs.Written.Lexing
import TypedConfig.Proofs.Written.Reading
import TypedConfig.Proofs.Written.Lists
import TypedConfig.Proofs.Written.Expressions
import TypedConfig.Proofs.Written.Programs
import TypedConfig.Proofs.Places
import TypedConfig.Proofs.Depth
import TypedConfig.Proofs.Order.Checks
import TypedConfig.Proofs.Constants
import TypedConfig.Proofs.Command
import TypedConfig.Proofs.Check.Unknown
import TypedConfig.Proofs.Check.Widening
import TypedConfig.Proofs.Check.Partials
import TypedConfig.Proofs.Order.Fields
import TypedConfig.Proofs.Tiling
import TypedConfig.Proofs.Operators
import TypedConfig.Proofs.Check.Reported
import TypedConfig.Proofs.Lengths
import TypedConfig.Proofs.TypeText
import TypedConfig.Proofs.Yaml.Wrapped
import TypedConfig.Proofs.Paths
import TypedConfig.Proofs.Unserializable
import TypedConfig.Proofs.Written.Strings
import TypedConfig.Proofs.Schema.Faults
