import BoltzmannSampling.Main
import BoltzmannSampling.Numeric.Brent
import BoltzmannSampling.Numeric.SpectralRadius
import BoltzmannSampling.Session.Summary
import BoltzmannSampling.Specification.Check
import BoltzmannSampling.Specification.Document
import BoltzmannSampling.Structure.Flat
import BoltzmannSampling.Structure.Shape
import BoltzmannSampling.Structure.Statistics
import BoltzmannSampling.Tuning.Loading
import BoltzmannSampling.Tuning.Solver
import BoltzmannSampling.Tuning.Writing
import BoltzmannSampling.Proofs.Checks
import BoltzmannSampling.Proofs.Specification.Resolved
import BoltzmannSampling.Proofs.Derivation.Basic
import BoltzmannSampling.Proofs.Digraph
import BoltzmannSampling.Proofs.Derivation.Productive
import BoltzmannSampling.Proofs.Derivation.WellFounded
import BoltzmannSampling.Proofs.Sampler.Accounts
import BoltzmannSampling.Proofs.Sampler.Window
import BoltzmannSampling.Proofs.Derivation.Flat
import BoltzmannSampling.Proofs.Sampler.Decisions
import BoltzmannSampling.Proofs.Sampler.Plans
import BoltzmannSampling.Proofs.Derivation.Auxiliary
import BoltzmannSampling.Proofs.Sampler.Turns
import BoltzmannSampling.Proofs.Sampler.Scripts
import BoltzmannSampling.Proofs.Sampler.Filling
import BoltzmannSampling.Proofs.Sampler.Validity
import BoltzmannSampling.Proofs.Sampler.Completion
import BoltzmannSampling.Proofs.Sampler.Descent
import BoltzmannSampling.Proofs.Sampler.Bijection
import BoltzmannSampling.Proofs.Number.Binary64
import BoltzmannSampling.Proofs.Numeric.Rational
import BoltzmannSampling.Proofs.Tuning.Terms
import BoltzmannSampling.Proofs.Tuning.Branching
import BoltzmannSampling.Proofs.Tuning.Law
import BoltzmannSampling.Proofs.Tuning.Generating
import BoltzmannSampling.Proofs.Assoc
import BoltzmannSampling.Proofs.Specification.Acceptance
import BoltzmannSampling.Proofs.Specification.Document
import BoltzmannSampling.Proofs.Sampler.Waiting
import BoltzmannSampling.Proofs.Sampler.Stages
import BoltzmannSampling.Proofs.Sampler.Advance
import BoltzmannSampling.Proofs.Sampler.Picks
import BoltzmannSampling.Proofs.Sampler.Steady
import BoltzmannSampling.Proofs.Sampler.Ending
import BoltzmannSampling.Proofs.Sampler.Stopping
import BoltzmannSampling.Proofs.Json.Numerals
import BoltzmannSampling.Proofs.Json.Printing
import BoltzmannSampling.Proofs.Table.Column
import BoltzmannSampling.Proofs.Table.Printing
import BoltzmannSampling.Proofs.Tuning.Data
import BoltzmannSampling.Proofs.Tuning.Documents
import BoltzmannSampling.Proofs.Tuning.Reloading
import BoltzmannSampling.Proofs.Derivation.ZeroSize
import BoltzmannSampling.Proofs.Numeric.LinearSystem
import BoltzmannSampling.Proofs.Numeric.Nilpotent
import BoltzmannSampling.Proofs.Specification.Table
import BoltzmannSampling.Proofs.Derivation.Flaws
import BoltzmannSampling.Proofs.Tuning.AtZero
import BoltzmannSampling.Proofs.Tuning.ExpectedSize
import BoltzmannSampling.Proofs.Tuning.Occurrences
import BoltzmannSampling.Proofs.Tuning.Rejection
import BoltzmannSampling.Proofs.Specification.Escapes
import BoltzmannSampling.Proofs.Specification.Admission
import BoltzmannSampling.Proofs.Tuning.Escapes
import BoltzmannSampling.Proofs.Derivation.Reordering
import BoltzmannSampling.Proofs.Specification.Sharing
import BoltzmannSampling.Proofs.Number.Equality
import BoltzmannSampling.Proofs.Tuning.EqualSettings
import BoltzmannSampling.Proofs.Session.Tunings
import BoltzmannSampling.Proofs.Pool
import BoltzmannSampling.Proofs.Sampler.Jobs
import BoltzmannSampling.Proofs.Sampler.Interleavings
import BoltzmannSampling.Proofs.Tuning.Polynomials
import BoltzmannSampling.Proofs.Numeric.Contraction
import BoltzmannSampling.Proofs.Tuning.Rounds
import BoltzmannSampling.Proofs.Tuning.Monotonicity
import BoltzmannSampling.Proofs.Components
import BoltzmannSampling.Proofs.Specification.Components
import BoltzmannSampling.Proofs.Derivation.Contents
import BoltzmannSampling.Proofs.Sampler.DeadTypes
import BoltzmannSampling.Proofs.Tuning.Levels
import BoltzmannSampling.Proofs.Number.Order
import BoltzmannSampling.Proofs.Number.Rounding
import BoltzmannSampling.Proofs.Sampler.Choices
import BoltzmannSampling.Proofs.Sampler.Thresholds
import BoltzmannSampling.Proofs.Tuning.Singularity
import BoltzmannSampling.Proofs.Sampler.Continuations
import BoltzmannSampling.Proofs.Sampler.Nesting
import BoltzmannSampling.Proofs.Sampler.Anticipation
import BoltzmannSampling.Proofs.Random.Stream
import BoltzmannSampling.Proofs.Sampler.Buffering
import BoltzmannSampling.Proofs.Structure.Flat
import BoltzmannSampling.Proofs.Specification.Order
import BoltzmannSampling.Proofs.Tuning.Listing
import BoltzmannSampling.Proofs.Number.Halving
import BoltzmannSampling.Proofs.Tuning.Windows
import BoltzmannSampling.Proofs.Structure.Nested
import BoltzmannSampling.Proofs.Structure.Traversals
import BoltzmannSampling.Proofs.Number.Integers
import BoltzmannSampling.Proofs.Tuning.Problem
import BoltzmannSampling.Proofs.Table.Reordering
import BoltzmannSampling.Proofs.Tuning.RowOrder
import BoltzmannSampling.Proofs.Number.Quotients
import BoltzmannSampling.Proofs.Number.Shortest
import BoltzmannSampling.Proofs.Text.Spelling
import BoltzmannSampling.Proofs.Text.Numerals
import BoltzmannSampling.Proofs.Json.Doubles
import BoltzmannSampling.Proofs.Table.Doubles
import BoltzmannSampling.Proofs.Annotations
import BoltzmannSampling.Proofs.Structure.Counting
import BoltzmannSampling.Proofs.Sampler.Frequencies
