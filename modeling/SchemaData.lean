import SchemaData.BoundType
import SchemaData.Config
import SchemaData.Conformance
import SchemaData.Document.Schema
import SchemaData.Generator.Values
import SchemaData.Module.Builder
import SchemaData.Random.ChaCha
import SchemaData.Random.Scripted
import SchemaData.Random.Source
import SchemaData.Random.Uniform
import SchemaData.Sampling
import SchemaData.Text.Blank
import SchemaData.TypeExpr.Dump
import SchemaData.Proofs.Chain
import SchemaData.Proofs.Conforms
import SchemaData.Proofs.Ensures
import SchemaData.Proofs.OneNode
import SchemaData.Proofs.Reach
import SchemaData.Proofs.WellTyped
import SchemaData.Proofs.Acyclic
import SchemaData.Proofs.Gives
import SchemaData.Proofs.Terminates
import SchemaData.Proofs.Attains
import SchemaData.Proofs.Complete
import SchemaData.Proofs.Indirection
import SchemaData.Proofs.Faults
import SchemaData.Proofs.Ends
import SchemaData.Proofs.Fuel
import SchemaData.Proofs.SourceMap
import SchemaData.Proofs.Watch
import SchemaData.Proofs.Guarded
import SchemaData.Proofs.Fallbacks
import SchemaData.Proofs.Paired
import SchemaData.Proofs.Judged
import SchemaData.Proofs.Growth
import SchemaData.Proofs.Under
import SchemaData.Proofs.Overridden
import SchemaData.Proofs.Closed
import SchemaData.Proofs.Alongside
import SchemaData.Proofs.Independence
import SchemaData.Proofs.Erasure
import SchemaData.Proofs.Building
import SchemaData.Proofs.Cycles
import SchemaData.Proofs.Sites
import SchemaData.Proofs.FirstFailure
import SchemaData.Proofs.Resolution
import SchemaData.Proofs.Rebuilding
import SchemaData.Proofs.WellFormed
import SchemaData.Proofs.Keyed
import SchemaData.Proofs.Names
import SchemaData.Proofs.ReadBack
import SchemaData.Proofs.Shares
import SchemaData.Proofs.Budget
