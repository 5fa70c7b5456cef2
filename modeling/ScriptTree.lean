import ScriptTree.Main
import ScriptTree.Proofs.ActionLaws
import ScriptTree.Proofs.AllOrNothing
import ScriptTree.Proofs.BindingValues
import ScriptTree.Proofs.Brackets
import ScriptTree.Proofs.CacheHistories
import ScriptTree.Proofs.CacheTransparency
import ScriptTree.Proofs.CommandLine
import ScriptTree.Proofs.ComparisonChains
import ScriptTree.Proofs.DiskLaws
import ScriptTree.Proofs.DoubledSigns
import ScriptTree.Proofs.Draft
import ScriptTree.Proofs.EventTrail
import ScriptTree.Proofs.ExprLayers
import ScriptTree.Proofs.FieldCounts
import ScriptTree.Proofs.InitialNames
import ScriptTree.Proofs.JsonNumbers
import ScriptTree.Proofs.JsonText
import ScriptTree.Proofs.JsonWriting
import ScriptTree.Proofs.LeadingBindings
import ScriptTree.Proofs.LoadRoundTrip
import ScriptTree.Proofs.NestedTexts
import ScriptTree.Proofs.Nesting
import ScriptTree.Proofs.Occurrences
import ScriptTree.Proofs.Offences
import ScriptTree.Proofs.ParameterLists
import ScriptTree.Proofs.Passes
import ScriptTree.Proofs.Places
import ScriptTree.Proofs.RecordFields
import ScriptTree.Proofs.Refusals
import ScriptTree.Proofs.SameContent
import ScriptTree.Proofs.ScalarConstants
import ScriptTree.Proofs.Schema
import ScriptTree.Proofs.ScopeDiscipline
import ScriptTree.Proofs.ScopeHistories
import ScriptTree.Proofs.ScriptEvents
import ScriptTree.Proofs.SignedOperands
import ScriptTree.Proofs.Simulation
import ScriptTree.Proofs.TemplateText
import ScriptTree.Proofs.TreeCodec
import ScriptTree.Proofs.UniqueReading
import ScriptTree.Proofs.VarPlacement
import ScriptTree.Tree.Encode
