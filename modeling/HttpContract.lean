import HttpContract.Main
import HttpContract.Proofs.Schema.Components
import HttpContract.Proofs.Body.RoundTrip
import HttpContract.Proofs.Body.Typing
import HttpContract.Proofs.Application.Serving
import HttpContract.Proofs.Application.Refusals
import HttpContract.Proofs.Agreement
import HttpContract.Proofs.Discriminators
import HttpContract.Proofs.Schema.Presence
import HttpContract.Proofs.Absence
import HttpContract.Proofs.Schema.Histories
import HttpContract.Proofs.Schema.Orders
import HttpContract.Proofs.BindingErrors
import HttpContract.Proofs.Body.Finite
import HttpContract.Proofs.Nesting
import HttpContract.Proofs.Supplying
import HttpContract.Proofs.Defaults
import HttpContract.Proofs.LowerCase
import HttpContract.Proofs.Application.Recording
import HttpContract.Proofs.Application.Documenting
import HttpContract.Proofs.Application.Finished
import HttpContract.Proofs.Parameters
import HttpContract.Proofs.Application.Accepting
import HttpContract.Proofs.Application.PathVariables
import HttpContract.Proofs.Application.OperationIds
import HttpContract.Proofs.Admission
import HttpContract.Proofs.Nulls
import HttpContract.Proofs.Schema.Limits
import HttpContract.Proofs.Application.AbsentAttributes
import HttpContract.Proofs.Acceptance
import HttpContract.Proofs.ArrayItems
import HttpContract.Proofs.Body.DeclaredKeys
import HttpContract.Proofs.Influence
import HttpContract.Proofs.Application.Extending
import HttpContract.Proofs.Route.Templates
import HttpContract.Proofs.Route.EncodedPaths
import HttpContract.Proofs.Route.PathLists
import HttpContract.Proofs.HeaderLists
import HttpContract.Proofs.Application.Selection
import HttpContract.Proofs.Body.Places
import HttpContract.Proofs.Attribution
import HttpContract.Proofs.NestedParameters
import HttpContract.Proofs.Schema.EnumeratedValues
import HttpContract.Proofs.MemberTexts
import HttpContract.Proofs.Schema.BuildFailures
import HttpContract.Proofs.Body.Placement
import HttpContract.Proofs.ConstraintOrder
import HttpContract.Proofs.IntegerFields
import HttpContract.Proofs.Route.Groups
import HttpContract.Proofs.Nullability
import HttpContract.Proofs.Schema.Beginnings
import HttpContract.Proofs.Body.Strictness
import HttpContract.Proofs.Application.TagTable
import HttpContract.Proofs.Schema.Wrapping
