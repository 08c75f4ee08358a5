import ModularLisp.CommandLine.Basic
import ModularLisp.Main
import ModularLisp.Proofs.Ends
import ModularLisp.Proofs.Moments
import ModularLisp.Proofs.Effect
import ModularLisp.Proofs.Frame
import ModularLisp.Proofs.CanonicalPaths
import ModularLisp.Proofs.LoadStack
import ModularLisp.Proofs.ImportCycle
import ModularLisp.Proofs.ImportMerge
import ModularLisp.Proofs.PlainForms
import ModularLisp.Proofs.Renaming
import ModularLisp.Proofs.Similarity
import ModularLisp.Proofs.Isolation
import ModularLisp.Proofs.Grammar
import ModularLisp.Proofs.Adjacency
import ModularLisp.Proofs.Scan
import ModularLisp.Proofs.ReportedError
import ModularLisp.Proofs.NumberText
import ModularLisp.Proofs.Printing
import ModularLisp.Proofs.Reprinting
import ModularLisp.Proofs.Realm
import ModularLisp.Proofs.Confinement
import ModularLisp.Proofs.ScopeChain
import ModularLisp.Proofs.WellFormed
import ModularLisp.Proofs.Rules
import ModularLisp.Proofs.RuleSteps
import ModularLisp.Proofs.RulesAgree
import ModularLisp.Proofs.CallFree
import ModularLisp.Proofs.ReadBack
import ModularLisp.Proofs.FormByForm
import ModularLisp.Proofs.LineByLine
import ModularLisp.Proofs.Equality
import ModularLisp.Proofs.RepeatedImport
import ModularLisp.Proofs.HiddenNames
import ModularLisp.Proofs.Unmentioned
import ModularLisp.Proofs.FurtherLines
import ModularLisp.Proofs.Visibility
import ModularLisp.Proofs.CollectedExports
import ModularLisp.Proofs.FirstTrueClause
import ModularLisp.Proofs.ParameterBinding
import ModularLisp.Proofs.EqualScopes
import ModularLisp.Proofs.NestedCauses
import ModularLisp.Proofs.TrimmedLine
import ModularLisp.Proofs.Comments
