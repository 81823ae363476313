import LivePatch.Main
import LivePatch.Settings.LogFilter
import LivePatch.Proofs.Losslessness
import LivePatch.Proofs.Captures
import LivePatch.Proofs.Scanning.Readings
import LivePatch.Proofs.Scanning.Tokens
import LivePatch.Proofs.Scanning.Templates
import LivePatch.Proofs.Edges
import LivePatch.Proofs.Synthesized
import LivePatch.Proofs.Insertions
import LivePatch.Proofs.Cutting.Bounds
import LivePatch.Proofs.Cutting.Fits
import LivePatch.Proofs.Cutting.Templates
import LivePatch.Proofs.EditScripts
import LivePatch.Proofs.OutputTokens
import LivePatch.Proofs.ReferenceEdits
import LivePatch.Proofs.Scopes
import LivePatch.Proofs.TemplateTrees
import LivePatch.Proofs.Adjacency
import LivePatch.Proofs.Commutation
import LivePatch.Proofs.Idempotence
import LivePatch.Proofs.NameTemplates
import LivePatch.Proofs.Progress
import LivePatch.Proofs.WellFormedness
import LivePatch.Proofs.ReturnedValues
import LivePatch.Proofs.CastPositions
import LivePatch.Proofs.ReturnScopes
import LivePatch.Proofs.Walks
import LivePatch.Proofs.Grammar.Inert
import LivePatch.Proofs.Grammar.Precedence
import LivePatch.Proofs.CastOperands
import LivePatch.Proofs.CastTerms
import LivePatch.Proofs.Annotations
import LivePatch.Proofs.CommentOption
import LivePatch.Proofs.Enclosed.Transparency
import LivePatch.Proofs.Operations.RoundTrip
import LivePatch.Proofs.Phrases.Agreement
import LivePatch.Proofs.Phrases.Committed
import LivePatch.Proofs.Cursor.Tokens
import LivePatch.Proofs.Cutting.Alone
import LivePatch.Proofs.Following.Conditions
import LivePatch.Proofs.Following.Arms
import LivePatch.Proofs.Cutting.Holes
import LivePatch.Proofs.Diagnostics
import LivePatch.Proofs.Dumps
import LivePatch.Proofs.TriviaTransfer
import LivePatch.Proofs.TokenRanges
import LivePatch.Proofs.TemplateTexts
