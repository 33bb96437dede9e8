import TreeStream.Main
import TreeStream.Model.Inspected
import TreeStream.Scenario.Session
import TreeStream.Proofs.Triple
import TreeStream.Proofs.View
import TreeStream.Proofs.Coherence
import TreeStream.Proofs.Effects
import TreeStream.Proofs.Steps
import TreeStream.Proofs.Surroundings
import TreeStream.Proofs.Refinement
import TreeStream.Proofs.Flushes
import TreeStream.Proofs.Passes
import TreeStream.Proofs.Performing
import TreeStream.Proofs.Sessions
import TreeStream.Proofs.Nesting
import TreeStream.Proofs.Accounting
import TreeStream.Proofs.Whereabouts
import TreeStream.Proofs.Quiescence
import TreeStream.Proofs.RowTrees
import TreeStream.Proofs.Written
import TreeStream.Proofs.Tries
import TreeStream.Proofs.References
import TreeStream.Proofs.Dialogues
import TreeStream.Proofs.Rounds
import TreeStream.Proofs.Reentrance
import TreeStream.Proofs.Faithfulness
import TreeStream.Proofs.Transparency
import TreeStream.Proofs.Walks
import TreeStream.Proofs.Documents
import TreeStream.Proofs.DocumentOrder
import TreeStream.Proofs.Sparing
import TreeStream.Proofs.Flows
import TreeStream.Proofs.Pouring
import TreeStream.Proofs.Driving
import TreeStream.Proofs.Streams
import TreeStream.Proofs.Lines
import TreeStream.Proofs.Precedence
import TreeStream.Proofs.Framing
import TreeStream.Proofs.Frames
import TreeStream.Proofs.Meanwhile
import TreeStream.Proofs.Pausing
import TreeStream.Proofs.Handover
import TreeStream.Proofs.SingleRow
import TreeStream.Proofs.PlainData
import TreeStream.Proofs.Descents
import TreeStream.Proofs.Recounting
import TreeStream.Proofs.Resumption
import TreeStream.Proofs.Tokens
import TreeStream.Proofs.Substitutions
import TreeStream.Proofs.Likeness
import TreeStream.Proofs.Twins
import TreeStream.Proofs.TwinRuns
import TreeStream.Proofs.TwinWalks
import TreeStream.Proofs.TwinPasses
import TreeStream.Proofs.TwinCalls
import TreeStream.Proofs.TwinSessions
import TreeStream.Proofs.Wrapping
import TreeStream.Proofs.Diaries
import TreeStream.Proofs.Reactions
import TreeStream.Proofs.Grammar
import TreeStream.Proofs.Numbers
import TreeStream.Proofs.Scopes
import TreeStream.Proofs.HookScopes
import TreeStream.Proofs.Warnings
import TreeStream.Proofs.Strictness
import TreeStream.Proofs.Surfaces
import TreeStream.Proofs.PlainLines
import TreeStream.Proofs.SavedSettings
import TreeStream.Proofs.InsertionOrder
import TreeStream.Proofs.Registrations
