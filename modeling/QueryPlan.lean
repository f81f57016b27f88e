import QueryPlan.Data.Value.Codec
import QueryPlan.Plan.Session
import QueryPlan.Plan.Assembly
import QueryPlan.Run.Answers
import QueryPlan.Proofs.Run.Turns
import QueryPlan.Proofs.Run.Watching
import QueryPlan.Proofs.Run.Limit
import QueryPlan.Proofs.Run.Firing
import QueryPlan.Proofs.Run.Steady
import QueryPlan.Proofs.Tree.Meaning
import QueryPlan.Proofs.Tree.Stepping
import QueryPlan.Proofs.Tree.Results
import QueryPlan.Proofs.Tree.Faults
import QueryPlan.Proofs.Run.History
import QueryPlan.Proofs.Tree.AnyContext
import QueryPlan.Proofs.Tree.Requests
import QueryPlan.Proofs.Tree.Stopping
import QueryPlan.Proofs.Data.Equality
import QueryPlan.Proofs.Run.Likeness
import QueryPlan.Proofs.Tree.Copies
import QueryPlan.Proofs.Tree.Membership
import QueryPlan.Proofs.Tree.Replay
import QueryPlan.Proofs.Tree.Chain
import QueryPlan.Proofs.Tree.Ending
import QueryPlan.Proofs.Tree.Pruning
import QueryPlan.Proofs.Tree.Fired
import QueryPlan.Proofs.Tree.Sizes
import QueryPlan.Proofs.Run.Transcript
import QueryPlan.Proofs.Tree.Testing
import QueryPlan.Proofs.Tree.Origins
import QueryPlan.Proofs.Run.Paging
import QueryPlan.Proofs.Tree.Flavours
import QueryPlan.Proofs.Tree.Reordering
import QueryPlan.Proofs.Tree.Bounds
import QueryPlan.Proofs.Json.Codecs
import QueryPlan.Proofs.Plan.Allocation
import QueryPlan.Proofs.Plan.Identities
import QueryPlan.Proofs.Plan.Cancelling
import QueryPlan.Proofs.Tree.Leaves
import QueryPlan.Proofs.Tree.Descriptions
import QueryPlan.Proofs.Tree.Releasing
import QueryPlan.Proofs.Tree.Publishing
import QueryPlan.Proofs.Tree.Tagging
import QueryPlan.Proofs.Data.References
import QueryPlan.Proofs.Plan.NameOrder
import QueryPlan.Proofs.Plan.TagHistory
import QueryPlan.Proofs.Plan.TagMerging
import QueryPlan.Proofs.Data.WrittenForms
import QueryPlan.Proofs.Json.Descriptions
import QueryPlan.Proofs.Run.Logging
import QueryPlan.Proofs.Tree.WellPlaced
import QueryPlan.Proofs.Data.HexText
import QueryPlan.Proofs.Data.Excerpts
