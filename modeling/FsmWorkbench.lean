import FsmWorkbench.Container.Display
import FsmWorkbench.Editor.Session
import FsmWorkbench.Main
import FsmWorkbench.Proofs.Batch.Exiting
import FsmWorkbench.Proofs.Container.Circling
import FsmWorkbench.Proofs.Container.Failing
import FsmWorkbench.Proofs.Container.Inspection
import FsmWorkbench.Proofs.Container.Merging
import FsmWorkbench.Proofs.Container.Nesting
import FsmWorkbench.Proofs.Container.Ownership
import FsmWorkbench.Proofs.Container.Tally
import FsmWorkbench.Proofs.Container.Verdict
import FsmWorkbench.Proofs.Description.Consistency
import FsmWorkbench.Proofs.Description.Faithfulness
import FsmWorkbench.Proofs.Editor.Completing
import FsmWorkbench.Proofs.Editor.Describing
import FsmWorkbench.Proofs.Editor.Flagging
import FsmWorkbench.Proofs.Editor.Hushing
import FsmWorkbench.Proofs.Editor.Isolation
import FsmWorkbench.Proofs.Editor.Marking
import FsmWorkbench.Proofs.Editor.Mirroring
import FsmWorkbench.Proofs.Editor.Muting
import FsmWorkbench.Proofs.Editor.Offering
import FsmWorkbench.Proofs.Editor.Ordering
import FsmWorkbench.Proofs.Editor.Pointing
import FsmWorkbench.Proofs.Editor.Publishing
import FsmWorkbench.Proofs.Editor.Replacing
import FsmWorkbench.Proofs.Editor.Typing
import FsmWorkbench.Proofs.Layout.Indenting
import FsmWorkbench.Proofs.Layout.Reports
import FsmWorkbench.Proofs.Notation.Locating
import FsmWorkbench.Proofs.Services.Precedence
import FsmWorkbench.Proofs.Text.Indexing
import FsmWorkbench.Proofs.Text.Overstepping
import FsmWorkbench.Proofs.Validation.Breaches
import FsmWorkbench.Proofs.Validation.Warnings
