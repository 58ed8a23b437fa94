import PatchWeaver.Main
import PatchWeaver.Proofs.WovenFlow
import PatchWeaver.Proofs.Effects
import PatchWeaver.Proofs.CallOperands
import PatchWeaver.Proofs.Reuse
import PatchWeaver.Proofs.LabelIdentity
import PatchWeaver.Proofs.References
import PatchWeaver.Proofs.Commuting
import PatchWeaver.Proofs.CanonicalForms
import PatchWeaver.Proofs.Precedence
import PatchWeaver.Proofs.Acceptance
import PatchWeaver.Proofs.Redirection
import PatchWeaver.Proofs.Declaring
import PatchWeaver.Proofs.Cancellation
import PatchWeaver.Proofs.Counting
import PatchWeaver.Proofs.Registration
import PatchWeaver.Proofs.Signatures
import PatchWeaver.Proofs.Shifting
import PatchWeaver.Proofs.Repeating
import PatchWeaver.Proofs.DepthBounds
import PatchWeaver.Proofs.Aliasing
import PatchWeaver.Proofs.Repetition
import PatchWeaver.Proofs.Assembling
