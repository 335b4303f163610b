import RegistryScript.Digest.ModuleId
import RegistryScript.Grammar.Module
import RegistryScript.Overlay.Source
import RegistryScript.Proofs.Commutation.Orders
import RegistryScript.Proofs.Conflict.Conversion
import RegistryScript.Proofs.Digest.Contents
import RegistryScript.Proofs.Envelope.Seams
import RegistryScript.Proofs.Faults.Completion
import RegistryScript.Proofs.Literal.Access
import RegistryScript.Proofs.Overlay.Arrangement
import RegistryScript.Proofs.Pass.Redirects
import RegistryScript.Proofs.Printing.Weave
import RegistryScript.Proofs.References.Constants
import RegistryScript.Proofs.Registration.Collection
import RegistryScript.Proofs.Registration.Exports
import RegistryScript.Proofs.Scoping.Resolution
import RegistryScript.Proofs.Scoping.Roles
import RegistryScript.Proofs.Script.Offsets
import RegistryScript.Proofs.Script.Positions
import RegistryScript.Proofs.Script.Ties
import RegistryScript.Proofs.Settings.Loading
import RegistryScript.Proofs.Settings.Names
import RegistryScript.Settings.File
import RegistryScript.Transform
