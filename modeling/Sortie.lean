import Sortie.Machine
import Sortie.Main
import Sortie.Proofs.Compilation.Pointing
import Sortie.Proofs.Fleet.Chain
import Sortie.Proofs.Fleet.Partition
import Sortie.Proofs.Fleet.Words
import Sortie.Proofs.Machine.Consistency
import Sortie.Proofs.Machine.Filing
import Sortie.Proofs.Markup.Document
import Sortie.Proofs.Mission.Places
import Sortie.Proofs.Mission.Redundancy
import Sortie.Proofs.Mission.Reliance
import Sortie.Proofs.Placemark.Accounting
import Sortie.Proofs.Placemark.Respelling
import Sortie.Proofs.Program.Arguments
import Sortie.Proofs.Program.Conditions
import Sortie.Proofs.Program.Quotation
import Sortie.Proofs.Program.Scope
import Sortie.Proofs.Script.Guidance
import Sortie.Proofs.Script.Relaxed
import Sortie.Proofs.Script.Viability
import Sortie.Proofs.Token.Numerals
import Sortie.Proofs.Token.Writing
import Sortie.Proofs.Workspace.Coverage
import Sortie.Proofs.Workspace.Reloading
