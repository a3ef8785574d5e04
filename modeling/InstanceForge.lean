import InstanceForge.Main
import InstanceForge.Proofs.Command.Nodes
import InstanceForge.Proofs.Command.Place
import InstanceForge.Proofs.Command.Warnings
import InstanceForge.Proofs.Config.Resolution
import InstanceForge.Proofs.Declaration.Namesakes
import InstanceForge.Proofs.Declaration.Remedy
import InstanceForge.Proofs.Declaration.Template
import InstanceForge.Proofs.Diagnostic.History
import InstanceForge.Proofs.Diagnostic.Record
import InstanceForge.Proofs.Emit.Digested
import InstanceForge.Proofs.Emit.ItemName
import InstanceForge.Proofs.Fingerprint.Digits
import InstanceForge.Proofs.Graph.Components
import InstanceForge.Proofs.Graph.Edges
import InstanceForge.Proofs.Graph.Turns
import InstanceForge.Proofs.Run.Agreement
import InstanceForge.Proofs.Run.Beside
import InstanceForge.Proofs.Run.Emission
import InstanceForge.Proofs.Run.Grouping
import InstanceForge.Proofs.Run.Loaded
import InstanceForge.Proofs.Run.Merging
import InstanceForge.Proofs.Run.Naming
import InstanceForge.Proofs.Run.Rehearsal
import InstanceForge.Proofs.Run.Rendering
import InstanceForge.Proofs.Schema.Registry.Indexed
import InstanceForge.Proofs.Schema.Registry.Repeats
import InstanceForge.Proofs.Schema.TypeRef.Misuse
import InstanceForge.Proofs.Schema.TypeRef.Viable
import InstanceForge.Proofs.SymbolTable.Keys
