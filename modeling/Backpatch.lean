import Backpatch.Compile
import Backpatch.Document.Options
import Backpatch.Document.Program
import Backpatch.Envelope
import Backpatch.Program.Equality
import Backpatch.Proofs.BooleanLaws
import Backpatch.Proofs.BufferHistory
import Backpatch.Proofs.Capacity
import Backpatch.Proofs.Checked
import Backpatch.Proofs.DecimalReading
import Backpatch.Proofs.DirectEmission
import Backpatch.Proofs.GivenSlots
import Backpatch.Proofs.InstructionStreams
import Backpatch.Proofs.LoadedImage
import Backpatch.Proofs.LoopBounds
import Backpatch.Proofs.NameIndependence
import Backpatch.Proofs.NameResolution
import Backpatch.Proofs.NativeStubs
import Backpatch.Proofs.OpenSites
import Backpatch.Proofs.PositionIndependence
import Backpatch.Proofs.ProgramDocuments
import Backpatch.Proofs.ScopeHistory
import Backpatch.Proofs.ScopeNumbers
import Backpatch.Proofs.SemanticPreservation
import Backpatch.Proofs.ShortCircuit
import Backpatch.Proofs.StoredImage
import Backpatch.Proofs.StringLiterals
import Backpatch.Proofs.Surroundings
import Backpatch.Proofs.TableLimits
import Backpatch.Proofs.TypeCache
import Backpatch.Proofs.VariableAccess
