import ScriptMachine.Bytecode.Builder
import ScriptMachine.Interner
import ScriptMachine.Main
import ScriptMachine.Proofs.ChainedMap.Refinement
import ScriptMachine.Proofs.Heap.Collection
import ScriptMachine.Proofs.Machine.Conformance
import ScriptMachine.Proofs.Heap.Content
import ScriptMachine.Proofs.Stream.Delimited
import ScriptMachine.Proofs.Stream.Damage
import ScriptMachine.Proofs.Machine.Evolution
import ScriptMachine.Proofs.Machine.Overflow
import ScriptMachine.Proofs.Machine.Steady
import ScriptMachine.Proofs.Machine.Operations
import ScriptMachine.Proofs.Machine.Frames
import ScriptMachine.Proofs.Machine.Calls
import ScriptMachine.Proofs.Machine.Recovery
import ScriptMachine.Proofs.Machine.Instructions
import ScriptMachine.Proofs.Machine.Dispatch
import ScriptMachine.Proofs.Machine.Run
import ScriptMachine.Proofs.Machine.Entry
import ScriptMachine.Proofs.Machine.Threads
import ScriptMachine.Proofs.Machine.Balance
import ScriptMachine.Proofs.Machine.Unwinding
import ScriptMachine.Proofs.Heap.Classes
import ScriptMachine.Proofs.Heap.Delegates
import ScriptMachine.Proofs.Object.Members
import ScriptMachine.Proofs.Machine.Windows
import ScriptMachine.Proofs.Machine.Generators
import ScriptMachine.Proofs.Machine.Limits
import ScriptMachine.Proofs.Machine.Reports
import ScriptMachine.Proofs.Machine.Transparency
import ScriptMachine.Proofs.Machine.Sorting
import ScriptMachine.Proofs.Interner.Exactness
import ScriptMachine.Proofs.Machine.TailCalls
import ScriptMachine.Proofs.Bytecode.Building
import ScriptMachine.Proofs.Bytecode.Lines
import ScriptMachine.Proofs.Machine.Saving
import ScriptMachine.Proofs.Machine.Yielding
import ScriptMachine.Proofs.Machine.Laps
import ScriptMachine.Proofs.Machine.Concatenation
import ScriptMachine.Proofs.Object.TypeMasks
import ScriptMachine.Proofs.ChainedMap.Sizing
import ScriptMachine.Proofs.Machine.Literals
