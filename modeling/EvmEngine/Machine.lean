import EvmEngine.Calls
import EvmEngine.Instruction
import EvmEngine.Watch

/-!
The run of one tree of frames. The machine holds the frames that are open, the innermost first; only
that one runs, and each other one waits for the result of the frame above it. One iteration either
runs one instruction of the innermost frame, and enters the frame it asks for, or finishes an
innermost frame that has ended and hands its result to the one below.
-/

namespace EvmEngine

structure Machine where
  ledger : Ledger
  frames : List Frame
  watch : Watch

/-- What the counter of a frame points at. -/
inductive Fetched
  | interrupted
  | endOfCode
  | illegal (byte : UInt8)
  | instruction (entry : OpcodeEntry)
  deriving DecidableEq

namespace Frame

def fetch (f : Frame) (host : Host) (interrupted : Bool) : Fetched :=
  if interrupted then .interrupted
  else
    match f.currentByte? with
    | none => .endOfCode
    | some byte =>
        match host.table.get? byte with
        | none => .illegal byte
        | some entry => .instruction entry

def event (f : Frame) (opcode : Opcode) : Event :=
  ⟨f.env.depth, f.pc, opcode, f.gas, f.stack.size⟩

end Frame

namespace OpcodeEntry

/-- Checks the stack, charges the base price and runs the instruction. -/
def dispatch (entry : OpcodeEntry) (host : Host) : Exec Control := do
  match (← Exec.frame).stack.require entry.inputs entry.outputs with
  | .error cause => Exec.fail cause
  | .ok () => pure ()
  Exec.spend entry.baseGas
  entry.opcode.perform host

end OpcodeEntry

namespace Control

/-- Whether the counter moves on to the next instruction. -/
def advances : Control → Bool
  | next | call _ | create _ => true
  | jumped | halted => false

end Control

namespace Focus

/-- Runs one instruction. A fault ends the frame; any other error is passed on. -/
def step (s : Focus) (host : Host) (fetched : Fetched) :
    EStateM.Result EngineError Focus Control :=
  match fetched with
  | .interrupted => .ok .halted { s with frame := s.frame.halted (.faulted .outOfGas) }
  | .endOfCode => .ok .halted { s with frame := s.frame.halted .stopped }
  | .illegal byte => .ok .halted { s with frame := s.frame.halted (.faulted (.illegalOperation byte)) }
  | .instruction entry =>
      match entry.dispatch host s with
      | .ok control s =>
          .ok control (if control.advances then { s with frame := s.frame.advance 1 } else s)
      | .error (.fault cause) s =>
          .ok .halted { s with frame := s.frame.halted (.faulted cause) }
      | .error e s => .error e s

end Focus

/-- What one iteration leads to. -/
inductive Progress
  | more (m : Machine)
  | finished (result : CallResult) (m : Machine)
  | failed (error : EngineError) (m : Machine)

namespace Machine

/-- Hands a result to a frame, the innermost of those given. -/
def deliver (m : Machine) (result : CallResult) (target : ReturnTarget) (frame : Frame)
    (below : List Frame) : Progress :=
  match Frame.absorb result target frame with
  | .ok () frame => .more { m with frames := frame :: below }
  | .error cause frame => .failed (.fault cause) { m with frames := frame :: below }

/-- Sets up what the innermost frame asked for. -/
def enter (m : Machine) (action : Journaled (Prepared × ReturnTarget)) (frame : Frame)
    (below : List Frame) : Progress :=
  match action m.ledger with
  | .error e ledger => .failed e { m with ledger, frames := frame :: below }
  | .ok (prepared, target) ledger =>
      let m := { m with ledger }
      match prepared with
      | .finished result => m.deliver result target frame below
      | .enter child => .more { m with frames := child :: frame :: below }

/-- Goes on after an instruction of the innermost frame. -/
def follow (m : Machine) (host : Host) (control : Control) (frame : Frame)
    (below : List Frame) : Progress :=
  let depth := frame.env.depth + 1
  match control with
  | .next | .jumped | .halted => .more { m with frames := frame :: below }
  | .call request =>
      m.enter (do return (← request.prepare host frame.env.tx depth, request.target)) frame below
  | .create request =>
      m.enter (do
        let (prepared, address) ← request.prepare host frame.env.tx depth
        return (prepared, .account (address.getD 0))) frame below

/-- One iteration. -/
def advance (m : Machine) (host : Host) : Progress :=
  match m.frames with
  | [] => .failed (.run .noFrame) m
  | frame :: below =>
      if frame.isRunning then
        let fetched := frame.fetch host m.watch.interrupted
        let watch :=
          match fetched with
          | .instruction entry => m.watch.dispatch (frame.event entry.opcode)
          | _ => m.watch
        match Focus.step ⟨frame, m.ledger⟩ host fetched with
        | .ok control s =>
            follow { m with ledger := s.ledger, watch } host control s.frame below
        | .error e s =>
            .failed e { ledger := s.ledger, watch, frames := s.frame :: below }
      else
        match frame.complete host m.ledger with
        | .error e ledger => .failed e { m with ledger, frames := below }
        | .ok result ledger =>
            match below with
            | [] => .finished result { m with ledger, frames := [] }
            | parent :: rest => deliver { m with ledger } result frame.target parent rest

/-- Iterates until the outermost frame is finished or an error stops the run, at most `fuel`
times. -/
def iterate (host : Host) : Nat → Machine → Progress
  | 0, m => .more m
  | fuel + 1, m =>
      match m.advance host with
      | .more m => iterate host fuel m
      | other => other

/-- More iterations than any run under the prices of an upgrade takes. Prices set to zero can make a
run longer than the gas tells; the second term leaves room for that. -/
def iterationBound (gas : UInt64) : Nat :=
  3 * gas.toNat + UInt64.size

/-- Rolls back the checkpoint of every open frame. -/
def unwind (m : Machine) : Ledger :=
  m.frames.foldl (fun l _ => Journaled.discard l) m.ledger

end Machine

/-- What a run leaves behind. -/
structure RunOutcome where
  result : Except EngineError CallResult
  ledger : Ledger
  watch : Watch

namespace Progress

/-- The outcome of a run. One that failed or was given up rolls back every frame still open. -/
def outcome : Progress → RunOutcome
  | finished result m => ⟨.ok result, m.ledger, m.watch⟩
  | failed error m => ⟨.error error, m.unwind, m.watch⟩
  | more m => ⟨.error (.run .stepLimit), m.unwind, m.watch⟩

end Progress

namespace Machine

/-- Runs a frame, whose checkpoint is open, and every frame below it. -/
def run (host : Host) (root : Frame) (ledger : Ledger) (watch : Watch) : RunOutcome :=
  (iterate host (iterationBound root.gas) ⟨ledger, [root], watch⟩).outcome

end Machine
end EvmEngine
