import EvmEngine.Exec

/-!
The instructions that ask: about the frame, about an account, about the hash of an earlier block.
-/

namespace EvmEngine

def FrameQuery.answer (f : Frame) : FrameQuery → Word
  | address => f.env.address.toWord
  | origin => f.env.origin.toWord
  | caller => f.env.caller.toWord
  | callValue => f.env.value
  | callDataSize => BitVec.ofNat 256 f.env.data.size
  | codeSize => BitVec.ofNat 256 f.code.size
  | gasPrice => f.env.gasPrice
  | returnDataSize => BitVec.ofNat 256 f.returnData.size
  | coinbase => f.env.block.coinbase.toWord
  | timestamp => Word.ofUInt64 f.env.block.timestamp
  | number => Word.ofUInt64 f.env.block.number
  | difficulty => f.env.block.difficulty
  | gasLimit => Word.ofUInt64 f.env.block.gasLimit
  | chainId => Word.ofUInt64 f.env.block.chainId
  | programCounter => BitVec.ofNat 256 f.pc
  | memorySize => BitVec.ofNat 256 f.memory.size
  | gas => Word.ofUInt64 f.gas

/-- An empty account has no code hash, whether or not it exists. -/
def AccountQuery.answer (l : Ledger) (a : Address) : AccountQuery → Word
  | balance => l.balance a
  | codeSize => BitVec.ofNat 256 (l.code a).size
  | codeHash => if l.isEmpty a then 0 else l.codeHash a

namespace Instruction

/-- How many blocks back a hash can be asked for. -/
def blockHashWindow : UInt64 := 256

/-- The hash of a block in the window that ends before the current one. -/
def blockHashAt (host : Host) (current : UInt64) (requested : Word) : Word :=
  match requested.toUInt64? with
  | none => 0
  | some number =>
      if number < current ∧ current - number ≤ blockHashWindow then (host.blockHash number).getD 0
      else 0

/-- What PUSH reads: the bytes after the instruction, zero past the end of the code. -/
def pushOperand (f : Frame) (size : Nat) : Word :=
  Word.ofBytes (Bytes.window f.code (f.pc + 1) size)

end Instruction
end EvmEngine
