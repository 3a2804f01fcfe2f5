import EvmEngine.Schedule

/-!
The instruction set. Instructions that differ only in the function they apply, or in a count, are
one constructor with a parameter, so that a statement about instructions has one case for each
effect on the machine.
-/

namespace EvmEngine

inductive UnaryOp
  | isZero | not
  deriving DecidableEq

inductive BinaryOp
  | add | mul | sub | div | signedDiv | mod | signedMod | signExtend
  | less | greater | signedLess | signedGreater | equal
  | and | or | xor | byte | shiftLeft | shiftRight | arithmeticShiftRight
  deriving DecidableEq

inductive TernaryOp
  | addMod | mulMod
  deriving DecidableEq

/-- A word the frame itself can tell. -/
inductive FrameQuery
  | address | origin | caller | callValue | callDataSize | codeSize | gasPrice | returnDataSize
  | coinbase | timestamp | number | difficulty | gasLimit | chainId | programCounter | memorySize
  | gas
  deriving DecidableEq

/-- A word about another account. -/
inductive AccountQuery
  | balance | codeSize | codeHash
  deriving DecidableEq

/-- A byte string of the frame that can be copied to its memory. -/
inductive CopySource
  | callData | code
  deriving DecidableEq

/-- The four ways to run the code of an existing account. -/
inductive CallScheme
  | call | callCode | delegateCall | staticCall
  deriving DecidableEq

/-- The two ways to derive the address of a new account. -/
inductive CreateScheme
  | byNonce | bySalt
  deriving DecidableEq

inductive Opcode
  | stop
  | unary (op : UnaryOp)
  | binary (op : BinaryOp)
  | ternary (op : TernaryOp)
  | exp
  | sha3
  | query (what : FrameQuery)
  | account (what : AccountQuery)
  | selfBalance
  | callDataLoad
  | copy (source : CopySource)
  | returnDataCopy
  | extCodeCopy
  | blockHash
  | pop
  | mload
  | mstore
  | mstore8
  | sload
  | sstore
  | jump
  | jumpIf
  | jumpDest
  /-- Pushes one byte more than the parameter says. -/
  | push (n : Fin 32)
  | dup (n : Fin 16)
  | swap (n : Fin 16)
  | log (topics : Fin 5)
  | create (scheme : CreateScheme)
  | call (scheme : CallScheme)
  | ret
  | revert
  | selfDestruct
  deriving DecidableEq

/-- The number of bytes that follow a byte as the operand of a push, if it is one. -/
def pushSize? (byte : UInt8) : Option Nat :=
  if 0x60 ≤ byte && byte ≤ 0x7f then some (byte.toNat - 0x5f) else none

namespace Opcode

/-- Every instruction, in the order of its byte. -/
def all : List Opcode :=
  [stop, binary .add, binary .mul, binary .sub, binary .div, binary .signedDiv, binary .mod,
    binary .signedMod, ternary .addMod, ternary .mulMod, exp, binary .signExtend,
    binary .less, binary .greater, binary .signedLess, binary .signedGreater, binary .equal,
    unary .isZero, binary .and, binary .or, binary .xor, unary .not, binary .byte,
    binary .shiftLeft, binary .shiftRight, binary .arithmeticShiftRight, sha3,
    query .address, account .balance, query .origin, query .caller, query .callValue,
    callDataLoad, query .callDataSize, copy .callData, query .codeSize, copy .code,
    query .gasPrice, account .codeSize, extCodeCopy, query .returnDataSize, returnDataCopy,
    account .codeHash, blockHash, query .coinbase, query .timestamp, query .number,
    query .difficulty, query .gasLimit, query .chainId, selfBalance, pop, mload, mstore, mstore8,
    sload, sstore, jump, jumpIf, query .programCounter, query .memorySize, query .gas, jumpDest]
  ++ (List.finRange 32).map push ++ (List.finRange 16).map dup ++ (List.finRange 16).map swap
  ++ (List.finRange 5).map log
  ++ [create .byNonce, call .call, call .callCode, ret, call .delegateCall, create .bySalt,
    call .staticCall, revert, selfDestruct]

def toByte : Opcode → UInt8
  | stop => 0x00
  | binary .add => 0x01
  | binary .mul => 0x02
  | binary .sub => 0x03
  | binary .div => 0x04
  | binary .signedDiv => 0x05
  | binary .mod => 0x06
  | binary .signedMod => 0x07
  | ternary .addMod => 0x08
  | ternary .mulMod => 0x09
  | exp => 0x0a
  | binary .signExtend => 0x0b
  | binary .less => 0x10
  | binary .greater => 0x11
  | binary .signedLess => 0x12
  | binary .signedGreater => 0x13
  | binary .equal => 0x14
  | unary .isZero => 0x15
  | binary .and => 0x16
  | binary .or => 0x17
  | binary .xor => 0x18
  | unary .not => 0x19
  | binary .byte => 0x1a
  | binary .shiftLeft => 0x1b
  | binary .shiftRight => 0x1c
  | binary .arithmeticShiftRight => 0x1d
  | sha3 => 0x20
  | query .address => 0x30
  | account .balance => 0x31
  | query .origin => 0x32
  | query .caller => 0x33
  | query .callValue => 0x34
  | callDataLoad => 0x35
  | query .callDataSize => 0x36
  | copy .callData => 0x37
  | query .codeSize => 0x38
  | copy .code => 0x39
  | query .gasPrice => 0x3a
  | account .codeSize => 0x3b
  | extCodeCopy => 0x3c
  | query .returnDataSize => 0x3d
  | returnDataCopy => 0x3e
  | account .codeHash => 0x3f
  | blockHash => 0x40
  | query .coinbase => 0x41
  | query .timestamp => 0x42
  | query .number => 0x43
  | query .difficulty => 0x44
  | query .gasLimit => 0x45
  | query .chainId => 0x46
  | selfBalance => 0x47
  | pop => 0x50
  | mload => 0x51
  | mstore => 0x52
  | mstore8 => 0x53
  | sload => 0x54
  | sstore => 0x55
  | jump => 0x56
  | jumpIf => 0x57
  | query .programCounter => 0x58
  | query .memorySize => 0x59
  | query .gas => 0x5a
  | jumpDest => 0x5b
  | push n => 0x60 + UInt8.ofNat n
  | dup n => 0x80 + UInt8.ofNat n
  | swap n => 0x90 + UInt8.ofNat n
  | log n => 0xa0 + UInt8.ofNat n
  | create .byNonce => 0xf0
  | call .call => 0xf1
  | call .callCode => 0xf2
  | ret => 0xf3
  | call .delegateCall => 0xf4
  | create .bySalt => 0xf5
  | call .staticCall => 0xfa
  | revert => 0xfd
  | selfDestruct => 0xff

/-- The instruction a byte stands for in the newest instruction set. -/
def ofByte? (byte : UInt8) : Option Opcode :=
  all.find? (·.toByte == byte)

/-- The name with the capitals of its parts; in upper case it is the mnemonic. -/
def name : Opcode → String
  | stop => "Stop"
  | binary .add => "Add"
  | binary .mul => "Mul"
  | binary .sub => "Sub"
  | binary .div => "Div"
  | binary .signedDiv => "SDiv"
  | binary .mod => "Mod"
  | binary .signedMod => "SMod"
  | ternary .addMod => "AddMod"
  | ternary .mulMod => "MulMod"
  | exp => "Exp"
  | binary .signExtend => "SignExtend"
  | binary .less => "Lt"
  | binary .greater => "Gt"
  | binary .signedLess => "SLt"
  | binary .signedGreater => "SGt"
  | binary .equal => "Eq"
  | unary .isZero => "IsZero"
  | binary .and => "And"
  | binary .or => "Or"
  | binary .xor => "Xor"
  | unary .not => "Not"
  | binary .byte => "Byte"
  | binary .shiftLeft => "Shl"
  | binary .shiftRight => "Shr"
  | binary .arithmeticShiftRight => "Sar"
  | sha3 => "Sha3"
  | query .address => "Address"
  | account .balance => "Balance"
  | query .origin => "Origin"
  | query .caller => "Caller"
  | query .callValue => "CallValue"
  | callDataLoad => "CallDataLoad"
  | query .callDataSize => "CallDataSize"
  | copy .callData => "CallDataCopy"
  | query .codeSize => "CodeSize"
  | copy .code => "CodeCopy"
  | query .gasPrice => "GasPrice"
  | account .codeSize => "ExtCodeSize"
  | extCodeCopy => "ExtCodeCopy"
  | query .returnDataSize => "ReturnDataSize"
  | returnDataCopy => "ReturnDataCopy"
  | account .codeHash => "ExtCodeHash"
  | blockHash => "BlockHash"
  | query .coinbase => "Coinbase"
  | query .timestamp => "Timestamp"
  | query .number => "Number"
  | query .difficulty => "Difficulty"
  | query .gasLimit => "GasLimit"
  | query .chainId => "ChainId"
  | selfBalance => "SelfBalance"
  | pop => "Pop"
  | mload => "MLoad"
  | mstore => "MStore"
  | mstore8 => "MStore8"
  | sload => "SLoad"
  | sstore => "SStore"
  | jump => "Jump"
  | jumpIf => "JumpI"
  | query .programCounter => "Pc"
  | query .memorySize => "MSize"
  | query .gas => "Gas"
  | jumpDest => "JumpDest"
  | push n => "Push" ++ toString (n.val + 1)
  | dup n => "Dup" ++ toString (n.val + 1)
  | swap n => "Swap" ++ toString (n.val + 1)
  | log n => "Log" ++ toString n.val
  | create .byNonce => "Create"
  | call .call => "Call"
  | call .callCode => "CallCode"
  | ret => "Return"
  | call .delegateCall => "DelegateCall"
  | create .bySalt => "Create2"
  | call .staticCall => "StaticCall"
  | revert => "Revert"
  | selfDestruct => "SelfDestruct"

def mnemonic (op : Opcode) : String :=
  op.name.toUpper

/-- The number of bytes that follow the instruction in the code, if it is a push. -/
def operandSize? : Opcode → Option Nat
  | push n => some (n.val + 1)
  | _ => none

def topicCount? : Opcode → Option Nat
  | log n => some n.val
  | _ => none

/-- Whether the instruction ends its frame in the normal way. -/
def isTerminating : Opcode → Bool
  | stop | ret | revert | selfDestruct => true
  | _ => false

/-- The number of words taken from the stack. -/
def inputs : Opcode → Nat
  | stop | query _ | selfBalance | jumpDest | push _ => 0
  | unary _ | account _ | callDataLoad | blockHash | pop | mload | sload | jump | selfDestruct => 1
  | binary _ | exp | sha3 | mstore | mstore8 | sstore | jumpIf | ret | revert => 2
  | ternary _ | copy _ | returnDataCopy | create .byNonce => 3
  | extCodeCopy | create .bySalt => 4
  | call .delegateCall | call .staticCall => 6
  | call .call | call .callCode => 7
  | dup n => n.val + 1
  | swap n => n.val + 2
  | log n => n.val + 2

/-- The number of words left on the stack in their place. -/
def outputs : Opcode → Nat
  | stop | copy _ | returnDataCopy | extCodeCopy | pop | mstore | mstore8 | sstore | jump | jumpIf
  | jumpDest | log _ | ret | revert | selfDestruct => 0
  | unary _ | binary _ | ternary _ | exp | sha3 | query _ | account _ | selfBalance | callDataLoad
  | blockHash | mload | sload | push _ | create _ | call _ => 1
  | dup n => n.val + 2
  | swap n => n.val + 2

/-- The upgrade that introduced the instruction. -/
def introduced : Opcode → Fork
  | call .delegateCall => .homestead
  | query .returnDataSize | returnDataCopy | call .staticCall | revert => .byzantium
  | binary .shiftLeft | binary .shiftRight | binary .arithmeticShiftRight | account .codeHash
  | create .bySalt => .constantinople
  | query .chainId | selfBalance => .istanbul
  | _ => .frontier

/-- The price charged before the instruction runs, whatever its operands. -/
def baseGas (gas : GasSchedule) : Opcode → UInt64
  | stop | sstore | ret | revert => Tier.zero
  | query _ | pop => Tier.base
  | binary .mul | binary .div | binary .signedDiv | binary .mod | binary .signedMod
  | binary .signExtend | selfBalance => Tier.low
  | unary _ | binary _ | callDataLoad | copy _ | returnDataCopy | mload | mstore | mstore8
  | push _ | dup _ | swap _ => Tier.veryLow
  | ternary _ | jump => Tier.mid
  | jumpIf => Tier.high
  | exp => Tier.exp
  | jumpDest => Tier.jumpDest
  | sha3 => gas.sha3
  | account .balance => gas.balance
  | account .codeSize | extCodeCopy => gas.extCode
  | account .codeHash => gas.extCodeHash
  | blockHash => gas.blockHash
  | sload => gas.sload
  | log n => gas.log + gas.logTopic * UInt64.ofNat n.val
  | create _ => gas.create
  | call _ => gas.call
  | selfDestruct => gas.selfDestruct

end Opcode
end EvmEngine
