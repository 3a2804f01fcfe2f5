import EvmEngine.Opcode

/-!
The instructions that only compute: what each makes of its operands, the top of the stack first.
-/

namespace EvmEngine

def UnaryOp.apply : UnaryOp → Word → Word
  | isZero, a => Word.ofBool (a = 0)
  | not, a => ~~~a

def BinaryOp.apply : BinaryOp → Word → Word → Word
  | add, a, b => a + b
  | mul, a, b => a * b
  | sub, a, b => a - b
  | div, a, b => Word.div a b
  | signedDiv, a, b => Word.signedDiv a b
  | mod, a, b => Word.mod a b
  | signedMod, a, b => Word.signedMod a b
  | signExtend, a, b => Word.signExtend a b
  | less, a, b => Word.ofBool (a < b)
  | greater, a, b => Word.ofBool (b < a)
  | signedLess, a, b => Word.ofBool (Word.signedLess a b)
  | signedGreater, a, b => Word.ofBool (Word.signedLess b a)
  | equal, a, b => Word.ofBool (a = b)
  | and, a, b => a &&& b
  | or, a, b => a ||| b
  | xor, a, b => a ^^^ b
  | byte, a, b => Word.byte a b
  | shiftLeft, a, b => Word.shiftLeft a b
  | shiftRight, a, b => Word.shiftRight a b
  | arithmeticShiftRight, a, b => Word.arithmeticShiftRight a b

def TernaryOp.apply : TernaryOp → Word → Word → Word → Word
  | addMod, a, b, m => Word.addMod a b m
  | mulMod, a, b, m => Word.mulMod a b m

end EvmEngine
