import EvmEngine.Keccak
import EvmEngine.Rlp

/-!
The address of a new account, which follows from its creator and either the nonce of the creator or
a salt and the init code.
-/

namespace EvmEngine
namespace CreateAddress

/-- What is hashed for an address that follows from the nonce. -/
def noncePreimage (creator : Address) (nonce : UInt64) : ByteArray :=
  Rlp.encodeList [Rlp.encodeString creator.toBytes, Rlp.encodeNat nonce.toNat]

/-- What is hashed for an address that follows from a salt. -/
def saltPreimage (creator : Address) (salt : Word) (initCode : ByteArray) : ByteArray :=
  ⟨#[0xff]⟩ ++ creator.toBytes ++ Word.toBytes salt ++ Word.toBytes (keccak256 initCode)

def ofNonce (creator : Address) (nonce : UInt64) : Address :=
  Word.toAddress (keccak256 (noncePreimage creator nonce))

def ofSalt (creator : Address) (salt : Word) (initCode : ByteArray) : Address :=
  Word.toAddress (keccak256 (saltPreimage creator salt initCode))

end CreateAddress
end EvmEngine
