import GBMU.Common.Types

/-!
# Sizes, initial values and addresses

The constants of `GB_config.h` and `memory/GB_vaddr.h` that the modelled devices
use, under their own names.
-/

namespace GBMU

/-- The literal `_KBytes`. -/
def kBytes (n : Nat) : U32 := BitVec.ofNat 32 (n * kByteMulti)

def wramCgbBankSize : U32 := kBytes 4
def wramCgbSize : U32 := kBytes 32

def vramBankSize : U32 := kBytes 8
def vramCgbSize : U32 := vramBankSize * 2
def vramMaxSize : U32 := vramCgbSize

def svbkInitValue : Reg8 := 0x0
def vbkInitValue : Reg8 := 0x0

def intcIFInitValue : Reg8 := 0x0
def intcIEInitValue : Reg8 := 0x0
def intcIMEInitValue : Bool := true

def oramObjectsNum : U32 := 40
def oramSize : U32 := oramObjectsNum * 4

/-! ## The work RAM in the address map -/

def wram0BaseVaddr : Word := 0xC000
def wram0LastVaddr : Word := 0xCFFF
def wramxBaseVaddr : Word := 0xD000
def wramxLastVaddr : Word := 0xDFFF
def wram0EchoBaseVaddr : Word := 0xE000
def wramxEchoBaseVaddr : Word := 0xF000
def wramxEchoLastVaddr : Word := 0xFDFF

end GBMU
