import GBMU.Common.DBuffer
import GBMU.Config

/-!
# Object RAM

`device/GB_oram.h`: four bytes for each of 40 objects, in one piece. It has no
registers and no inner addresses.
-/

namespace GBMU

/-- `get_memory_buffer_ref` gives out a reference to `__memory` itself. -/
structure ORAM where
  memory : Bytes

namespace ORAM

/-- `ORAM()`; the buffer starts out with whatever the new memory contained. -/
def construct (memory : Vector Byte oramSize.toNat) : ORAM := { memory := memory.toList }

def readPhysAddr (o : ORAM) (physAddr : Word) : Option Byte := Bytes.get? o.memory physAddr.toNat

def writePhysAddr (o : ORAM) (physAddr : Word) (value : Byte) : Option ORAM :=
  (Bytes.put? o.memory physAddr.toNat value).map (fun memory => { memory := memory })

end ORAM

end GBMU
