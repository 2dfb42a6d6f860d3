/-!
# Machine integers of the library

The fixed-width unsigned types of `common/GB_types.h`. An unsigned type is a
`BitVec` of its width, so truncation to a narrower type is `setWidth` and the
arithmetic wraps exactly where C++'s does.
-/

namespace GBMU

abbrev U8 := BitVec 8
abbrev U16 := BitVec 16
abbrev U32 := BitVec 32

abbrev Byte := U8
abbrev Word := U16
abbrev Reg8 := Byte

/-- The factor of the `_KBytes` literals. -/
def kByteMulti : Nat := 0x400

end GBMU
