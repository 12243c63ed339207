/-!
The forms that attribute values are stored in.
-/

namespace DebugSymbols

inductive Form where
  | addr
  | block1 | block2 | block4 | block
  | data1 | data2 | data4 | data8 | data16
  | udata | sdata
  | implicitConst
  | string
  | strp | lineStrp | strpSup
  | strx | strx1 | strx2 | strx3 | strx4
  | addrx | addrx1 | addrx2 | addrx3 | addrx4
  | flag | flagPresent
  | ref1 | ref2 | ref4 | ref8 | refUdata
  | refAddr
  | refSig8 | refSup4 | refSup8 | refAlt
  | secOffset
  | loclistx | rnglistx
  | exprloc
  | indirect
deriving DecidableEq, Repr

/-- The form with the given code.  Some forms have a second code, which dates from before they
were standard. -/
def Form.ofCode? (code : UInt16) : Option Form :=
  [ (0x01, addr), (0x03, block2), (0x04, block4), (0x05, data2), (0x06, data4), (0x07, data8),
    (0x08, string), (0x09, block), (0x0a, block1), (0x0b, data1), (0x0c, flag), (0x0d, sdata),
    (0x0e, strp), (0x0f, udata), (0x10, refAddr), (0x11, ref1), (0x12, ref2), (0x13, ref4),
    (0x14, ref8), (0x15, refUdata), (0x16, indirect), (0x17, secOffset), (0x18, exprloc),
    (0x19, flagPresent), (0x1a, strx), (0x1b, addrx), (0x1c, refSup4), (0x1d, strpSup),
    (0x1e, data16), (0x1f, lineStrp), (0x20, refSig8), (0x21, implicitConst), (0x22, loclistx),
    (0x23, rnglistx), (0x24, refSup8), (0x25, strx1), (0x26, strx2), (0x27, strx3),
    (0x28, strx4), (0x29, addrx1), (0x2a, addrx2), (0x2b, addrx3), (0x2c, addrx4),
    (0x1f01, addrx), (0x1f02, strx), (0x1f20, refAlt), (0x1f21, strpSup) ].lookup code

end DebugSymbols
