import CryptixMiner.Kernel.PreMatrix

/-! The OpenCL kernel (`cryptix-opencl.cl`): its tables, and the functions that its build switches choose
    between. -/

namespace CryptixMiner
open Device

namespace OpenCl

/-- The build switches that decide between two ways to compute the hash. -/
structure Build where
  /-- `CRYPTIS_OPENCL_USE_MAD24`. -/
  useMad24 : Bool
  /-- `CRYPTIS_OPENCL_ROTATE_BASES_ON_DEMAND`. -/
  rotateBasesOnDemand : Bool

/-! ### Tables -/

def POW_HASH_INITIAL_STATE : KeccakState := Array.toVector #[
  1242148031264380989, 3008272977830772284, 2188519011337848018, 1992179434288343456, 8876506674959887717,
  5399642050693751366, 1745875063082670864, 8605242046444978844, 17936695144567157056, 3343109343542796272,
  1123092876221303306, 4963925045340115282, 17037383077651887893, 16629644495023626889, 12833675776649114147,
  3784524041015224902, 1082795874807940378, 13952716920571277634, 13411128033953605860, 15060696040649351053,
  9928834659948351306, 5237849264682708699, 12825353012139217522, 6706187291358897596, 196324915476054915]

def HEAVY_HASH_INITIAL_STATE : KeccakState := Array.toVector #[
  4239941492252378377, 8746723911537738262, 8796936657246353646, 1272090201925444760, 16654558671554924250,
  8270816933120786537, 13907396207649043898, 6782861118970774626, 9239690602118867528, 11582319943599406348,
  17596056728278508070, 15212962468105129023, 7812475424661425213, 3370482334374859748, 5690099369266491460,
  8596393687355028144, 570094237299545110, 9119540418498120711, 16901969272480492857, 13372017233735502424,
  14372891883993151831, 5171152063242093102, 10573107899694386186, 6096431547456407061, 1592359455985097269]

def SBOX_SOURCE_SELECTORS : Bytes 16 := Array.toVector #[
  0, 1, 2, 1, 3, 1, 0, 1, 3, 1, 2, 1, 3, 1, 0, 1]

def SBOX_VALUE_SELECTORS : Bytes 16 := Array.toVector #[
  0, 1, 3, 2, 0, 1, 3, 2, 0, 1, 3, 2, 0, 1, 3, 2]

def SBOX_VALUE_MULTIPLIERS : Bytes 16 := Array.toVector #[
  0x03, 0x05, 0x07, 0x0F, 0x11, 0x13, 0x17, 0x19, 0x1D, 0x1F, 0x23, 0x29, 0x2F, 0x31, 0x37, 0x3F]

def SBOX_VALUE_ADDERS : Bytes 16 := Array.toVector #[
  0xAA, 0xBB, 0xCC, 0xDD, 0xEE, 0xFF, 0x11, 0x22, 0x33, 0x44, 0x55, 0x66, 0x77, 0x88, 0x99, 0xAA]

set_option maxRecDepth 2000 in
def AFTER_COMP_LUT : Bytes 256 := Array.toVector #[
  0x75, 0x7C, 0xEB, 0x87, 0x24, 0xE7, 0x3D, 0x07, 0x48, 0x32, 0xB2, 0xEE, 0xEF, 0x97, 0xC2, 0x2B,
  0xE9, 0x4B, 0xE2, 0xAF, 0x2F, 0xF3, 0x19, 0xE7, 0x83, 0x94, 0xB9, 0x4B, 0x09, 0x78, 0x95, 0x69,
  0x55, 0xF7, 0xF7, 0x9F, 0x67, 0x01, 0x4A, 0xCE, 0xD1, 0x57, 0x64, 0x03, 0xE1, 0x72, 0x8D, 0xCD,
  0x67, 0x41, 0x6A, 0x10, 0xC0, 0x55, 0x42, 0xBD, 0x28, 0x26, 0xEE, 0x75, 0x51, 0x2B, 0x7B, 0xE6,
  0xE0, 0x38, 0xD7, 0x1D, 0x48, 0x7D, 0x6C, 0x17, 0x53, 0xFA, 0x7A, 0x89, 0x09, 0x8A, 0x43, 0x7B,
  0x3B, 0xEE, 0x9F, 0x09, 0xD9, 0x07, 0xD6, 0x66, 0x23, 0x13, 0x82, 0x5B, 0x4B, 0x6B, 0xC2, 0xAF,
  0xFD, 0xD8, 0x92, 0x0E, 0x40, 0x89, 0x32, 0xEE, 0x14, 0x9A, 0xA4, 0xAC, 0xEC, 0xF9, 0x9D, 0x3A,
  0xBC, 0x51, 0x05, 0x6A, 0x11, 0xA7, 0xAC, 0x1B, 0x71, 0x40, 0x0D, 0x05, 0xD0, 0x61, 0x05, 0xE2,
  0x5A, 0x1D, 0xCA, 0x4C, 0x56, 0x40, 0x2A, 0x49, 0x67, 0x61, 0x69, 0x21, 0x80, 0x85, 0x59, 0xB8,
  0x2C, 0xD0, 0x20, 0xDA, 0x88, 0xAC, 0xCC, 0xD1, 0x70, 0x76, 0x98, 0x7F, 0x7C, 0x55, 0xD0, 0xD6,
  0x2B, 0xA5, 0xB7, 0x03, 0x9E, 0x37, 0x9B, 0xB9, 0xF1, 0xE8, 0x1F, 0xE0, 0x42, 0x6B, 0x62, 0x63,
  0xB7, 0xDC, 0x8E, 0xCC, 0x6C, 0xB7, 0x76, 0x27, 0xC1, 0xEC, 0x72, 0x17, 0xCE, 0x76, 0x65, 0x8C,
  0x9F, 0x16, 0xDB, 0xB2, 0x5F, 0x7F, 0x14, 0x5A, 0x42, 0x89, 0xEC, 0x1D, 0xC5, 0xC9, 0xA0, 0x30,
  0xDD, 0x3C, 0xDC, 0x7B, 0x8A, 0x47, 0x3E, 0xB5, 0xEA, 0xA9, 0xA9, 0x6A, 0x89, 0x65, 0x4D, 0x3A,
  0xC8, 0xAD, 0xBB, 0xAD, 0xA0, 0xE5, 0xB8, 0xF6, 0xCD, 0x08, 0xA3, 0xE8, 0xA0, 0x5E, 0x18, 0xA6,
  0x65, 0x27, 0x26, 0x5C, 0x21, 0xA8, 0xF4, 0x3C, 0xCA, 0x95, 0x15, 0xFC, 0x9C, 0x1B, 0x9A, 0x0B]

/-! ### Its own functions -/

/-- The vector literals hold the bytes widened to 32 bits. -/
def cryptisDot4Acc (build : Build) (sum : UInt32) (row nib : Vector UInt32 4) : UInt32 :=
  if build.useMad24 then
    let sum := mad24 row[0]! nib[0]! sum
    let sum := mad24 row[1]! nib[1]! sum
    let sum := mad24 row[2]! nib[2]! sum
    mad24 row[3]! nib[3]! sum
  else sum + row[0]! * nib[0]! + row[1]! * nib[1]! + row[2]! * nib[2]! + row[3]! * nib[3]!

def cryptisRotateLeftBase (segment : Nat) (b : Buffers) : UInt8 :=
  match segment with
  | 0 => (b.nibbleProduct[3]! ^^^ 0x4F) * 3
  | 1 => (b.product[7]! ^^^ 0xA6) * 2
  | 2 => (b.productBeforeOct[1]! ^^^ 0x9C) * 9
  | 3 => (b.product[6]! ^^^ 0x71) * 4
  | 4 => (b.nibbleProduct[4]! ^^^ 0xB2) * 3
  | 5 => (b.product[0]! ^^^ 0x58) * 6
  | 6 => (b.productBeforeOct[2]! ^^^ 0x37) * 2
  | 7 => (b.product[5]! ^^^ 0x1A) * 5
  | 8 => (b.nibbleProduct[3]! ^^^ 0x93) * 7
  | 9 => (b.product[7]! ^^^ 0x29) * 9
  | 10 => (b.productBeforeOct[1]! ^^^ 0x4E) * 4
  | 11 => (b.nibbleProduct[6]! ^^^ 0xF3) * 5
  | 12 => (b.product[4]! ^^^ 0xB7) * 6
  | 13 => (b.product[0]! ^^^ 0x2D) * 8
  | 14 => (b.productBeforeOct[2]! ^^^ 0x6F) * 3
  | _ => (b.nibbleProduct[5]! ^^^ 0xE1) * 7

def cryptisRotateRightBase (segment : Nat) (b : Buffers) : UInt8 :=
  match segment with
  | 0 => (b.hashBytes[2]! ^^^ 0xD3) * 5
  | 1 => (b.nibbleProduct[5]! ^^^ 0x5B) * 7
  | 2 => (b.product[0]! ^^^ 0x8E) * 3
  | 3 => (b.productBeforeOct[3]! ^^^ 0x2F) * 5
  | 4 => (b.hashBytes[7]! ^^^ 0x6D) * 7
  | 5 => (b.nibbleProduct[1]! ^^^ 0xEE) * 9
  | 6 => (b.hashBytes[6]! ^^^ 0x44) * 6
  | 7 => (b.hashBytes[4]! ^^^ 0x7C) * 8
  | 8 => (b.product[2]! ^^^ 0xAF) * 3
  | 9 => (b.nibbleProduct[5]! ^^^ 0xDC) * 2
  | 10 => (b.hashBytes[0]! ^^^ 0x8B) * 3
  | 11 => (b.productBeforeOct[3]! ^^^ 0x62) * 8
  | 12 => (b.product[7]! ^^^ 0x15) * 2
  | 13 => (b.productBeforeOct[1]! ^^^ 0xC8) * 7
  | 14 => (b.nibbleProduct[6]! ^^^ 0x99) * 9
  | _ => (b.hashBytes[4]! ^^^ 0x3B) * 5

def rotateLeftBases (b : Buffers) : Bytes 16 :=
  Array.toVector #[(b.nibbleProduct[3]! ^^^ 0x4F) * 3, (b.product[7]! ^^^ 0xA6) * 2,
    (b.productBeforeOct[1]! ^^^ 0x9C) * 9, (b.product[6]! ^^^ 0x71) * 4,
    (b.nibbleProduct[4]! ^^^ 0xB2) * 3, (b.product[0]! ^^^ 0x58) * 6,
    (b.productBeforeOct[2]! ^^^ 0x37) * 2, (b.product[5]! ^^^ 0x1A) * 5,
    (b.nibbleProduct[3]! ^^^ 0x93) * 7, (b.product[7]! ^^^ 0x29) * 9,
    (b.productBeforeOct[1]! ^^^ 0x4E) * 4, (b.nibbleProduct[6]! ^^^ 0xF3) * 5,
    (b.product[4]! ^^^ 0xB7) * 6, (b.product[0]! ^^^ 0x2D) * 8,
    (b.productBeforeOct[2]! ^^^ 0x6F) * 3, (b.nibbleProduct[5]! ^^^ 0xE1) * 7]

def rotateRightBases (b : Buffers) : Bytes 16 :=
  Array.toVector #[(b.hashBytes[2]! ^^^ 0xD3) * 5, (b.nibbleProduct[5]! ^^^ 0x5B) * 7,
    (b.product[0]! ^^^ 0x8E) * 3, (b.productBeforeOct[3]! ^^^ 0x2F) * 5,
    (b.hashBytes[7]! ^^^ 0x6D) * 7, (b.nibbleProduct[1]! ^^^ 0xEE) * 9,
    (b.hashBytes[6]! ^^^ 0x44) * 6, (b.hashBytes[4]! ^^^ 0x7C) * 8,
    (b.product[2]! ^^^ 0xAF) * 3, (b.nibbleProduct[5]! ^^^ 0xDC) * 2,
    (b.hashBytes[0]! ^^^ 0x8B) * 3, (b.productBeforeOct[3]! ^^^ 0x62) * 8,
    (b.product[7]! ^^^ 0x15) * 2, (b.productBeforeOct[1]! ^^^ 0xC8) * 7,
    (b.nibbleProduct[6]! ^^^ 0x99) * 9, (b.hashBytes[4]! ^^^ 0x3B) * 5]

/-- The kernel as built with `build`. Its loops run to their count. -/
def kernel (build : Build) : Kernel where
  POW_HASH_INITIAL_STATE := POW_HASH_INITIAL_STATE
  HEAVY_HASH_INITIAL_STATE := HEAVY_HASH_INITIAL_STATE
  SBOX_SOURCE_SELECTORS := SBOX_SOURCE_SELECTORS
  SBOX_VALUE_SELECTORS := SBOX_VALUE_SELECTORS
  SBOX_VALUE_MULTIPLIERS := SBOX_VALUE_MULTIPLIERS
  SBOX_VALUE_ADDERS := SBOX_VALUE_ADDERS
  AFTER_COMP_LUT := AFTER_COMP_LUT
  dot4Acc sum row4 nib4 := cryptisDot4Acc build sum (row4.map UInt8.toUInt32) (nib4.map UInt8.toUInt32)
  rotateLeftBase b segment :=
    if build.rotateBasesOnDemand then cryptisRotateLeftBase segment b else (rotateLeftBases b)[segment]!
  rotateRightBase b segment :=
    if build.rotateBasesOnDemand then cryptisRotateRightBase segment b else (rotateRightBases b)[segment]!
  loop _ count body currentHash := Loop.forRange 0 count body currentHash

def calculatePowPreMatrixFromHeader (P : Primitives) (build : Build) : Bytes 72 → UInt64 → Bytes 32 :=
  (kernel build).calculatePowPreMatrixFromHeader P

def cryptixHashMatrix (P : Primitives) (build : Build) : Bytes 4096 → Bytes 32 → Bytes 32 :=
  (kernel build).cryptixHashMatrix P

end OpenCl
end CryptixMiner
