import CryptixMiner.Lib.Decimal

/-! The devfund percentage of the command line, `src/cli.rs`. -/

namespace CryptixMiner.Cli
open Hex (ParseIntError)

/-- `str::len`, which counts bytes. -/
def len (s : List Char) : Nat := (s.map Char.utf8Size).sum

/-- `str::parse::<u16>`. -/
def parseU16 (s : List Char) : Except ParseIntError UInt16 := (Decimal.parse (2 ^ 16) s).map UInt16.ofNat

def err : String := "devfund-percent should be --devfund-percent=XX.YY up to 2 numbers after the dot"

/-- The checks and the number, once the text is split. -/
def readParts (pre post : List Char) : Except String UInt16 :=
  if len pre > 2 ∨ len post > 2 then .error err
  else
    match parseU16 post with
    | .error _ => .error err
    | .ok post =>
      match parseU16 pre with
      | .error _ => .error err
      | .ok pre => if pre ≥ 100 ∨ post ≥ 100 then .error err else .ok (pre * 100 + post)

def parseDevfundPercent (s : String) : Except String UInt16 :=
  match s.toList.splitOn '.' with
  | [] => .error err
  | [pre] => readParts pre ['0']
  | [pre, post] => readParts pre post
  | _ :: _ :: _ :: _ => .error err

end CryptixMiner.Cli
