import ModemFhss.Ad9361.InitParam
import ModemFhss.Library.Numeral

/-!
# Loading the parameters (`ad9361_get_config`)

`config.yaml` comes as the tokens of a scanner. Two variables say what a scalar is: `state`, a key
or a value, and `key`, whose value. The latter is changed by a key that is known and by nothing
else: a value belongs to the last key that was known, whatever key it came with.
-/

namespace ModemFhss.Ad9361

open Numeral (isSpace)

/-! ## Tokens -/

/-- What `yaml_parser_scan` gives, by the branches of the loop. A scalar is the text of C at
`token.data.scalar.value`. -/
inductive Token where
  | streamStart
  | streamEnd
  | key
  | value
  | blockSequenceStart
  | blockEntry
  | blockEnd
  | blockMappingStart
  | scalar (value : String)
  /-- `YAML_NO_TOKEN`, when there are no more. -/
  | noToken
  /-- Documents, flow collections, aliases, anchors, tags and directives. -/
  | other
  deriving DecidableEq, Repr

/-! ## Keys and values -/

/-- The field that a text is the key of. -/
def fieldOf (tk : String) : Option Field :=
  (List.finRange fields.length).find? fun f => f.info.name = tk

/-- A constant of `enum keys`, which begins with 1. -/
def keyOf (f : Field) : UInt32 := UInt32.ofNat (f.val + 1)

/-- `parse_keys` -/
def parseKeys (tk : String) (key : UInt32) : UInt32 :=
  match fieldOf tk with
  | some f => keyOf f
  | none => key

/-- The nearest `long`, or `long long`. -/
def Conversion.clamp (c : Conversion) (n : Int) : Int :=
  max (-2 ^ (c.bits - 1)) (min n (2 ^ (c.bits - 1) - 1))

/-- `strtol` and `strtoll`: 0 if there is no number, and the nearest bound if it is too large. -/
def Conversion.number (c : Conversion) (tk : String) : Int :=
  match Numeral.read isSpace c.base tk.toList with
  | some (n, _) => c.clamp n
  | none => 0

/-- What an assignment of `fill_ad9361_st` puts in a field. -/
def Field.convert (f : Field) (tk : String) : f.info.type.Value :=
  f.info.type.cast (f.info.conversion.cast.wrap (f.info.conversion.number tk))

def InitParam.set (initParam : InitParam) (f : Field) (tk : String) : InitParam :=
  { initParam with field := Function.update initParam.field f (f.convert tk) }

/-- `fill_ad9361_st` -/
def fillAd9361St (initParam : InitParam) (tk : String) (key : UInt32) : InitParam :=
  match (List.finRange fields.length).find? fun f => key = keyOf f with
  | some f => initParam.set f tk
  | none => initParam

/-! ## The loop -/

structure Scan where
  state : UInt32
  key : UInt32
  initParam : InitParam

/-- The `switch`. -/
def Scan.next (s : Scan) : Token → Scan
  | .key => { s with state := 0 }
  | .value => { s with state := 1 }
  | .scalar tk =>
    if s.state = 0 then { s with key := parseKeys tk s.key }
    else if s.state = 1 then { s with initParam := fillAd9361St s.initParam tk s.key }
    else s
  | _ => s

/-- The loop, for `fuel` rounds at most. After its tokens the scanner gives `YAML_NO_TOKEN`. -/
def tokenLoop : Nat → List Token → Scan → Option Scan
  | 0, _, _ => none
  | fuel + 1, tokens, s =>
    let token := tokens.headD .noToken
    if token = .streamEnd then some (s.next token) else tokenLoop fuel tokens.tail (s.next token)

/-- A call, with the tokens of the file if `fopen` opens it: what it returns, and the parameters. -/
def ad9361GetConfig (fuel : Nat) (file : Option (List Token)) (parserInitialize : Bool)
    (initParam : InitParam) : Option (Int × InitParam) :=
  match file with
  | none => some (-1, initParam)
  | some tokens =>
    if parserInitialize then
      (tokenLoop fuel tokens { state := 0, key := 0, initParam }).map fun s => (0, s.initParam)
    else
      some (-1, initParam)

end ModemFhss.Ad9361
