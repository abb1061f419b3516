import ModemFhss.Ad9361.InitParam
import ModemFhss.Library.Lines
import ModemFhss.Library.Numeral
import ModemFhss.Registers.Attribute

/-!
# Loading the filter (`ad9361_get_config_fir`)

`ad9361_fir.conf` has a line for the gain of each direction, one for the clocks of its path, one for
its bandwidth, and one for each tap with a coefficient for both. What kind of line it is, the
function asks with `strstr`: a line with a comma and none of the tags is a tap, whatever else is in
it. Comments are not looked for.
-/

namespace ModemFhss.Ad9361

open Numeral (isSpace)
open Registers (Text)

/-! ## `sscanf` -/

inductive Directive where
  /-- This character. -/
  | char (c : Char)
  /-- Blanks, as many as there are. -/
  | blanks
  /-- `%u` -/
  | u
  /-- `%i` -/
  | i
  /-- `%hi` -/
  | hi
  deriving DecidableEq, Repr

def directives : Text → List Directive
  | '%' :: 'h' :: 'i' :: format => .hi :: directives format
  | '%' :: 'i' :: format => .i :: directives format
  | '%' :: 'u' :: format => .u :: directives format
  | c :: format => (if isSpace c then .blanks else .char c) :: directives format
  | [] => []

/-- `strtoul` with a `long` of 32 bits. -/
def clampUnsigned (n : Int) : Int := if n.natAbs < 2 ^ 32 then n else 2 ^ 32 - 1

/-- `strtol` with a `long` of 32 bits. -/
def clampSigned (n : Int) : Int := max (-2 ^ 31) (min n (2 ^ 31 - 1))

/-- A number in base `base`, and what to do with the rest of the text. -/
def scanNumber (base : Nat) (clamp : Int → Int) (next : Text → List Int) (buf : Text) : List Int :=
  match Numeral.read isSpace base buf with
  | none => []
  | some (n, rest) => clamp n :: next rest

/-- The numbers that `sscanf` finds, up to the first one that is missing. -/
def sscanf : List Directive → Text → List Int
  | [], _ => []
  | .char c :: format, buf =>
    match buf with
    | [] => []
    | b :: rest => if b = c then sscanf format rest else []
  | .blanks :: format, buf => sscanf format (buf.dropWhile isSpace)
  | .u :: format, buf => scanNumber 10 clampUnsigned (sscanf format) buf
  | .i :: format, buf => scanNumber 0 clampSigned (sscanf format) buf
  | .hi :: format, buf => scanNumber 0 clampSigned (sscanf format) buf

/-! ## What is loaded -/

/-- `MAX_NUM_TAPS_INTERPOLATION_1` -/
def maxNumTapsInterpolation1 : Nat := 64

/-- `MAX_NUM_TAPS_INTERPOLATION_2` -/
def maxNumTapsInterpolation2 : Nat := 128

/-- `AD9361_TXFIRConfig` -/
structure TXFIRConfig where
  tx : UInt32
  txGain : Int32
  txInt : UInt32
  txCoef : Vector Int16 128
  txCoefSize : UInt8
  txPathClks : Vector UInt32 6
  txBandwidth : UInt32
  deriving DecidableEq, Inhabited

/-- `AD9361_RXFIRConfig` -/
structure RXFIRConfig where
  rx : UInt32
  rxGain : Int32
  rxDec : UInt32
  rxCoef : Vector Int16 128
  rxCoefSize : UInt8
  rxPathClks : Vector UInt32 6
  rxBandwidth : UInt32
  deriving DecidableEq, Inhabited

/-- The line is a text of C: it ends where a zero is. -/
def cString (buf : Text) : Text := buf.takeWhile (· ≠ '\x00')

inductive LineKind where
  | tx
  | rx
  | rtx
  | rrx
  | bwtx
  | bwrx
  | coef
  | other
  deriving DecidableEq, Repr

/-- The conditions of the loop; `p <:+: buf` is `strstr(buf, p) != NULL`. -/
def lineKind (buf : Text) : LineKind :=
  if ['T', 'X'] <:+: buf ∧ ¬ ['R', 'T', 'X'] <:+: buf ∧ ¬ ['B', 'W', 'T', 'X'] <:+: buf then .tx
  else if ['R', 'X'] <:+: buf ∧ ¬ ['R', 'R', 'X'] <:+: buf ∧ ¬ ['B', 'W', 'R', 'X'] <:+: buf then
    .rx
  else if ['R', 'T', 'X'] <:+: buf then .rtx
  else if ['R', 'R', 'X'] <:+: buf then .rrx
  else if ['B', 'W', 'T', 'X', ' '] <:+: buf then .bwtx
  else if ['B', 'W', 'R', 'X', ' '] <:+: buf then .bwrx
  else if ',' ∈ buf then .coef
  else .other

/-- A store outside `tx_coef` or `rx_coef`. -/
inductive Fault where
  | outOfBounds (index : Nat)
  deriving DecidableEq, Repr

/-- What the loop works on. -/
structure Loading where
  tx : TXFIRConfig
  rx : RXFIRConfig
  index : UInt8
  deriving DecidableEq

/-- The number that `sscanf` has put where `old` was. -/
def uint32 (ns : List Int) (i : Nat) (old : UInt32) : UInt32 := (ns[i]?.map UInt32.ofInt).getD old

def int32 (ns : List Int) (i : Nat) (old : Int32) : Int32 := (ns[i]?.map Int32.ofInt).getD old

def pathClks (ns : List Int) (old : Vector UInt32 6) : Vector UInt32 6 :=
  old.mapFinIdx fun i clk _ => uint32 ns i clk

def storeCoef (coef : Vector Int16 128) (index : UInt8) :
    Option Int → Except Fault (Vector Int16 128)
  | none => .ok coef
  | some n =>
    if h : index.toNat < 128 then
      .ok (coef.set index.toNat (Int16.ofInt n))
    else
      .error (.outOfBounds index.toNat)

/-- The tap with index `index`. -/
def loadCoef (s : Loading) (ns : List Int) : Except Fault Loading :=
  match storeCoef s.tx.txCoef s.index ns[0]?, storeCoef s.rx.rxCoef s.index ns[1]? with
  | .ok txCoef, .ok rxCoef =>
    .ok { tx := { s.tx with txCoef }, rx := { s.rx with rxCoef }, index := s.index + 1 }
  | .error e, _ => .error e
  | _, .error e => .error e

/-- The branches of the loop. -/
def loadKind (s : Loading) (buf : Text) : LineKind → Except Fault Loading
  | .tx =>
    let ns := sscanf (directives "TX %u GAIN %i INT %u".toList) buf
    .ok { s with tx := { s.tx with
      tx := uint32 ns 0 s.tx.tx
      txGain := int32 ns 1 s.tx.txGain
      txInt := uint32 ns 2 s.tx.txInt } }
  | .rx =>
    let ns := sscanf (directives "RX %u GAIN %i DEC %u".toList) buf
    .ok { s with rx := { s.rx with
      rx := uint32 ns 0 s.rx.rx
      rxGain := int32 ns 1 s.rx.rxGain
      rxDec := uint32 ns 2 s.rx.rxDec } }
  | .rtx =>
    let ns := sscanf (directives "RTX %u %u %u %u %u %u".toList) buf
    .ok { s with tx := { s.tx with txPathClks := pathClks ns s.tx.txPathClks } }
  | .rrx =>
    let ns := sscanf (directives "RRX %u %u %u %u %u %u".toList) buf
    .ok { s with rx := { s.rx with rxPathClks := pathClks ns s.rx.rxPathClks } }
  | .bwtx =>
    let ns := sscanf (directives "BWTX %u".toList) buf
    .ok { s with tx := { s.tx with txBandwidth := uint32 ns 0 s.tx.txBandwidth } }
  | .bwrx =>
    let ns := sscanf (directives "BWRX %u".toList) buf
    .ok { s with rx := { s.rx with rxBandwidth := uint32 ns 0 s.rx.rxBandwidth } }
  | .coef => loadCoef s (sscanf (directives "%hi,%hi".toList) buf)
  | .other => .ok s

/-- One round of the loop. -/
def loadLine (s : Loading) (line : Text) : Except Fault Loading :=
  loadKind s (cString line) (lineKind (cString line))

/-! ## The function -/

/-- A file that `fopen` opens: with a `long` of 32 bits it is not longer than `ftell` can say. -/
structure File where
  text : Text
  length_lt : text.length < 2 ^ 31

/-- `size`, as `fgets` gets it. -/
def File.size (file : File) : Nat := (UInt32.ofNat file.text.length).toInt32.toInt.toNat

/-- What a call returns, what is in the three structures then, and what it has not given back. -/
structure Return where
  ret : Int
  initParam : InitParam
  tx : TXFIRConfig
  rx : RXFIRConfig
  fileOpen : Bool
  bufAllocated : Bool

/-- The beginning: the coefficients are cleared. -/
def loading (tx : TXFIRConfig) (rx : RXFIRConfig) : Loading where
  tx := { tx with txCoef := Vector.replicate 128 0 }
  rx := { rx with rxCoef := Vector.replicate 128 0 }
  index := 0

/-- What comes after the loop. -/
def finish (initParam : InitParam) (s : Loading) : Return :=
  let done (size : UInt8) : Return :=
    { ret := 0
      initParam := { initParam with
        txPathClockFrequencies := s.tx.txPathClks
        rxPathClockFrequencies := s.rx.rxPathClks
        rfTxBandwidthHz := s.tx.txBandwidth
        rfRxBandwidthHz := s.rx.rxBandwidth }
      tx := { s.tx with txCoefSize := size }
      rx := { s.rx with rxCoefSize := size }
      fileOpen := false
      bufAllocated := false }
  if s.index.toNat ≤ maxNumTapsInterpolation1 then done (.ofNat maxNumTapsInterpolation1)
  else if s.index.toNat ≤ maxNumTapsInterpolation2 then done (.ofNat maxNumTapsInterpolation2)
  else { ret := -1, initParam, tx := s.tx, rx := s.rx, fileOpen := true, bufAllocated := true }

/-- A call, with the loop running for `fuel` rounds at most; there is no file if `fopen` fails. -/
def ad9361GetConfigFir (fuel : Nat) (file : Option File) (initParam : InitParam)
    (tx : TXFIRConfig) (rx : RXFIRConfig) : Option (Except Fault Return) :=
  match file with
  | none =>
    some (.ok { ret := -1, initParam, tx, rx, fileOpen := false, bufAllocated := false })
  | some file =>
    (Lines.readLoop (· = '\n') file.size loadLine fuel file.text (loading tx rx)).map
      (·.map (finish initParam))

end ModemFhss.Ad9361
