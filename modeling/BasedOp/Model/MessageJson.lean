import BasedOp.Model.PreconfMessages
import BasedOp.Model.GethTypes
import BasedOp.Computation.Json
import BasedOp.Computation.ByteWords

/-!
# The messages in JSON

op-node hands the messages to op-geth as JSON (op-service/eth/types.go), which op-geth reads
and can write itself (core/types/unsealed_block.go). Both go through intermediate structs: a
member that is not there leaves the zero value, and the types of the members say how they are
written. Here that is `common/hexutil` for bytes, hashes and 256-bit numbers, and the base64
of `encoding/json` for a plain byte slice. The names of the members are found as they are
spelt in the tags.

The binary form of a transaction is a parameter.
-/

set_option autoImplicit false

namespace BasedOp.Model

open BasedOp.Computation

/-! ## hexutil -/

namespace Hexutil

/-- SRCLINE: hexutil/json.go:43-48 -/
def marshalBytes (b : Bytes) : List Char := '0' :: 'x' :: hexEncode b

/-- The digits after the marker. An empty text is allowed.
SRCLINE: hexutil/json.go:380-394 -/
def checkText : List Char → Option (List Char)
  | [] => some []
  | '0' :: 'x' :: raw => if raw.length % 2 = 0 then some raw else none
  | '0' :: 'X' :: raw => if raw.length % 2 = 0 then some raw else none
  | _ => none

/-- SRCLINE: hexutil/json.go:59-70 -/
def unmarshalBytes (text : List Char) : Option Bytes := (checkText text).bind hexDecode

/-- SRCLINE: hexutil/json.go:107-125 -/
def unmarshalFixedText (size : ℕ) (text : List Char) : Option Bytes := do
  let raw ← checkText text
  if raw.length / 2 = size then hexDecode raw else none

/-- SRCLINE: hexutil/json.go:235-239 -/
def marshalU256 (v : BitVec 256) : List Char := '0' :: 'x' :: numeral 16 v.toNat

/-- A number of at most 64 digits. -/
def readQuantity (raw : List Char) : Option (BitVec 256) :=
  match raw with
  | [] => none
  | c :: digits =>
    if c = '0' ∧ digits ≠ [] then none
    else if (c :: digits).length ≤ 64 then (readDigits 16 (c :: digits)).map (BitVec.ofNat 256)
    else none

/-- The empty text is zero; otherwise there are a marker and at least one digit, and no leading
zero.
SRCLINE: hexutil/json.go:241-259 -/
def unmarshalU256 : List Char → Option (BitVec 256)
  | [] => some 0
  | '0' :: 'x' :: raw => readQuantity raw
  | '0' :: 'X' :: raw => readQuantity raw
  | _ => none

end Hexutil

/-! ## Members -/

def jsonUint64 (v : UInt64) : Json := .num v.toNat

def jsonHexBytes (b : Bytes) : Json := .str (Hexutil.marshalBytes b)

/-- A `[]byte`. -/
def jsonByteSlice (b : Bytes) : Json := .str (base64Encode b)

def jsonHash (h : Hash) : Json := jsonHexBytes (beBytes 32 h.toNat)

def jsonAddress (a : Address) : Json := jsonHexBytes (beBytes 20 a.toNat)

def jsonU256 : Option (BitVec 256) → Json
  | none => .null
  | some v => .str (Hexutil.marshalU256 v)

def unmarshalUint64 : Json → Option UInt64
  | .num n => if n < 2 ^ 64 then some (UInt64.ofNat n) else none
  | .null => some 0
  | _ => none

def unmarshalBool : Json → Option Bool
  | .bool b => some b
  | .null => some false
  | _ => none

def unmarshalHexBytes : Json → Option Bytes
  | .str text => Hexutil.unmarshalBytes text
  | _ => none

def unmarshalHash : Json → Option Hash
  | .str text => (Hexutil.unmarshalFixedText 32 text).map fun b => BitVec.ofNat 256 (ofBeBytes b)
  | _ => none

def unmarshalAddress : Json → Option Address
  | .str text => (Hexutil.unmarshalFixedText 20 text).map fun b => BitVec.ofNat 160 (ofBeBytes b)
  | _ => none

/-- A pointer: `null` is nil. -/
def unmarshalU256 : Json → Option (Option (BitVec 256))
  | .null => some none
  | .str text => (Hexutil.unmarshalU256 text).map some
  | _ => none

def unmarshalSlice {α : Type} (unmarshal : Json → Option α) : Json → Option (List α)
  | .arr items => items.mapM unmarshal
  | .null => some []
  | _ => none

/-- The members of the object that a text holds. -/
def jsonMembers (data : List Char) : Option (List (String × Json)) :=
  match Json.parseJson data with
  | some (.obj members) => some members
  | some .null => some []
  | _ => none

/-- A member of a struct that has the zero value before. -/
def jsonMember {α : Type} (name : String) (unmarshal : Json → Option α) (zero : α)
    (members : List (String × Json)) : Option α :=
  match members.lookup name with
  | none => some zero
  | some value => unmarshal value

/-! ## op-node -/

namespace OpNode

/-- SRCLINE: eth/types.go:267-284 -/
def NewFrag.marshalJSON (f : NewFrag) : List Char :=
  (Json.obj
    [("blockNumber", jsonUint64 f.blockNumber),
      ("seq", jsonUint64 f.seq),
      ("isLast", .bool f.isLast),
      ("txs", .arr (f.txs.map jsonHexBytes))]).print

/-- SRCLINE: eth/types.go:355-379 -/
def Env.marshalJSON (e : Env) : List Char :=
  (Json.obj
    [("number", jsonUint64 e.number),
      ("beneficiary", jsonAddress e.beneficiary),
      ("timestamp", jsonUint64 e.timestamp),
      ("gasLimit", jsonUint64 e.gasLimit),
      ("basefee", jsonUint64 e.basefee),
      ("difficulty", jsonU256 e.difficulty),
      ("prevrandao", jsonHash e.prevrandao),
      ("parentHash", jsonHash e.parentHash),
      ("parentBeaconBlockRoot", jsonHash e.parentBeaconBlockRoot),
      ("extraData", jsonHexBytes e.extraData)]).print

end OpNode

/-! ## op-geth -/

namespace OpGeth

/-- `MarshalBinary` and `UnmarshalBinary` of a transaction. -/
structure TxCodec where
  marshalBinary : Transaction → Option Bytes
  unmarshalBinary : Bytes → Option Transaction

/-- SRCLINE: unsealed_block.go:102-131 -/
def Frag.unmarshalJSON (codec : TxCodec) (data : List Char) : Option Frag := do
  let members ← jsonMembers data
  let blockNumber ← jsonMember "blockNumber" unmarshalUint64 0 members
  let seq ← jsonMember "seq" unmarshalUint64 0 members
  let isLast ← jsonMember "isLast" unmarshalBool false members
  let txs ← jsonMember "txs" (unmarshalSlice unmarshalHexBytes) [] members
  let txs ← txs.mapM codec.unmarshalBinary
  some { blockNumber := blockNumber, seq := seq, isLast := isLast, txs := txs }

/-- The transactions are plain byte slices here.
SRCLINE: unsealed_block.go:133-154 -/
def Frag.marshalJSON (codec : TxCodec) (f : Frag) : Option (List Char) := do
  let txs ← f.txs.mapM codec.marshalBinary
  some (Json.obj
    [("blockNumber", jsonUint64 f.blockNumber),
      ("seq", jsonUint64 f.seq),
      ("isLast", .bool f.isLast),
      ("txs", .arr (txs.map jsonByteSlice))]).print

/-- A `types.Env` with the nil slice told apart from the empty one. -/
structure EnvValue extends Env where
  extraDataNil : Bool
  extraData_of_nil : extraDataNil = true → extraData = []
deriving DecidableEq

/-- SRCLINE: unsealed_block.go:169-199 -/
def EnvValue.unmarshalJSON (data : List Char) : Option EnvValue := do
  let members ← jsonMembers data
  let number ← jsonMember "number" unmarshalUint64 0 members
  let parentHash ← jsonMember "parentHash" unmarshalHash 0 members
  let beneficiary ← jsonMember "beneficiary" unmarshalAddress 0 members
  let timestamp ← jsonMember "timestamp" unmarshalUint64 0 members
  let gasLimit ← jsonMember "gasLimit" unmarshalUint64 0 members
  let basefee ← jsonMember "basefee" unmarshalUint64 0 members
  let difficulty ← jsonMember "difficulty" unmarshalU256 none members
  let prevrandao ← jsonMember "prevrandao" unmarshalHash 0 members
  let extraData ← jsonMember "extraData" (fun v => (unmarshalHexBytes v).map some) none members
  let parentBeaconBlockRoot ← jsonMember "parentBeaconBlockRoot" unmarshalHash 0 members
  some
    { number := number
      parentHash := parentHash
      beneficiary := beneficiary
      timestamp := timestamp
      gasLimit := gasLimit
      basefee := basefee
      difficulty := difficulty
      prevrandao := prevrandao
      extraData := extraData.getD []
      parentBeaconBlockRoot := parentBeaconBlockRoot
      extraDataNil := extraData.isNone
      extraData_of_nil := by
        intro h
        rw [Option.isNone_iff_eq_none.mp h, Option.getD_none] }

/-- The extra data are a plain byte slice here, and the nil slice is `null`.
SRCLINE: unsealed_block.go:201-225 -/
def EnvValue.marshalJSON (e : EnvValue) : List Char :=
  (Json.obj
    [("number", jsonUint64 e.number),
      ("beneficiary", jsonAddress e.beneficiary),
      ("timestamp", jsonUint64 e.timestamp),
      ("gasLimit", jsonUint64 e.gasLimit),
      ("basefee", jsonUint64 e.basefee),
      ("difficulty", jsonU256 e.difficulty),
      ("prevrandao", jsonHash e.prevrandao),
      ("parentHash", jsonHash e.parentHash),
      ("parentBeaconBlockRoot", jsonHash e.parentBeaconBlockRoot),
      ("extraData", if e.extraDataNil then .null else jsonByteSlice e.extraData)]).print

end OpGeth

end BasedOp.Model
