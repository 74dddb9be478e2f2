import ForSt.Db.MergeOperator
import ForSt.Util.Coding
/-!
The built-in merge operators of `utilities/merge_operators`.

- `StringAppendOperator` (`string_append/stringappend.cc`): an associative operator whose `Merge` is the value with
  no existing value, else the existing value, the delimiter and the value.
- `StringAppendTESTOperator` (`string_append/stringappend2.cc`): a `FullMergeV2` of its own that writes the existing
  value and the operands with the delimiter between them, and for a single operand with no existing value points
  `existing_operand` at it; its `PartialMergeMulti` refuses.
- `UInt64AddOperator` (`uint64add.cc`): an associative operator whose `Merge` writes the fixed64 of the sum of the
  decoded existing value and operand, modulo `2 ^ 64`, a value that is not eight bytes decoding as 0.
-/

namespace ForSt

open ForSt.Coding

/-- `StringAppendOperator::Merge` -/
def stringAppendMerge (delim : List UInt8) (existingValue : Option (List UInt8)) (value : List UInt8) : List UInt8 :=
  match existingValue with
  | none => value
  | some existing => existing ++ delim ++ value

/-- `StringAppendOperator(delim)` -/
def stringAppendOperator (delim : List UInt8) : MergeOperator :=
  associativeMergeOperator fun existingValue value => some (stringAppendMerge delim existingValue value)

/-- the concatenation loop of `StringAppendTESTOperator::FullMergeV2`: the delimiter before every operand once
something is printed -/
def stringAppendTESTConcat (delim : List UInt8) : Bool → List UInt8 → List (List UInt8) → List UInt8
  | _, newValue, [] => newValue
  | printDelim, newValue, operand :: rest =>
    stringAppendTESTConcat delim true (newValue ++ (if printDelim then delim else []) ++ operand) rest

/-- `StringAppendTESTOperator(delim)` -/
def stringAppendTESTOperator (delim : List UInt8) : MergeOperator where
  fullMergeV2 existingValue operandList :=
    match existingValue, operandList with
    -- only one operand: it is the result as it is
    | none, [operand] => some ⟨[], some operand⟩
    | none, operands => some ⟨stringAppendTESTConcat delim false [] operands, none⟩
    | some existing, operands => some ⟨stringAppendTESTConcat delim true existing operands, none⟩
  partialMergeMulti _ := none

/-- `UInt64AddOperator::DecodeInteger`: a fixed64, and 0 for a value of another size -/
def decodeInteger (value : List UInt8) : ℕ := if value.length = 8 then decodeFixed64 value else 0

/-- `UInt64AddOperator::Merge`: `PutFixed64` keeps the low 64 bits of the sum -/
def uint64AddMerge (existingValue : Option (List UInt8)) (value : List UInt8) : List UInt8 :=
  let origValue := (existingValue.map decodeInteger).getD 0
  encodeFixed64 (origValue + decodeInteger value)

/-- `UInt64AddOperator` -/
def uint64AddOperator : MergeOperator :=
  associativeMergeOperator fun existingValue value => some (uint64AddMerge existingValue value)

end ForSt
