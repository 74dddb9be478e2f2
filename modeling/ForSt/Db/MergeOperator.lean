import Mathlib.Data.List.Basic
/-!
The merge operator interface (`include/rocksdb/merge_operator.h`, `db/merge_operator.cc`).

A merge operator is its `FullMergeV2`, which merges operands into an existing value that may be missing, and its
`PartialMergeMulti`, which combines two or more operands; a `false` return is `none`. `AssociativeMergeOperator`
builds both from one `Merge(existing, value)`, and `FullMergeV3` feeds `FullMergeV2` the existing value or the
default column of an entity. The key, the logger and `op_failure_scope` are left out: no modelled operator reads them.
-/

namespace ForSt

/-- what `FullMergeV2` writes: `new_value`, and `existing_operand` when the result is one of the inputs as it is -/
structure MergeOperationOutput where
  newValue : List UInt8
  existingOperand : Option (List UInt8)
deriving DecidableEq, Repr

/-- a merge operator by its `FullMergeV2` and `PartialMergeMulti`; `none` is a `false` return -/
structure MergeOperator where
  fullMergeV2 : Option (List UInt8) → List (List UInt8) → Option MergeOperationOutput
  partialMergeMulti : List (List UInt8) → Option (List UInt8)

/-- the loop of the default `PartialMergeMulti`: the running value `PartialMerge`d with each operand -/
def partialMergeMultiLoop (partialMerge : List UInt8 → List UInt8 → Option (List UInt8)) :
    List UInt8 → List UInt8 → List (List UInt8) → Option (List UInt8)
  | _, newValue, [] => some newValue
  | tempSlice, _, operand :: rest =>
    match partialMerge tempSlice operand with
    | none => none
    | some tempValue => partialMergeMultiLoop partialMerge tempValue tempValue rest

/-- `MergeOperator::PartialMergeMulti`, which asserts two operands or more; `new_value` starts empty -/
def defaultPartialMergeMulti (partialMerge : List UInt8 → List UInt8 → Option (List UInt8)) :
    List (List UInt8) → Option (List UInt8)
  | [] => some []
  | first :: rest => partialMergeMultiLoop partialMerge first [] rest

/-- the loop of `AssociativeMergeOperator::FullMergeV2`: each operand merged into the value so far -/
def associativeFullMergeLoop (merge : Option (List UInt8) → List UInt8 → Option (List UInt8)) :
    Option (List UInt8) → List UInt8 → List (List UInt8) → Option (List UInt8)
  | _, newValue, [] => some newValue
  | existingValue, _, operand :: rest =>
    match merge existingValue operand with
    | none => none
    | some tempValue => associativeFullMergeLoop merge (some tempValue) tempValue rest

/-- an `AssociativeMergeOperator` with its `Merge(existing_value, value)`; `new_value` starts empty -/
def associativeMergeOperator (merge : Option (List UInt8) → List UInt8 → Option (List UInt8)) : MergeOperator where
  fullMergeV2 existingValue operandList :=
    (associativeFullMergeLoop merge existingValue [] operandList).map fun newValue => ⟨newValue, none⟩
  -- `AssociativeMergeOperator::PartialMerge(left, right)` is `Merge(&left, right)`
  partialMergeMulti := defaultPartialMergeMulti fun left right => merge (some left) right

/-! ## `FullMergeV3` -/

/-- `WideColumn` -/
structure WideColumn where
  name : List UInt8
  value : List UInt8
deriving DecidableEq, Repr

/-- `kDefaultWideColumnName`: the empty name -/
def kDefaultWideColumnName : List UInt8 := []

/-- `WideColumnsHelper::HasDefaultColumn` -/
def hasDefaultColumn : List WideColumn → Bool
  | [] => false
  | column :: _ => column.name == kDefaultWideColumnName

/-- `MergeOperationInputV3::ExistingValue`: none, a plain value, or an entity's columns -/
inductive ExistingValue where
  | none
  | value (value : List UInt8)
  | columns (columns : List WideColumn)
deriving DecidableEq, Repr

/-- `MergeOperationOutputV3::new_value`: a plain value or new columns -/
inductive NewValue where
  | value (value : List UInt8)
  | columns (columns : List WideColumn)
deriving DecidableEq, Repr

/-- the value `FullMergeV3` takes from `FullMergeV2`: `existing_operand` if it was set, else `new_value` -/
def MergeOperationOutput.result (out : MergeOperationOutput) : List UInt8 := out.existingOperand.getD out.newValue

/-- `MergeOperator::FullMergeV3` -/
def MergeOperator.fullMergeV3 (op : MergeOperator) (existingValue : ExistingValue) (operandList : List (List UInt8)) :
    Option NewValue :=
  match existingValue with
  | .none => (op.fullMergeV2 none operandList).map fun out => .value out.result
  | .value existing => (op.fullMergeV2 (some existing) operandList).map fun out => .value out.result
  | .columns existingColumns =>
    -- the default column's value is merged, the empty value when there is none; the other columns are kept
    let valueOfDefault := if hasDefaultColumn existingColumns then (existingColumns.head?.map WideColumn.value).getD []
      else []
    (op.fullMergeV2 (some valueOfDefault) operandList).map fun out =>
      .columns (⟨kDefaultWideColumnName, out.result⟩ ::
        existingColumns.drop (if hasDefaultColumn existingColumns then 1 else 0))

end ForSt
