import ForSt.Util.Coding
import ForSt.Util.Status
import ForSt.Util.Comparator
import ForSt.Db.MergeOperator
/-!
The encoding of a wide-column entity (`db/wide/wide_column_serialization.cc`).

`Serialize` writes the version and the number of columns as varint32s, then each column's name, length prefixed, and
value size, then the values. It refuses more than `2 ^ 32 - 1` columns, names or values longer than that, and names
not strictly increasing under `Slice::compare`. `Deserialize` reads the layout back, checking each name against the
one before. A `Slice` is a byte list; each function returns its status and what it has built.
-/

namespace ForSt

open ForSt.Coding

namespace WideColumnSerialization

/-- `kCurrentVersion` -/
def kCurrentVersion : UInt32 := 1

/-- the loop of `Serialize` over the columns, after the name before (`prev_name`) -/
def serializeLoop : Option (List UInt8) → List WideColumn → List UInt8 → Status × List UInt8
  | _, [], output => (.ok, output)
  | prevName, column :: columns, output =>
    if column.name.length > 2 ^ 32 - 1 then (.invalidArgument "Wide column name too long", output)
    -- `prev_name->compare(name) >= 0`
    else if prevName.any (fun prev => sliceCompare prev column.name != .lt) then
      (.corruption "Wide columns out of order", output)
    else if column.value.length > 2 ^ 32 - 1 then (.invalidArgument "Wide column value too long", output)
    else
      serializeLoop (some column.name) columns
        (output ++ putLengthPrefixedSlice column.name ++ putVarint32 (UInt32.ofNat column.value.length))

/-- `WideColumnSerialization::Serialize`: the status and the bytes appended to `output` -/
def serialize (columns : List WideColumn) : Status × List UInt8 :=
  if columns.length > 2 ^ 32 - 1 then (.invalidArgument "Too many wide columns", [])
  else
    let output := putVarint32 kCurrentVersion ++ putVarint32 (UInt32.ofNat columns.length)
    match serializeLoop none columns output with
    | (.ok, output) => (.ok, output ++ (columns.map WideColumn.value).flatten)
    | r => r

/-- the first loop of `Deserialize`, for the columns still to read: the status, the input after the names, the
columns with their names and empty values, and `column_value_sizes` -/
def deserializeNamesLoop :
    ℕ → List UInt8 → List WideColumn → List UInt32 → Status × List UInt8 × List WideColumn × List UInt32
  | 0, input, columns, sizes => (.ok, input, columns, sizes)
  | n + 1, input, columns, sizes =>
    match getLengthPrefixedSlice input with
    | none => (.corruption "Error decoding wide column name", input, columns, sizes)
    | some (name, input) =>
      -- `columns.back().name().compare(name) >= 0`
      if columns.getLast?.any (fun c => sliceCompare c.name name != .lt) then
        (.corruption "Wide columns out of order", input, columns, sizes)
      else
        let columns := columns ++ [⟨name, []⟩]
        match getVarint32 input with
        | none => (.corruption "Error decoding wide column value size", input, columns, sizes)
        | some (valueSize, input) => deserializeNamesLoop n input columns (sizes ++ [valueSize])

/-- the second loop of `Deserialize`: from `pos` in `data`, each column's value is its next `value_size` bytes; the
columns given their values so far are `done` -/
def deserializeValuesLoop (data : List UInt8) :
    ℕ → List WideColumn → List UInt32 → List WideColumn → Status × List WideColumn
  | pos, column :: columns, valueSize :: sizes, done =>
    if pos + valueSize.toNat > data.length then
      (.corruption "Error decoding wide column value payload", done ++ column :: columns)
    else
      deserializeValuesLoop data (pos + valueSize.toNat) columns sizes
        (done ++ [{ column with value := (data.drop pos).take valueSize.toNat }])
  | _, columns, _, done => (.ok, done ++ columns)

/-- `WideColumnSerialization::Deserialize`: the status and the columns -/
def deserialize (input : List UInt8) : Status × List WideColumn :=
  match getVarint32 input with
  | none => (.corruption "Error decoding wide column version", [])
  | some (version, input) =>
    if version > kCurrentVersion then (.notSupported "Unsupported wide column version", [])
    else
      match getVarint32 input with
      | none => (.corruption "Error decoding number of wide columns", [])
      | some (numColumns, input) =>
        if numColumns = 0 then (.ok, [])
        else
          match deserializeNamesLoop numColumns.toNat input [] [] with
          | (.ok, data, columns, sizes) => deserializeValuesLoop data 0 columns sizes []
          | (s, _, columns, _) => (s, columns)

end WideColumnSerialization

end ForSt
