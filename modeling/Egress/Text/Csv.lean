import Egress.Text.Blank

/-!
# Comma separated values

Records of fields read from bytes. Fields are parted by commas and records by line feeds, carriage
returns or both; empty lines hold no record. A field that starts with a quote runs to the next
quote that is not doubled, and may hold commas and line breaks. Records may differ in length.
-/
namespace Egress.Text.Csv

/-- Where in a record the reader stands. -/
inductive Place where
  | recordStart
  | fieldStart
  | bare
  | quoted
  /-- After a quote within a quoted field. -/
  | afterQuote
  deriving DecidableEq

/-- State of a reader: the records read, the fields of the current one and the bytes of the current
field, the latest first in each. -/
structure Reader where
  place : Place
  records : List (List (List UInt8))
  fields : List (List UInt8)
  field : List UInt8

namespace Reader

def comma : UInt8 := 44
def quote : UInt8 := 34
def isBreak (b : UInt8) : Bool := b = 10 || b = 13

/-- The reader after a byte of the current field. -/
def take (r : Reader) (place : Place) (b : UInt8) : Reader :=
  { r with place, field := b :: r.field }

def endField (r : Reader) : Reader :=
  { r with place := .fieldStart, fields := r.field.reverse :: r.fields, field := [] }

def endRecord (r : Reader) : Reader :=
  let r := r.endField
  { r with place := .recordStart, records := r.fields.reverse :: r.records, fields := [] }

/-- Reads a byte that is not within quotes. -/
def stepBare (r : Reader) (b : UInt8) : Reader :=
  if b = comma then r.endField
  else if isBreak b then r.endRecord
  else r.take .bare b

/-- Reads the first byte of a field. -/
def stepStart (r : Reader) (b : UInt8) : Reader :=
  if b = quote then { r with place := .quoted } else r.stepBare b

/-- Reads a byte. -/
def step (r : Reader) (b : UInt8) : Reader :=
  match r.place with
  | .recordStart => if isBreak b then r else r.stepStart b
  | .fieldStart => r.stepStart b
  | .bare => r.stepBare b
  | .quoted => if b = quote then { r with place := .afterQuote } else r.take .quoted b
  | .afterQuote => if b = quote then r.take .quoted b else r.stepBare b

end Reader

/-- The records of a text, a byte order mark in front being skipped. -/
def records (bytes : List UInt8) : List (List (List UInt8)) :=
  let body := match bytes with
    | 0xef :: 0xbb :: 0xbf :: rest => rest
    | _ => bytes
  let r := body.foldl Reader.step ⟨.recordStart, [], [], []⟩
  (if r.place = .recordStart then r else r.endRecord).records.reverse

/-- The fields of a record as texts without blanks at the ends, `none` if one is not valid
UTF-8. -/
def texts? (record : List (List UInt8)) : Option (List String) :=
  record.mapM fun f => (String.fromUTF8? ⟨f.toArray⟩).map trim

end Egress.Text.Csv
