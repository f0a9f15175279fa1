import BrowserFlow.Fault.Basic
import BrowserFlow.Text.Base64

/-!
Data made into values. A collaborator may hand over anything; what enters a run
is its normal form: what is absent or no finite number becomes null, a date its
written form, octets their letters, and an object the mapping of its own entries
without those that are absent or functions. Beside it stand the two other views
of a datum: what JSON text shows of it, and what it is called in a message.
-/

set_option autoImplicit false
set_option relaxedAutoImplicit false

namespace BrowserFlow

namespace Fault

/-- The entries of a fault besides its name and kind. -/
def details : Fault → Entries Value
  | .validation issues => [("issues", .sequence (issues.map .text))]
  | .unresolved reference => [("reference", .text reference)]
  | .template source _ => [("template", .text source)]
  | .exhausted step attempts _ =>
    [("stepName", .text step), ("attempts", .number (Number.ofCount attempts))]
  | _ => []

end Fault

namespace Failure

/-- The own entries of an error. The message is not among them. -/
def entries : Failure → Entries Value
  | .fault f => ("name", .text f.kind.title) :: ("kind", .text f.kind.name) :: f.details
  | .configuration issues =>
    [("issues", .sequence (issues.map .text)), ("name", .text "ConfigError")]
  | .runtime _ _ => []
  | .plain (some name) _ => [("name", .text name)]
  | .plain none _ => []

end Failure

namespace Datum

mutual

/-- A value as a datum. -/
def ofValue : Value → Datum
  | .null => .null
  | .bool b => .bool b
  | .number x => .number x
  | .text t => .text t
  | .sequence items => .sequence (ofItems items)
  | .mapping entries => .object (ofEntries entries) []

/-- The items of a sequence as data. -/
def ofItems : List Value → List Datum
  | [] => []
  | item :: rest => ofValue item :: ofItems rest

/-- The entries of a mapping as data. -/
def ofEntries : List (Text × Value) → List (Text × Datum)
  | [] => []
  | (key, value) :: rest => (key, ofValue value) :: ofEntries rest

end

/-- Octets under their indexes. -/
def octetEntries (octets : List UInt8) : Entries Value :=
  octets.mapIdx fun index octet ↦ (Text.ofNat index, .number (Number.ofNat octet.toNat))

/-- Whether a datum is absent. -/
def isAbsent : Datum → Bool
  | .absent => true
  | _ => false

/-- Whether an object leaves an entry with this datum out of its normal form. -/
def isPassedOver : Datum → Bool
  | .absent => true
  | .function => true
  | _ => false

mutual

/-- The normal form of a datum. A date that is no moment has none. -/
def normal : Datum → Except Failure Value
  | .absent => .ok .null
  | .null => .ok .null
  | .bool b => .ok (.bool b)
  | .number x => .ok (if x.isFinite then .number x else .null)
  | .text t => .ok (.text t)
  | .integer n => .ok (.number (Number.ofInt n))
  | .symbol _ => .ok .null
  | .function => .ok .null
  | .date (some m) => .ok (.text m.toText)
  | .date none => .error (.runtime .outOfRange "Invalid time value")
  | .bytes octets => .ok (.mapping (octetEntries octets))
  | .buffer octets => .ok (.text (Base64.encode octets))
  | .sequence items => do .ok (.sequence (← normalItems items))
  | .object own _ => do .ok (.mapping (← normalEntries [] own))
  | .map => .ok (.mapping [])
  | .set => .ok (.mapping [])
  | .pattern _ => .ok (.mapping [])
  | .failure f => .ok (.mapping f.entries)

/-- The normal forms of the items of a sequence. -/
def normalItems : List Datum → Except Failure (List Value)
  | [] => .ok []
  | item :: rest => do
    let first ← normal item
    .ok (first :: (← normalItems rest))

/-- The normal forms of the entries of an object, written over those that are done. -/
def normalEntries (done : Entries Value) : List (Text × Datum) → Except Failure (Entries Value)
  | [] => .ok done
  | (key, datum) :: rest => do
    if datum.isPassedOver then normalEntries done rest
    else
      let value ← normal datum
      normalEntries (done.assign key value) rest

end

/-- Whether JSON text shows nothing of a datum: an entry with it is left out, an item becomes
null. -/
def isUnwritten : Datum → Bool
  | .absent => true
  | .function => true
  | .symbol _ => true
  | _ => false

mutual

/-- What JSON text shows of a datum; of what it shows nothing of, null. -/
def shown : Datum → Value
  | .absent => .null
  | .null => .null
  | .bool b => .bool b
  | .number x => .number x
  | .text t => .text t
  | .integer n => .number (Number.ofInt n)
  | .symbol _ => .null
  | .function => .null
  | .date (some m) => .text m.toText
  | .date none => .null
  | .bytes octets => .mapping (octetEntries octets)
  | .buffer octets =>
    .mapping [("type", .text "Buffer"),
      ("data", .sequence (octets.map fun octet ↦ .number (Number.ofNat octet.toNat)))]
  | .sequence items => .sequence (shownItems items)
  | .object own _ => .mapping (shownEntries own)
  | .map => .mapping []
  | .set => .mapping []
  | .pattern _ => .mapping []
  | .failure f => .mapping f.entries

/-- What JSON text shows of items. -/
def shownItems : List Datum → List Value
  | [] => []
  | item :: rest => shown item :: shownItems rest

/-- What JSON text shows of entries. -/
def shownEntries : List (Text × Datum) → Entries Value
  | [] => []
  | (key, datum) :: rest =>
    if datum.isUnwritten then shownEntries rest else (key, shown datum) :: shownEntries rest

end

/-- What JSON text shows of a datum, if it shows anything. -/
def shown? (d : Datum) : Option Value := if d.isUnwritten then none else some d.shown

mutual

/-- Whether JSON text can show a datum. It has no form for integers of any size. -/
def isWritable : Datum → Bool
  | .integer _ => false
  | .sequence items => areWritable items
  | .object own _ => areEntriesWritable own
  | _ => true

/-- Whether JSON text can show items. -/
def areWritable : List Datum → Bool
  | [] => true
  | item :: rest => isWritable item && areWritable rest

/-- Whether JSON text can show entries. -/
def areEntriesWritable : List (Text × Datum) → Bool
  | [] => true
  | (_, datum) :: rest => isWritable datum && areEntriesWritable rest

end

/-- The JSON text of a datum that JSON text shows something of. -/
def written (d : Datum) : Except Failure Text :=
  if d.isWritable then .ok (Json.write d.shown)
  else .error (.runtime .wrongType "Do not know how to serialize a BigInt")

/-- Octets as text in their 8-bit encoding. -/
def octetText (octets : List UInt8) : Text :=
  Text.ofString ((String.fromUTF8? ⟨octets.toArray⟩).getD "\ufffd")

/-- The text of a datum that is no object. -/
def plainText : Datum → Text
  | .absent => "undefined"
  | .null => "null"
  | .bool b => if b then "true" else "false"
  | .number x => x.toText
  | .text t => t
  | .integer n => Text.ofInt n
  | .symbol description => "Symbol(" ++ description ++ ")"
  | _ => "function"

/-- What an object calls itself: a conversion of its own that answers gives no text, and one that
cannot be called is passed over. -/
def objectText (entries : List (Text × Datum)) : Except Failure Text :=
  match Entries.find? entries "toString", Entries.find? entries "valueOf" with
  | none, _ => .ok "[object Object]"
  | some .function, _ => .ok "undefined"
  | some _, some .function => .ok "undefined"
  | some _, _ => .error (.runtime .wrongType "Cannot convert object to primitive value")

mutual

/-- What a datum is called in a message. Some data cannot be called anything. -/
def spoken : Datum → Except Failure Text
  | .date (some m) => .ok m.toSpokenText
  | .date none => .ok "Invalid Date"
  | .bytes octets => .ok (Text.join "," (octets.map fun octet ↦ Text.ofNat octet.toNat))
  | .buffer octets => .ok (octetText octets)
  | .sequence items => do .ok (Text.join "," (← spokenItems items))
  | .object own inherited => objectText (own ++ inherited)
  | .map => .ok "[object Map]"
  | .set => .ok "[object Set]"
  | .pattern source => .ok ("/" ++ source ++ "/")
  | .failure f =>
    .ok (if f.name.isEmpty then f.message
      else if f.message.isEmpty then f.name
      else f.name ++ ": " ++ f.message)
  | other => .ok other.plainText

/-- What the items of a sequence are called; what is absent or null has no name there, and a symbol
must not stand there. -/
def spokenItems : List Datum → Except Failure (List Text)
  | [] => .ok []
  | item :: rest => do
    let first ← match item with
      | .absent => .ok Text.empty
      | .null => .ok Text.empty
      | .symbol _ => .error (.runtime .wrongType "Cannot convert a Symbol value to a string")
      | other => spoken other
    .ok (first :: (← spokenItems rest))

end

/-- The word for the kind of a datum. -/
def kindName : Datum → Text
  | .absent => "undefined"
  | .null => "null"
  | .bool _ => "boolean"
  | .number _ => "number"
  | .text _ => "string"
  | .integer _ => "bigint"
  | .symbol _ => "symbol"
  | .function => "function"
  | .sequence _ => "sequence"
  | _ => "mapping"

/-- Whether a datum has named entries. -/
def isMapping (d : Datum) : Bool := d.kindName == "mapping"

/-- A datum as text: scalars by their names or digits, the rest as JSON. -/
def toText (d : Datum) : Except Failure Text :=
  match d with
  | .sequence _ => d.written
  | _ => if d.isMapping then d.written else .ok d.plainText

/-- The entries of a datum that can be listed: its own and, behind them, those of its ancestor
that it does not cover. -/
def listed : Datum → List (Text × Datum)
  | .sequence items => items.mapIdx fun index item ↦ (Text.ofNat index, item)
  | .bytes octets => ofEntries (octetEntries octets)
  | .buffer octets => ofEntries (octetEntries octets)
  | .object own inherited => own ++ inherited.filter fun (key, _) ↦ !Entries.has own key
  | .failure f => ofEntries f.entries
  | _ => []

end Datum

end BrowserFlow
