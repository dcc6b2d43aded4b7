import Settings.Proofs.Json.Reader
import Settings.Value

namespace Settings

/-- What a number becomes in JSON, where there are only finite floats. -/
def Json.Datum.ofNumber : Number → Json.Datum
  | .int n => int n.toInt
  | .float (.finite negative code) => float (.finite negative code)
  | .float _ => null

open Json (Datum)

namespace Value

/-- All floats in a value are finite. -/
inductive Finite : Value → Prop
  | string (s : String) : Finite (.string s)
  | int (n : Int64) : Finite (.int n)
  | float (negative : Bool) (code : Fin Format.binary64.infinityCode) :
    Finite (.float (.finite negative code))
  | array {items : List Value} (all : ∀ item ∈ items, Finite item) : Finite (.array items)

mutual

/-- What a value becomes in JSON. -/
def toDatum : Value → Datum
  | string s => .string s
  | number n => .ofNumber n
  | array items => .array (toData items)

def toData : List Value → List Datum
  | [] => []
  | v :: rest => toDatum v :: toData rest

end

mutual

/-- The value that is a given datum in JSON. -/
def ofDatum? : Datum → Option Value
  | .int n =>
    if Int64.minValue.toInt ≤ n ∧ n ≤ Int64.maxValue.toInt then some (int (.ofInt n)) else none
  | .float x => some (float x)
  | .string s => some (string s)
  | .array items => (ofData? items).map array
  | _ => none

def ofData? : List Datum → Option (List Value)
  | [] => some []
  | datum :: rest => (ofDatum? datum).bind fun v => (ofData? rest).map (v :: ·)

end

/-- Integers fit into sixty-four bits again, and no float has become `null`. -/
theorem ofDatum?_toDatum {v : Value} (finite : v.Finite) : ofDatum? v.toDatum = some v := by
  induction finite with
  | string s => rfl
  | int n =>
    have range : Int64.minValue.toInt ≤ n.toInt ∧ n.toInt ≤ Int64.maxValue.toInt :=
      ⟨n.minValue_le_toInt, n.toInt_le⟩
    rw [int, toDatum, Datum.ofNumber, ofDatum?, if_pos range, Int64.ofInt_toInt]
    rfl
  | float negative code => rfl
  | @array items all ih =>
    have items : ofData? (toData items) = some items := by
      clear all
      induction items with
      | nil => rfl
      | cons v rest later =>
        rw [toData, ofData?, ih v List.mem_cons_self, Option.bind_some,
          later fun item member => ih item (List.mem_cons_of_mem v member)]
        rfl
    rw [toDatum, ofDatum?, items]
    rfl

end Value

namespace Document

/-- What a document becomes in JSON. -/
def toDatum (document : Document) : Datum :=
  .object (document.entries.map fun entry => (entry.1, entry.2.toDatum))

/-- The document that is a given datum in JSON. The fields are its entries in their order, and no key
stands twice. -/
def ofDatum? : Datum → Option Document
  | .object fields =>
    (fields.mapM fun field => (Value.ofDatum? field.2).map (field.1, ·)).bind fun entries =>
      if nodup : (entries.map Prod.fst).Nodup then some ⟨entries, nodup⟩ else none
  | _ => none

theorem mapM_ofDatum? {entries : List (String × Value)} (finite : ∀ entry ∈ entries, entry.2.Finite) :
    (entries.map fun entry => (entry.1, entry.2.toDatum)).mapM
      (fun field => (Value.ofDatum? field.2).map (field.1, ·)) = some entries := by
  induction entries with
  | nil => rfl
  | cons entry rest ih =>
    rw [List.map_cons, List.mapM_cons, Value.ofDatum?_toDatum (finite entry List.mem_cons_self),
      ih fun other member => finite other (List.mem_cons_of_mem entry member)]
    rfl

theorem ofDatum?_toDatum {document : Document} (finite : ∀ entry ∈ document.entries, entry.2.Finite) :
    ofDatum? document.toDatum = some document := by
  rw [toDatum, ofDatum?, mapM_ofDatum? finite, Option.bind_some, dif_pos document.nodup]

end Document

end Settings
