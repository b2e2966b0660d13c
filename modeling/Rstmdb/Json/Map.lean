import Rstmdb.Json.Text

/-! How `serde_json` writes a map. A key is written as a string, also if it is a number
or a boolean; any other key ends the writing with an error behind what is out already. -/
namespace Rstmdb.Json

/-- What the key of a map serializes as. -/
inductive KeyData
  | string (s : String)
  | number (n : Number)
  | bool (b : Bool)
  /-- A sequence, a map or nothing at all. -/
  | compound
  deriving DecidableEq, Repr

/-- The string that a key is written as. -/
def KeyData.text : KeyData → Option String
  | .string s => some s
  | .number n => some (String.ofList (numberText n))
  | .bool b => some (if b then "true" else "false")
  | .compound => none

/-- The fields of a map with its closing brace, and whether it came to that. -/
def writeFields (first : Bool) : List (KeyData × Value) → List Char × Bool
  | [] => ([Char.ofNat 125], true)
  | (k, v) :: fs =>
    let comma := if first then [] else [',']
    match k.text with
    | none => (comma, false)
    | some s =>
      let (rest, ok) := writeFields false fs
      (comma ++ (stringText s ++ ':' :: (text v ++ rest)), ok)

def writeMap (fs : List (KeyData × Value)) : List Char × Bool :=
  let (out, ok) := writeFields true fs
  (Char.ofNat 123 :: out, ok)

theorem writeFields_ok_iff (first : Bool) (fs : List (KeyData × Value)) :
    (writeFields first fs).2 = true ↔ ∀ f ∈ fs, f.1.text ≠ none := by
  induction fs generalizing first with
  | nil => simp [writeFields]
  | cons f fs ih =>
    obtain ⟨k, v⟩ := f
    cases hk : k.text with
    | none => simp [writeFields, hk]
    | some s => simp [writeFields, hk, ih]

/-- A map is written to its end exactly if all its keys are strings or written as such. -/
theorem writeMap_ok_iff (fs : List (KeyData × Value)) :
    (writeMap fs).2 = true ↔ ∀ f ∈ fs, f.1.text ≠ none :=
  writeFields_ok_iff true fs

end Rstmdb.Json
