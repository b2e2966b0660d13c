import Rstmdb.Core.Guard
import Rstmdb.Json.Text
import Rstmdb.Lib.OrderedMap
import Rstmdb.Wal.Payload

/-! Machine definitions: their JSON form as the derived deserializer reads it,
and the validated, indexed form that the engine works with. -/
namespace Rstmdb
open Json (Value Fields F64)

/-- A transition as written, with one or several source states. -/
structure Transition where
  fromStates : List String
  event : String
  target : String
  guard : Option String
  deriving DecidableEq, Repr

structure MachineDefinitionRaw where
  states : List String
  initial : String
  transitions : List Transition
  metadata : Option Value
  deriving Repr

/-! ## The derived deserializers

A structure is read from an object, whose other keys are ignored, or from an
array that lists the fields in their order. -/

/-- The fields of a structure: `required` ones, and then a last one that may be missing. -/
def structFields (required : List String) (last : String) : Value → Option (List Value × Value)
  | .object map => do
    let fields ← required.mapM fun name => Fields.get? map name
    return (fields, (Fields.get? map last).getD .null)
  | .array xs =>
    if xs.length = required.length then some (xs, .null)
    else if xs.length = required.length + 1 then
      some (xs.take required.length, (xs.getLast?).getD .null)
    else none
  | _ => none

def readStrings : Value → Option (List String)
  | .array xs => xs.mapM Value.asStr
  | _ => none

def deserializeFromStates : Value → Option (List String)
  | .string s => some [s]
  | v => readStrings v

def readOptionalString : Value → Option (Option String)
  | .null => some none
  | .string s => some (some s)
  | _ => none

def readTransition (v : Value) : Option Transition :=
  match structFields ["from", "event", "to"] "guard" v with
  | some ([src, event, target], guard) => do
    return ⟨← deserializeFromStates src, ← event.asStr, ← target.asStr, ← readOptionalString guard⟩
  | _ => none

def MachineDefinitionRaw.fromValue (v : Value) : Option MachineDefinitionRaw :=
  match structFields ["states", "initial", "transitions"] "meta" v with
  | some ([states, initial, transitions], metadata) => do
    let written ← transitions.asArray
    return ⟨← readStrings states, ← initial.asStr, ← written.mapM readTransition,
      if metadata.isNull then none else some metadata⟩
  | _ => none

def Transition.toJson (t : Transition) : List (String × Value) :=
  [("from", .array (t.fromStates.map Value.string)), ("event", .string t.event),
    ("to", .string t.target)] ++ optionalField "guard" t.guard

/-- The derived serializer: the fields as declared, absent options left out. -/
def MachineDefinitionRaw.fields (raw : MachineDefinitionRaw) : List (String × Value) :=
  [("states", .array (raw.states.map Value.string)), ("initial", .string raw.initial),
    ("transitions", .array (raw.transitions.map fun t => .object t.toJson))] ++
    raw.metadata.toList.map fun m => ("meta", m)

/-- What the engine uses from outside the repository, the log's needs included. -/
structure CoreExternals extends Externals, StdText where
  rawToVec : MachineDefinitionRaw → Bytes

/-! ## Validation -/

/-- Transitions by source and event, between listed states only. -/
structure Transitions (states : List String) where
  table : Table (String × String) (String × Option GuardExpr)
  listed : ∀ (key : String × String) target guard, table[key]? = some (target, guard) →
    key.1 ∈ states ∧ target ∈ states

namespace Transitions

variable {states : List String}

def empty : Transitions states := ⟨∅, by simp⟩

def insert (ts : Transitions states) (key : String × String) (hkey : key.1 ∈ states)
    (target : String) (hto : target ∈ states) (guard : Option GuardExpr) : Transitions states where
  table := ts.table.insert key (target, guard)
  listed k t g h := by
    rw [Std.ExtTreeMap.getElem?_insert] at h
    split at h
    · rename_i heq
      obtain rfl := Std.LawfulEqOrd.eq_of_compare heq
      obtain ⟨rfl, rfl⟩ : target = t ∧ guard = g := by simpa using h
      exact ⟨hkey, hto⟩
    · exact ts.listed k t g h

end Transitions

/-- A definition that passed every check. -/
structure MachineDefinition where
  name : String
  version : UInt32
  states : List String
  initial : String
  initial_mem : initial ∈ states
  transitions : Transitions states
  raw : MachineDefinitionRaw
  checksum : String

/-- The hexadecimal form of a checksum, `{:08x}`. -/
def hex8 (n : UInt32) : String :=
  let digits := Nat.toDigits 16 n.toNat
  String.ofList (List.replicate (8 - digits.length) '0' ++ digits)

/-- One transition for each of its source states. -/
def addSources {states : List String} (t : Transition) (hto : t.target ∈ states)
    (guard : Option GuardExpr) :
    List String → Transitions states → Except CoreError (Transitions states)
  | [], ts => .ok ts
  | src :: more, ts =>
    if hsrc : src ∈ states then
      if ts.table.contains (src, t.event) then
        .error (.invalidDefinition
          ("duplicate transition from '" ++ src ++ "' on event '" ++ t.event ++ "'"))
      else addSources t hto guard more (ts.insert (src, t.event) hsrc t.target hto guard)
    else .error (.invalidDefinition ("transition source '" ++ src ++ "' not in states list"))

def parseGuard (std : StdText) : Option String → Option (Except CoreError (Option GuardExpr))
  | none => some (.ok none)
  | some text =>
    match GuardExpr.parse std text with
    | none => none
    | some (.error e) => some (.error e)
    | some (.ok guard) => some (.ok (some guard))

def addTransitions (std : StdText) {states : List String} :
    List Transition → Transitions states → Option (Except CoreError (Transitions states))
  | [], ts => some (.ok ts)
  | t :: more, ts =>
    if hto : t.target ∈ states then
      match parseGuard std t.guard with
      | none => none
      | some (.error e) => some (.error e)
      | some (.ok guard) =>
        match addSources t hto guard t.fromStates ts with
        | .error e => some (.error e)
        | .ok ts => addTransitions std more ts
    else
      some (.error (.invalidDefinition
        ("transition target '" ++ t.target ++ "' not in states list")))

namespace MachineDefinition

def fromRaw (X : CoreExternals) (name : String) (version : UInt32) (raw : MachineDefinitionRaw) :
    Option (Except CoreError MachineDefinition) :=
  if hinit : raw.initial ∈ raw.states then
    match addTransitions X.toStdText raw.transitions
        (Transitions.empty : Transitions raw.states) with
    | none => none
    | some (.error e) => some (.error e)
    | some (.ok transitions) =>
      some (.ok
        { name, version, states := raw.states, initial := raw.initial, initial_mem := hinit,
          transitions, raw, checksum := hex8 (X.crc32c (X.rawToVec raw)) })
  else
    some (.error (.invalidDefinition ("initial state '" ++ raw.initial ++ "' not in states list")))

/-- `none` is a panic of the guard parser. -/
def fromJson (X : CoreExternals) (name : String) (version : UInt32) (json : Value) :
    Option (Except CoreError MachineDefinition) :=
  match MachineDefinitionRaw.fromValue json with
  | none => some (.error .json)
  | some raw => fromRaw X name version raw

def getTransition (d : MachineDefinition) (state event : String) :
    Option (String × Option GuardExpr) :=
  d.transitions.table[(state, event)]?

/-- The raw definition as JSON. -/
def toJson (d : MachineDefinition) : Value :=
  .obj ([("states", .array (d.raw.states.map Value.string)), ("initial", .string d.raw.initial),
    ("transitions", .array (d.raw.transitions.map fun t => .obj t.toJson))] ++
    d.raw.metadata.toList.map fun m => ("meta", m))

end MachineDefinition

/-- Digits with an optional sign and point, as the guard parser cuts them out. -/
def decimalF64 (s : String) : Option F64 :=
  let negative := s.toList.head? = some '-'
  let number := if negative then s.toList.tail else s.toList
  let whole := number.takeWhile (· ≠ '.')
  let decimals := (number.dropWhile (· ≠ '.')).tail
  let digits := whole ++ decimals
  if digits.isEmpty then none
  else
    let mantissa := digits.foldl (fun n c => n * 10 + (c.toNat - '0'.toNat)) 0
    let magnitude := Float.ofScientific mantissa true decimals.length
    some ⟨(if negative then -magnitude else magnitude).toBits⟩

/-- The log's outside functions together with the engine's, for ASCII guards. -/
noncomputable def serdeCore : CoreExternals where
  toExternals := serde
  isAlphanumeric := Char.isAlphanum
  parseF64 := decimalF64
  rawToVec raw := Json.toVec (.object raw.fields)

noncomputable def serdeCoreReading (known : List WalEntry) : CoreExternals :=
  { serdeCore with toExternals := serdeReading known }

theorem serdeCoreReading_eq (known : List WalEntry) : serdeCoreReading known = serdeCore := by
  simp [serdeCoreReading, serdeReading_eq, serdeCore]

end Rstmdb
