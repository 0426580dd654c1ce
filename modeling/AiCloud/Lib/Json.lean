/-!
# Flat JSON objects and Go structs

What `encoding/json` does between a struct and a flat JSON object: encoding
writes one member a field under the field's tag, decoding goes through the
members in order and sets the field a member names. A field no member names
keeps its zero value, and a member that names no field is ignored.
-/
namespace AiCloud.Lib.Json

inductive Value
  | text (s : String)
  | number (n : Int)
  deriving DecidableEq

abbrev Object := List (String × Value)

/-- A text with nothing to escape. -/
def quote (s : String) : String := "\"" ++ s ++ "\""

def array (items : List String) : String := "[" ++ ",".intercalate items ++ "]"

/-- The members' values are texts of JSON. -/
def object (members : List (String × String)) : String :=
  "\x7b" ++ ",".intercalate (members.map (fun m => quote m.1 ++ ":" ++ m.2)) ++ "\x7d"

theorem object_ne (members : List (String × String)) : object members ≠ "" := by simp [object]

/-- Letters are compared as Unicode folds them; two letters outside ASCII fold into it. -/
def foldChar (c : Char) : Char :=
  if c.toNat = 0x17F then 's' else if c.toNat = 0x212A then 'k' else c.toLower

def foldName (s : String) : String := String.ofList (s.toList.map foldChar)

/-- A field with its tag; `set` is `none` when a value does not fit its type. -/
structure Field (α : Type) where
  tag : String
  set : Value → α → Option α

variable {α : Type}

def textField (tag : String) (set : String → α → α) : Field α where
  tag := tag
  set
    | .text s, a => some (set s a)
    | .number _, _ => none

def intField (tag : String) (set : Int → α → α) : Field α where
  tag := tag
  set
    | .number n, a => some (set n a)
    | .text _, _ => none

/-- The field of a member: the one with its exact name, or else with its folded name. -/
def fieldFor (fields : List (Field α)) (name : String) : Option (Field α) :=
  (fields.find? (fun f => f.tag = name)).or (fields.find? (fun f => foldName f.tag = foldName name))

/-- A value of the wrong type fails the whole decoding. -/
def unmarshal (fields : List (Field α)) : Object → α → Option α
  | [], a => some a
  | (name, value) :: rest, a =>
    match fieldFor fields name with
    | none => unmarshal fields rest a
    | some f =>
      match f.set value a with
      | none => none
      | some a' => unmarshal fields rest a'

/-- A member sets the field it names. -/
theorem unmarshal_set {fields : List (Field α)} {name : String} {value : Value} {rest : Object}
    {a a' : α} {f : Field α} (hf : fieldFor fields name = some f) (hs : f.set value a = some a') :
    unmarshal fields ((name, value) :: rest) a = unmarshal fields rest a' := by
  simp only [unmarshal, hf, hs]

theorem unmarshal_unknown {fields : List (Field α)} {name : String} {value : Value} {rest : Object}
    {a : α} (hf : fieldFor fields name = none) :
    unmarshal fields ((name, value) :: rest) a = unmarshal fields rest a := by
  simp only [unmarshal, hf]

end AiCloud.Lib.Json
