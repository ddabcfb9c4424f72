import ManifestAssist.Decimal.Shortest

/-! # Values

What a document means. A value may carry a tag, through which look-ups see the value itself.
-/

namespace ManifestAssist.Yaml

inductive Value where
  | null
  | bool (b : Bool)
  | int (n : Int)
  | float (x : Binary64)
  | string (s : String)
  | list (items : List Value)
  | map (entries : List (Value × Value))
  | tagged (tag : String) (value : Value)
  deriving Inhabited

namespace Value

/-- The name of a tag without a mark in front, unless it is nothing but the mark. -/
def tagName (tag : String) : String :=
  match tag.toList with
  | '!' :: c :: rest => String.ofList (c :: rest)
  | _ => tag

mutual

/-- Are two values the same key? Mappings are, whatever the order of their entries. -/
def same : Value → Value → Bool
  | null, null => true
  | bool a, bool b => a == b
  | int a, int b => a == b
  | float a, float b => a.same b
  | string a, string b => a == b
  | list as, list bs => sameItems as bs
  | map as, map bs => as.length == bs.length && sameEntries as bs
  | tagged t a, tagged u b => tagName t == tagName u && same a b
  | _, _ => false

def sameItems : List Value → List Value → Bool
  | [], [] => true
  | a :: as, b :: bs => same a b && sameItems as bs
  | _, _ => false

def sameEntries : List (Value × Value) → List (Value × Value) → Bool
  | [], _ => true
  | (k, v) :: as, bs => bs.any (fun (k', v') => same k k' && same v v') && sameEntries as bs

end

/-- The value without its tags. -/
def untag : Value → Value
  | tagged _ v => untag v
  | v => v

def isMap (v : Value) : Bool :=
  match v.untag with
  | map _ => true
  | _ => false

/-- Is the value this string, without a tag? -/
def isString (s : String) : Value → Bool
  | string s' => s' == s
  | _ => false

/-- The value of a key that is a plain string, if it is there. -/
def get? (v : Value) (key : String) : Option Value :=
  match v.untag with
  | map entries => (entries.find? fun (k, _) => k.isString key).map (·.2)
  | _ => none

/-- The value of a key. One that is absent is null. -/
def get (v : Value) (key : String) : Value :=
  (v.get? key).getD null

def string? (v : Value) : Option String :=
  match v.untag with
  | string s => some s
  | _ => none

/-- The items of a list. What is no list has none. -/
def items (v : Value) : List Value :=
  match v.untag with
  | list items => items
  | _ => []

/-- The string of a key. -/
def field? (v : Value) (key : String) : Option String :=
  (v.get? key).bind string?

/-- The strings of a field of the items in the list of a key. -/
def fields (v : Value) (key field : String) : List String :=
  (v.get key).items.filterMap (·.field? field)

end Value

end ManifestAssist.Yaml
