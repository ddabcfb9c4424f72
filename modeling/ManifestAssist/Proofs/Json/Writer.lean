import ManifestAssist.Json.Reader
import ManifestAssist.Proofs.Text.Trim

/-! # Writing JSON

A value as a text without white space between its parts. Only characters that cannot stand in a
string as they are have escapes: the quote, the backslash and the control characters. The reader
reads each text that is written in this way back, as long as the value has no numbers. These are
kept as they were written, and a text that is no number cannot be read as one.
-/

namespace ManifestAssist.Json

/-- A character as it stands in a string. -/
def escaped (c : Char) : Text :=
  match c with
  | '"' => ['\\', '"']
  | '\\' => ['\\', '\\']
  | '\x08' => ['\\', 'b']
  | '\x0c' => ['\\', 'f']
  | '\n' => ['\\', 'n']
  | '\r' => ['\\', 'r']
  | '\t' => ['\\', 't']
  | c =>
    if c < ' ' then
      ['\\', 'u', '0', '0', Nat.digitChar (c.toNat / 16), Nat.digitChar (c.toNat % 16)]
    else
      [c]

def writeString (s : String) : Text :=
  '"' :: s.toList.flatMap escaped ++ ['"']

/-- A comma ahead of each item or member but the first. -/
def separator (isFirst : Bool) : Text :=
  if isFirst then [] else [',']

mutual

def write : Json → Text
  | null => "null".toList
  | bool b => if b then "true".toList else "false".toList
  | number text => text
  | string s => writeString s
  | array items => '[' :: writeItems true items
  | object members => '\x7b' :: writeMembers true members

def writeItems (isFirst : Bool) : List Json → Text
  | [] => [']']
  | item :: items => separator isFirst ++ write item ++ writeItems false items

def writeMembers (isFirst : Bool) : List (String × Json) → Text
  | [] => ['\x7d']
  | member :: members => separator isFirst ++ writeMember member ++ writeMembers false members

def writeMember : String × Json → Text
  | (name, value) => writeString name ++ ':' :: write value

end

/-- A value without numbers. -/
inductive NumberFree : Json → Prop
  | null : NumberFree .null
  | bool (b : Bool) : NumberFree (.bool b)
  | string (s : String) : NumberFree (.string s)
  | array {items : List Json} (h : ∀ item ∈ items, NumberFree item) : NumberFree (.array items)
  | object {members : List (String × Json)} (h : ∀ member ∈ members, NumberFree member.2) :
    NumberFree (.object members)

section Strings

variable (c : Char) (s rest : Text)

theorem valueIn?_digits {n : Nat} (hn : n < 32) :
    Text.valueIn? 16 ['0', '0', Nat.digitChar (n / 16), Nat.digitChar (n % 16)] = some n := by
  have hall : ∀ n < 32, Text.valueIn? 16
      ['0', '0', Nat.digitChar (n / 16), Nat.digitChar (n % 16)] = some n := by decide
  exact hall n hn

theorem readString?_escape {d : Char} (hc : c ≠ 'u') (h : escape? c = some d) :
    readString? ('\\' :: c :: rest) = (readString? rest).map fun (s, rest) => (d :: s, rest) := by
  rw [readString?, h]
  · cases readString? rest <;> rfl
  · rintro - - - - - rfl
    exact absurd rfl hc

theorem readString?_control (hc : c < ' ') :
    readString? ('\\' :: 'u' :: '0' :: '0' :: Nat.digitChar (c.toNat / 16) ::
        Nat.digitChar (c.toNat % 16) :: rest) =
      (readString? rest).map fun (s, rest) => (c :: s, rest) := by
  have hlt : c.toNat < 32 := hc
  have hvalid : c.toNat.isValidChar := c.valid
  rw [readString?, valueIn?_digits hlt]
  simp only [Option.bind_eq_bind, Option.bind_some]
  rw [if_pos hvalid]
  cases readString? rest <;> simp

theorem readString?_plain (hquote : c ≠ '"') (hbackslash : c ≠ '\\') (hc : ' ' ≤ c) :
    readString? (c :: rest) = (readString? rest).map fun (s, rest) => (c :: s, rest) := by
  have hguard : (guard (' ' ≤ c && c != '\\') : Option Unit) = some () :=
    if_pos (by simp [hc, hbackslash])
  rw [readString?, hguard]
  · cases readString? rest <;> rfl
  · exact hquote
  · rintro - - - - - rfl
    exact absurd rfl hbackslash
  · rintro - - rfl
    exact absurd rfl hbackslash

theorem readString?_escaped :
    readString? (escaped c ++ rest) = (readString? rest).map fun (s, rest) => (c :: s, rest) := by
  unfold escaped
  split
  case h_8 hquote hbackslash _ _ _ _ _ =>
    split
    case isTrue hc => exact readString?_control c rest hc
    case isFalse hc => exact readString?_plain c rest hquote hbackslash (Char.not_lt.mp hc)
  all_goals exact readString?_escape _ rest (by decide) rfl

theorem readString?_flatMap_escaped :
    readString? (s.flatMap escaped ++ '"' :: rest) = some (s, rest) := by
  induction s with
  | nil => rfl
  | cons c s ih =>
    rw [List.flatMap_cons, List.append_assoc, readString?_escaped, ih]
    rfl

end Strings

/-- With as many calls as the text is long, a value is read off the front of what follows it. -/
def Reads (v : Json) : Prop :=
  ∀ (fuel : Nat) (rest : Text), (write v).length ≤ fuel →
    readValue? fuel (write v ++ rest) = some (v, rest)

section Values

variable {v : Json} {items : List Json} {members : List (String × Json)} {fuel : Nat}
  {isFirst : Bool} {rest : Text}

theorem NumberFree.exists_write_eq_cons (h : NumberFree v) :
    ∃ c text, write v = c :: text ∧ isSpace c = false ∧ c ≠ ']' := by
  cases h with
  | null => exact ⟨_, _, rfl, by decide, by decide⟩
  | bool b => cases b <;> exact ⟨_, _, rfl, by decide, by decide⟩
  | string s => exact ⟨_, _, rfl, by decide, by decide⟩
  | array h => exact ⟨_, _, rfl, by decide, by decide⟩
  | object h => exact ⟨_, _, rfl, by decide, by decide⟩

theorem skipSpace_cons {c : Char} {text : Text} (hc : isSpace c = false) :
    skipSpace (c :: text) = c :: text :=
  List.dropWhile_cons_of_neg (by simp [hc])

theorem length_writeItems_pos : 0 < (writeItems isFirst items).length := by
  induction items generalizing isFirst with
  | nil => simp [writeItems]
  | cons item items ih =>
    simp only [writeItems, List.length_append]
    exact Nat.lt_add_left _ ih

theorem length_writeMembers_pos : 0 < (writeMembers isFirst members).length := by
  induction members generalizing isFirst with
  | nil => simp [writeMembers]
  | cons member members ih =>
    simp only [writeMembers, List.length_append]
    exact Nat.lt_add_left _ ih

theorem readItems?_writeItems (h : ∀ item ∈ items, NumberFree item ∧ Reads item)
    (hfuel : (writeItems isFirst items).length ≤ fuel) :
    readItems? fuel isFirst (writeItems isFirst items ++ rest) = some (items, rest) := by
  -- Each item takes one step of the fuel, and at least one character that pays for it.
  induction items generalizing fuel isFirst with
  | nil =>
    cases fuel with
    | zero => simp [writeItems] at hfuel
    | succ fuel => rfl
  | cons item items ih =>
    obtain ⟨⟨hfree, hreads⟩, hitems⟩ := List.forall_mem_cons.mp h
    obtain ⟨c, text, hwrite, hspace, hc⟩ := hfree.exists_write_eq_cons
    simp only [writeItems, List.length_append] at hfuel
    have hpos : 0 < (writeItems false items).length := length_writeItems_pos
    have hhead : 0 < (write item).length := by simp [hwrite]
    obtain ⟨fuel, rfl⟩ : ∃ n, fuel = n + 1 := ⟨fuel - 1, by omega⟩
    have hitem := hreads fuel (writeItems false items ++ rest) (by omega)
    have hrest : readItems? fuel false (writeItems false items ++ rest) = some (items, rest) :=
      ih hitems (by omega)
    simp only [writeItems, List.append_assoc]
    cases isFirst with
    | true =>
      rw [hwrite, List.cons_append] at hitem
      rw [separator, if_pos rfl, List.nil_append, hwrite, List.cons_append, readItems?.eq_3,
        skipSpace_cons hspace, hitem]
      · simp [hrest]
      · rw [skipSpace_cons hspace]
        intro rest heq
        exact hc (List.cons.inj heq).1
    | false =>
      rw [separator, if_neg Bool.false_ne_true, List.singleton_append, readItems?.eq_4 _ _ _ rfl,
        hitem]
      simp [hrest]

theorem readMember?_writeMember {name : String} (h : Reads v)
    (hfuel : (writeMember (name, v)).length ≤ fuel) :
    readMember? fuel (writeMember (name, v) ++ rest) = some ((name, v), rest) := by
  simp only [writeMember, writeString, List.length_append, List.length_cons] at hfuel
  obtain ⟨fuel, rfl⟩ : ∃ n, fuel = n + 1 := ⟨fuel - 1, by omega⟩
  have hvalue := h fuel rest (by omega)
  simp only [writeMember, writeString, List.cons_append, List.append_assoc, List.nil_append]
  rw [readMember?, skipSpace_cons (by decide)]
  simp only [readString?_flatMap_escaped, Option.bind_eq_bind, Option.bind_some]
  rw [skipSpace_cons (by decide)]
  simp [hvalue]

theorem readMembers?_writeMembers (h : ∀ member ∈ members, Reads member.2)
    (hfuel : (writeMembers isFirst members).length ≤ fuel) :
    readMembers? fuel isFirst (writeMembers isFirst members ++ rest) = some (members, rest) := by
  induction members generalizing fuel isFirst with
  | nil =>
    cases fuel with
    | zero => simp [writeMembers] at hfuel
    | succ fuel => rfl
  | cons member members ih =>
    obtain ⟨name, v⟩ := member
    obtain ⟨hreads, hmembers⟩ := List.forall_mem_cons.mp h
    simp only [writeMembers, List.length_append] at hfuel
    have hpos : 0 < (writeMembers false members).length := length_writeMembers_pos
    have hhead : 0 < (writeMember (name, v)).length := by simp [writeMember, writeString]
    obtain ⟨fuel, rfl⟩ : ∃ n, fuel = n + 1 := ⟨fuel - 1, by omega⟩
    have hmember : readMember? fuel (writeMember (name, v) ++ (writeMembers false members ++ rest)) =
        some ((name, v), writeMembers false members ++ rest) :=
      readMember?_writeMember hreads (by omega)
    have hrest : readMembers? fuel false (writeMembers false members ++ rest) =
        some (members, rest) := ih hmembers (by omega)
    simp only [writeMembers, List.append_assoc]
    cases isFirst with
    | true =>
      have hskip : skipSpace (writeMember (name, v) ++ (writeMembers false members ++ rest)) =
          writeMember (name, v) ++ (writeMembers false members ++ rest) := by
        simp only [writeMember, writeString, List.cons_append]
        exact skipSpace_cons (by decide)
      rw [separator, if_pos rfl, List.nil_append, readMembers?.eq_3, hskip, hmember]
      · simp [hrest]
      · rw [hskip]
        intro rest heq
        simp [writeMember, writeString] at heq
    | false =>
      rw [separator, if_neg Bool.false_ne_true, List.singleton_append,
        readMembers?.eq_4 _ _ _ rfl, hmember]
      simp [hrest]

theorem Reads.of_succ (hpos : 0 < (write v).length)
    (h : ∀ (fuel : Nat) (rest : Text), (write v).length ≤ fuel + 1 →
      readValue? (fuel + 1) (write v ++ rest) = some (v, rest)) : Reads v := by
  intro fuel rest hfuel
  obtain ⟨fuel, rfl⟩ : ∃ n, fuel = n + 1 := ⟨fuel - 1, by omega⟩
  exact h fuel rest hfuel

theorem NumberFree.reads (h : NumberFree v) : Reads v := by
  induction h with
  | null => exact .of_succ (by decide) fun _ _ _ => rfl
  | bool b => cases b <;> exact .of_succ (by decide) fun _ _ _ => rfl
  | string s =>
    refine .of_succ (by simp [write, writeString]) fun fuel rest _ => ?_
    simp only [write, writeString, List.cons_append, List.append_assoc, List.nil_append]
    change (readString? (s.toList.flatMap escaped ++ '"' :: rest)).bind _ = _
    rw [readString?_flatMap_escaped, Option.bind_some]
    exact congrArg (fun s => some (Json.string s, rest)) String.ofList_toList
  | array h ih =>
    refine .of_succ (by simp [write]) fun fuel rest hfuel => ?_
    simp only [write, List.length_cons] at hfuel
    simp only [write, List.cons_append]
    change (readItems? fuel true _).bind _ = _
    rw [readItems?_writeItems (fun item hmem => ⟨h item hmem, ih item hmem⟩) (by omega)]
    rfl
  | object h ih =>
    refine .of_succ (by simp [write]) fun fuel rest hfuel => ?_
    simp only [write, List.length_cons] at hfuel
    simp only [write, List.cons_append]
    change (readMembers? fuel true _).bind _ = _
    rw [readMembers?_writeMembers ih (by omega)]
    rfl

theorem parse?_write (h : NumberFree v) : parse? (write v) = some v := by
  have hread := h.reads (2 * (write v).length + 2) [] (by omega)
  rw [List.append_nil] at hread
  rw [parse?, hread]
  rfl

example : write (.object [("help", .string "C:\\tmp\n"), ("labels", .array [.null])]) =
    "\x7b\"help\":\"C:\\\\tmp\\n\",\"labels\":[null]\x7d".toList := by
  decide +kernel

theorem exists_writeMembers_eq_append :
    ∃ text, writeMembers isFirst members = text ++ ['\x7d'] := by
  induction members generalizing isFirst with
  | nil => exact ⟨[], rfl⟩
  | cons member members ih =>
    obtain ⟨text, htext⟩ : ∃ text, writeMembers false members = text ++ ['\x7d'] := ih
    refine ⟨separator isFirst ++ writeMember member ++ text, ?_⟩
    simp only [writeMembers, htext, List.append_assoc]

theorem trim_write_object : (write (object members)).trim = write (object members) := by
  obtain ⟨text, htext⟩ : ∃ text, writeMembers true members = text ++ ['\x7d'] :=
    exists_writeMembers_eq_append
  rw [write, htext]
  apply Text.trimWhile_eq_self
  · rintro _ ⟨⟩
    decide
  · intro c hc
    rw [← List.cons_append, List.getLast?_concat] at hc
    obtain rfl := Option.some.inj hc
    decide

end Values

end ManifestAssist.Json
