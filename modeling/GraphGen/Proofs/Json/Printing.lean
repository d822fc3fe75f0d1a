/-
Printed JSON is read back.

The reader of configuration finds in a printed value what was printed. Numbers are left out (`NoNumbers`), since their text can
be that of another double, and the reader refuses what nests too deep (`Nests`).

- `stringBody_quoted`: a string is read back, with its escapes undone.
- `value_compress`: so is a value, by induction on its nesting.

Main results:
- `readsAs_compress`: a value without numbers is read back from its text, which is that of no other value (`ReadsAs.unique`).
- `parse?_compress`: such a text is read in full, unless it nests too deep.
-/
import GraphGen.Json.Printer
import GraphGen.Json.Reader
import Mathlib.Data.List.Basic

namespace GraphGen.Json

/-! ## Strings -/

section Strings

variable {c : Char}

theorem stringBody_plain (hc : 0x20 ≤ c.toNat) (hq : c ≠ '"') (hb : c ≠ '\\') (rest : List Char) :
    stringBody (c :: rest) = (stringBody rest).map fun read => (c :: read.1, read.2) := by
  rw [stringBody]
  · rw [if_neg (by simp [hb]; omega)]
    cases stringBody rest <;> rfl
  · exact hq
  · rintro _ _ _ _ _ ⟨⟩
    exact absurd rfl hb
  · rintro _ _ ⟨⟩
    exact absurd rfl hb

theorem stringBody_short {mark : Char} (hm : mark ≠ 'u') (hc : shortEscape? mark = some c) (rest : List Char) :
    stringBody ('\\' :: mark :: rest) = (stringBody rest).map fun read => (c :: read.1, read.2) := by
  rw [stringBody, hc]
  · cases stringBody rest <;> rfl
  · rintro _ _ _ _ _ ⟨⟩
    exact absurd rfl hm

/-- the digits of a control are read as its code -/
theorem hexNumber?_control : ∀ n < 0x20, ∃ a b, (if n < 0x10 then ['0'] else []) ++ Text.hexDigits n = [a, b] ∧
    Text.hexNumber? ['0', '0', a, b] = some n := by
  have hdigits : ∀ n < 0x20, ((if n < 0x10 then ['0'] else []) ++ Text.hexDigits n).length = 2 ∧
      Text.hexNumber? ('0' :: '0' :: ((if n < 0x10 then ['0'] else []) ++ Text.hexDigits n)) = some n := by
    decide +kernel
  intro n hn
  obtain ⟨hlength, hread⟩ := hdigits n hn
  obtain ⟨a, b, hab⟩ := List.length_eq_two.1 hlength
  exact ⟨a, b, hab, hab ▸ hread⟩

theorem stringBody_control (hc : c.toNat < 0x20) (rest : List Char) :
    stringBody (['\\', 'u', '0', '0'] ++ (if c.toNat < 0x10 then ['0'] else []) ++ Text.hexDigits c.toNat ++ rest) =
      (stringBody rest).map fun read => (c :: read.1, read.2) := by
  obtain ⟨a, b, hab, hread⟩ := hexNumber?_control c.toNat hc
  have hunit : Text.plainUnit? c.toNat = some c := by
    rw [Text.plainUnit?, if_neg (by simp; omega), Char.ofNat_toNat]
  rw [List.append_assoc _ _ (Text.hexDigits c.toNat), hab]
  simp only [List.cons_append, List.nil_append]
  rw [stringBody, hread]
  simp only [Option.bind_eq_bind, Option.bind_some, hunit]
  cases stringBody rest <;> rfl

/-- a character is read back from what is written for it -/
theorem stringBody_escapeChar (c : Char) (rest : List Char) :
    stringBody (escapeChar c ++ rest) = (stringBody rest).map fun read => (c :: read.1, read.2) := by
  unfold escapeChar
  split
  any_goals exact stringBody_short (by decide) rfl rest
  rename_i hq hb _ _ _ _ _
  split
  · exact stringBody_control ‹_› rest
  · exact stringBody_plain (by omega) hq hb rest

/-- **A string is read back,** up to its closing quote. -/
theorem stringBody_quoted (cs rest : List Char) :
    stringBody (cs.flatMap escapeChar ++ '"' :: rest) = some (cs, rest) := by
  induction cs with
  | nil => rfl
  | cons c cs ih => rw [List.flatMap_cons, List.append_assoc, stringBody_escapeChar, ih, Option.map_some]

theorem toList_quote (s : String) (rest : List Char) :
    (quote s).toList ++ rest = '"' :: (s.toList.flatMap escapeChar ++ '"' :: rest) := by
  rw [quote, String.toList_ofList]
  simp

end Strings

/-! ## Values -/

/-- the value has no numbers, and at most `depth` arrays and objects in one another -/
inductive Nests : Nat → Json → Prop where
  | null {depth : Nat} : Nests depth null
  | bool {depth : Nat} (b : Bool) : Nests depth (bool b)
  | str {depth : Nat} (s : String) : Nests depth (str s)
  | arr {depth : Nat} {items : List Json} (h : ∀ item ∈ items, Nests depth item) : Nests (depth + 1) (arr items)
  | obj {depth : Nat} {members : List (String × Json)} (h : ∀ member ∈ members, Nests depth member.2) :
    Nests (depth + 1) (obj members)

/-- what is printed of a value is read as the value, when there is fuel for its characters -/
def ReadBack (depth : Nat) (v : Json) : Prop :=
  ∀ fuel more, v.compress.toList.length < fuel → value depth fuel (v.compress.toList ++ more) = some (v, more)

/-- the text of a member -/
def memberText (member : String × Json) : String :=
  quote member.1 ++ ":" ++ member.2.compress

/-- fuel that is more than the characters is that of one step and some for the others -/
theorem ReadBack.of_step {depth : Nat} {v : Json} (h : ∀ fuel more, v.compress.toList.length ≤ fuel →
    value depth (fuel + 1) (v.compress.toList ++ more) = some (v, more)) : ReadBack depth v := by
  intro fuel more hf
  obtain ⟨fuel, rfl⟩ := Nat.exists_eq_add_one_of_ne_zero (Nat.ne_zero_of_lt hf)
  exact h fuel more (Nat.le_of_lt_succ hf)

theorem compressItems_eq_map (items : List Json) : compressItems items = items.map compress := by
  induction items with
  | nil => rfl
  | cons item rest ih => rw [compressItems, ih, List.map_cons]

theorem compressMembers_eq_map (members : List (String × Json)) :
    compressMembers members = members.map memberText := by
  induction members with
  | nil => rfl
  | cons member rest ih => rw [compressMembers, ih, List.map_cons, memberText]

theorem toList_arr (items : List Json) (more : List Char) : (arr items).compress.toList ++ more =
    '[' :: ((String.intercalate "," (items.map compress)).toList ++ ']' :: more) := by
  rw [compress, compressItems_eq_map, String.toList_append, String.toList_append, List.append_assoc]
  simp

theorem toList_obj (members : List (String × Json)) (more : List Char) : (obj members).compress.toList ++ more =
    '\x7b' :: ((String.intercalate "," (members.map memberText)).toList ++ '\x7d' :: more) := by
  rw [compress, compressMembers_eq_map, String.toList_append, String.toList_append, List.append_assoc]
  simp

/-- a printed value begins with a character that is neither blank nor closes an array -/
theorem exists_head_compress {depth : Nat} {v : Json} (h : Nests depth v) (more : List Char) :
    ∃ c cs, v.compress.toList ++ more = c :: cs ∧ isSpace c = false ∧ c ≠ ']' := by
  cases h with
  | null => exact ⟨_, _, rfl, by decide⟩
  | bool b => cases b <;> exact ⟨_, _, rfl, by decide⟩
  | str s => exact ⟨'"', _, toList_quote s more, by decide⟩
  | arr h => exact ⟨'[', _, toList_arr _ more, by decide⟩
  | obj h => exact ⟨'\x7b', _, toList_obj _ more, by decide⟩

theorem skipSpace_of_not_space {c : Char} (h : isSpace c = false) (cs : List Char) : skipSpace (c :: cs) = c :: cs :=
  List.dropWhile_cons_of_neg (by simp [h])

section Reading

variable {depth fuel : Nat} {c : Char} {cs rest text body key : List Char} {v : Json}

theorem value_opened (hs : isSpace c = false) (hc : c ≠ ']') :
    value (depth + 1) (fuel + 1) ('[' :: c :: cs) =
      (items depth fuel (c :: cs)).map fun found => (arr found.1, found.2) := by
  rw [value, skipSpace_of_not_space (by decide)]
  simp only [Nat.add_one_ne_zero, if_false, skipSpace_of_not_space hs, Nat.add_sub_cancel]
  split
  · rename_i heq
    exact absurd (List.cons.inj heq).1 hc
  · rfl

theorem value_braced : value (depth + 1) (fuel + 1) ('\x7b' :: '"' :: cs) =
    (members depth fuel ('"' :: cs)).map fun found => (obj found.1, found.2) := by
  rw [value, skipSpace_of_not_space (by decide)]
  simp only [Nat.add_one_ne_zero, if_false, @skipSpace_of_not_space '"' (by decide), Nat.add_sub_cancel]
  rfl

theorem items_next (h : value depth fuel cs = some (v, ',' :: rest)) :
    items depth (fuel + 1) cs = (items depth fuel rest).map fun found => (v :: found.1, found.2) := by
  rw [items, h]
  simp only [Option.bind_eq_bind, Option.bind_some, @skipSpace_of_not_space ',' (by decide)]
  cases items depth fuel rest <;> rfl

theorem items_last (h : value depth fuel cs = some (v, ']' :: rest)) :
    items depth (fuel + 1) cs = some ([v], rest) := by
  rw [items, h]
  rfl

theorem members_next (hkey : stringBody body = some (key, ':' :: text)) (h : value depth fuel text = some (v, ',' :: rest)) :
    members depth (fuel + 1) ('"' :: body) =
      (members depth fuel rest).map fun found => ((String.ofList key, v) :: found.1, found.2) := by
  rw [members, skipSpace_of_not_space (by decide)]
  simp only [hkey, Option.bind_eq_bind, Option.bind_some, @skipSpace_of_not_space ':' (by decide), h,
    @skipSpace_of_not_space ',' (by decide)]
  cases members depth fuel rest <;> rfl

theorem members_last (hkey : stringBody body = some (key, ':' :: text)) (h : value depth fuel text = some (v, '\x7d' :: rest)) :
    members depth (fuel + 1) ('"' :: body) = some ([(String.ofList key, v)], rest) := by
  rw [members, skipSpace_of_not_space (by decide)]
  simp only [hkey, Option.bind_eq_bind, Option.bind_some, @skipSpace_of_not_space ':' (by decide), h]
  rfl

end Reading

/-! ## Items and members -/

theorem toList_join (first next : String) (rest : List String) (more : List Char) :
    (String.intercalate "," (first :: next :: rest)).toList ++ more =
      first.toList ++ ',' :: ((String.intercalate "," (next :: rest)).toList ++ more) := by
  rw [String.intercalate_cons_cons, String.toList_append, String.toList_append, List.append_assoc, List.append_assoc]
  rfl

theorem length_join (first next : String) (rest : List String) :
    (String.intercalate "," (first :: next :: rest)).toList.length =
      first.toList.length + ((String.intercalate "," (next :: rest)).toList.length + 1) := by
  have hlength := congrArg List.length (toList_join first next rest [])
  rwa [List.append_nil, List.append_nil, List.length_append, List.length_cons] at hlength

/-- the items of an array are read when each of them is -/
theorem items_join {depth : Nat} {item : Json} {rest : List Json} (h : ∀ v ∈ item :: rest, ReadBack depth v)
    (more : List Char) {fuel : Nat} (hf : (String.intercalate "," ((item :: rest).map compress)).toList.length + 1 < fuel) :
    items depth fuel ((String.intercalate "," ((item :: rest).map compress)).toList ++ ']' :: more) =
      some (item :: rest, more) := by
  induction rest generalizing item fuel with
  | nil =>
    obtain ⟨fuel, rfl⟩ := Nat.exists_eq_add_one_of_ne_zero (Nat.ne_zero_of_lt hf)
    rw [List.map_singleton, String.intercalate_singleton] at hf ⊢
    exact items_last (h item List.mem_cons_self fuel _ (by omega))
  | cons next rest ih =>
    obtain ⟨fuel, rfl⟩ := Nat.exists_eq_add_one_of_ne_zero (Nat.ne_zero_of_lt hf)
    obtain ⟨hitem, hrest⟩ := List.forall_mem_cons.1 h
    simp only [List.map_cons] at hf ih ⊢
    rw [length_join] at hf
    rw [toList_join, items_next (hitem fuel _ (by omega)), ih hrest (by omega), Option.map_some]

theorem toList_memberText (member : String × Json) (more : List Char) : (memberText member).toList ++ more =
    '"' :: (member.1.toList.flatMap escapeChar ++ '"' :: ':' :: (member.2.compress.toList ++ more)) := by
  rw [memberText, String.toList_append, String.toList_append, List.append_assoc, List.append_assoc, toList_quote]
  rfl

theorem length_lt_memberText (member : String × Json) :
    member.2.compress.toList.length < (memberText member).toList.length := by
  have hlength := congrArg List.length (toList_memberText member [])
  simp only [List.append_nil, List.length_append, List.length_cons] at hlength
  omega

/-- the members of an object are read when the value of each of them is -/
theorem members_join {depth : Nat} {member : String × Json} {rest : List (String × Json)}
    (h : ∀ m ∈ member :: rest, ReadBack depth m.2) (more : List Char) {fuel : Nat}
    (hf : (String.intercalate "," ((member :: rest).map memberText)).toList.length + 1 < fuel) :
    members depth fuel ((String.intercalate "," ((member :: rest).map memberText)).toList ++ '\x7d' :: more) =
      some (member :: rest, more) := by
  have hvalue := length_lt_memberText member
  induction rest generalizing member fuel with
  | nil =>
    obtain ⟨fuel, rfl⟩ := Nat.exists_eq_add_one_of_ne_zero (Nat.ne_zero_of_lt hf)
    rw [List.map_singleton, String.intercalate_singleton] at hf ⊢
    rw [toList_memberText]
    have hread := h member List.mem_cons_self fuel ('\x7d' :: more) (by omega)
    rw [members_last (stringBody_quoted _ _) hread, String.ofList_toList]
  | cons next rest ih =>
    obtain ⟨fuel, rfl⟩ := Nat.exists_eq_add_one_of_ne_zero (Nat.ne_zero_of_lt hf)
    obtain ⟨hmember, hrest⟩ := List.forall_mem_cons.1 h
    simp only [List.map_cons] at hf ih ⊢
    rw [length_join] at hf
    have hread := hmember fuel
      (',' :: ((String.intercalate "," (memberText next :: rest.map memberText)).toList ++ '\x7d' :: more)) (by omega)
    rw [toList_join, toList_memberText, members_next (stringBody_quoted _ _) hread,
      ih hrest (by omega) (length_lt_memberText next), Option.map_some, String.ofList_toList]

theorem exists_head_items {depth : Nat} {item : Json} (h : Nests depth item) (rest : List Json) (more : List Char) :
    ∃ c cs, (String.intercalate "," ((item :: rest).map compress)).toList ++ more = c :: cs ∧
      isSpace c = false ∧ c ≠ ']' := by
  cases rest with
  | nil =>
    rw [List.map_singleton, String.intercalate_singleton]
    exact exists_head_compress h more
  | cons next rest =>
    rw [List.map_cons, List.map_cons, toList_join]
    exact exists_head_compress h _

theorem exists_head_members (member : String × Json) (rest : List (String × Json)) (more : List Char) :
    ∃ cs, (String.intercalate "," ((member :: rest).map memberText)).toList ++ more = '"' :: cs := by
  cases rest with
  | nil =>
    rw [List.map_singleton, String.intercalate_singleton]
    exact ⟨_, toList_memberText member more⟩
  | cons next rest =>
    rw [List.map_cons, List.map_cons, toList_join]
    exact ⟨_, toList_memberText member _⟩

/-! ## All values -/

/-- **A value is read back from what is printed of it.** -/
theorem value_compress {depth : Nat} {v : Json} (h : Nests depth v) : ReadBack depth v := by
  induction h with
  | null => exact .of_step fun _ _ _ => rfl
  | bool b => exact .of_step fun _ _ _ => by cases b <;> rfl
  | str s =>
    refine .of_step fun fuel more _ => ?_
    have hbody := stringBody_quoted s.toList more
    rw [compress, toList_quote, value, skipSpace_of_not_space (by decide)]
    simp only [hbody, Option.map_some, String.ofList_toList]
  | @arr depth items h ih =>
    refine .of_step fun fuel more hf => ?_
    have hlength := congrArg List.length (toList_arr items [])
    simp only [List.append_nil, List.length_append, List.length_cons, List.length_nil] at hlength
    rw [toList_arr]
    cases items with
    | nil => rfl
    | cons item rest =>
      have hread := @items_join depth item rest ih more fuel (by omega)
      obtain ⟨c, cs, htext, hspace, hclosing⟩ := exists_head_items (h item List.mem_cons_self) rest (']' :: more)
      rw [htext] at hread ⊢
      rw [value_opened hspace hclosing, hread, Option.map_some]
  | @obj depth members h ih =>
    refine .of_step fun fuel more hf => ?_
    have hlength := congrArg List.length (toList_obj members [])
    simp only [List.append_nil, List.length_append, List.length_cons, List.length_nil] at hlength
    rw [toList_obj]
    cases members with
    | nil => rfl
    | cons member rest =>
      have hread := @members_join depth member rest ih more fuel (by omega)
      obtain ⟨cs, htext⟩ := exists_head_members member rest ('\x7d' :: more)
      rw [htext] at hread ⊢
      rw [value_braced, hread, Option.map_some]

/-! ## Texts -/

/-- **A printed value without numbers is read in full,** unless it nests too deep. -/
theorem parse?_compress {v : Json} (h : Nests maxDepth v) : parse? v.compress = some v := by
  have hread := value_compress h (v.compress.toList.length + 1) [] (Nat.lt_succ_self _)
  rw [List.append_nil] at hread
  rw [parse?, hread]
  rfl

/-- the value has no numbers -/
inductive NoNumbers : Json → Prop where
  | null : NoNumbers null
  | bool (b : Bool) : NoNumbers (bool b)
  | str (s : String) : NoNumbers (str s)
  | arr {items : List Json} (h : ∀ item ∈ items, NoNumbers item) : NoNumbers (arr items)
  | obj {members : List (String × Json)} (h : ∀ member ∈ members, NoNumbers member.2) : NoNumbers (obj members)

/-- the text is that of the value for every reader who lets arrays and objects nest deep enough, whatever stands behind it -/
def ReadsAs (text : String) (v : Json) : Prop :=
  ∃ depth, ∀ deeper, depth ≤ deeper → ∀ more,
    value deeper (text.toList.length + 1) (text.toList ++ more) = some (v, more)

theorem ReadsAs.unique {text : String} {v w : Json} (h : ReadsAs text v) (h' : ReadsAs text w) : v = w := by
  obtain ⟨depth, hread⟩ := h
  obtain ⟨depth', hread'⟩ := h'
  have hv := hread (max depth depth') (Nat.le_max_left _ _) []
  have hw := hread' (max depth depth') (Nat.le_max_right _ _) []
  exact congrArg Prod.fst (Option.some.inj (hv.symm.trans hw))

theorem Nests.mono {depth deeper : Nat} {v : Json} (h : Nests depth v) (hle : depth ≤ deeper) : Nests deeper v := by
  induction h generalizing deeper with
  | null => exact .null
  | bool b => exact .bool b
  | str s => exact .str s
  | arr _ ih =>
    obtain ⟨deeper, rfl⟩ := Nat.exists_eq_add_one_of_ne_zero (Nat.ne_zero_of_lt hle)
    exact .arr fun item hitem => ih item hitem (Nat.le_of_succ_le_succ hle)
  | obj _ ih =>
    obtain ⟨deeper, rfl⟩ := Nat.exists_eq_add_one_of_ne_zero (Nat.ne_zero_of_lt hle)
    exact .obj fun member hmember => ih member hmember (Nat.le_of_succ_le_succ hle)

/-- a depth that is enough for all of some values -/
theorem exists_nests_forall {l : List Json} (h : ∀ v ∈ l, ∃ depth, Nests depth v) :
    ∃ depth, ∀ v ∈ l, Nests depth v := by
  induction l with
  | nil => exact ⟨0, nofun⟩
  | cons v l ih =>
    obtain ⟨⟨first, hfirst⟩, hrest⟩ := List.forall_mem_cons.1 h
    obtain ⟨others, hothers⟩ := ih hrest
    refine ⟨max first others, List.forall_mem_cons.2 ⟨hfirst.mono (Nat.le_max_left _ _), fun w hw => ?_⟩⟩
    exact (hothers w hw).mono (Nat.le_max_right _ _)

theorem NoNumbers.exists_nests {v : Json} (h : NoNumbers v) : ∃ depth, Nests depth v := by
  induction h with
  | null => exact ⟨0, .null⟩
  | bool b => exact ⟨0, .bool b⟩
  | str s => exact ⟨0, .str s⟩
  | arr _ ih =>
    obtain ⟨depth, hdepth⟩ := exists_nests_forall ih
    exact ⟨depth + 1, .arr hdepth⟩
  | obj _ ih =>
    obtain ⟨depth, hdepth⟩ := exists_nests_forall (List.forall_mem_map.2 ih)
    exact ⟨depth + 1, .obj (List.forall_mem_map.1 hdepth)⟩

/-- **A value without numbers is read back from its text,** and what stands behind it is left. -/
theorem readsAs_compress {v : Json} (h : NoNumbers v) : ReadsAs v.compress v := by
  obtain ⟨depth, hnests⟩ := h.exists_nests
  exact ⟨depth, fun deeper hdeeper more => value_compress (hnests.mono hdeeper) _ more (Nat.lt_succ_self _)⟩

end GraphGen.Json
