import Strata.Json.Parser
import Strata.Json.Printer

/-!
# Written values are read back

A value that is written on one line is read back from the front of any text that goes on
behind it. The reader has to find out for itself where each part ends. A text ends at the
first quote that no escape covers, and every quote that is written inside is covered. An
array or an object ends at the first closing mark behind a whole item, and no item begins
with one.

`ReadAs` says so of one value, and there is one lemma for each kind of value, which takes
what it needs of the items or fields from their own `ReadAs`. The reader is given a unit of
fuel for each character. It takes one for each item and each value that it begins, and
every item has a character of its own, so the bound that is carried along is the number of
characters written.

There is no lemma for numbers, since where a number ends depends on what follows it.
-/

namespace Strata.Json

/-! ## Texts -/

theorem hexValue?_digitChar : ∀ n < 16, Nat.toDigits 16 n = [Nat.digitChar n]
    ∧ Text.hexValue? (Nat.digitChar n) = some n := by
  decide

theorem toDigits_of_teen : ∀ n < 32, 16 ≤ n →
    Nat.toDigits 16 n = ['1', Nat.digitChar (n - 16)] := by
  decide

theorem escaped?_unit {c first second : Char} {high low : Nat} (rest : List Char)
    (hfirst : Text.hexValue? first = some high) (hsecond : Text.hexValue? second = some low)
    (hc : high * 16 + low = c.toNat) (hsmall : c.toNat < 32) :
    escaped? ('u' :: '0' :: '0' :: first :: second :: rest) = some (c, rest) := by
  have hzero : Text.hexValue? '0' = some 0 := rfl
  have hquad : hexQuad? ('0' :: '0' :: first :: second :: rest) = some (c.toNat, rest) := by
    simp [hexQuad?, hzero, hfirst, hsecond, hc]
  have hhigh : ¬ 0xD800 ≤ c.toNat := by omega
  have hlow : ¬ 0xDC00 ≤ c.toNat := by omega
  simp [escaped?, hquad, hhigh, hlow]

/-- The escape of a character is read as that character. -/
theorem escaped?_escape {c : Char} {escape : List Char} (h : escape? c = some escape)
    (rest : List Char) :
    ∃ more, escape = '\\' :: more ∧ escaped? (more ++ rest) = some (c, rest) := by
  unfold escape? at h
  -- The first seven characters have a name of their own behind the backslash.
  iterate 7
    split at h
    · next hc => cases h; exact ⟨_, rfl, by rw [hc]; rfl⟩
  split at h
  · next hsmall =>
      obtain ⟨hdigits, hvalue⟩ := hexValue?_digitChar c.toNat hsmall
      have hzero : Text.hexValue? '0' = some 0 := rfl
      cases h
      rw [hdigits]
      exact ⟨_, rfl, escaped?_unit rest hzero hvalue (by omega) (by omega)⟩
  split at h
  · next hlarge hsmall =>
      have hdigits := toDigits_of_teen c.toNat hsmall (by omega)
      obtain ⟨-, hvalue⟩ := hexValue?_digitChar (c.toNat - 16) (by omega)
      have hone : Text.hexValue? '1' = some 1 := rfl
      cases h
      rw [hdigits]
      exact ⟨_, rfl, escaped?_unit rest hone hvalue (by omega) hsmall⟩
  · cases h

theorem plain_of_escape?_eq_none {c : Char} (h : escape? c = none) :
    c ≠ '"' ∧ c ≠ '\\' ∧ ¬ c.toNat < 0x20 := by
  unfold escape? at h
  refine ⟨?_, ?_, ?_⟩
  · rintro rfl
    cases h
  · rintro rfl
    cases h
  · intro hsmall
    repeat' split at h
    all_goals cases h

/-- What is written for a character is read as that character. -/
theorem stringBody_char (c : Char) (fuel : Nat) (rest read : List Char) :
    stringBody (fuel + 1) ((escape? c).getD [c] ++ rest) read
      = stringBody fuel rest (c :: read) := by
  cases hescape : escape? c with
  | some escape =>
      obtain ⟨more, rfl, hread⟩ := escaped?_escape hescape rest
      rw [Option.getD_some, List.cons_append, stringBody, hread]
  | none =>
      obtain ⟨hquote, hslash, hplain⟩ := plain_of_escape?_eq_none hescape
      rw [Option.getD_none, List.singleton_append, stringBody]
      · rw [if_neg hplain]
      · exact hquote
      · exact hslash

/-- The characters that are written between the quotes. -/
def quoted (cs : List Char) : List Char :=
  cs.flatMap fun c => (escape? c).getD [c]

theorem toList_stringText (s : String) (rest : List Char) :
    (stringText s).toList ++ rest = '"' :: (quoted s.toList ++ '"' :: rest) := by
  simp [stringText, quoted]

theorem length_le_quoted (cs : List Char) : cs.length ≤ (quoted cs).length := by
  induction cs with
  | nil => exact Nat.le_refl _
  | cons c cs ih =>
      have hchar : 1 ≤ ((escape? c).getD [c]).length := by
        cases hescape : escape? c with
        | none => exact Nat.le_refl _
        | some escape =>
            obtain ⟨more, rfl, -⟩ := escaped?_escape hescape []
            exact Nat.le_add_left 1 more.length
      rw [quoted, List.flatMap_cons, List.length_append, List.length_cons, ← quoted]
      omega

theorem stringBody_quoted (cs rest read : List Char) {fuel : Nat} (hfuel : cs.length < fuel) :
    stringBody fuel (quoted cs ++ '"' :: rest) read
      = some (String.ofList (read.reverse ++ cs), rest) := by
  induction cs generalizing fuel read with
  | nil =>
      cases fuel with
      | zero => exact absurd hfuel (Nat.not_lt_zero _)
      | succ fuel => simp [quoted, stringBody]
  | cons c cs ih =>
      cases fuel with
      | zero => exact absurd hfuel (Nat.not_lt_zero _)
      | succ fuel =>
          rw [quoted, List.flatMap_cons, ← quoted, List.append_assoc, stringBody_char,
            ih _ (Nat.lt_of_succ_lt_succ hfuel), List.reverse_cons, List.append_assoc,
            List.singleton_append]

/-- The reader of a text has as much fuel as there are characters behind the first quote. -/
theorem stringBody_stringText (s : String) (rest : List Char) :
    stringBody ((quoted s.toList ++ '"' :: rest).length + 1) (quoted s.toList ++ '"' :: rest) []
      = some (s, rest) := by
  have hfuel := length_le_quoted s.toList
  rw [stringBody_quoted _ _ _ (by rw [List.length_append]; omega), List.reverse_nil,
    List.nil_append, String.ofList_toList]

/-! ## Values -/

theorem skipBlanks_cons {c : Char} (hc : c ∉ [' ', '\n', '\r', '\t']) (rest : List Char) :
    skipBlanks (c :: rest) = c :: rest := by
  simp only [List.mem_cons, not_or] at hc
  simp [skipBlanks, hc]

/-- A written value is read as `found` from the front of any text, and what is written
neither begins with a blank nor closes an array. -/
structure ReadAs (written found : Json) : Prop where
  read : ∀ {fuel : Nat} (rest : List Char), (compact written).toList.length ≤ fuel →
    value fuel ((compact written).toList ++ rest) = some (found, rest)
  front : ∃ c more, (compact written).toList = c :: more ∧ c ∉ [' ', '\n', '\r', '\t', ']']

theorem readAs_null : ReadAs .null .null where
  read {fuel} rest hfuel := by
    cases fuel with
    | zero => simp [compact] at hfuel
    | succ fuel => simp [compact, value, skipBlanks]
  front := ⟨'n', ['u', 'l', 'l'], by simp [compact], by decide⟩

theorem readAs_text (s : String) : ReadAs (.text s) (.text s) where
  read {fuel} rest hfuel := by
    cases fuel with
    | zero => simp [compact, stringText] at hfuel
    | succ fuel =>
        rw [compact, toList_stringText, value, skipBlanks_cons (by decide)]
        show Option.map _ (stringBody _ _ []) = _
        rw [stringBody_stringText, Option.map_some]
  front := ⟨'"', _, by simp [compact, stringText]; rfl, by decide⟩

/-! ## Arrays -/

theorem toList_compactItems_cons (item : Json) (list : List Json) (rest : List Char) :
    (compactItems (item :: list)).toList ++ rest = (compact item).toList
      ++ if list = [] then rest else ',' :: ((compactItems list).toList ++ rest) := by
  cases list with
  | nil => simp [compactItems]
  | cons next list => simp [compactItems, String.append_assoc]

theorem items_compactItems {list : List Json} (hlist : ∀ item ∈ list, ReadAs item item)
    (hne : list ≠ []) {fuel : Nat} (rest : List Char)
    (hfuel : (compactItems list).toList.length < fuel) :
    items fuel ((compactItems list).toList ++ ']' :: rest) = some (list, rest) := by
  induction list generalizing fuel with
  | nil => exact absurd rfl hne
  | cons item list ih =>
      cases fuel with
      | zero => exact absurd hfuel (Nat.not_lt_zero _)
      | succ fuel =>
          have hlength := congrArg List.length (toList_compactItems_cons item list [])
          rw [List.append_nil, List.length_append] at hlength
          rw [toList_compactItems_cons, items,
            (hlist item List.mem_cons_self).read _ (by omega)]
          by_cases hend : list = []
          · simp [hend, skipBlanks_cons]
          · have hmore : ∀ item ∈ list, ReadAs item item := fun item hitem =>
              hlist item (List.mem_cons_of_mem _ hitem)
            rw [if_neg hend, List.append_nil, List.length_cons] at hlength
            simp [hend, skipBlanks_cons, ih hmore hend (show _ < fuel by omega)]

theorem readAs_array {list : List Json} (hlist : ∀ item ∈ list, ReadAs item item) :
    ReadAs (.array list) (.array list) where
  read {fuel} rest hfuel := by
    have hopen : (compact (.array list)).toList ++ rest
        = '[' :: ((compactItems list).toList ++ ']' :: rest) := by
      simp [compact]
    have hlength := congrArg List.length hopen
    simp only [List.length_append, List.length_cons] at hlength
    cases fuel with
    | zero => simp [compact] at hfuel
    | succ fuel =>
        rw [hopen, value, skipBlanks_cons (by decide)]
        cases list with
        | nil => simp [compactItems, skipBlanks_cons]
        | cons item list =>
            obtain ⟨c, more, hitem, hc⟩ := (hlist item List.mem_cons_self).front
            have hread := items_compactItems hlist (List.cons_ne_nil _ _) rest
              (show _ < fuel by omega)
            rw [toList_compactItems_cons, hitem, List.cons_append] at hread ⊢
            have hblank : c ∉ [' ', '\n', '\r', '\t'] := fun h =>
              hc (List.mem_append_left [']'] h)
            have hclose : c ≠ ']' := fun h => hc (by simp [h])
            simp only [skipBlanks_cons hblank]
            split
            · next heq => exact absurd (List.cons.inj heq).1 hclose
            · rw [hread, Option.map_some]
  front := ⟨'[', _, by simp [compact]; rfl, by decide⟩

/-! ## Objects -/

theorem toList_compactFields_cons (key : String) (held : Json) (fields : List (String × Json))
    (rest : List Char) :
    (compactFields ((key, held) :: fields)).toList ++ rest = (stringText key).toList
      ++ ':' :: ((compact held).toList
        ++ if fields = [] then rest else ',' :: ((compactFields fields).toList ++ rest)) := by
  cases fields with
  | nil => simp [compactFields, String.append_assoc]
  | cons next fields => simp [compactFields, String.append_assoc]

theorem members_compactFields {fields : List (String × Json)}
    (hfields : ∀ field ∈ fields, ReadAs field.2 field.2) (hne : fields ≠ []) {fuel : Nat}
    (rest : List Char) (hfuel : (compactFields fields).toList.length < fuel) :
    members fuel ((compactFields fields).toList ++ '\x7d' :: rest) = some (fields, rest) := by
  induction fields generalizing fuel with
  | nil => exact absurd rfl hne
  | cons field fields ih =>
      obtain ⟨key, held⟩ := field
      cases fuel with
      | zero => exact absurd hfuel (Nat.not_lt_zero _)
      | succ fuel =>
          have hlength := congrArg List.length (toList_compactFields_cons key held fields [])
          rw [List.append_nil, List.length_append, List.length_cons, List.length_append] at hlength
          have hheld : ∀ rest, value fuel ((compact held).toList ++ rest) = some (held, rest) :=
            fun rest => (hfields (key, held) List.mem_cons_self).read rest
              (show (compact held).toList.length ≤ fuel by omega)
          rw [toList_compactFields_cons, toList_stringText, members, skipBlanks_cons (by decide)]
          simp only [stringBody_stringText, skipBlanks_cons (c := ':') (by decide), hheld]
          by_cases hend : fields = []
          · simp [hend, skipBlanks_cons]
          · have hmore : ∀ field ∈ fields, ReadAs field.2 field.2 := fun field hfield =>
              hfields field (List.mem_cons_of_mem _ hfield)
            rw [if_neg hend, List.append_nil, List.length_cons] at hlength
            simp [hend, skipBlanks_cons, ih hmore hend (show _ < fuel by omega)]

theorem compactFields_front (field : String × Json) (fields : List (String × Json)) :
    ∃ more, (compactFields (field :: fields)).toList = '"' :: more := by
  have hfront := toList_compactFields_cons field.1 field.2 fields []
  rw [List.append_nil, toList_stringText] at hfront
  exact ⟨_, hfront⟩

/-- An object is read with its fields put in order; of those with one key the last counts. -/
theorem readAs_object {fields : List (String × Json)}
    (hfields : ∀ field ∈ fields, ReadAs field.2 field.2) :
    ReadAs (.object fields) (.object (Fields.ofList fields)) where
  read {fuel} rest hfuel := by
    have hopen : (compact (.object fields)).toList ++ rest
        = '\x7b' :: ((compactFields fields).toList ++ '\x7d' :: rest) := by
      simp [compact]
    have hlength := congrArg List.length hopen
    simp only [List.length_append, List.length_cons] at hlength
    cases fuel with
    | zero => simp [compact] at hfuel
    | succ fuel =>
        rw [hopen, value, skipBlanks_cons (by decide)]
        cases fields with
        | nil => simp [compactFields, skipBlanks_cons, Fields.ofList]
        | cons field fields =>
            have hread := members_compactFields hfields (List.cons_ne_nil _ _) rest
              (show _ < fuel by omega)
            obtain ⟨more, hfront⟩ := compactFields_front field fields
            rw [hfront, List.cons_append] at hread ⊢
            simp only [skipBlanks_cons (c := '"') (by decide)]
            show Option.map _ (members _ _) = _
            rw [hread, Option.map_some]
  front := ⟨'\x7b', _, by simp [compact]; rfl, by decide⟩

/-! ## Whole texts -/

theorem parse?_compact {written found : Json} (h : ReadAs written found) :
    parse? (compact written) = some found := by
  have hread : value (2 * (compact written).toList.length + 2) ((compact written).toList ++ [])
      = some (found, []) := h.read [] (by omega)
  rw [List.append_nil] at hread
  simp [parse?, hread, skipBlanks]

end Strata.Json
