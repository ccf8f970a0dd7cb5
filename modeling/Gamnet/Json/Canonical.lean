import Gamnet.Json.RoundTrip

/-!
# The values that are read

The reader gives canonical values and no others: the members of an object are in the order of
their names, and a number that fits into an int is one. A value is read again from what is written
for it exactly if it is canonical and no name has a zero byte.
-/

namespace Gamnet
namespace Json

open Reader

inductive Canonical : Value → Prop
  | null :
      Canonical .null
  | int {n : Int64} (h : n.toInt ≤ Value.maxInt) :
      Canonical (.int n)
  | uint {n : UInt64} (h : Value.maxInt < n.toNat) :
      Canonical (.uint n)
  | string (text : Text) :
      Canonical (.string text)
  | boolean (b : Bool) :
      Canonical (.boolean b)
  | array {list : List Value} (h : ∀ v ∈ list, Canonical v) :
      Canonical (.array list)
  | object {members : Members} (hordered : OrderedMap.Ordered members)
      (h : ∀ m ∈ members, Canonical m.2) :
      Canonical (.object members)

/-- No name of a member has a zero byte. -/
inductive PlainNames : Value → Prop
  | null :
      PlainNames .null
  | int (n : Int64) :
      PlainNames (.int n)
  | uint (n : UInt64) :
      PlainNames (.uint n)
  | string (text : Text) :
      PlainNames (.string text)
  | boolean (b : Bool) :
      PlainNames (.boolean b)
  | array {list : List Value} (h : ∀ v ∈ list, PlainNames v) :
      PlainNames (.array list)
  | object {members : Members} (hname : ∀ m ∈ members, '\x00' ∉ m.1)
      (h : ∀ m ∈ members, PlainNames m.2) :
      PlainNames (.object members)

section ReadBack

variable {list : List Value} {members : Members} {name : Text}

theorem readBacks_eq
    (list : List Value) :
    readBacks list = list.map readBack := by
  induction list with
  | nil => rfl
  | cons v list ih => rw [readBacks, ih, List.map_cons]

theorem readBackMembers_eq
    (members : Members) :
    readBackMembers members = members.map readBackMember := by
  induction members with
  | nil => rfl
  | cons m members ih => rw [readBackMembers, ih, List.map_cons]

theorem takeWhile_name
    (h : '\x00' ∉ name) :
    name.takeWhile (· ≠ '\x00') = name :=
  List.takeWhile_eq_self_iff.mpr fun _ hc =>
    decide_eq_true fun hzero => h (hzero ▸ hc)

/-- No member is read back with a NUL in its name. -/
theorem zero_notMem
    (m : Text × Value) :
    '\x00' ∉ (readBackMember m).1 := by
  obtain ⟨name, v⟩ := m
  intro hzero
  have hall := List.all_eq_true.mp (@List.all_takeWhile Char (· ≠ '\x00') name) _ hzero
  simp at hall

theorem readBackMember_of_plain
    {m : Text × Value}
    (h : '\x00' ∉ m.1) :
    readBackMember m = (m.1, readBack m.2) := by
  obtain ⟨name, v⟩ := m
  rw [readBackMember, takeWhile_name h]

theorem map_eq_self_iff
    {α : Type} {f : α → α} {l : List α} :
    l.map f = l ↔ ∀ a ∈ l, f a = a := by
  conv_lhs => rhs; rw [← List.map_id l]
  exact List.map_inj_left

/-- A number that fits into an int is read as one. -/
theorem unsigned_of_le
    {n : Int64}
    (hn : 0 ≤ n)
    (hle : n.toInt ≤ Value.maxInt) :
    unsigned n.toInt.toNat = .int n := by
  have hge : 0 ≤ n.toInt := @Int64.le_iff_toInt_le 0 n |>.mp hn
  have hvalue : Int64.ofNat n.toInt.toNat = n := by
    rw [← Int64.ofInt_eq_ofNat, Int.toNat_of_nonneg hge, Int64.ofInt_toInt]
  rw [unsigned, if_pos (by omega), hvalue]

/-- Of the signed numbers those up to maxInt are read back as they were. -/
theorem readBack_int_iff
    (n : Int64) :
    readBack (.int n) = .int n ↔ n.toInt ≤ Value.maxInt := by
  rw [readBack]
  split
  · rename_i hn
    have hge : 0 ≤ n.toInt := @Int64.le_iff_toInt_le 0 n |>.mp hn
    constructor
    · intro h
      by_contra hgt
      rw [unsigned, if_neg (by omega)] at h
      cases h
    · exact unsigned_of_le hn
  · rename_i hn
    have hlt : n.toInt < 0 := Int.not_le.mp fun h => hn (@Int64.le_iff_toInt_le 0 n |>.mpr h)
    exact iff_of_true rfl (by omega)

/-- Of the unsigned numbers those above maxInt are read back as they were. -/
theorem readBack_uint_iff
    (n : UInt64) :
    readBack (.uint n) = .uint n ↔ Value.maxInt < n.toNat := by
  rw [readBack, unsigned]
  split
  · rename_i hle
    exact iff_of_false (by simp) (Nat.not_lt.mpr hle)
  · rename_i hgt
    refine iff_of_true ?_ (Nat.not_le.mp hgt)
    rw [UInt64.ofNat_toNat]

/-- Names without zero bytes in their order are read in this order. -/
theorem insertAll_readBackMember
    (hordered : OrderedMap.Ordered members)
    (hname : ∀ m ∈ members, '\x00' ∉ m.1) :
    OrderedMap.insertAll [] (members.map readBackMember) =
      members.map fun m => (m.1, readBack m.2) := by
  have hmap : members.map readBackMember = members.map fun m => (m.1, readBack m.2) :=
    List.map_congr_left fun m hm => readBackMember_of_plain (hname m hm)
  rw [hmap]
  exact OrderedMap.insertAll_of_ordered (List.pairwise_map.mpr hordered)

theorem readBack_object_iff
    (ih : ∀ m ∈ members, readBack m.2 = m.2 ↔ Canonical m.2 ∧ PlainNames m.2) :
    readBack (.object members) = .object members ↔
      Canonical (.object members) ∧ PlainNames (.object members) := by
  rw [readBack, readBackMembers_eq]
  constructor
  · intro h
    have hmembers := Value.object.inj h
    have hordered : OrderedMap.Ordered members := by
      rw [← hmembers]
      exact OrderedMap.Ordered.insertAll List.Pairwise.nil _
    -- each name comes from one that was cut
    have hname : ∀ m ∈ members, '\x00' ∉ m.1 := by
      intro m hm
      rw [← hmembers] at hm
      obtain ⟨m', hm', rfl⟩ := List.mem_map.mp
        ((OrderedMap.mem_of_mem_insertAll hm).resolve_right List.not_mem_nil)
      exact zero_notMem m'
    rw [insertAll_readBackMember hordered hname, map_eq_self_iff] at hmembers
    have hvalue : ∀ m ∈ members, Canonical m.2 ∧ PlainNames m.2 := fun m hm =>
      (ih m hm).mp (congrArg Prod.snd (hmembers m hm))
    exact ⟨.object hordered fun m hm => (hvalue m hm).1, .object hname fun m hm => (hvalue m hm).2⟩
  · intro h
    cases h.1 with
    | object hordered hcanonical =>
        cases h.2 with
        | object hname hplain =>
            rw [insertAll_readBackMember hordered hname, Value.object.injEq, map_eq_self_iff]
            intro m hm
            rw [(ih m hm).mpr ⟨hcanonical m hm, hplain m hm⟩]

/-- What is read back as it was. -/
theorem readBack_eq_iff
    (v : Value) :
    readBack v = v ↔ Canonical v ∧ PlainNames v := by
  induction v using Value.induction with
  | hnull => exact iff_of_true rfl ⟨.null, .null⟩
  | hint n =>
      rw [readBack_int_iff]
      exact ⟨fun h => ⟨.int h, .int n⟩, fun ⟨.int h, _⟩ => h⟩
  | huint n =>
      rw [readBack_uint_iff]
      exact ⟨fun h => ⟨.uint h, .uint n⟩, fun ⟨.uint h, _⟩ => h⟩
  | hstring text => exact iff_of_true rfl ⟨.string text, .string text⟩
  | hboolean b => exact iff_of_true rfl ⟨.boolean b, .boolean b⟩
  | harray list ih =>
      rw [readBack, readBacks_eq, Value.array.injEq, map_eq_self_iff]
      constructor
      · intro h
        have hvalue : ∀ v ∈ list, Canonical v ∧ PlainNames v := fun v hv => (ih v hv).mp (h v hv)
        exact ⟨.array fun v hv => (hvalue v hv).1, .array fun v hv => (hvalue v hv).2⟩
      · intro h
        cases h.1 with
        | array hcanonical =>
            cases h.2 with
            | array hplain => exact fun v hv => (ih v hv).mpr ⟨hcanonical v hv, hplain v hv⟩
  | hobject members ih => exact readBack_object_iff ih

end ReadBack

/-- What is written for a value is read as the same value if and only if the value is canonical,
has no zero byte in a name, and is not nested too deep. -/
theorem parse_write_eq_iff
    (v : Value) (spare : Text) :
    parse (StyledWriter.write v) spare = .ok v ↔
      v.depth ≤ stackLimit ∧ Canonical v ∧ PlainNames v := by
  rw [parse_write, ← readBack_eq_iff]
  split
  · rename_i hdepth
    simp [hdepth]
  · rename_i hdepth
    simp [hdepth]

section Image

variable {v : Value} {list : List Value} {members : Members} {d : Nat}

theorem depths_le_iff :
    Value.depths list ≤ d ↔ ∀ v ∈ list, v.depth ≤ d := by
  induction list with
  | nil => simp [Value.depths]
  | cons v list ih => rw [Value.depths, Nat.max_le, ih, List.forall_mem_cons]

theorem memberDepths_le_iff :
    Value.memberDepths members ≤ d ↔ ∀ m ∈ members, m.2.depth ≤ d := by
  induction members with
  | nil => simp [Value.memberDepths]
  | cons m members ih =>
      obtain ⟨name, v⟩ := m
      rw [Value.memberDepths, Nat.max_le, ih, List.forall_mem_cons, Value.memberDepth]

/-- What readValue may give with a stack of this depth. -/
def Readable (d : Nat) (v : Value) : Prop :=
  v.depth ≤ d ∧ Canonical v

theorem readable_array
    (h : ∀ v ∈ list, Readable d v) :
    Readable (d + 1) (.array list) :=
  ⟨Nat.succ_le_succ (depths_le_iff.mpr fun v hv => (h v hv).1), .array fun v hv => (h v hv).2⟩

theorem readable_object
    (hordered : OrderedMap.Ordered members)
    (h : ∀ m ∈ members, Readable d m.2) :
    Readable (d + 1) (.object members) :=
  ⟨Nat.succ_le_succ (memberDepths_le_iff.mpr fun m hm => (h m hm).1),
    .object hordered fun m hm => (h m hm).2⟩

variable {readValue : Text → Except Failure (Value × Text)}

theorem bind_eq_ok
    {α β : Type} {x : Except Failure α} {g : α → Except Failure β} {b : β}
    (h : x >>= g = .ok b) :
    ∃ a, x = .ok a ∧ g a = .ok b := by
  cases x with
  | error e => cases h
  | ok a => exact ⟨a, rfl, h⟩

/-- The elements that are read are readable, if each value is. By induction on the bound of the
loop. -/
theorem readElements_readable
    (hread : ∀ text v rest, readValue text = .ok (v, rest) → Readable d v)
    (n : Nat) (text : Text) {list : List Value} {rest : Text}
    (h : readElements readValue n text = .ok (list, rest)) :
    ∀ v ∈ list, Readable d v := by
  induction n generalizing text list rest with
  | zero => cases h
  | succ n ih =>
      rw [readElements] at h
      obtain ⟨⟨v, rest'⟩, hvalue, h⟩ := bind_eq_ok h
      have hv := hread _ _ _ hvalue
      dsimp only at h
      split at h
      · cases h
        exact List.forall_mem_singleton.mpr hv
      · obtain ⟨⟨list', rest''⟩, hlist, h⟩ := bind_eq_ok h
        cases h
        exact List.forall_mem_cons.mpr ⟨hv, ih _ hlist⟩
      · cases h

theorem readArray_readable
    (hread : ∀ text v rest, readValue text = .ok (v, rest) → Readable d v)
    {text : Text} {v : Value} {rest : Text}
    (h : readArray readValue text = .ok (v, rest)) :
    Readable (d + 1) v := by
  unfold readArray at h
  split at h
  · cases h
    exact readable_array fun _ hv => absurd hv List.not_mem_nil
  · obtain ⟨⟨list, rest'⟩, hlist, h⟩ := bind_eq_ok h
    cases h
    exact readable_array (readElements_readable hread _ _ hlist)

theorem readMember_readable
    (hread : ∀ text v rest, readValue text = .ok (v, rest) → Readable d v)
    {text : Text} {m : Text × Value} {rest : Text}
    (h : readMember readValue text = .ok (m, rest)) :
    Readable d m.2 := by
  unfold readMember at h
  split at h
  · split at h
    · cases h
    · split at h
      · obtain ⟨⟨v, rest'⟩, hvalue, h⟩ := bind_eq_ok h
        cases h
        exact hread _ _ _ hvalue
      · cases h
  · cases h

/-- The members stay in order, and each of them is readable. -/
theorem readMembers_readable
    (hread : ∀ text v rest, readValue text = .ok (v, rest) → Readable d v)
    (n : Nat) (name : Text) {members members' : Members} (text : Text) {rest : Text}
    (hordered : OrderedMap.Ordered members)
    (hmembers : ∀ m ∈ members, Readable d m.2)
    (h : readMembers readValue n name members text = .ok (members', rest)) :
    OrderedMap.Ordered members' ∧ ∀ m ∈ members', Readable d m.2 := by
  induction n generalizing name members text with
  | zero => cases h
  | succ n ih =>
      rw [readMembers] at h
      split at h
      · split at h
        · cases h
          exact ⟨hordered, hmembers⟩
        · cases h
      · obtain ⟨⟨m, rest'⟩, hmember, h⟩ := bind_eq_ok h
        have hm := readMember_readable hread hmember
        have hordered' := hordered.insert (m.1, m.2)
        have hmembers' : ∀ e ∈ Value.insert m.1 m.2 members, Readable d e.2 := fun e he => by
          rcases OrderedMap.mem_of_mem_insert he with rfl | he
          · exact hm
          · exact hmembers e he
        obtain ⟨⟨more, rest''⟩, -, h⟩ := bind_eq_ok h
        dsimp only at h
        split at h
        · exact ih _ _ hordered' hmembers' h
        · cases h
          exact ⟨hordered', hmembers'⟩

theorem readObject_readable
    (hread : ∀ text v rest, readValue text = .ok (v, rest) → Readable d v)
    {text : Text} {v : Value} {rest : Text}
    (h : readObject readValue text = .ok (v, rest)) :
    Readable (d + 1) v := by
  unfold readObject at h
  obtain ⟨⟨members, rest'⟩, hmembers, h⟩ := bind_eq_ok h
  cases h
  obtain ⟨hordered, hall⟩ := readMembers_readable hread _ _ _ List.Pairwise.nil
    (fun _ hm => absurd hm List.not_mem_nil) hmembers
  exact readable_object hordered hall

/-- The test in decodeNumber keeps the value below the limit. -/
theorem decodeDigits_le
    {maxIntegerValue value n : Nat} {digits : Text}
    (h : decodeDigits maxIntegerValue value digits = some n)
    (hvalue : value ≤ maxIntegerValue) :
    n ≤ maxIntegerValue := by
  induction digits generalizing value with
  | nil =>
      cases h
      exact hvalue
  | cons c digits ih =>
      rw [decodeDigits] at h
      split at h
      · cases h
      · split at h
        · cases h
        · rename_i hfits
          refine ih h ?_
          rename_i hdigit
          have hlt : c.toNat ≤ 57 := (Char.isDigit_iff_toNat.mp (by simpa using hdigit)).2
          have hzero : '0'.toNat = 48 := rfl
          simp only [Bool.and_eq_true, Bool.or_eq_true, decide_eq_true_eq, not_and, not_or,
            Nat.not_lt] at hfits
          omega

/-- A number is read into its canonical type. -/
theorem decodeNumber_canonical
    {token : Text}
    (h : decodeNumber token = .ok v) :
    Readable 1 v := by
  unfold decodeNumber at h
  split at h
  · split at h
    · rename_i value hvalue
      have hle := decodeDigits_le hvalue (Nat.zero_le _)
      unfold Value.maxLargestInt at hle
      split at h
      · cases h
        exact ⟨Nat.le_refl 1, .int (by decide)⟩
      · cases h
        refine ⟨Nat.le_refl 1, .int ?_⟩
        rw [Int64.toInt_ofInt_of_le (by omega) (by omega)]
        omega
    · cases h
  · split at h
    · rename_i value hvalue
      have hle := decodeDigits_le hvalue (Nat.zero_le _)
      unfold Value.maxLargestUInt at hle
      split at h
      · rename_i hint
        cases h
        refine ⟨Nat.le_refl 1, .int ?_⟩
        rw [Int64.toInt_ofNat_of_lt (by unfold Value.maxInt at hint; omega)]
        omega
      · rename_i hint
        cases h
        refine ⟨Nat.le_refl 1, .uint ?_⟩
        rw [UInt64.toNat_ofNat_of_lt' (by unfold UInt64.size; omega)]
        omega
    · cases h

/-- Whatever readValue returns is readable. By induction on the depth of its calls. -/
theorem readValue_readable
    (d : Nat) (text : Text) (v : Value) (rest : Text)
    (h : Reader.readValue d text = .ok (v, rest)) :
    Readable d v := by
  induction d generalizing text v rest with
  | zero => cases h
  | succ d ih =>
      rw [Reader.readValue] at h
      split at h
      · exact readObject_readable ih h
      · exact readArray_readable ih h
      · obtain ⟨v', hnumber, h⟩ := bind_eq_ok h
        cases h
        have hv := decodeNumber_canonical hnumber
        exact ⟨hv.1.trans (Nat.succ_pos d), hv.2⟩
      · split at h
        · cases h
          exact ⟨Nat.succ_pos d, .string _⟩
        · cases h
      · cases h
        exact ⟨Nat.succ_pos d, .boolean true⟩
      · cases h
        exact ⟨Nat.succ_pos d, .boolean false⟩
      · cases h
        exact ⟨Nat.succ_pos d, .null⟩
      · cases h

/-- A list has a text, if its values have texts. -/
theorem exists_elementsText
    (hne : list ≠ [])
    (h : ∀ v ∈ list, ∃ text, ValueText v text v.depth) :
    ∃ text, ElementsText list text (Value.depths list) := by
  induction list with
  | nil => exact absurd rfl hne
  | cons v list ih =>
      obtain ⟨hv, hlist⟩ := List.forall_mem_cons.mp h
      obtain ⟨text, htext⟩ := hv
      cases list with
      | nil =>
          have hdepth : Value.depths [v] = v.depth := by simp [Value.depths]
          exact ⟨_, hdepth ▸ ElementsText.single blank_nil htext blank_nil⟩
      | cons v' list =>
          obtain ⟨texts, htexts⟩ := ih (List.cons_ne_nil _ _) hlist
          exact ⟨_, .cons blank_nil htext blank_nil htexts⟩

theorem exists_membersText
    (hne : members ≠ [])
    (h : ∀ m ∈ members, ∃ text, ValueText m.2 text m.2.depth) :
    ∃ text, MembersText members text (Value.memberDepths members) := by
  induction members with
  | nil => exact absurd rfl hne
  | cons m members ih =>
      obtain ⟨hm, hmembers⟩ := List.forall_mem_cons.mp h
      obtain ⟨text, htext⟩ := hm
      obtain ⟨name, v⟩ := m
      obtain ⟨content, -, hname⟩ := valueToQuotedStringN_text name
      have hmember := MemberText.mk blank_nil hname blank_nil blank_nil htext blank_nil
      cases members with
      | nil =>
          have hdepth : Value.memberDepths [(name, v)] = v.depth := by
            simp [Value.memberDepths, Value.memberDepth]
          exact ⟨_, hdepth ▸ MembersText.single hmember⟩
      | cons m' members =>
          obtain ⟨texts, htexts⟩ := ih (List.cons_ne_nil _ _) hmembers
          exact ⟨_, .cons hmember htexts⟩

/-- Each canonical value has a text, also where a name has a zero byte. -/
theorem exists_valueText
    (h : Canonical v) :
    ∃ text, ValueText v text v.depth := by
  induction h with
  | @array list h ih =>
      by_cases hne : list = []
      · subst hne
        exact ⟨_, .emptyArray blank_nil⟩
      · obtain ⟨text, htext⟩ := exists_elementsText hne ih
        exact ⟨_, .array htext⟩
  | @object members hordered h ih =>
      by_cases hne : members = []
      · subst hne
        exact ⟨_, .emptyObject blank_nil⟩
      · obtain ⟨text, htext⟩ := exists_membersText hne ih
        have hobject := ValueText.object htext
        have hall : OrderedMap.insertAll [] members = members :=
          OrderedMap.insertAll_of_ordered hordered
        rw [hall] at hobject
        exact ⟨_, hobject⟩
  | null => exact ⟨_, .null⟩
  | @int n h =>
      have htext := intToString_text n
      rw [(readBack_int_iff n).mpr h] at htext
      exact ⟨_, .number htext⟩
  | @uint n h =>
      have htext := uintToString_text (Nat.le_of_lt_succ n.toNat_lt)
      have hback := (readBack_uint_iff n).mpr h
      rw [readBack] at hback
      rw [hback] at htext
      exact ⟨_, .number htext⟩
  | string text =>
      obtain ⟨content, -, htext⟩ := valueToQuotedStringN_text text
      exact ⟨_, .string htext⟩
  | boolean b =>
      cases b with
      | false => exact ⟨_, .falseText⟩
      | true => exact ⟨_, .trueText⟩

end Image

/-- The values that some text is read as are the canonical ones that are not nested too deep. -/
theorem exists_parse_iff
    (v : Value) :
    (∃ document, parse document [] = .ok v) ↔ v.depth ≤ stackLimit ∧ Canonical v := by
  constructor
  · rintro ⟨document, h⟩
    unfold parse at h
    obtain ⟨⟨v', rest⟩, hvalue, h⟩ := bind_eq_ok h
    cases h
    exact readValue_readable _ _ _ _ hvalue
  · rintro ⟨hdepth, hcanonical⟩
    obtain ⟨text, htext⟩ := exists_valueText hcanonical
    have hends : Ends v (['\n'] ++ []) := ends_append blank_nil rfl v []
    have hparse := parse_text blank_nil htext [] hends
    rw [if_pos hdepth] at hparse
    exact ⟨_, hparse⟩

end Json
end Gamnet
