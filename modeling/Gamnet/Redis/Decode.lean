import Gamnet.Redis.Parse
import Gamnet.Redis.Reply

/-!
# Decoding a reply

A reply that arrives in one segment is divided into the words of its items, and Parse
scans them. The result set is that of the reply exactly when every leaf is one word with
its type, the words of an error text behind its first one push nothing, and no count asks
for more calls than there are words (`decodes_iff`).

The difficult direction is that a wrong step is never made good by a later one. Pushed
entries stay, so a wrong entry stays; and once the scan has pushed, or owes, more than
the leaves that it has passed, it does so up to the end (`surplus_items`).
-/

namespace Gamnet
namespace Redis

section OneSegment

theorem hasCrLf_append
    (s t : Bytes) :
    hasCrLf (s ++ crlf ++ t) = true := by
  induction s with
  | nil =>
      simp [crlf, hasCrLf]
  | cons c s ih =>
      cases s with
      | nil =>
          simp only [List.singleton_append, List.nil_append] at ih ⊢
          simp only [crlf, List.cons_append, hasCrLf, Bool.or_eq_true] at ih ⊢
          exact Or.inr ih
      | cons d s =>
          simp only [List.cons_append, hasCrLf, Bool.or_eq_true] at ih ⊢
          exact Or.inr ih

/-- Without a word that was cut off, the words of a read are added as they are. -/
theorem foldl_addWord
    (tokens ws : List Bytes) :
    ws.foldl addWord (tokens, []) = (tokens ++ ws, []) := by
  induction ws generalizing tokens with
  | nil =>
      simp
  | cons w ws ih =>
      have hadd : addWord (tokens, []) w = (tokens ++ [w], []) := by
        simp [addWord]
      rw [List.foldl_cons, hadd, ih, List.append_assoc, List.singleton_append]

/-- A text with words that ends in CR LF, in one segment. -/
theorem execute_segment
    {text : Bytes}
    (hwords : words (text ++ crlf) ≠ [])
    (segments : List Bytes) :
    execute ((text ++ crlf) :: segments) =
      match finishScan ⟨0, false, ResultSetImpl.empty⟩ (words (text ++ crlf)) with
      | none => .undefined
      | some impl => .returns impl segments := by
  have hline : hasCrLf (text ++ crlf) = true := by
    have h := hasCrLf_append text []
    rwa [List.append_nil] at h
  have hread : readUntil [] ((text ++ crlf) :: segments) = some (text ++ crlf, segments) := by
    cases segments <;> simp [readUntil, hasCrLf, hline]
  have hlast : (text ++ crlf).getLast? = some lf := by
    simp [crlf]
  have hround : readRound ⟨[], [], (text ++ crlf) :: segments⟩ =
      .inr (some (words (text ++ crlf), segments)) := by
    simp only [readRound, hread, foldl_addWord, List.nil_append, hwords, if_false, hlast, if_true]
  rw [execute, WhileLoop.run_done hround]
  cases hscan : finishScan ⟨0, false, ResultSetImpl.empty⟩ (words (text ++ crlf)) <;>
    simp only [parseAll_eq (Nat.le_refl _), hscan]

/-- The encoding of items ends in CR LF. -/
theorem exists_bytesOf
    {items : List Item}
    (hitems : items ≠ []) :
    ∃ text, bytesOf items = text ++ crlf := by
  induction items with
  | nil =>
      exact absurd rfl hitems
  | cons item items ih =>
      cases items with
      | nil =>
          cases item <;> exact ⟨_, List.append_nil _⟩
      | cons next items =>
          obtain ⟨text, htext⟩ := ih (List.cons_ne_nil _ _)
          refine ⟨item.bytes ++ text, ?_⟩
          rw [bytesOf, List.flatMap_cons, List.append_assoc]
          exact congrArg (item.bytes ++ ·) htext

/-- Every item has a word. -/
theorem Item.exists_words
    (item : Item) :
    ∃ w ws, item.words = w :: ws := by
  cases item with
  | simple s =>
      obtain ⟨w, ws, h⟩ := exists_words_cons (c := plus) (by decide) s.val
      exact ⟨_, ws, h⟩
  | error s =>
      obtain ⟨w, ws, h⟩ := exists_words_cons (c := minus) (by decide) s.val
      exact ⟨_, ws, h⟩
  | integer n => exact ⟨_, _, rfl⟩
  | bulk s => exact ⟨_, _, rfl⟩
  | null => exact ⟨_, _, rfl⟩
  | header n => exact ⟨_, _, rfl⟩

theorem wordsOf_ne_nil
    {items : List Item}
    (hitems : items ≠ []) :
    wordsOf items ≠ [] := by
  cases items with
  | nil =>
      exact absurd rfl hitems
  | cons item items =>
      obtain ⟨w, ws, hw⟩ := item.exists_words
      simp [wordsOf, hw]

/-- The items of a reply, in one segment. -/
theorem execute_bytesOf
    {items : List Item}
    (hitems : items ≠ []) :
    execute [bytesOf items] =
      match finishScan ⟨0, false, ResultSetImpl.empty⟩ (wordsOf items) with
      | none => .undefined
      | some impl => .returns impl [] := by
  obtain ⟨text, htext⟩ := exists_bytesOf hitems
  have hwords := words_bytesOf items
  rw [htext] at hwords ⊢
  rw [execute_segment (by rw [hwords]; exact wordsOf_ne_nil hitems), hwords]

end OneSegment

section Plain

/-- The items of which every word does what it should: a simple string or a bulk string
is one word, and no further word of an error text pushes an entry. -/
def Item.Plain : Item → Prop
  | .simple s => Words.NoSpace isSpace s.val
  | .error s => ∀ w ∈ (Redis.words (minus :: s.val)).tail, kindOf w ≠ .text ∧ kindOf w ≠ .bulk
  | .integer _ => True
  | .bulk s => s ≠ [] ∧ Words.NoSpace isSpace s
  | .null => False
  | .header _ => True

/-- The words of an item that Parse is called for. -/
def Item.calls : Item → List Bytes
  | .bulk s => [dollar :: decimal s.length]
  | item => item.words

/-- The number of calls that a word asks for. -/
def callCount (token : Bytes) : Option Nat :=
  if kindOf token = .array then (atoi token.tail).map Int.toNat else some 0

/-- Every count, with the counts behind it, asks for no more calls than there are behind
it. -/
def Covers : List Nat → Prop
  | [] => True
  | c :: cs => c + cs.sum ≤ cs.length ∧ Covers cs

/-- The counts of all calls of items are numbers and are covered. -/
def Covered (items : List Item) : Prop :=
  ∃ counts, (items.flatMap Item.calls).mapM callCount = some counts ∧ Covers counts

/-- The calls that are left behind one call. -/
def afterCall (pending : Nat) (token : Bytes) : Option Nat :=
  (callCount token).map fun count => pending - 1 + count

/-- The calls that are left behind a list of calls. -/
theorem foldlM_afterCall
    (tokens : List Bytes) (p : Nat) :
    tokens.foldlM afterCall p =
      (tokens.mapM callCount).map fun counts => counts.foldl (fun p c => p - 1 + c) p := by
  induction tokens generalizing p with
  | nil =>
      rfl
  | cons token tokens ih =>
      rw [List.foldlM_cons, List.mapM_cons]
      cases hcount : callCount token with
      | none =>
          simp [afterCall, hcount]
      | some c =>
          simp only [afterCall, hcount, Option.map_some, Option.bind_eq_bind, Option.bind_some, ih]
          cases tokens.mapM callCount <;> rfl

/-- No call is left behind counts that are covered. -/
theorem foldl_eq_zero_iff
    (counts : List Nat) (p : Nat) :
    counts.foldl (fun p c => p - 1 + c) p = 0 ↔
      p + counts.sum ≤ counts.length ∧ Covers counts := by
  induction counts generalizing p with
  | nil =>
      simp [Covers]
  | cons c cs ih =>
      rw [List.foldl_cons, ih, Covers, List.sum_cons, List.length_cons]
      constructor
      · rintro ⟨hle, hcs⟩
        exact ⟨by omega, by omega, hcs⟩
      · rintro ⟨hle, hc, hcs⟩
        exact ⟨by omega, hcs⟩

/-- No call is left exactly when the counts are covered. -/
theorem foldlM_afterCall_eq_zero_iff
    (items : List Item) :
    (items.flatMap Item.calls).foldlM afterCall 0 = some 0 ↔ Covered items := by
  rw [foldlM_afterCall, Covered]
  simp only [Option.map_eq_some_iff]
  refine exists_congr fun counts => and_congr_right fun _ => ?_
  rw [foldl_eq_zero_iff]
  cases counts with
  | nil =>
      simp [Covers]
  | cons c cs =>
      simp only [Covers, List.sum_cons, List.length_cons]
      constructor
      · exact fun h => h.2
      · exact fun h => ⟨by omega, h⟩

end Plain

section Aligned

/-- The error text behind a word that pushes nothing. -/
def ResultSetImpl.addError (impl : ResultSetImpl) (token : Bytes) : ResultSetImpl :=
  match kindOf token with
  | .error => { impl with error := token }
  | .other => { impl with error := impl.error ++ 0x20 :: token }
  | _ => impl

/-- The result set behind an item of which every word does what it should. -/
def ResultSetImpl.addItem (impl : ResultSetImpl) : Item → ResultSetImpl
  | .simple s => impl.pushBack s.val
  | .error s => (Redis.words (minus :: s.val)).foldl ResultSetImpl.addError impl
  | .integer n => impl.pushBack (integerText n)
  | .bulk s => impl.pushBack s
  | .null => impl
  | .header _ => impl

/-- The text of an item that has one. -/
def Item.text : Item → Option Bytes
  | .simple s => some s.val
  | .integer n => some (integerText n)
  | .bulk s => some s
  | _ => none

variable {impl : ResultSetImpl} {p : Nat}

/-- A word that pushes nothing is a call. -/
theorem scanWord_of_kind
    {token : Bytes}
    (htext : kindOf token ≠ .text)
    (hbulk : kindOf token ≠ .bulk) :
    scanWord ⟨p, false, impl⟩ token =
      (afterCall p token).map fun n => ⟨n, false, impl.addError token⟩ := by
  unfold scanWord afterCall callCount ResultSetImpl.addError
  cases hkind : kindOf token with
  | text => exact absurd hkind htext
  | bulk => exact absurd hkind hbulk
  | array => cases atoi token.tail <;> simp
  | error | null | other => simp

/-- A word that pushes its rest. -/
theorem scanWord_text
    {token : Bytes}
    (htext : kindOf token = .text) :
    scanWord ⟨p, false, impl⟩ token =
      (afterCall p token).map fun n => ⟨n, false, impl.pushBack token.tail⟩ := by
  simp [scanWord, afterCall, callCount, htext]

/-- The header of a bulk string. -/
theorem scanWord_bulk
    {token : Bytes}
    (hbulk : kindOf token = .bulk) :
    scanWord ⟨p, false, impl⟩ token =
      (afterCall p token).map fun n => ⟨n, true, impl⟩ := by
  simp [scanWord, afterCall, callCount, hbulk]

/-- Words that push nothing. -/
theorem scan_of_kinds
    {tokens : List Bytes}
    (hkinds : ∀ w ∈ tokens, kindOf w ≠ .text ∧ kindOf w ≠ .bulk) :
    scan ⟨p, false, impl⟩ tokens =
      (tokens.foldlM afterCall p).map fun n =>
        ⟨n, false, tokens.foldl ResultSetImpl.addError impl⟩ := by
  induction tokens generalizing p impl with
  | nil =>
      rfl
  | cons w tokens ih =>
      obtain ⟨htext, hbulk⟩ := hkinds w List.mem_cons_self
      rw [scan_cons, scanWord_of_kind htext hbulk, List.foldlM_cons, List.foldl_cons]
      cases afterCall p w with
      | none => rfl
      | some n => exact ih fun w hw => hkinds w (List.mem_cons_of_mem _ hw)

theorem kindOf_plus
    (s : Bytes) :
    kindOf (plus :: s) = .text := by
  rfl

theorem kindOf_minus
    (s : Bytes) :
    kindOf (minus :: s) = .error := by
  rfl

theorem kindOf_colon
    (s : Bytes) :
    kindOf (colon :: s) = .text := by
  rfl

/-- A length is not the one of a null. -/
theorem kindOf_dollar_decimal
    (n : Nat) :
    kindOf (dollar :: decimal n) = .bulk := by
  have hne : dollar :: decimal n ≠ nullToken := by
    intro heq
    have hdigits : decimal n = [minus, 0x31] := List.cons.inj heq |>.2
    exact (mem_decimal (n := n) (by rw [hdigits]; exact List.mem_cons_self)).2 rfl
  have hkind : kindOf (dollar :: decimal n) =
      if dollar :: decimal n = nullToken then .null else .bulk := rfl
  rw [hkind, if_neg hne]

theorem kindOf_star
    (s : Bytes) :
    kindOf (star :: s) = .array := by
  rfl

/-- The first word of an error. -/
theorem words_error
    (s : Line) :
    ∃ w ws, words (minus :: s.val) = (minus :: w) :: ws :=
  exists_words_cons (by decide) s.val

/-- An item of which every word does what it should. -/
theorem scan_plain
    {item : Item}
    (hplain : item.Plain) :
    scan ⟨p, false, impl⟩ item.words =
      (item.calls.foldlM afterCall p).map fun n => ⟨n, false, impl.addItem item⟩ := by
  cases item with
  | simple s =>
      have hword : words (plus :: s.val) = [plus :: s.val] := words_cons_noSpace (by decide) hplain
      simp only [Item.words, Item.calls, hword, scan_cons, scanWord_text (kindOf_plus s.val),
        List.foldlM_cons]
      cases afterCall p (plus :: s.val) <;> rfl
  | error s =>
      refine scan_of_kinds ?_
      obtain ⟨w, ws, hws⟩ := words_error s
      intro v hv
      rw [Item.Plain] at hplain
      rw [Item.words, hws] at hv
      rw [hws, List.tail_cons] at hplain
      rcases List.mem_cons.mp hv with rfl | hv
      · simp [kindOf_minus]
      · exact hplain v hv
  | integer n =>
      simp only [Item.words, Item.calls, scan_cons, scanWord_text (kindOf_colon (integerText n)),
        List.foldlM_cons]
      cases afterCall p (colon :: integerText n) <;> rfl
  | bulk s =>
      have hword : words s = [s] := Words.words_of_noSpace hplain.1 hplain.2
      simp only [Item.words, Item.calls, hword, scan_cons,
        scanWord_bulk (kindOf_dollar_decimal s.length), List.foldlM_cons]
      cases afterCall p (dollar :: decimal s.length) <;> rfl
  | null =>
      exact absurd hplain (by simp [Item.Plain])
  | header n =>
      have hkind := kindOf_star (decimal n)
      have hword : scanWord ⟨p, false, impl⟩ (star :: decimal n) = _ :=
        scanWord_of_kind (by simp [hkind]) (by simp [hkind])
      simp only [Item.words, Item.calls, scan_cons, List.foldlM_cons, hword]
      cases afterCall p (star :: decimal n) <;> rfl

/-- Items of which every word does what it should: the step lemma for each. -/
theorem scan_plain_items
    {items : List Item}
    (hplain : ∀ item ∈ items, item.Plain) :
    scan ⟨p, false, impl⟩ (wordsOf items) =
      ((items.flatMap Item.calls).foldlM afterCall p).map fun n =>
        ⟨n, false, items.foldl ResultSetImpl.addItem impl⟩ := by
  induction items generalizing p impl with
  | nil =>
      rfl
  | cons item items ih =>
      have hrest := fun {n impl} => @ih impl n fun i hi => hplain i (List.mem_cons_of_mem _ hi)
      rw [wordsOf, List.flatMap_cons, scan_append, scan_plain (hplain item List.mem_cons_self),
        List.flatMap_cons, List.foldlM_append, List.foldl_cons]
      cases item.calls.foldlM afterCall p with
      | none => rfl
      | some n => exact hrest

end Aligned

section Surplus

/-- The entries that are pushed, and the one that is owed. -/
def Scan.weight (s : Scan) : Nat :=
  s.impl.entries.length + if s.raw then 1 else 0

variable {s s' : Scan} {token : Bytes} {tokens : List Bytes}

/-- A word only adds entries, and no word reduces the weight. -/
theorem scanWord_mono
    (hword : scanWord s token = some s') :
    s.impl.entries <+: s'.impl.entries ∧ s.weight ≤ s'.weight := by
  unfold scanWord at hword
  unfold Scan.weight
  split at hword
  · rename_i hraw
    cases hword
    simp [ResultSetImpl.pushBack, hraw]
  · rename_i hraw
    have hfalse : s.raw = false := by
      simpa using hraw
    cases hkind : kindOf token with
    | array =>
        simp only [hkind, Option.map_eq_some_iff] at hword
        obtain ⟨count, _, rfl⟩ := hword
        simp
    | bulk =>
        simp only [hkind] at hword
        cases hword
        simp [hfalse]
    | text =>
        simp only [hkind] at hword
        cases hword
        simp [ResultSetImpl.pushBack, hfalse]
    | error | null | other =>
        simp only [hkind] at hword
        cases hword
        simp

theorem scan_mono
    (hscan : scan s tokens = some s') :
    s.impl.entries <+: s'.impl.entries ∧ s.weight ≤ s'.weight := by
  induction tokens generalizing s with
  | nil =>
      cases hscan
      exact ⟨List.prefix_rfl, Nat.le_refl _⟩
  | cons w tokens ih =>
      rw [scan_cons, Option.bind_eq_some_iff] at hscan
      obtain ⟨s₁, hword, hrest⟩ := hscan
      obtain ⟨hstart, hweight⟩ := scanWord_mono hword
      obtain ⟨hstart', hweight'⟩ := ih hrest
      exact ⟨hstart.trans hstart', hweight.trans hweight'⟩

/-- A word that pushes its rest, or that is owed a text, adds to the weight. -/
theorem weight_of_kind
    (hraw : s.raw = false)
    (hkind : kindOf token = .text ∨ kindOf token = .bulk)
    (hword : scanWord s token = some s') :
    s'.weight = s.weight + 1 := by
  unfold scanWord at hword
  unfold Scan.weight
  rcases hkind with hkind | hkind
  all_goals
    simp only [hraw, hkind, Bool.false_eq_true, if_false] at hword
    cases hword
    simp [ResultSetImpl.pushBack, hraw]

/-- A word of an error text that should push nothing but does adds to the weight. -/
theorem weight_of_exists
    (hraw : s.raw = false)
    (hkinds : ∃ w ∈ tokens, kindOf w = .text ∨ kindOf w = .bulk)
    (hscan : scan s tokens = some s') :
    s.weight + 1 ≤ s'.weight := by
  induction tokens generalizing s with
  | nil =>
      obtain ⟨w, hw, _⟩ := hkinds
      cases hw
  | cons v tokens ih =>
      rw [scan_cons, Option.bind_eq_some_iff] at hscan
      obtain ⟨s₁, hword, hrest⟩ := hscan
      by_cases hv : kindOf v = .text ∨ kindOf v = .bulk
      · rw [← weight_of_kind hraw hv hword]
        exact (scan_mono hrest).2
      · have hraw₁ : s₁.raw = false := by
          rw [not_or] at hv
          obtain ⟨p, raw, impl⟩ := s
          simp only at hraw
          subst hraw
          rw [scanWord_of_kind hv.1 hv.2, Option.map_eq_some_iff] at hword
          obtain ⟨n, _, rfl⟩ := hword
          rfl
        have hkinds' : ∃ w ∈ tokens, kindOf w = .text ∨ kindOf w = .bulk := by
          obtain ⟨w, hw, hkind⟩ := hkinds
          rcases List.mem_cons.mp hw with rfl | hw
          · exact absurd hkind hv
          · exact ⟨w, hw, hkind⟩
        have hmono := (scanWord_mono hword).2
        have hstep := ih hraw₁ hkinds' hrest
        omega

/-- The texts of items. -/
def textsOf (items : List Item) : List Bytes :=
  items.filterMap Item.text

/-- The first word of a text is pushed as it is when a text is owed. -/
theorem entries_of_raw
    (hraw : s.raw = true)
    (hword : scanWord s token = some s') :
    s'.raw = false ∧ s'.impl.entries = s.impl.entries ++ [token] := by
  unfold scanWord at hword
  rw [if_pos hraw] at hword
  cases hword
  exact ⟨rfl, rfl⟩

/-- What is pushed behind as many entries as leaves were passed is the text of the next
leaf. -/
theorem eq_of_pushed
    {l front rest : List Bytes} {x : Bytes}
    (hraw : s.raw = true)
    (hlength : s.impl.entries.length = front.length)
    (hword : scanWord s token = some s')
    (hstart : s'.impl.entries <+: l)
    (hl : l = front ++ x :: rest) :
    token = x := by
  obtain ⟨t, ht⟩ := hstart
  rw [(entries_of_raw hraw hword).2, hl, List.append_assoc] at ht
  exact (List.cons.inj (List.append_inj ht hlength).2).1

/-- With more pushed or owed than leaves are passed, there is more behind the next item
too. Where the first word of a leaf is taken for the text that is owed, it is not the
text of this leaf, or it is the text "$2" with the length 2 and comes a second time. -/
theorem surplus_item
    {item : Item} {front rest : List Bytes}
    (hnull : item ≠ .null)
    (hweight : front.length < s.weight)
    (hscan : scan s item.words = some s')
    (hstart : s'.impl.entries <+: front ++ item.text.toList ++ rest) :
    front.length + item.text.toList.length < s'.weight := by
  have hmono := (scan_mono hscan).2
  obtain ⟨w, ws, hws⟩ := item.exists_words
  have hfirst : ∀ x, item.text = some x → (kindOf w = .text ∨ kindOf w = .bulk) →
      (w = x → ∀ s₁, s₁.raw = false → s.weight ≤ s₁.weight → scan s₁ ws = some s' →
        s.weight < s'.weight) →
      front.length + 1 < s'.weight := by
    intro x htext hkind hsame
    rw [htext, Option.toList_some, List.append_assoc, List.singleton_append] at hstart
    rw [hws, scan_cons, Option.bind_eq_some_iff] at hscan
    obtain ⟨s₁, hword, hrest⟩ := hscan
    have hmono₁ := (scanWord_mono hword).2
    have hmono₂ := scan_mono hrest
    cases hraw : s.raw with
    | false =>
        have hadd := weight_of_kind hraw hkind hword
        have hle := hmono₂.2
        omega
    | true =>
        by_cases htight : s.impl.entries.length = front.length
        · have heq := eq_of_pushed hraw htight hword (hmono₂.1.trans hstart) rfl
          have hlt := hsame heq s₁ (entries_of_raw hraw hword).1 hmono₁ hrest
          omega
        · have hdef : s.weight = s.impl.entries.length + 1 := by
            simp [Scan.weight, hraw]
          omega
  cases item with
  | simple s₀ =>
      obtain ⟨v, vs, hvs⟩ := exists_words_cons (c := plus) (by decide) s₀.val
      rw [Item.words, hvs] at hws
      cases hws
      refine hfirst s₀.val rfl (Or.inl (kindOf_plus v)) ?_
      intro heq
      have hspace : Words.NoSpace isSpace s₀.val := by
        rw [← heq]
        exact noSpace_of_words_eq hvs
      have hone := words_cons_noSpace (c := plus) (by decide) hspace
      rw [hvs, ← heq] at hone
      simp at hone
  | integer n =>
      cases hws
      refine hfirst (integerText n) rfl (Or.inl (kindOf_colon _)) ?_
      intro heq
      exact absurd (congrArg List.length heq) (by simp)
  | bulk s₀ =>
      cases hws
      refine hfirst s₀ rfl (Or.inr (kindOf_dollar_decimal _)) ?_
      intro heq s₁ hraw₁ hle hrest
      have hspace : Words.NoSpace isSpace s₀ := by
        rw [← heq]
        intro c hc
        rcases List.mem_cons.mp hc with rfl | hc
        · decide
        · exact noSpace_decimal _ c hc
      have hone : words s₀ = [s₀] :=
        Words.words_of_noSpace (by rw [← heq]; exact List.cons_ne_nil _ _) hspace
      have hkind : kindOf s₀ = .bulk := by
        rw [← heq]
        exact kindOf_dollar_decimal _
      rw [hone] at hrest
      have hadd := weight_of_exists hraw₁ ⟨s₀, List.mem_singleton_self _, Or.inr hkind⟩ hrest
      omega
  | null =>
      exact absurd rfl hnull
  | error _ | header _ =>
      simp only [Item.text, Option.toList_none, List.length_nil, Nat.add_zero]
      omega

/-- The run lemma: the surplus stays up to the end. -/
theorem surplus_items
    {items : List Item} {front : List Bytes}
    (hnull : ∀ item ∈ items, item ≠ .null)
    (hweight : front.length < s.weight)
    (hscan : scan s (wordsOf items) = some s')
    (hstart : s'.impl.entries <+: front ++ textsOf items) :
    front.length + (textsOf items).length < s'.weight := by
  induction items generalizing s front with
  | nil =>
      cases hscan
      simpa [textsOf] using hweight
  | cons item items ih =>
      have htexts : textsOf (item :: items) = item.text.toList ++ textsOf items := by
        cases htext : item.text <;> simp [textsOf, htext]
      rw [wordsOf, List.flatMap_cons, scan_append, Option.bind_eq_some_iff] at hscan
      obtain ⟨s₁, hitem, hrest⟩ := hscan
      rw [htexts, ← List.append_assoc] at hstart
      have hstep := surplus_item (hnull item List.mem_cons_self) hweight hitem
        ((scan_mono hrest).1.trans hstart)
      have hnext := @ih s₁ (front ++ item.text.toList)
        (fun i hi => hnull i (List.mem_cons_of_mem _ hi)) (by rwa [List.length_append]) hrest
        hstart
      rw [List.length_append] at hnext
      rw [htexts, List.length_append]
      omega

end Surplus

section Exact

variable {impl : ResultSetImpl} {p : Nat} {s' : Scan} {items : List Item}

theorem textsOf_cons
    (item : Item) (items : List Item) :
    textsOf (item :: items) = item.text.toList ++ textsOf items := by
  cases htext : item.text <;> simp [textsOf, htext]

theorem wordsOf_cons
    (item : Item) (items : List Item) :
    wordsOf (item :: items) = item.words ++ wordsOf items := by
  rfl

theorem entries_addItem
    (impl : ResultSetImpl) (item : Item) :
    (impl.addItem item).entries = impl.entries ++ item.text.toList := by
  have herror : ∀ (ws : List Bytes) (impl : ResultSetImpl),
      (ws.foldl ResultSetImpl.addError impl).entries = impl.entries := by
    intro ws
    induction ws with
    | nil =>
        intro impl
        rfl
    | cons w ws ih =>
        intro impl
        rw [List.foldl_cons, ih, ResultSetImpl.addError]
        cases kindOf w <;> rfl
  cases item with
  | error s => simp [ResultSetImpl.addItem, herror, Item.text]
  | _ => simp [ResultSetImpl.addItem, ResultSetImpl.pushBack, Item.text]

/-- A word of items is not empty and has no separator. -/
theorem of_mem_wordsOf
    {w : Bytes}
    (hw : w ∈ wordsOf items) :
    w ≠ [] ∧ Words.NoSpace isSpace w := by
  rw [← words_bytesOf] at hw
  exact Words.of_mem_words hw

/-- From entries that are right so far, a scan that ends with the right entries finds
that every word of the next item does what it should. -/
theorem plain_of_scan_cons
    {item : Item}
    (hnull : ∀ i ∈ item :: items, i ≠ .null)
    (hscan : scan ⟨p, false, impl⟩ (wordsOf (item :: items)) = some s')
    (hraw : s'.raw = false)
    (hentries : s'.impl.entries = impl.entries ++ textsOf (item :: items)) :
    item.Plain := by
  rw [textsOf_cons] at hentries
  rw [wordsOf_cons] at hscan
  cases item with
  | integer n => trivial
  | header n => trivial
  | null => exact absurd rfl (hnull .null List.mem_cons_self)
  | simple s =>
      obtain ⟨w, ws, hws⟩ := exists_words_cons (c := plus) (by decide) s.val
      rw [Item.words, hws, List.cons_append, scan_cons,
        scanWord_text (kindOf_plus w), Option.bind_eq_some_iff] at hscan
      obtain ⟨s₁, hword, hrest⟩ := hscan
      obtain ⟨n, _, rfl⟩ := Option.map_eq_some_iff.mp hword
      obtain ⟨t, ht⟩ := (scan_mono hrest).1
      rw [hentries, Item.text, Option.toList_some, List.singleton_append, List.tail_cons] at ht
      simp only [ResultSetImpl.pushBack, List.append_assoc, List.append_right_inj,
        List.singleton_append, List.cons.injEq] at ht
      have hspace := noSpace_of_words_eq hws
      rw [Item.Plain, ← ht.1]
      exact fun c hc => hspace c (List.mem_cons_of_mem _ hc)
  | bulk s =>
      rw [Item.words, List.cons_append, scan_cons,
        scanWord_bulk (kindOf_dollar_decimal s.length), Option.bind_eq_some_iff] at hscan
      obtain ⟨s₁, hword, hrest⟩ := hscan
      obtain ⟨n, _, rfl⟩ := Option.map_eq_some_iff.mp hword
      have hwords : ∀ w ∈ Redis.words s ++ wordsOf items, w ≠ [] ∧ Words.NoSpace isSpace w := by
        intro w hw
        rcases List.mem_append.mp hw with hw | hw
        · exact Words.of_mem_words hw
        · exact of_mem_wordsOf hw
      -- the word behind the header is pushed, whatever item it is of
      cases hnext : Redis.words s ++ wordsOf items with
      | nil =>
          rw [hnext] at hrest
          cases hrest
          cases hraw
      | cons w ws =>
          rw [hnext, scan_cons, Option.bind_eq_some_iff] at hrest
          obtain ⟨s₂, hpush, hrest⟩ := hrest
          have hstart := (scan_mono hrest).1
          rw [hentries] at hstart
          have heq := @eq_of_pushed _ _ _ _ impl.entries (textsOf items) s rfl rfl hpush hstart rfl
          rw [← heq]
          exact hwords w (by rw [hnext]; exact List.mem_cons_self)
  | error s =>
      by_contra hplain
      rw [scan_append, Option.bind_eq_some_iff] at hscan
      obtain ⟨s₁, hitem, hrest⟩ := hscan
      have hkinds : ∃ w ∈ Item.words (.error s), kindOf w = .text ∨ kindOf w = .bulk := by
        simp only [Item.Plain, not_forall] at hplain
        obtain ⟨w, hw, hkind⟩ := hplain
        exact ⟨w, List.mem_of_mem_tail hw, by tauto⟩
      have hweight := weight_of_exists rfl hkinds hitem
      have hstart : s'.impl.entries <+: impl.entries ++ textsOf items := by
        rw [hentries]
        exact List.prefix_rfl
      have hlater := surplus_items (fun i hi => hnull i (List.mem_cons_of_mem _ hi)) hweight hrest
        hstart
      have hlength := congrArg List.length hentries
      simp only [Item.text, Option.toList_none, List.nil_append, List.length_append] at hlength
      simp only [Scan.weight, hraw, Bool.false_eq_true, if_false] at hlater
      omega

/-- The same of all items. -/
theorem plain_of_scan
    (hnull : ∀ i ∈ items, i ≠ .null)
    (hscan : scan ⟨p, false, impl⟩ (wordsOf items) = some s')
    (hraw : s'.raw = false)
    (hentries : s'.impl.entries = impl.entries ++ textsOf items) :
    ∀ item ∈ items, item.Plain := by
  induction items generalizing p impl with
  | nil =>
      simp
  | cons item items ih =>
      have hitem := plain_of_scan_cons hnull hscan hraw hentries
      rw [wordsOf_cons, scan_append, scan_plain hitem, Option.bind_eq_some_iff] at hscan
      obtain ⟨s₁, hfirst, hrest⟩ := hscan
      obtain ⟨n, _, rfl⟩ := Option.map_eq_some_iff.mp hfirst
      rw [textsOf_cons, ← List.append_assoc, ← entries_addItem] at hentries
      intro i hi
      rcases List.mem_cons.mp hi with rfl | hi
      · exact hitem
      · exact ih (fun i hi => hnull i (List.mem_cons_of_mem _ hi)) hrest hentries i hi

/-- A word leaves an error text that is set. -/
theorem error_foldl_addError
    {impl : ResultSetImpl}
    (herror : impl.error ≠ [])
    (ws : List Bytes) :
    (ws.foldl ResultSetImpl.addError impl).error ≠ [] := by
  induction ws generalizing impl with
  | nil =>
      exact herror
  | cons w ws ih =>
      refine ih ?_
      unfold ResultSetImpl.addError
      cases hkind : kindOf w with
      | error =>
          rintro rfl
          cases hkind
      | other => simp
      | text | null | bulk | array => exact herror

/-- The error text of items is set exactly when there is an error. -/
theorem error_foldl_addItem
    (impl : ResultSetImpl) (items : List Item) :
    (items.foldl ResultSetImpl.addItem impl).error ≠ [] ↔
      impl.error ≠ [] ∨ ∃ item ∈ items, item.isError = true := by
  induction items generalizing impl with
  | nil =>
      simp
  | cons item items ih =>
      have hitem : (impl.addItem item).error ≠ [] ↔ impl.error ≠ [] ∨ item.isError = true := by
        cases item with
        | error s =>
            obtain ⟨w, ws, hws⟩ := words_error s
            refine iff_of_true ?_ (Or.inr rfl)
            rw [ResultSetImpl.addItem, hws, List.foldl_cons]
            refine error_foldl_addError ?_ ws
            simp [ResultSetImpl.addError, kindOf_minus]
        | _ => simp [ResultSetImpl.addItem, ResultSetImpl.pushBack, Item.isError]
      rw [List.foldl_cons, ih, hitem, or_assoc]
      simp

theorem entries_foldl_addItem
    (impl : ResultSetImpl) (items : List Item) :
    (items.foldl ResultSetImpl.addItem impl).entries = impl.entries ++ textsOf items := by
  induction items generalizing impl with
  | nil =>
      simp [textsOf]
  | cons item items ih =>
      rw [List.foldl_cons, ih, entries_addItem, textsOf_cons, List.append_assoc]

/-- Without a null the entries that there should be are the texts. -/
theorem leavesOf_eq
    (hnull : ∀ item ∈ items, item ≠ .null) :
    leavesOf items = (textsOf items).map some := by
  rw [leavesOf, textsOf, List.map_filterMap]
  refine List.filterMap_congr fun item hitem => ?_
  cases item with
  | null => exact absurd rfl (hnull _ hitem)
  | _ => rfl

theorem Reply.items_ne_nil
    (r : Reply) :
    r.items ≠ [] := by
  cases r <;> simp [Reply.items]

/-- The result set of a reply, when it arrives in one segment: an entry for each leaf
but the errors, and an error text exactly when there is an error. -/
def Decodes (r : Reply) : Prop :=
  ∃ impl segments, execute [r.bytes] = .returns impl segments ∧
    impl.entries.map some = leavesOf r.items ∧
    (impl.error ≠ [] ↔ ∃ item ∈ r.items, item.isError = true)

/-- A reply is decoded exactly when every word of it does what it should and the counts
are covered. -/
theorem decodes_iff
    (r : Reply) :
    Decodes r ↔ (∀ item ∈ r.items, item.Plain) ∧ Covered r.items := by
  have hexecute := execute_bytesOf r.items_ne_nil
  constructor
  · rintro ⟨impl, segments, hreturns, hentries, -⟩
    rw [Reply.bytes, hexecute] at hreturns
    have hnull : ∀ item ∈ r.items, item ≠ .null := by
      rintro item hitem rfl
      have hnone : none ∈ leavesOf r.items := List.mem_filterMap.mpr ⟨.null, hitem, rfl⟩
      rw [← hentries] at hnone
      simp at hnone
    rw [leavesOf_eq hnull] at hentries
    have htexts := List.map_injective_iff.mpr (Option.some_injective _) hentries
    cases hfinish : finishScan ⟨0, false, ResultSetImpl.empty⟩ (wordsOf r.items) with
    | none =>
        rw [hfinish] at hreturns
        cases hreturns
    | some result =>
        rw [hfinish] at hreturns
        cases hreturns
        obtain ⟨s', hscan, hend⟩ := Option.bind_eq_some_iff.mp hfinish
        rw [Scan.finish] at hend
        split at hend
        · rename_i hdone
          cases hend
          have hplain := plain_of_scan hnull hscan hdone.2 (by rw [htexts]; rfl)
          refine ⟨hplain, ?_⟩
          rw [scan_plain_items hplain] at hscan
          obtain ⟨n, hn, rfl⟩ := Option.map_eq_some_iff.mp hscan
          rw [← foldlM_afterCall_eq_zero_iff, hn]
          exact congrArg some hdone.1
        · cases hend
  · rintro ⟨hplain, hcovered⟩
    have hnull : ∀ item ∈ r.items, item ≠ .null := by
      rintro item hitem rfl
      exact hplain _ hitem
    have hfinish : finishScan ⟨0, false, ResultSetImpl.empty⟩ (wordsOf r.items) =
        some (r.items.foldl ResultSetImpl.addItem ResultSetImpl.empty) := by
      rw [finishScan, scan_plain_items hplain,
        (foldlM_afterCall_eq_zero_iff r.items).mpr hcovered]
      rfl
    refine ⟨r.items.foldl ResultSetImpl.addItem ResultSetImpl.empty, [], ?_, ?_, ?_⟩
    · rw [Reply.bytes, hexecute, hfinish]
    · rw [entries_foldl_addItem, leavesOf_eq hnull]
      rfl
    · rw [error_foldl_addItem]
      simp [ResultSetImpl.empty]

/-- A bulk string with a space is not decoded. -/
theorem not_decodes_space :
    ¬ Decodes (.bulk [0x61, 0x20, 0x62]) := by
  have hexecute : execute [(Reply.bulk [0x61, 0x20, 0x62]).bytes] =
      .returns ⟨[[0x61]], [0x20, 0x62]⟩ [] := rfl
  rintro ⟨impl, segments, hreturns, hentries, -⟩
  rw [hexecute] at hreturns
  cases hreturns
  cases hentries

end Exact

end Redis
end Gamnet
