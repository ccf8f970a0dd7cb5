import Gamnet.Redis.Connection
import Mathlib.Tactic.IntervalCases

/-!
# Replies

The reply values of the protocol and their encoding. An array is sent as a header with
the number of its elements and the elements behind it, so a reply is a list of items in
the order in which they are sent; the encoding, the leaves and the words of a reply are
those of its items.
-/

namespace Gamnet
namespace Redis

/-- A text of one line. -/
def Line : Type := { s : Bytes // cr ∉ s ∧ lf ∉ s }

/-- Reply values. -/
inductive Reply
  | simple (s : Line)
  | error (s : Line)
  | integer (n : Int)
  | bulk (s : Bytes)
  | null
  | array (elements : List Reply)

/-- A leaf of a reply, or the header of an array. -/
inductive Item
  | simple (s : Line)
  | error (s : Line)
  | integer (n : Int)
  | bulk (s : Bytes)
  | null
  | header (n : Nat)

mutual

/-- The items of a reply in the order in which they are sent. -/
def Reply.items : Reply → List Item
  | .simple s => [.simple s]
  | .error s => [.error s]
  | .integer n => [.integer n]
  | .bulk s => [.bulk s]
  | .null => [.null]
  | .array elements => .header elements.length :: itemsOf elements

/-- The items of the elements of an array. -/
def itemsOf : List Reply → List Item
  | [] => []
  | r :: rs => r.items ++ itemsOf rs

end

/-- A number in decimal. -/
def decimal (n : Nat) : Bytes :=
  (Nat.toDigits 10 n).map fun c => UInt8.ofNat c.toNat

/-- The text of an integer. -/
def integerText : Int → Bytes
  | .ofNat n => decimal n
  | .negSucc n => minus :: decimal (n + 1)

/-- CR LF. -/
def crlf : Bytes := [cr, lf]

/-- The bytes of an item. -/
def Item.bytes : Item → Bytes
  | .simple s => plus :: s.val ++ crlf
  | .error s => minus :: s.val ++ crlf
  | .integer n => colon :: integerText n ++ crlf
  | .bulk s => dollar :: decimal s.length ++ crlf ++ s ++ crlf
  | .null => nullToken ++ crlf
  | .header n => star :: decimal n ++ crlf

/-- What a result set should have for an item: nothing for an error or a header, an
entry that is no text for a null, and else the text. -/
def Item.leaf : Item → Option (Option Bytes)
  | .simple s => some (some s.val)
  | .error _ => none
  | .integer n => some (some (integerText n))
  | .bulk s => some (some s)
  | .null => some none
  | .header _ => none

/-- The item is an error. -/
def Item.isError : Item → Bool
  | .error _ => true
  | _ => false

/-- The words of an item. -/
def Item.words : Item → List Bytes
  | .simple s => Redis.words (plus :: s.val)
  | .error s => Redis.words (minus :: s.val)
  | .integer n => [colon :: integerText n]
  | .bulk s => (dollar :: decimal s.length) :: Redis.words s
  | .null => [nullToken]
  | .header n => [star :: decimal n]

/-- The encoding of items. -/
def bytesOf (items : List Item) : Bytes :=
  items.flatMap Item.bytes

/-- The words of items. -/
def wordsOf (items : List Item) : List Bytes :=
  items.flatMap Item.words

/-- The entries that the result set of items should have. -/
def leavesOf (items : List Item) : List (Option Bytes) :=
  items.filterMap Item.leaf

/-- The encoding of a reply. -/
def Reply.bytes (r : Reply) : Bytes :=
  bytesOf r.items

/-- A decimal number consists of digits. -/
theorem mem_decimal
    {n : Nat} {c : UInt8}
    (hc : c ∈ decimal n) :
    isSpace c = false ∧ c ≠ minus := by
  simp only [decimal, List.mem_map] at hc
  obtain ⟨d, hd, rfl⟩ := hc
  have hdigit := Nat.isDigit_of_mem_toDigits (by decide) (by decide) hd
  simp only [Char.isDigit, Bool.and_eq_true, decide_eq_true_eq] at hdigit
  have hlow : 48 ≤ d.toNat := hdigit.1
  have hhigh : d.toNat ≤ 57 := hdigit.2
  generalize d.toNat = k at hlow hhigh
  interval_cases k <;> exact ⟨by decide, by decide⟩

theorem noSpace_decimal
    (n : Nat) :
    Words.NoSpace isSpace (decimal n) :=
  fun _ hc => (mem_decimal hc).1

theorem noSpace_integerText
    (n : Int) :
    Words.NoSpace isSpace (integerText n) := by
  cases n with
  | ofNat n =>
      exact noSpace_decimal n
  | negSucc n =>
      intro c hc
      rcases List.mem_cons.mp hc with rfl | hc
      · decide
      · exact noSpace_decimal (n + 1) c hc

/-- A character that formatted input does not skip, in front of a text of this kind, is
one word with it. -/
theorem words_cons_noSpace
    {c : UInt8} {s : Bytes}
    (hc : isSpace c = false)
    (hs : Words.NoSpace isSpace s) :
    words (c :: s) = [c :: s] := by
  refine Words.words_of_noSpace (List.cons_ne_nil _ _) ?_
  intro d hd
  rcases List.mem_cons.mp hd with rfl | hd
  · exact hc
  · exact hs d hd

/-- The first word of a text that begins with such a character. -/
theorem exists_words_cons
    {c : UInt8}
    (hc : isSpace c = false)
    (s : Bytes) :
    ∃ w ws, words (c :: s) = (c :: w) :: ws :=
  Words.words_cons_of_not_space hc

theorem noSpace_of_words_eq
    {s w : Bytes} {ws : List Bytes}
    (hs : words s = w :: ws) :
    Words.NoSpace isSpace w :=
  (Words.of_mem_words (show w ∈ words s by rw [hs]; exact List.mem_cons_self)).2

/-- CR LF separates words. -/
theorem words_append_crlf
    (s t : Bytes) :
    words (s ++ crlf ++ t) = words s ++ words t := by
  have hcr : isSpace cr = true := by decide
  have hlf : isSpace lf = true := by decide
  have hsplit : s ++ crlf ++ t = s ++ cr :: lf :: t := by
    simp [crlf]
  rw [hsplit, words, Words.words_append_space hcr, Words.words_cons_space hlf]

/-- The words of an item in front of a text. -/
theorem words_item_append
    (item : Item) (t : Bytes) :
    words (item.bytes ++ t) = item.words ++ words t := by
  cases item with
  | simple s =>
      exact words_append_crlf (plus :: s.val) t
  | error s =>
      exact words_append_crlf (minus :: s.val) t
  | integer n =>
      rw [Item.bytes, words_append_crlf, words_cons_noSpace (by decide) (noSpace_integerText n)]
      rfl
  | bulk s =>
      rw [Item.bytes, words_append_crlf, List.append_assoc, ← List.append_assoc,
        words_append_crlf, words_cons_noSpace (by decide) (noSpace_decimal s.length)]
      rfl
  | null =>
      rw [Item.bytes, words_append_crlf]
      rfl
  | header n =>
      rw [Item.bytes, words_append_crlf, words_cons_noSpace (by decide) (noSpace_decimal n)]
      rfl

/-- The words of an encoding. -/
theorem words_bytesOf
    (items : List Item) :
    words (bytesOf items) = wordsOf items := by
  induction items with
  | nil =>
      rfl
  | cons item items ih =>
      rw [bytesOf, List.flatMap_cons, words_item_append, wordsOf, List.flatMap_cons]
      exact congrArg (item.words ++ ·) ih

end Redis
end Gamnet
