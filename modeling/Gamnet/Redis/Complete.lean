import Gamnet.Redis.Parse

/-!
# Where Parse stays within the words

Parse takes the word behind the header of a bulk string, and a call for each element of an
array, without a look at the end of the words. It stays within them exactly if they are
complete replies: a header of a bulk string has a word behind it, and the count of an array
is an int and has as many complete replies behind it (`execute_defined_iff`).
-/

namespace Gamnet
namespace Redis

/-- The words are those of n complete replies. -/
inductive Replies : Nat → List Bytes → Prop
  | nil : Replies 0 []
  | word {token : Bytes} {n : Nat} {rest : List Bytes}
      (hbulk : kindOf token ≠ .bulk) (harray : kindOf token ≠ .array)
      (hrest : Replies n rest) :
      Replies (n + 1) (token :: rest)
  | bulk {token body : Bytes} {n : Nat} {rest : List Bytes}
      (hbulk : kindOf token = .bulk)
      (hrest : Replies n rest) :
      Replies (n + 1) (token :: body :: rest)
  | array {token : Bytes} {count : Int} {n : Nat} {elements rest : List Bytes}
      (harray : kindOf token = .array) (hcount : atoi token.tail = some count)
      (helements : Replies count.toNat elements)
      (hrest : Replies n rest) :
      Replies (n + 1) (token :: (elements ++ rest))

/-- The words are those of complete replies. -/
def Complete (tokens : List Bytes) : Prop :=
  ∃ n, Replies n tokens

/-- The read loop ends with the words. -/
def Builds (segments tokens : List Bytes) : Prop :=
  ∃ rest, WhileLoop.run readRound (segments.length + 1) ⟨[], [], segments⟩ =
    some (some (tokens, rest))

theorem Replies.append
    {m n : Nat} {ts us : List Bytes}
    (hts : Replies m ts)
    (hus : Replies n us) :
    Replies (m + n) (ts ++ us) := by
  induction hts with
  | nil =>
      rw [Nat.zero_add]
      exact hus
  | word hbulk harray _ ih =>
      rw [Nat.succ_add]
      exact .word hbulk harray ih
  | bulk hbulk _ ih =>
      rw [Nat.succ_add]
      exact .bulk hbulk ih
  | array harray hcount helements _ _ ih =>
      rw [Nat.succ_add, List.cons_append, List.append_assoc]
      exact .array harray hcount helements ih

/-- The first of several replies. -/
theorem Replies.split
    {m n : Nat} {tokens : List Bytes}
    (h : Replies (m + n) tokens) :
    ∃ ts us, tokens = ts ++ us ∧ Replies m ts ∧ Replies n us := by
  induction m generalizing tokens with
  | zero =>
      rw [Nat.zero_add] at h
      exact ⟨[], tokens, rfl, .nil, h⟩
  | succ m ih =>
      rw [Nat.succ_add] at h
      cases h with
      | word hbulk harray hrest =>
          obtain ⟨ts, us, rfl, hts, hus⟩ := ih hrest
          exact ⟨_, us, rfl, .word hbulk harray hts, hus⟩
      | bulk hbulk hrest =>
          obtain ⟨ts, us, rfl, hts, hus⟩ := ih hrest
          exact ⟨_ :: _ :: ts, us, rfl, .bulk hbulk hts, hus⟩
      | array harray hcount helements hrest =>
          obtain ⟨ts, us, rfl, hts, hus⟩ := ih hrest
          refine ⟨_ :: (_ ++ ts), us, ?_, .array harray hcount helements hts, hus⟩
          rw [List.cons_append, List.append_assoc]

section Words

variable {token : Bytes} {rest : List Bytes}

/-- The replies that begin with a word are as many as those behind it and one more. -/
theorem replies_word_iff
    (hbulk : kindOf token ≠ .bulk)
    (harray : kindOf token ≠ .array)
    (n : Nat) :
    (∃ k, n ≤ k ∧ Replies k (token :: rest)) ↔ ∃ k, n - 1 ≤ k ∧ Replies k rest := by
  constructor
  · rintro ⟨k, hk, hreplies⟩
    cases hreplies with
    | word _ _ hrest => exact ⟨_, by omega, hrest⟩
    | bulk hbulk' _ => exact absurd hbulk' hbulk
    | array harray' _ _ _ => exact absurd harray' harray
  · rintro ⟨k, hk, hrest⟩
    exact ⟨k + 1, by omega, .word hbulk harray hrest⟩

theorem replies_bulk_iff
    (hbulk : kindOf token = .bulk)
    (body : Bytes) (n : Nat) :
    (∃ k, n ≤ k ∧ Replies k (token :: body :: rest)) ↔ ∃ k, n - 1 ≤ k ∧ Replies k rest := by
  constructor
  · rintro ⟨k, hk, hreplies⟩
    generalize htokens : token :: body :: rest = tokens at hreplies
    cases hreplies with
    | nil => cases htokens
    | word hbulk' _ _ =>
        cases htokens
        exact absurd hbulk hbulk'
    | bulk _ hrest =>
        cases htokens
        exact ⟨_, by omega, hrest⟩
    | array harray _ _ _ =>
        cases (List.cons.inj htokens).1
        rw [hbulk] at harray
        cases harray
  · rintro ⟨k, hk, hrest⟩
    exact ⟨k + 1, by omega, .bulk hbulk hrest⟩

/-- The elements of an array are replies behind its header. -/
theorem replies_array_iff
    (harray : kindOf token = .array)
    {count : Int}
    (hcount : atoi token.tail = some count)
    (n : Nat) :
    (∃ k, n ≤ k ∧ Replies k (token :: rest)) ↔
      ∃ k, n - 1 + count.toNat ≤ k ∧ Replies k rest := by
  constructor
  · rintro ⟨k, hk, hreplies⟩
    cases hreplies with
    | word _ harray' _ => exact absurd harray harray'
    | bulk hbulk _ =>
        rw [harray] at hbulk
        cases hbulk
    | array _ hcount' helements hrest =>
        cases hcount.symm.trans hcount'
        exact ⟨_, by omega, helements.append hrest⟩
  · rintro ⟨k, hk, hrest⟩
    obtain ⟨m, rfl⟩ := Nat.exists_eq_add_of_le (Nat.le_of_add_left_le hk)
    obtain ⟨elements, others, rfl, helements, hothers⟩ := hrest.split
    exact ⟨m + 1, by omega, .array harray hcount helements hothers⟩

theorem not_replies_header
    (hbulk : kindOf token = .bulk)
    (n : Nat) :
    ¬Replies n [token] := by
  intro h
  generalize htokens : [token] = tokens at h
  cases h with
  | nil => cases htokens
  | word hbulk' _ _ =>
      cases htokens
      exact hbulk' hbulk
  | bulk _ _ => cases htokens
  | array harray _ _ _ =>
      cases (List.cons.inj htokens).1
      rw [hbulk] at harray
      cases harray

theorem not_replies_count
    (harray : kindOf token = .array)
    (hcount : atoi token.tail = none)
    (n : Nat) :
    ¬Replies n (token :: rest) := by
  intro h
  cases h with
  | word _ harray' _ => exact harray' harray
  | bulk hbulk _ =>
      rw [harray] at hbulk
      cases hbulk
  | array _ hcount' _ _ => cases hcount.symm.trans hcount'

end Words

/-- A scan with n calls to do ends within the words exactly if they are at least n complete
replies. The induction is on the words, of which a bulk string takes two. -/
theorem finishScan_isSome_iff
    (tokens : List Bytes) (n : Nat) (impl : ResultSetImpl) :
    (finishScan ⟨n, false, impl⟩ tokens).isSome ↔ ∃ k, n ≤ k ∧ Replies k tokens := by
  induction hlength : tokens.length using Nat.strongRecOn generalizing tokens n impl with
  | ind length ih =>
      cases tokens with
      | nil =>
          cases n with
          | zero => exact iff_of_true rfl ⟨0, Nat.le_refl 0, .nil⟩
          | succ n =>
              rw [finishScan_nil_succ]
              refine iff_of_false (by simp) ?_
              rintro ⟨k, hk, hreplies⟩
              cases hreplies
              omega
      | cons token rest =>
          rw [List.length_cons] at hlength
          cases hkind : kindOf token with
          | bulk =>
              have hword : scanWord ⟨n, false, impl⟩ token = some ⟨n - 1, true, impl⟩ := by
                simp [scanWord, hkind]
              rw [finishScan_cons hword]
              cases rest with
              | nil =>
                  refine iff_of_false (by simp [finishScan, Scan.finish]) ?_
                  rintro ⟨k, -, hreplies⟩
                  exact not_replies_header hkind k hreplies
              | cons body rest =>
                  have hbody : scanWord ⟨n - 1, true, impl⟩ body =
                      some ⟨n - 1, false, impl.pushBack body⟩ := rfl
                  rw [List.length_cons] at hlength
                  rw [finishScan_cons hbody, ih _ (by omega) rest _ _ rfl,
                    replies_bulk_iff hkind]
          | array =>
              cases hcount : atoi token.tail with
              | none =>
                  refine iff_of_false (by simp [finishScan, scan_cons, scanWord, hkind, hcount]) ?_
                  rintro ⟨k, -, hreplies⟩
                  exact not_replies_count hkind hcount k hreplies
              | some count =>
                  have hword : scanWord ⟨n, false, impl⟩ token =
                      some ⟨n - 1 + count.toNat, false, impl⟩ := by
                    simp [scanWord, hkind, hcount]
                  rw [finishScan_cons hword, ih _ (by omega) rest _ _ rfl,
                    replies_array_iff hkind hcount]
          | text | error | null | other =>
              have hword : ∃ impl', scanWord ⟨n, false, impl⟩ token =
                  some ⟨n - 1, false, impl'⟩ := by
                simp [scanWord, hkind]
              obtain ⟨impl', hword⟩ := hword
              rw [finishScan_cons hword, ih _ (by omega) rest _ _ rfl,
                replies_word_iff (by simp [hkind]) (by simp [hkind])]

theorem parseAll_isSome_iff
    (tokens : List Bytes) (impl : ResultSetImpl) :
    (parseAll tokens.length impl tokens).isSome ↔ Complete tokens := by
  rw [parseAll_eq (Nat.le_refl _), finishScan_isSome_iff]
  simp [Complete]

/-- Whatever the server sends, the calls of Parse end and use no iterator behind the words
if and only if these are complete replies. -/
theorem execute_defined_iff
    (segments : List Bytes) :
    execute segments ≠ .undefined ↔ ∀ tokens, Builds segments tokens → Complete tokens := by
  unfold execute Builds
  cases hrun : WhileLoop.run readRound (segments.length + 1) ⟨[], [], segments⟩ with
  | none => simp
  | some result =>
      cases result with
      | none => simp
      | some p =>
          obtain ⟨tokens, rest⟩ := p
          have hparse := parseAll_isSome_iff tokens ResultSetImpl.empty
          cases hall : parseAll tokens.length ResultSetImpl.empty tokens with
          | none =>
              rw [hall] at hparse
              simpa [hall] using hparse
          | some impl =>
              rw [hall] at hparse
              simpa [hall] using hparse

/-- The header of a bulk string that comes without its text. -/
theorem execute_undefined :
    ¬∀ segments : List Bytes, execute segments ≠ .undefined := by
  intro h
  exact h [[dollar, 0x35, cr, lf]] rfl

end Redis
end Gamnet
