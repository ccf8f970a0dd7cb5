import Gamnet.Lib.Reader

/-!
# The shortest words of a grammar

Some grammars have a word of zero bytes that is as short as any of their words. `Least`
relates such a grammar to the length of this word, or to nothing if the grammar has no
word. The combinators of grammars keep this relation, and a load that follows a grammar
does not come back from a buffer that is too short for it.
-/

namespace Gamnet
namespace Reader

/-- The sum of two lengths. -/
def sumLeast (m k : Option Nat) : Option Nat :=
  match m, k with
  | some m, some k => some (m + k)
  | _, _ => none

theorem sumLeast_eq_some
    {m k : Option Nat} {n : Nat}
    (h : sumLeast m k = some n) :
    ∃ n₁ n₂, m = some n₁ ∧ k = some n₂ ∧ n = n₁ + n₂ := by
  cases m with
  | none => cases h
  | some n₁ =>
      cases k with
      | none => cases h
      | some n₂ => exact ⟨n₁, n₂, rfl, rfl, (Option.some.inj h).symm⟩

/-- The length of a number of words. -/
def timesLeast (n : Nat) (m : Option Nat) : Option Nat :=
  if n = 0 then some 0 else m.map (n * ·)

/-- No word of the grammar is shorter than this, and so many zeros are one, on which the
grammar does not stray whatever follows, and of which it reads no other part. A grammar
without words has no such length. -/
structure Grammar.Least
    {α : Type}
    (g : Grammar α)
    (least : Option Nat) : Prop where
  bound : ∀ {a p}, g.reads a p → ∃ n, least = some n ∧ n ≤ p.length
  zeros : ∀ {n}, least = some n → ∃ a, g.reads a (List.replicate n 0)
  steady : ∀ {n}, least = some n → ∀ rest, ¬ g.strays (List.replicate n 0 ++ rest)
  only : ∀ {n a p rest rest'}, least = some n → List.replicate n 0 ++ rest = p ++ rest' →
    g.reads a p → p = List.replicate n 0

/-- A part of known length at the front of a list. -/
theorem eq_replicate_of_append
    {n : Nat} {p rest rest' : List UInt8}
    (happ : List.replicate n 0 ++ rest = p ++ rest')
    (hlen : p.length = n) :
    p = List.replicate n 0 := by
  refine (List.append_inj happ ?_).1.symm
  rw [List.length_replicate, hlen]

namespace Grammar.Least

variable {α β : Type}

/-- Only what a grammar reads and where it strays matters. -/
theorem congr
    {g h : Grammar α} {m : Option Nat}
    (hg : Least g m)
    (hreads : ∀ a p, h.reads a p ↔ g.reads a p)
    (hstrays : ∀ left, h.strays left ↔ g.strays left) :
    Least h m where
  bound := fun hp => hg.bound ((hreads _ _).mp hp)
  zeros := by
    intro n hn
    obtain ⟨a, ha⟩ := hg.zeros hn
    exact ⟨a, (hreads _ _).mpr ha⟩
  steady := fun hn rest hstray => hg.steady hn rest ((hstrays _).mp hstray)
  only := fun hn happ hp => hg.only hn happ ((hreads _ _).mp hp)

theorem pure
    (a : α) :
    Least (pure a) (some 0) where
  bound := by
    rintro b p ⟨rfl, rfl⟩
    exact ⟨0, rfl, Nat.le_refl 0⟩
  zeros := by
    intro n hn
    cases hn
    exact ⟨a, rfl, rfl⟩
  steady := fun _ _ hstray => hstray
  only := by
    rintro n b p rest rest' hn happ ⟨rfl, rfl⟩
    cases hn
    rfl

theorem copy
    (n : Nat) :
    Least (Grammar.copy n) (some n) where
  bound := by
    rintro a p ⟨-, hlen⟩
    exact ⟨n, rfl, hlen.ge⟩
  zeros := by
    intro k hk
    cases hk
    exact ⟨_, rfl, List.length_replicate⟩
  steady := by
    intro k hk rest hstray
    cases hk
    have hlt : (List.replicate n 0 ++ rest : List UInt8).length < n := hstray
    rw [List.length_append, List.length_replicate] at hlt
    omega
  only := by
    rintro k a p rest rest' hk happ ⟨-, hlen⟩
    cases hk
    exact eq_replicate_of_append happ hlen

theorem checked
    (n : Nat) :
    Least (Grammar.checked n) (some n) where
  bound := (copy n).bound
  zeros := (copy n).zeros
  steady := fun _ _ hstray => hstray
  only := (copy n).only

theorem map
    {g : Grammar α} {m : Option Nat}
    (hg : Least g m)
    (f : α → β) :
    Least (g.map f) m where
  bound := by
    rintro b p ⟨a, -, hp⟩
    exact hg.bound hp
  zeros := by
    intro n hn
    obtain ⟨a, ha⟩ := hg.zeros hn
    exact ⟨f a, a, rfl, ha⟩
  steady := hg.steady
  only := by
    rintro n b p rest rest' hn happ ⟨a, -, hp⟩
    exact hg.only hn happ hp

/-- Two words one behind the other, of which the second has the same length behind every
first one that zeros stand for. -/
theorem bind_of
    {g : Grammar α} {h : α → Grammar β} {n k : Nat}
    (hg : Least g (some n))
    (hbound : ∀ {a b p}, (h a).reads b p → k ≤ p.length)
    (hh : ∀ a, g.reads a (List.replicate n 0) → Least (h a) (some k)) :
    Least (g >>= h) (some (n + k)) where
  bound := by
    rintro b p ⟨a, p₁, p₂, rfl, h₁, h₂⟩
    obtain ⟨n₁, hn, hle⟩ := hg.bound h₁
    cases hn
    have hk := hbound h₂
    refine ⟨_, rfl, ?_⟩
    rw [List.length_append]
    omega
  zeros := by
    intro l hl
    cases hl
    obtain ⟨a, ha⟩ := hg.zeros rfl
    obtain ⟨b, hb⟩ := (hh a ha).zeros rfl
    exact ⟨b, a, _, _, List.replicate_add n k 0, ha, hb⟩
  steady := by
    intro l hl rest hstray
    cases hl
    rw [List.replicate_add, List.append_assoc] at hstray
    obtain hstray | ⟨a, p, rest', happ, hp, hstray⟩ := hstray
    · exact hg.steady rfl _ hstray
    · obtain rfl := hg.only rfl happ hp
      rw [← List.append_cancel_left happ] at hstray
      exact (hh a hp).steady rfl _ hstray
  only := by
    rintro l b p rest rest' hl happ ⟨a, p₁, p₂, rfl, h₁, h₂⟩
    cases hl
    rw [List.replicate_add, List.append_assoc, List.append_assoc] at happ
    obtain rfl := hg.only rfl happ h₁
    rw [(hh a h₁).only rfl (List.append_cancel_left happ) h₂, List.replicate_add]

/-- Two words one behind the other. -/
theorem bind
    {g : Grammar α} {h : α → Grammar β} {m k : Option Nat}
    (hg : Least g m)
    (hh : ∀ a, Least (h a) k) :
    Least (g >>= h) (sumLeast m k) := by
  cases m with
  | none =>
      refine ⟨?_, fun hn => (by cases hn), fun hn => (by cases hn), fun hn => (by cases hn)⟩
      rintro b p ⟨a, p₁, p₂, rfl, h₁, -⟩
      obtain ⟨n, hn, -⟩ := hg.bound h₁
      cases hn
  | some n =>
      cases k with
      | none =>
          refine ⟨?_, fun hn => (by cases hn), fun hn => (by cases hn),
            fun hn => (by cases hn)⟩
          rintro b p ⟨a, p₁, p₂, rfl, -, h₂⟩
          obtain ⟨l, hl, -⟩ := (hh a).bound h₂
          cases hl
      | some k =>
          refine hg.bind_of (fun {a b p} hp => ?_) fun a _ => hh a
          obtain ⟨l, hl, hle⟩ := (hh a).bound hp
          cases hl
          exact hle

theorem timesLeast_succ
    (n : Nat) (m : Option Nat) :
    timesLeast (n + 1) m = sumLeast m (timesLeast n m) := by
  cases m with
  | none => rfl
  | some k =>
      unfold timesLeast
      by_cases hzero : n = 0
      · simp [hzero, sumLeast]
      · simp [hzero, sumLeast, Nat.succ_mul, Nat.add_comm]

/-- No word. -/
theorem many_zero
    (g : Grammar α) :
    Least (Grammar.many g 0) (some 0) := by
  refine (pure []).congr (many_zero_reads g) fun left => ⟨?_, False.elim⟩
  rintro ⟨as, _, _, _, hlen, _⟩
  exact absurd hlen (Nat.not_lt_zero as.length)

/-- A number of words one behind the other. -/
theorem many
    {g : Grammar α} {m : Option Nat}
    (hg : Least g m)
    (n : Nat) :
    Least (Grammar.many g n) (timesLeast n m) := by
  induction n with
  | zero => exact many_zero g
  | succ n ih =>
      have hstep : Least (g >>= fun a => Grammar.many g n >>= fun as => Pure.pure (a :: as))
          (sumLeast m (sumLeast (timesLeast n m) (some 0))) :=
        hg.bind fun a => ih.bind fun as => pure (a :: as)
      have hzero : sumLeast (timesLeast n m) (some 0) = timesLeast n m := by
        cases timesLeast n m <;> rfl
      rw [hzero, ← timesLeast_succ] at hstep
      exact hstep.congr (many_succ_reads g n) (many_succ_strays g n)

/-- A counter that reaches its limit does not come to an end. -/
theorem counted
    {g : Grammar α} {m : Option Nat}
    (hg : Least g m)
    (limit n : Nat) :
    Least (Grammar.counted limit g n) (if n < limit then timesLeast n m else none) := by
  by_cases hlt : n < limit
  · rw [if_pos hlt]
    refine (hg.many n).congr ?_ ?_
    · intro as p
      simp [Grammar.counted, hlt]
    · intro left
      simp [Grammar.counted, hlt, Nat.min_eq_left hlt.le]
  · rw [if_neg hlt]
    refine ⟨?_, fun hn => (by cases hn), fun hn => (by cases hn), fun hn => (by cases hn)⟩
    rintro as p ⟨hcount, -⟩
    exact absurd hcount hlt

end Grammar.Least

/-- A load that comes back inside its buffer has read a word of its grammar. -/
theorem Scans.reads_of_returns
    {α : Type}
    {x : Load α} {g : Grammar α}
    (hx : Scans x g)
    {N : Nat} {c c' : Cursor} {a : α}
    (hc : Inside N c)
    (hreturns : x c = .returns a c')
    (hstraight : c'.wrapped = false) :
    Inside N c' ∧ ∃ p, unread c = p ++ unread c' ∧ g.reads a p := by
  have hstray : ¬ g.strays (unread c) := by
    intro hstray
    have hbroken := hx.breaks hstray
    rw [hreturns] at hbroken
    exact Bool.false_ne_true (hstraight.symm.trans hbroken)
  have hsettled := hx.settles hc hstray
  rw [hreturns] at hsettled
  exact hsettled

/-- A load that follows a grammar loads from the shortest word of zeros. -/
theorem Scans.loads_zeros
    {α : Type}
    {x : Load α} {g : Grammar α} {m : Option Nat}
    (hx : Scans x g)
    (hg : g.Least m)
    {n : Nat} {c : Cursor} {rest : List UInt8}
    (hn : m = some n)
    (hunread : unread c = List.replicate n 0 ++ rest) :
    ∃ a c', x c = .returns a c' ∧ unread c' = rest ∧
      (∀ N, Inside N c → c'.wrapped = false) := by
  obtain ⟨a, ha⟩ := hg.zeros hn
  obtain ⟨c', hreturns, hrest, -⟩ := hx.reads ha c rest hunread
  refine ⟨a, c', hreturns, hrest, fun N hc => ?_⟩
  have hsettled := hx.settles hc (by rw [hunread]; exact hg.steady hn rest)
  rw [hreturns] at hsettled
  exact hsettled.1.straight

end Reader
end Gamnet
