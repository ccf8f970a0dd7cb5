import Mathlib.Data.List.Range
import Mathlib.Tactic.Common

/-!
# Readers over a memory

A reader walks over a memory with a cursor and a 64-bit counter of the bytes
it may still copy. The counter is a machine word: taking more from it than it
holds wraps it around. A load ends in one of three ways: it returns a value,
it gives up, or a loop counter of it overflows and nothing is known any more.

The module is independent of any program. It gives the loads and their
composition, and two calculi for them. The first relates a load to the bytes
that it turns into a value. The second relates it to a grammar, which also
names the inputs on which the load leaves its buffer.
-/

namespace Gamnet
namespace Reader

/-- The bytes of a memory that start at an address. -/
def bytesAt
    (memory : Nat → UInt8)
    (address count : Nat) : List UInt8 :=
  (List.range count).map fun i => memory (address + i)

@[simp] theorem bytesAt_length
    (memory : Nat → UInt8)
    (address count : Nat) :
    (bytesAt memory address count).length = count := by
  simp [bytesAt]

theorem bytesAt_add
    (memory : Nat → UInt8)
    (address n k : Nat) :
    bytesAt memory address (n + k) =
      bytesAt memory address n ++ bytesAt memory (address + n) k := by
  simp [bytesAt, List.range_add, Function.comp_def, Nat.add_assoc]

/-- A position in a memory, the 64-bit count of the bytes left, the copies
made so far, and whether the count ever wrapped around. -/
structure Cursor where
  memory : Nat → UInt8
  pos : Nat
  size : UInt64
  reads : List (Nat × Nat)
  wrapped : Bool

/-- The cursor at the front of a buffer. -/
def start
    (memory : Nat → UInt8)
    (size : UInt64) : Cursor :=
  { memory := memory, pos := 0, size := size, reads := [], wrapped := false }

/-- The bytes that the count still covers. -/
def unread
    (c : Cursor) : List UInt8 :=
  bytesAt c.memory c.pos c.size.toNat

/-- Copy n bytes and move over them. -/
def skip
    (n : Nat)
    (c : Cursor) : Cursor :=
  { c with
    pos := c.pos + n
    size := c.size - UInt64.ofNat n
    reads := c.reads ++ [(c.pos, n)]
    wrapped := c.wrapped || decide (c.size.toNat < n) }

@[simp] theorem unread_length
    (c : Cursor) :
    (unread c).length = c.size.toNat := by
  simp [unread]

@[simp] theorem unread_start
    (memory : Nat → UInt8)
    (size : UInt64) :
    unread (start memory size) = bytesAt memory 0 size.toNat := by
  rfl

theorem size_skip
    {n : Nat}
    {c : Cursor}
    (hn : n ≤ c.size.toNat) :
    (skip n c).size.toNat = c.size.toNat - n := by
  have hlt : n < 2 ^ 64 := lt_of_le_of_lt hn c.size.toNat_lt
  have hword : (UInt64.ofNat n).toNat = n := by
    rw [UInt64.toNat_ofNat', Nat.mod_eq_of_lt hlt]
  have hle : UInt64.ofNat n ≤ c.size := by
    rw [UInt64.le_iff_toNat_le, hword]
    exact hn
  rw [skip, UInt64.toNat_sub_of_le _ _ hle, hword]

/-- The bytes ahead split into those that are copied and those that remain. -/
theorem unread_eq_append
    {n : Nat}
    {c : Cursor}
    (hn : n ≤ c.size.toNat) :
    unread c = bytesAt c.memory c.pos n ++ unread (skip n c) := by
  have hsize : c.size.toNat = n + (skip n c).size.toNat := by
    rw [size_skip hn]
    omega
  rw [unread, hsize, bytesAt_add]
  rfl

/-- Copying a known front returns it and leaves the known rest. -/
theorem skip_of_unread
    {c : Cursor}
    {bytes rest : List UInt8}
    (hc : unread c = bytes ++ rest) :
    bytes.length ≤ c.size.toNat ∧
      bytesAt c.memory c.pos bytes.length = bytes ∧
        unread (skip bytes.length c) = rest := by
  have hlen : c.size.toNat = bytes.length + rest.length := by
    rw [← unread_length, hc, List.length_append]
  have hle : bytes.length ≤ c.size.toNat := by omega
  have happ := unread_eq_append hle
  rw [hc] at happ
  have hparts := List.append_inj happ (by simp)
  exact ⟨hle, hparts.1.symm, hparts.2.symm⟩

/-- How a load ends, with the cursor it leaves. -/
inductive Outcome (α : Type) where
  | returns (a : α) (c : Cursor)
  | fails (c : Cursor)
  | overflows (c : Cursor)

/-- A load runs on a cursor. -/
def Load
    (α : Type) : Type :=
  Cursor → Outcome α

instance : Monad Load where
  pure a c := .returns a c
  bind x f c :=
    match x c with
    | .returns a c' => f a c'
    | .fails c' => .fails c'
    | .overflows c' => .overflows c'

/-- Copy n bytes, whatever the count says. -/
def copy
    (n : Nat) : Load (List UInt8) :=
  fun c => .returns (bytesAt c.memory c.pos n) (skip n c)

/-- Copy n bytes if the count covers them, and give up otherwise. -/
def checked
    (n : Nat) : Load (List UInt8) :=
  fun c => if c.size.toNat < n then .fails c else copy n c

/-- Give up. -/
def fail
    {α : Type} : Load α :=
  fun c => .fails c

/-- The overflow of a signed loop counter. -/
def overflow
    {α : Type} : Load α :=
  fun c => .overflows c

/-- A loop that repeats a load and collects the results. -/
def many
    {α : Type}
    (x : Load α) : Nat → Load (List α)
  | 0 => pure []
  | n + 1 => do
      let a ← x
      let as ← many x n
      pure (a :: as)

/-- The same loop with a counter that cannot reach a limit. -/
def counted
    {α : Type}
    (limit : Nat)
    (x : Load α)
    (n : Nat) : Load (List α) :=
  if n < limit then
    many x n
  else do
    let _ ← many x limit
    overflow

theorem bind_of_returns
    {α β : Type}
    {x : Load α} {f : α → Load β}
    {a : α} {c c' : Cursor}
    (hx : x c = .returns a c') :
    (x >>= f) c = f a c' := by
  simp [bind, hx]

theorem bind_of_fails
    {α β : Type}
    {x : Load α} {f : α → Load β}
    {c c' : Cursor}
    (hx : x c = .fails c') :
    (x >>= f) c = .fails c' := by
  simp [bind, hx]

theorem bind_of_overflows
    {α β : Type}
    {x : Load α} {f : α → Load β}
    {c c' : Cursor}
    (hx : x c = .overflows c') :
    (x >>= f) c = .overflows c' := by
  simp [bind, hx]

section Reads

/-- A load turns exactly these bytes into this value, whatever follows. -/
def Reads
    {α : Type}
    (x : Load α)
    (a : α)
    (bytes : List UInt8) : Prop :=
  ∀ c rest, unread c = bytes ++ rest →
    ∃ c', x c = .returns a c' ∧
      unread c' = rest ∧
        c'.pos = c.pos + bytes.length

variable {α β : Type}

theorem Reads.pure
    (a : α) :
    Reads (pure a) a [] := by
  intro c rest hc
  exact ⟨c, rfl, by simpa using hc, by simp⟩

theorem Reads.bind
    {x : Load α} {f : α → Load β}
    {a : α} {b : β}
    {p q : List UInt8}
    (hx : Reads x a p)
    (hf : Reads (f a) b q) :
    Reads (x >>= f) b (p ++ q) := by
  intro c rest hc
  rw [List.append_assoc] at hc
  rcases hx c (q ++ rest) hc with ⟨c₁, h₁, hleft₁, hpos₁⟩
  rcases hf c₁ rest hleft₁ with ⟨c₂, h₂, hleft₂, hpos₂⟩
  refine ⟨c₂, ?_, hleft₂, ?_⟩
  · rw [bind_of_returns h₁, h₂]
  · rw [hpos₂, hpos₁, List.length_append]
    omega

/-- A conversion of the value reads no further bytes. -/
theorem Reads.map
    {x : Load α}
    {a : α}
    {bytes : List UInt8}
    (f : α → β)
    (hx : Reads x a bytes) :
    Reads (x >>= fun a => Pure.pure (f a)) (f a) bytes := by
  simpa using Reads.bind (f := fun a => Pure.pure (f a)) hx (Reads.pure (f a))

theorem Reads.copy
    (bytes : List UInt8) :
    Reads (copy bytes.length) bytes bytes := by
  intro c rest hc
  rcases skip_of_unread hc with ⟨_, hbytes, hrest⟩
  exact ⟨skip bytes.length c, by simp [Reader.copy, hbytes], hrest, rfl⟩

theorem Reads.checked
    (bytes : List UInt8) :
    Reads (checked bytes.length) bytes bytes := by
  intro c rest hc
  have hle := (skip_of_unread hc).1
  rcases Reads.copy bytes c rest hc with ⟨c', hcopy, hrest, hpos⟩
  refine ⟨c', ?_, hrest, hpos⟩
  rw [Reader.checked, if_neg (by omega), hcopy]

theorem Reads.many_cons
    {x : Load α}
    {a : α} {as : List α}
    {p q : List UInt8}
    (hx : Reads x a p)
    (hmany : Reads (many x as.length) as q) :
    Reads (many x (a :: as).length) (a :: as) (p ++ q) :=
  Reads.bind hx (Reads.map (fun as' => a :: as') hmany)

end Reads

section Grammar

/-- What a reader accepts as a value, and the inputs it does not stay in. -/
structure Grammar (α : Type) where
  reads : α → List UInt8 → Prop
  strays : List UInt8 → Prop

instance : Monad Grammar where
  pure a :=
    { reads := fun b p => b = a ∧ p = []
      strays := fun _ => False }
  bind g f :=
    { reads := fun b p => ∃ a p₁ p₂,
        p = p₁ ++ p₂ ∧ g.reads a p₁ ∧ (f a).reads b p₂
      strays := fun left => g.strays left ∨ ∃ a p rest,
        left = p ++ rest ∧ g.reads a p ∧ (f a).strays rest }

namespace Grammar

/-- A block of bytes that is copied unseen. -/
def copy
    (n : Nat) : Grammar (List UInt8) where
  reads bytes p := bytes = p ∧ p.length = n
  strays left := left.length < n

/-- A block of bytes whose presence is checked. -/
def checked
    (n : Nat) : Grammar (List UInt8) where
  reads bytes p := bytes = p ∧ p.length = n
  strays _ := False

/-- An input that is given up. -/
def fail
    {α : Type} : Grammar α where
  reads _ _ := False
  strays _ := False

/-- The point where a loop counter overflows. -/
def overflow
    {α : Type} : Grammar α where
  reads _ _ := False
  strays _ := True

/-- The same words for converted values. -/
def map
    {α β : Type}
    (f : α → β)
    (g : Grammar α) : Grammar β where
  reads b p := ∃ a, b = f a ∧ g.reads a p
  strays := g.strays

/-- A word of words. It strays where one of its words does. -/
def many
    {α : Type}
    (g : Grammar α)
    (n : Nat) : Grammar (List α) where
  reads as p := as.length = n ∧
    ∃ parts, p = parts.flatten ∧ List.Forall₂ g.reads as parts
  strays left := ∃ as parts rest,
    left = parts.flatten ++ rest ∧ as.length < n ∧
      List.Forall₂ g.reads as parts ∧ g.strays rest

/-- A word of words whose number has a limit. It also strays where the input
goes on to the limit. -/
def counted
    {α : Type}
    (limit : Nat)
    (g : Grammar α)
    (n : Nat) : Grammar (List α) where
  reads as p := n < limit ∧ (many g n).reads as p
  strays left := (many g (min n limit)).strays left ∨
    (limit ≤ n ∧ ∃ as p rest, left = p ++ rest ∧ (many g limit).reads as p)

end Grammar

/-- No wrap-around so far, the cursor and the count add up to the buffer, and
every byte that was copied lies in it. -/
structure Inside
    (N : Nat)
    (c : Cursor) : Prop where
  straight : c.wrapped = false
  total : c.pos + c.size.toNat = N
  within : ∀ read ∈ c.reads, ∀ i,
    read.1 ≤ i → i < read.1 + read.2 → i < N

/-- The load came back, inside its buffer. -/
def Outcome.Safe
    {α : Type}
    (N : Nat) : Outcome α → Prop
  | .returns _ c => Inside N c
  | .fails c => Inside N c
  | .overflows _ => False

/-- The count wrapped around, or a counter overflowed. -/
def Outcome.Broken
    {α : Type} : Outcome α → Prop
  | .returns _ c => c.wrapped = true
  | .fails c => c.wrapped = true
  | .overflows _ => True

/-- A safe end that also agrees with a grammar on what was read. -/
def Outcome.Settled
    {α : Type}
    (g : Grammar α)
    (N : Nat)
    (left : List UInt8) : Outcome α → Prop
  | .returns a c => Inside N c ∧ ∃ p, left = p ++ unread c ∧ g.reads a p
  | .fails c => Inside N c
  | .overflows _ => False

/-- A load follows a grammar: it turns the words of the grammar into their
values, it leaves its buffer on the stray inputs, and on no other. -/
structure Scans
    {α : Type}
    (x : Load α)
    (g : Grammar α) : Prop where
  reads : ∀ {a p}, g.reads a p → Reads x a p
  settles : ∀ {N c}, Inside N c → ¬ g.strays (unread c) →
    (x c).Settled g N (unread c)
  breaks : ∀ {c}, g.strays (unread c) → (x c).Broken
  wraps : ∀ {c}, c.wrapped = true → (x c).Broken

variable {α β : Type}

theorem inside_start
    (memory : Nat → UInt8)
    (size : UInt64) :
    Inside size.toNat (start memory size) where
  straight := by rfl
  total := by simp [start]
  within := by simp [start]

theorem Inside.skip
    {N n : Nat}
    {c : Cursor}
    (hc : Inside N c)
    (hn : n ≤ c.size.toNat) :
    Inside N (skip n c) where
  straight := by
    simpa [Reader.skip, hc.straight] using hn
  total := by
    have htotal := hc.total
    rw [size_skip hn]
    simp only [Reader.skip]
    omega
  within := by
    intro read hread i hlow hhigh
    rcases List.mem_append.mp hread with hread | hread
    · exact hc.within read hread i hlow hhigh
    · rw [List.mem_singleton.mp hread] at hlow hhigh
      have htotal := hc.total
      simp only at hlow hhigh
      omega

theorem Outcome.Settled.safe
    {g : Grammar α}
    {N : Nat}
    {left : List UInt8}
    {o : Outcome α}
    (ho : o.Settled g N left) :
    o.Safe N := by
  cases o with
  | returns a c =>
      exact ho.1
  | fails c =>
      exact ho
  | overflows c =>
      exact ho

theorem Outcome.Broken.not_safe
    {N : Nat}
    {o : Outcome α}
    (ho : o.Broken) :
    ¬ o.Safe N := by
  intro hsafe
  cases o with
  | returns a c =>
      simp [Outcome.Broken, hsafe.straight] at ho
  | fails c =>
      simp [Outcome.Broken, hsafe.straight] at ho
  | overflows c =>
      exact hsafe

/-- A load stays in its buffer exactly when its grammar does not stray. -/
theorem Scans.safe_iff
    {x : Load α}
    {g : Grammar α}
    (hx : Scans x g)
    (memory : Nat → UInt8)
    (size : UInt64) :
    (x (start memory size)).Safe size.toNat ↔
      ¬ g.strays (bytesAt memory 0 size.toNat) := by
  constructor
  · intro hsafe hstray
    exact (hx.breaks (c := start memory size) hstray).not_safe hsafe
  · intro hstray
    exact (hx.settles (inside_start memory size) hstray).safe

theorem Scans.pure
    (a : α) :
    Scans (pure a) (pure a) where
  reads := by
    rintro b p ⟨rfl, rfl⟩
    exact Reads.pure b
  settles := by
    intro N c hc _
    exact ⟨hc, [], rfl, rfl, rfl⟩
  breaks := by
    intro c hstray
    exact hstray.elim
  wraps := by
    intro c hc
    exact hc

/-- A broken first part breaks the whole. -/
theorem Scans.broken_bind
    {x : Load α} {f : α → Load β}
    {h : α → Grammar β}
    (hf : ∀ a, Scans (f a) (h a))
    {c : Cursor}
    (hx : (x c).Broken) :
    ((x >>= f) c).Broken := by
  cases hxc : x c with
  | returns a c' =>
      rw [bind_of_returns hxc]
      rw [hxc] at hx
      exact (hf a).wraps hx
  | fails c' =>
      rw [bind_of_fails hxc]
      rw [hxc] at hx
      exact hx
  | overflows c' =>
      rw [bind_of_overflows hxc]
      trivial

theorem Scans.bind
    {x : Load α} {f : α → Load β}
    {g : Grammar α} {h : α → Grammar β}
    (hx : Scans x g)
    (hf : ∀ a, Scans (f a) (h a)) :
    Scans (x >>= f) (g >>= h) where
  reads := by
    rintro b p ⟨a, p₁, p₂, rfl, h₁, h₂⟩
    exact Reads.bind (hx.reads h₁) ((hf a).reads h₂)
  settles := by
    intro N c hc hstray
    have hfirst : ¬ g.strays (unread c) := fun hg => hstray (.inl hg)
    have hset := hx.settles hc hfirst
    cases hxc : x c with
    | returns a c' =>
        rw [hxc] at hset
        rw [bind_of_returns hxc]
        rcases hset with ⟨hc', p, hleft, hp⟩
        have hsecond : ¬ (h a).strays (unread c') := fun hh =>
          hstray (.inr ⟨a, p, unread c', hleft, hp, hh⟩)
        have hset' := (hf a).settles hc' hsecond
        cases hfc : f a c' with
        | returns b c'' =>
            rw [hfc] at hset'
            rcases hset' with ⟨hc'', q, hleft', hq⟩
            refine ⟨hc'', p ++ q, ?_, a, p, q, rfl, hp, hq⟩
            rw [hleft, hleft', List.append_assoc]
        | fails c'' =>
            rw [hfc] at hset'
            exact hset'
        | overflows c'' =>
            rw [hfc] at hset'
            exact hset'.elim
    | fails c' =>
        rw [hxc] at hset
        rw [bind_of_fails hxc]
        exact hset
    | overflows c' =>
        rw [hxc] at hset
        exact hset.elim
  breaks := by
    intro c hstray
    rcases hstray with hg | ⟨a, p, rest, hleft, hp, hh⟩
    · exact Scans.broken_bind hf (hx.breaks hg)
    · rcases hx.reads hp c rest hleft with ⟨c', hxc, hrest, _⟩
      rw [bind_of_returns hxc]
      rw [← hrest] at hh
      exact (hf a).breaks hh
  wraps := by
    intro c hc
    exact Scans.broken_bind hf (hx.wraps hc)

theorem broken_copy
    {n : Nat}
    {c : Cursor}
    (hc : c.wrapped = true ∨ c.size.toNat < n) :
    (copy n c).Broken := by
  simpa [copy, Outcome.Broken, Reader.skip] using hc

theorem settled_copy
    {N n : Nat}
    {c : Cursor}
    (hc : Inside N c)
    (hn : n ≤ c.size.toNat) :
    (copy n c).Settled (.copy n) N (unread c) :=
  ⟨hc.skip hn, _, unread_eq_append hn, rfl, by simp⟩

theorem Scans.copy
    (n : Nat) :
    Scans (copy n) (.copy n) where
  reads := by
    rintro bytes p ⟨rfl, rfl⟩
    exact Reads.copy bytes
  settles := by
    intro N c hc hstray
    refine settled_copy hc ?_
    simpa [Grammar.copy] using hstray
  breaks := by
    intro c hstray
    refine broken_copy (.inr ?_)
    simpa [Grammar.copy] using hstray
  wraps := by
    intro c hc
    exact broken_copy (.inl hc)

theorem Scans.checked
    (n : Nat) :
    Scans (checked n) (.checked n) where
  reads := by
    rintro bytes p ⟨rfl, rfl⟩
    exact Reads.checked bytes
  settles := by
    intro N c hc _
    rw [Reader.checked]
    split
    · exact hc
    · exact settled_copy hc (by omega)
  breaks := by
    intro c hstray
    exact hstray.elim
  wraps := by
    intro c hc
    rw [Reader.checked]
    split
    · exact hc
    · exact broken_copy (.inl hc)

theorem Scans.fail :
    Scans (fail : Load α) .fail where
  reads := by
    intro a p hp
    exact hp.elim
  settles := by
    intro N c hc _
    exact hc
  breaks := by
    intro c hstray
    exact hstray.elim
  wraps := by
    intro c hc
    exact hc

theorem Scans.overflow :
    Scans (overflow : Load α) .overflow where
  reads := by
    intro a p hp
    exact hp.elim
  settles := by
    intro N c _ hstray
    exact (hstray trivial).elim
  breaks := by
    intro c _
    trivial
  wraps := by
    intro c _
    trivial

/-- Only what a grammar reads and where it strays matters to a load. -/
theorem Scans.congr
    {x : Load α}
    {g h : Grammar α}
    (hx : Scans x g)
    (hreads : ∀ a p, h.reads a p ↔ g.reads a p)
    (hstrays : ∀ left, h.strays left ↔ g.strays left) :
    Scans x h where
  reads := by
    intro a p hp
    exact hx.reads ((hreads a p).mp hp)
  settles := by
    intro N c hc hstray
    rw [hstrays] at hstray
    have hset := hx.settles hc hstray
    cases hxc : x c with
    | returns a c' =>
        rw [hxc] at hset
        rcases hset with ⟨hc', p, hleft, hp⟩
        exact ⟨hc', p, hleft, (hreads a p).mpr hp⟩
    | fails c' =>
        rw [hxc] at hset
        exact hset
    | overflows c' =>
        rw [hxc] at hset
        exact hset
  breaks := by
    intro c hstray
    exact hx.breaks ((hstrays _).mp hstray)
  wraps := hx.wraps

theorem Scans.map
    {x : Load α}
    {g : Grammar α}
    (hx : Scans x g)
    (f : α → β) :
    Scans (x >>= fun a => Pure.pure (f a)) (g.map f) := by
  refine (hx.bind fun a => Scans.pure (f a)).congr ?_ ?_
  · intro b p
    constructor
    · rintro ⟨a, rfl, hp⟩
      exact ⟨a, p, [], by simp, hp, rfl, rfl⟩
    · rintro ⟨a, q, r, rfl, hp, rfl, rfl⟩
      exact ⟨a, rfl, by simpa using hp⟩
  · intro left
    constructor
    · exact .inl
    · rintro (hg | ⟨_, _, _, _, _, hpure⟩)
      · exact hg
      · exact hpure.elim

namespace Grammar

theorem many_zero_reads
    (g : Grammar α)
    (as : List α)
    (p : List UInt8) :
    (many g 0).reads as p ↔ (Pure.pure [] : Grammar (List α)).reads as p := by
  constructor
  · rintro ⟨hlen, parts, rfl, hparts⟩
    rw [List.length_eq_zero_iff] at hlen
    subst hlen
    cases hparts
    exact ⟨rfl, rfl⟩
  · rintro ⟨rfl, rfl⟩
    exact ⟨rfl, [], rfl, .nil⟩

theorem many_succ_reads
    (g : Grammar α)
    (n : Nat)
    (as : List α)
    (p : List UInt8) :
    (many g (n + 1)).reads as p ↔
      (g >>= fun a => many g n >>= fun as => Pure.pure (a :: as)).reads as p := by
  constructor
  · rintro ⟨hlen, parts, rfl, hparts⟩
    cases hparts with
    | nil =>
        simp at hlen
    | cons ha htail =>
        rename_i a q as parts
        have hlen' : as.length = n := by simpa using hlen
        exact ⟨a, q, parts.flatten, by simp, ha,
          as, parts.flatten, [], by simp, ⟨hlen', parts, rfl, htail⟩, rfl, rfl⟩
  · rintro ⟨a, q, q', rfl, ha, as, r, r', rfl, ⟨hlen, parts, rfl, htail⟩, rfl, rfl⟩
    exact ⟨by simp [hlen], q :: parts, by simp, .cons ha htail⟩

theorem many_succ_strays
    (g : Grammar α)
    (n : Nat)
    (left : List UInt8) :
    (many g (n + 1)).strays left ↔
      (g >>= fun a => many g n >>= fun as => Pure.pure (a :: as)).strays left := by
  constructor
  · rintro ⟨as, parts, rest, rfl, hlen, hparts, hrest⟩
    cases hparts with
    | nil =>
        exact .inl (by simpa using hrest)
    | cons ha htail =>
        rename_i a q as parts
        have hlen' : as.length < n := by simpa using hlen
        exact .inr ⟨a, q, parts.flatten ++ rest, by simp, ha,
          .inl ⟨as, parts, rest, rfl, hlen', htail, hrest⟩⟩
  · rintro (hg | ⟨a, q, rest, rfl, ha, hmany | ⟨_, _, _, _, _, hpure⟩⟩)
    · exact ⟨[], [], left, rfl, by simp, .nil, hg⟩
    · rcases hmany with ⟨as, parts, rest, rfl, hlen, htail, hrest⟩
      exact ⟨a :: as, q :: parts, rest, by simp, by simpa using hlen,
        .cons ha htail, hrest⟩
    · exact hpure.elim

end Grammar

theorem Scans.many
    {x : Load α}
    {g : Grammar α}
    (hx : Scans x g)
    (n : Nat) :
    Scans (many x n) (.many g n) := by
  induction n with
  | zero =>
      refine (Scans.pure []).congr (Grammar.many_zero_reads g) ?_
      intro left
      constructor
      · rintro ⟨as, _, _, _, hlen, _⟩
        exact absurd hlen (Nat.not_lt_zero as.length)
      · exact False.elim
  | succ n ih =>
      have hstep : Scans (Reader.many x (n + 1)) _ :=
        hx.bind fun a => ih.bind fun as => Scans.pure (a :: as)
      exact hstep.congr (Grammar.many_succ_reads g n) (Grammar.many_succ_strays g n)

theorem Scans.counted
    {x : Load α}
    {g : Grammar α}
    (hx : Scans x g)
    (limit n : Nat) :
    Scans (counted limit x n) (.counted limit g n) := by
  by_cases hn : n < limit
  · rw [Reader.counted, if_pos hn]
    refine (hx.many n).congr ?_ ?_
    · intro as p
      simp [Grammar.counted, hn]
    · intro left
      simp [Grammar.counted, hn, Nat.min_eq_left hn.le]
  · have hlimit : limit ≤ n := Nat.le_of_not_lt hn
    rw [Reader.counted, if_neg hn]
    refine ((hx.many limit).bind fun _ => Scans.overflow).congr ?_ ?_
    · intro as p
      constructor
      · rintro ⟨hlt, _⟩
        exact absurd hlt hn
      · rintro ⟨_, _, _, _, _, hover⟩
        exact hover.elim
    · intro left
      simp only [Grammar.counted, Nat.min_eq_right hlimit, hlimit, true_and]
      constructor
      · rintro (hmany | ⟨as, p, rest, rfl, hp⟩)
        · exact .inl hmany
        · exact .inr ⟨as, p, rest, rfl, hp, trivial⟩
      · rintro (hmany | ⟨as, p, rest, rfl, hp, _⟩)
        · exact .inl hmany
        · exact .inr ⟨as, p, rest, rfl, hp⟩

end Grammar

section SameWalk

variable {α β γ δ : Type}

/-- The end of a load without the value. -/
def Outcome.forget : Outcome α → Outcome Unit
  | .returns _ c => .returns () c
  | .fails c => .fails c
  | .overflows c => .overflows c

/-- Two loads come to the same end and leave the same cursor, whatever their values are. -/
def SameWalk (x : Load α) (y : Load β) : Prop :=
  ∀ c, (x c).forget = (y c).forget

theorem SameWalk.refl
    (x : Load α) :
    SameWalk x x := by
  intro c
  rfl

theorem SameWalk.pure
    (a : α) (b : β) :
    SameWalk (pure a) (pure b) := by
  intro c
  rfl

theorem SameWalk.bind
    {x : Load α} {y : Load β} {f : α → Load γ} {g : β → Load δ}
    (hxy : SameWalk x y)
    (hfg : ∀ a b, SameWalk (f a) (g b)) :
    SameWalk (x >>= f) (y >>= g) := by
  intro c
  have hc := hxy c
  cases hx : x c <;> cases hy : y c <;> rw [hx, hy] at hc <;> cases hc
  · rw [bind_of_returns hx, bind_of_returns hy]
    exact hfg _ _ _
  · rw [bind_of_fails hx, bind_of_fails hy]
    rfl
  · rw [bind_of_overflows hx, bind_of_overflows hy]
    rfl

/-- Behind one load, two that go on with its value. -/
theorem SameWalk.bind_left
    (x : Load α) {f : α → Load γ} {g : α → Load δ}
    (hfg : ∀ a, SameWalk (f a) (g a)) :
    SameWalk (x >>= f) (x >>= g) := by
  intro c
  cases hx : x c with
  | returns a c' =>
      rw [bind_of_returns hx, bind_of_returns hx]
      exact hfg a c'
  | fails c' => rw [bind_of_fails hx, bind_of_fails hx]; rfl
  | overflows c' => rw [bind_of_overflows hx, bind_of_overflows hx]; rfl

theorem SameWalk.map
    {x : Load α} {y : Load β}
    (hxy : SameWalk x y)
    (f : α → γ) (g : β → δ) :
    SameWalk (x >>= fun a => Pure.pure (f a)) (y >>= fun b => Pure.pure (g b)) :=
  hxy.bind fun a b => SameWalk.pure (f a) (g b)

theorem SameWalk.many
    {x : Load α} {y : Load β}
    (hxy : SameWalk x y)
    (n : Nat) :
    SameWalk (many x n) (many y n) := by
  induction n with
  | zero => exact SameWalk.pure _ _
  | succ n ih =>
      exact hxy.bind fun a b => ih.map (fun as => a :: as) (fun bs => b :: bs)

theorem SameWalk.counted
    {x : Load α} {y : Load β}
    (hxy : SameWalk x y)
    (limit n : Nat) :
    SameWalk (counted limit x n) (counted limit y n) := by
  unfold Reader.counted
  split_ifs
  · exact hxy.many n
  · exact (hxy.many limit).bind fun _ _ c => rfl

theorem SameWalk.safe_iff
    {x : Load α} {y : Load β}
    (hxy : SameWalk x y)
    (c : Cursor) (N : Nat) :
    (x c).Safe N ↔ (y c).Safe N := by
  have hc := hxy c
  cases hx : x c <;> cases hy : y c <;> rw [hx, hy] at hc <;> cases hc <;> exact Iff.rfl

end SameWalk

end Reader
end Gamnet
