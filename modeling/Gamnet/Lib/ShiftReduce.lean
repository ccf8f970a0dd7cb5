import Mathlib.Data.List.Basic
import Mathlib.Logic.Relation

/-!
# Shift-reduce parsers

A parser that is driven by tables, as the generators of parsers write them, and a certificate
for its tables: which rules each state is in the middle of, how far, and which tokens can come
behind them. Whether a certificate is right is a finite check of the tables (`Sound`,
`Complete`).

With a right certificate the parser ends on every text, and it accepts exactly the texts that
the grammar derives, with what the actions of the rules compute, as far as its stack suffices
(`run_accepted_iff`).

The module is independent of any program.
-/

namespace Gamnet
namespace ShiftReduce

universe u v w

/-- The symbols of a rule. Symbols are numbers, and 0 is the end of a text. -/
structure Rule where
  lhs : Nat
  rhs : List Nat

/-- A grammar over some tokens. The action of a rule takes the values of the right side, and
changes a state that is common to all of them. It can be undefined. -/
structure Grammar (τ : Type u) (V : Type v) (G : Type w) where
  numbers : List Nat
  rule : Nat → Rule
  terminals : Nat
  kind : τ → Nat
  kind_ne_zero : ∀ t, kind t ≠ 0
  kind_lt : ∀ t, kind t < terminals
  value : τ → V
  endValue : V
  act : Nat → List V → G → Option (V × G)

/-- What a state does on a symbol. -/
inductive Action
  | shift (state : Nat)
  | reduce (rule : Nat)
  | error
deriving DecidableEq

/-- The tables of a parser, and how deep its stack can be. -/
structure Tables where
  action : Nat → Nat → Action
  goto : Nat → Nat → Nat
  final : Nat
  maxDepth : Nat

inductive Result (G : Type w)
  | accepted (state : G)
  | syntaxError
  | exhausted
  | undefined

/-- The states with their values, the last one in front, the tokens that are left, and the
common state. The initial state 0 is not on the stack. -/
structure Config (τ : Type u) (V : Type v) (G : Type w) where
  stack : List (Nat × V)
  tokens : List τ
  state : G

variable {τ : Type u} {V : Type v} {G : Type w}

def top : List (Nat × V) → Nat
  | [] => 0
  | (p, _) :: _ => p

@[simp] theorem top_cons
    (p : Nat) (v : V) (stack : List (Nat × V)) :
    top ((p, v) :: stack) = p :=
  rfl

variable (A : Grammar τ V G) (T : Tables)

/-- The kind of the next token. -/
def Grammar.lookahead : List τ → Nat
  | [] => 0
  | t :: _ => A.kind t

/-- The value of the next token. -/
def Grammar.next : List τ → V
  | [] => A.endValue
  | t :: _ => A.value t

/-- A state was pushed. -/
def enter (c : Config τ V G) : Config τ V G ⊕ Result G :=
  if T.maxDepth ≤ c.stack.length + 1 then .inr .exhausted
  else if top c.stack = T.final then .inr (.accepted c.state)
  else .inl c

/-- The values on the right side of a rule of this length. -/
def popped (stack : List (Nat × V)) (n : Nat) : List V :=
  ((stack.take n).map Prod.snd).reverse

/-- The value of a rule goes to the state that the tables give for it. -/
def reduce (c : Config τ V G) (r : Nat) : Config τ V G ⊕ Result G :=
  match A.act r (popped c.stack (A.rule r).rhs.length) c.state with
  | none => .inr .undefined
  | some (v, state) =>
      let below := c.stack.drop (A.rule r).rhs.length
      enter T ⟨(T.goto (top below) (A.rule r).lhs, v) :: below, c.tokens, state⟩

def step (c : Config τ V G) : Config τ V G ⊕ Result G :=
  match T.action (top c.stack) (A.lookahead c.tokens) with
  | .error => .inr .syntaxError
  | .shift p => enter T ⟨(p, A.next c.tokens) :: c.stack, c.tokens.tail, c.state⟩
  | .reduce r => reduce A T c r

/-- At most so many steps. -/
def run : Nat → Config τ V G → Option (Result G)
  | 0, _ => none
  | k + 1, c =>
      match step A T c with
      | .inl c' => run k c'
      | .inr result => some result

/-- The text, with its values, is derived from the symbols, and the actions take the one state
to the other. The last number is how deep a stack gets that holds the symbols, from the left,
while they are read. -/
inductive Derives : List Nat → List τ → List V → G → G → Nat → Prop
  | nil (s : G) : Derives [] [] [] s s 0
  | terminal {rest : List Nat} {ts : List τ} {vs : List V} {s s' : G} {n : Nat} (t : τ)
      (hrest : Derives rest ts vs s s' n) :
      Derives (A.kind t :: rest) (t :: ts) (A.value t :: vs) s s' (n + 1)
  | rule {rest : List Nat} {ts₁ ts₂ : List τ} {vs₁ vs₂ : List V} {v : V} {s s₁ s₂ s' : G}
      {m n : Nat} (r : Nat)
      (hr : r ∈ A.numbers)
      (hchildren : Derives (A.rule r).rhs ts₁ vs₁ s s₁ m)
      (hact : A.act r vs₁ s₁ = some (v, s₂))
      (hrest : Derives rest ts₂ vs₂ s₂ s' n) :
      Derives ((A.rule r).lhs :: rest) (ts₁ ++ ts₂) (v :: vs₂) s s' (max m (n + 1))

section Derives

variable {A}
variable {xs ys : List Nat} {ts ts' : List τ} {vs vs' : List V} {s s' s'' : G} {m n : Nat}

theorem Derives.length_values
    (h : Derives A xs ts vs s s' n) :
    vs.length = xs.length := by
  induction h with
  | nil s =>
      rfl
  | terminal t hrest ih =>
      rw [List.length_cons, List.length_cons, ih]
  | rule r hr hchildren hact hrest _ ih =>
      rw [List.length_cons, List.length_cons, ih]

theorem Derives.length_le
    (h : Derives A xs ts vs s s' n) :
    xs.length ≤ n := by
  induction h with
  | nil s =>
      exact Nat.le_refl 0
  | terminal t hrest ih =>
      exact Nat.succ_le_succ ih
  | rule r hr hchildren hact hrest _ ih =>
      exact Nat.le_trans (Nat.succ_le_succ ih) (Nat.le_max_right _ _)

theorem Derives.append
    (h : Derives A xs ts vs s s' m)
    (h' : Derives A ys ts' vs' s' s'' n) :
    Derives A (xs ++ ys) (ts ++ ts') (vs ++ vs') s s'' (max m (xs.length + n)) := by
  induction h with
  | nil s =>
      simpa using h'
  | terminal t hrest ih =>
      have hdepth := Derives.terminal t (ih h')
      rw [← Nat.add_max_add_right] at hdepth
      simpa [Nat.add_right_comm] using hdepth
  | rule r hr hchildren hact hrest _ ih =>
      have hdepth := Derives.rule r hr hchildren hact (ih h')
      rw [← Nat.add_max_add_right, ← Nat.max_assoc] at hdepth
      simpa [Nat.add_right_comm, List.append_assoc] using hdepth

/-- A derivation from two parts is one from each of them. -/
theorem Derives.split
    {xs ys : List Nat}
    (h : Derives A (xs ++ ys) ts vs s s'' n) :
    ∃ ts₁ ts₂ vs₁ vs₂ s' m₁ m₂,
      ts = ts₁ ++ ts₂ ∧ vs = vs₁ ++ vs₂ ∧ n = max m₁ (xs.length + m₂) ∧
        Derives A xs ts₁ vs₁ s s' m₁ ∧ Derives A ys ts₂ vs₂ s' s'' m₂ := by
  induction xs generalizing ts vs s n with
  | nil =>
      exact ⟨[], ts, [], vs, s, 0, n, rfl, rfl, by simp, .nil s, h⟩
  | cons x xs ih =>
      cases h with
      | terminal t hrest =>
          obtain ⟨ts₁, ts₂, vs₁, vs₂, s', m₁, m₂, rfl, rfl, rfl, h₁, h₂⟩ := ih hrest
          refine ⟨t :: ts₁, ts₂, A.value t :: vs₁, vs₂, s', m₁ + 1, m₂, rfl, rfl, ?_,
            .terminal t h₁, h₂⟩
          rw [← Nat.add_max_add_right, List.length_cons, Nat.add_right_comm]
      | rule r hr hchildren hact hrest =>
          obtain ⟨ts₁, ts₂, vs₁, vs₂, s', m₁, m₂, rfl, rfl, rfl, h₁, h₂⟩ := ih hrest
          refine ⟨_ ++ ts₁, ts₂, _ :: vs₁, vs₂, s', _, m₂, (List.append_assoc _ _ _).symm, rfl, ?_,
            .rule r hr hchildren hact h₁, h₂⟩
          rw [← Nat.add_max_add_right, ← Nat.max_assoc, List.length_cons, Nat.add_right_comm]

end Derives

/-- A rule that a state is in the middle of: its number, the symbols that have been read, and the
tokens that can come behind it, as the bits of a number. -/
structure Item where
  rule : Nat
  dot : Nat
  look : Nat

/-- What is needed to check the tables of a parser. -/
structure Certificate where
  states : Nat
  start : Nat
  symbol : Nat → Nat
  items : Nat → List Item
  first : Nat → Nat
  rank : Nat → Nat
  maxRank : Nat

variable (C : Certificate)

/-- The state q can be on top of p: what it is in the middle of, p was in the middle of, too. -/
def Linked (p q : Nat) : Prop :=
  ∀ i ∈ C.items q, i.dot ≠ 0 →
    ∃ j ∈ C.items p,
      j.rule = i.rule ∧ j.dot + 1 = i.dot ∧ (A.rule i.rule).rhs[j.dot]? = some (C.symbol q)

/-- A rule takes something from the stack, and one that takes a single symbol goes up in rank. -/
def Shrinks (r : Nat) : Prop :=
  match (A.rule r).rhs with
  | [] => False
  | [x] => C.rank x < C.rank (A.rule r).lhs
  | _ => True

/-- A state that can be pushed. -/
def Enters (p q x : Nat) : Prop :=
  q < C.states ∧ q ≠ 0 ∧ C.symbol q = x ∧ Linked A C p q

/-- The action is one for a rule that the state is at the end of, or goes to a state that fits. -/
def ActionSound (p a : Nat) : Action → Prop
  | .error => True
  | .shift q => Enters A C p q a ∧ (a = 0 ↔ q = T.final)
  | .reduce r =>
      r ∈ A.numbers ∧ r ≠ C.start ∧ Shrinks A C r ∧
        ∃ i ∈ C.items p, i.rule = r ∧ i.dot = (A.rule r).rhs.length

instance (p q : Nat) : Decidable (Linked A C p q) :=
  inferInstanceAs (Decidable (∀ i ∈ C.items q, i.dot ≠ 0 → ∃ j ∈ C.items p,
    j.rule = i.rule ∧ j.dot + 1 = i.dot ∧ (A.rule i.rule).rhs[j.dot]? = some (C.symbol q)))

instance (r : Nat) : Decidable (Shrinks A C r) := by
  unfold Shrinks
  split <;> infer_instance

instance (p q x : Nat) : Decidable (Enters A C p q x) :=
  inferInstanceAs (Decidable (q < C.states ∧ q ≠ 0 ∧ C.symbol q = x ∧ Linked A C p q))

instance (p a : Nat) : (action : Action) → Decidable (ActionSound A T C p a action)
  | .error => inferInstanceAs (Decidable True)
  | .shift q => inferInstanceAs (Decidable (Enters A C p q a ∧ (a = 0 ↔ q = T.final)))
  | .reduce r => inferInstanceAs (Decidable (r ∈ A.numbers ∧ r ≠ C.start ∧ Shrinks A C r ∧
      ∃ i ∈ C.items p, i.rule = r ∧ i.dot = (A.rule r).rhs.length))

/-- The tables do not accept what the grammar does not derive. -/
structure Sound : Prop where
  states : 0 < C.states
  final : T.final ≠ 0
  terminals : 0 < A.terminals
  nonempty : ∀ r ∈ A.numbers, (A.rule r).rhs ≠ []
  initial : ∀ i ∈ C.items 0, i.dot = 0
  begins : ∀ p < C.states, ∀ i ∈ C.items p, i.rule = C.start → i.dot = 0 → p = 0
  ends : ∃ i ∈ C.items T.final, i.rule = C.start ∧ i.dot = 2
  twoSymbols : (A.rule C.start).rhs.length = 2
  ranks : ∀ p < C.states, C.rank (C.symbol p) ≤ C.maxRank
  actions : ∀ p < C.states, p ≠ T.final → ∀ a < A.terminals,
    ActionSound A T C p a (T.action p a)
  gotos : ∀ p < C.states, p ≠ T.final → ∀ i ∈ C.items p, i.dot = 0 → i.rule ≠ C.start →
    Enters A C p (T.goto p (A.rule i.rule).lhs) (A.rule i.rule).lhs ∧
      T.goto p (A.rule i.rule).lhs ≠ T.final

section Soundness

/-- A stack that the tables can have made. -/
inductive Path : List (Nat × V) → Prop
  | nil : Path []
  | cons {stack : List (Nat × V)} {q : Nat} {v : V}
      (hq : q < C.states)
      (hne : q ≠ 0)
      (hfinal : q ≠ T.final)
      (hlinked : Linked A C (top stack) q)
      (hpath : Path stack) :
      Path ((q, v) :: stack)

/-- The symbols of a stack, from the left. -/
def symbols (stack : List (Nat × V)) : List Nat :=
  (stack.map fun e => C.symbol e.1).reverse

def values (stack : List (Nat × V)) : List V :=
  (stack.map Prod.snd).reverse

/-- What is on the stack derives what was read. -/
structure Inv (input : List τ) (s₀ : G) (c : Config τ V G) : Prop where
  path : Path A T C c.stack
  derives : ∃ done n,
    input = done ++ c.tokens ∧
      Derives A (symbols C c.stack) done (values c.stack) s₀ c.state n ∧ n + 1 < T.maxDepth

variable {A T C}
variable {stack : List (Nat × V)} {c c' : Config τ V G} {input : List τ} {s₀ : G}

theorem symbols_cons
    (q : Nat) (v : V) (stack : List (Nat × V)) :
    symbols C ((q, v) :: stack) = symbols C stack ++ [C.symbol q] := by
  simp [symbols]

theorem values_cons
    (q : Nat) (v : V) (stack : List (Nat × V)) :
    values ((q, v) :: stack) = values stack ++ [v] := by
  simp [values]

theorem length_symbols
    (stack : List (Nat × V)) :
    (symbols C stack).length = stack.length := by
  simp [symbols]

theorem symbols_split
    (stack : List (Nat × V)) (n : Nat) :
    symbols C stack = symbols C (stack.drop n) ++ symbols C (stack.take n) := by
  rw [symbols, symbols, symbols, ← List.reverse_append, ← List.map_append, List.take_append_drop]

theorem values_split
    (stack : List (Nat × V)) (n : Nat) :
    values stack = values (stack.drop n) ++ popped stack n := by
  rw [values, values, popped, ← List.reverse_append, ← List.map_append, List.take_append_drop]

theorem Path.drop
    (h : Path A T C stack)
    (n : Nat) :
    Path A T C (stack.drop n) := by
  induction h generalizing n with
  | nil =>
      rw [List.drop_nil]
      exact .nil
  | cons hq hne hfinal hlinked hpath ih =>
      cases n with
      | zero =>
          exact .cons hq hne hfinal hlinked hpath
      | succ n =>
          exact ih n

theorem Path.top_lt
    (hsound : Sound A T C)
    (h : Path A T C stack) :
    top stack < C.states := by
  cases h with
  | nil =>
      exact hsound.states
  | cons hq hne hfinal hlinked hpath =>
      exact hq

theorem Path.top_ne_final
    (hsound : Sound A T C)
    (h : Path A T C stack) :
    top stack ≠ T.final := by
  cases h with
  | nil =>
      exact hsound.final.symm
  | cons hq hne hfinal hlinked hpath =>
      exact hfinal

/-- What the state on top is in the middle of is on the stack, and the state below it can begin
it. -/
theorem Path.item
    (hsound : Sound A T C)
    (h : Path A T C stack)
    {i : Item}
    (hi : i ∈ C.items (top stack)) :
    i.dot ≤ stack.length ∧ symbols C (stack.take i.dot) = (A.rule i.rule).rhs.take i.dot ∧
      ∃ j ∈ C.items (top (stack.drop i.dot)), j.rule = i.rule ∧ j.dot = 0 := by
  induction h generalizing i with
  | nil =>
      have hdot : i.dot = 0 := hsound.initial i hi
      rw [hdot]
      exact ⟨Nat.zero_le _, rfl, i, hi, rfl, hdot⟩
  | @cons stack q v hq hne hfinal hlinked hpath ih =>
      by_cases hdot : i.dot = 0
      · rw [hdot]
        exact ⟨Nat.zero_le _, rfl, i, hi, rfl, hdot⟩
      · obtain ⟨j, hj, hrule, hsucc, hsymbol⟩ := hlinked i hi hdot
        obtain ⟨hlength, hsymbols, k, hk, hkrule, hkdot⟩ := ih hj
        rw [← hsucc]
        refine ⟨Nat.succ_le_succ hlength, ?_, k, hk, hkrule.trans hrule, hkdot⟩
        rw [List.take_succ_cons, symbols_cons, hsymbols, hrule, List.take_add_one, hsymbol]
        rfl

theorem enter_inl
    (h : enter T c = .inl c') :
    c' = c ∧ c.stack.length + 1 < T.maxDepth ∧ top c.stack ≠ T.final := by
  unfold enter at h
  split_ifs at h with hdepth hfinal
  exact ⟨(Sum.inl.inj h).symm, Nat.lt_of_not_le hdepth, hfinal⟩

theorem enter_accepted
    {s : G}
    (h : enter T c = .inr (.accepted s)) :
    s = c.state ∧ c.stack.length + 1 < T.maxDepth ∧ top c.stack = T.final := by
  unfold enter at h
  split_ifs at h with hdepth hfinal
  · cases h
  · cases h
    exact ⟨rfl, Nat.lt_of_not_le hdepth, hfinal⟩

theorem enter_exhausted
    (h : enter T c = .inr .exhausted) :
    T.maxDepth ≤ c.stack.length + 1 := by
  unfold enter at h
  split_ifs at h with hdepth hfinal
  · exact hdepth
  · cases h

theorem enter_ne_undefined :
    enter T c ≠ .inr .undefined := by
  intro h
  unfold enter at h
  split_ifs at h
  · cases h
  · cases h

theorem Inv.action
    (hsound : Sound A T C)
    (h : Inv A T C input s₀ c) :
    ActionSound A T C (top c.stack) (A.lookahead c.tokens)
      (T.action (top c.stack) (A.lookahead c.tokens)) := by
  refine hsound.actions _ (h.path.top_lt hsound) (h.path.top_ne_final hsound) _ ?_
  cases c.tokens with
  | nil =>
      exact hsound.terminals
  | cons t ts =>
      exact A.kind_lt t

/-- What a reduction takes from the stack is the right side of its rule. -/
theorem Inv.reducible
    (hsound : Sound A T C)
    (h : Inv A T C input s₀ c)
    {r : Nat} {i : Item}
    (hi : i ∈ C.items (top c.stack))
    (hrule : i.rule = r)
    (hdot : i.dot = (A.rule r).rhs.length) :
    ∃ ts₁ ts₂ s' m₁ m₂,
      input = ts₁ ++ ts₂ ++ c.tokens ∧
        Derives A (symbols C (c.stack.drop (A.rule r).rhs.length)) ts₁
          (values (c.stack.drop (A.rule r).rhs.length)) s₀ s' m₁ ∧
        Derives A (A.rule r).rhs ts₂ (popped c.stack (A.rule r).rhs.length) s' c.state m₂ ∧
        (A.rule r).rhs.length ≤ c.stack.length ∧
        m₁ + 1 < T.maxDepth ∧ c.stack.length - (A.rule r).rhs.length + m₂ + 1 < T.maxDepth := by
  obtain ⟨done, n, hinput, hderives, hdepth⟩ := h.derives
  obtain ⟨hlength, hsymbols, -⟩ := h.path.item hsound hi
  rw [hdot] at hlength hsymbols
  rw [hrule, List.take_length] at hsymbols
  rw [symbols_split c.stack (A.rule r).rhs.length, hsymbols] at hderives
  obtain ⟨ts₁, ts₂, vs₁, vs₂, s', m₁, m₂, hts, hvs, hn, h₁, h₂⟩ := hderives.split
  rw [values_split c.stack (A.rule r).rhs.length] at hvs
  have hbelow : (values (c.stack.drop (A.rule r).rhs.length)).length = vs₁.length := by
    rw [h₁.length_values, length_symbols]
    simp [values]
  obtain ⟨hvs₁, hvs₂⟩ := List.append_inj hvs hbelow
  rw [length_symbols, List.length_drop] at hn
  refine ⟨ts₁, ts₂, s', m₁, m₂, by rw [hinput, hts], hvs₁ ▸ h₁, hvs₂ ▸ h₂, hlength, ?_, ?_⟩
  · omega
  · omega

/-- The state that the value of a rule goes to. -/
theorem Inv.enters
    (hsound : Sound A T C)
    (h : Inv A T C input s₀ c)
    {r : Nat} {i : Item}
    (hstart : r ≠ C.start)
    (hi : i ∈ C.items (top c.stack))
    (hrule : i.rule = r)
    (hdot : i.dot = (A.rule r).rhs.length) :
    Enters A C (top (c.stack.drop (A.rule r).rhs.length))
        (T.goto (top (c.stack.drop (A.rule r).rhs.length)) (A.rule r).lhs) (A.rule r).lhs ∧
      T.goto (top (c.stack.drop (A.rule r).rhs.length)) (A.rule r).lhs ≠ T.final := by
  obtain ⟨-, -, j, hj, hjrule, hjdot⟩ := h.path.item hsound hi
  rw [hdot] at hj
  rw [hrule] at hjrule
  have hbelow := h.path.drop (A.rule r).rhs.length
  have hgoto := hsound.gotos _ (hbelow.top_lt hsound) (hbelow.top_ne_final hsound) j hj hjdot
    (hjrule ▸ hstart)
  rwa [hjrule] at hgoto

/-- A token is shifted. -/
theorem Inv.shift
    (hsound : Sound A T C)
    (h : Inv A T C input s₀ c)
    {q : Nat}
    (hshift : T.action (top c.stack) (A.lookahead c.tokens) = .shift q)
    (hdepth : c.stack.length + 2 < T.maxDepth)
    (hq : q ≠ T.final) :
    Inv A T C input s₀ ⟨(q, A.next c.tokens) :: c.stack, c.tokens.tail, c.state⟩ := by
  have haction := h.action hsound
  rw [hshift] at haction
  obtain ⟨⟨hlt, hne, hsymbol, hlinked⟩, hend⟩ := haction
  refine ⟨.cons hlt hne hq hlinked h.path, ?_⟩
  obtain ⟨done, n, hinput, hderives, hn⟩ := h.derives
  cases htokens : c.tokens with
  | nil =>
      rw [htokens] at hend
      exact absurd (hend.mp rfl) hq
  | cons t ts =>
      rw [htokens] at hinput hsymbol
      refine ⟨done ++ [t], max n ((symbols C c.stack).length + 1), ?_, ?_, ?_⟩
      · rw [hinput, List.append_assoc]
        rfl
      · have hterminal := Derives.terminal (A := A) t (.nil c.state)
        rw [symbols_cons, values_cons, hsymbol]
        exact hderives.append hterminal
      · rw [length_symbols]
        omega

/-- A rule is reduced. -/
theorem Inv.reduce
    (hsound : Sound A T C)
    (h : Inv A T C input s₀ c)
    {r : Nat} {v : V} {s : G}
    (hreduce : T.action (top c.stack) (A.lookahead c.tokens) = .reduce r)
    (hact : A.act r (popped c.stack (A.rule r).rhs.length) c.state = some (v, s)) :
    Inv A T C input s₀
      ⟨(T.goto (top (c.stack.drop (A.rule r).rhs.length)) (A.rule r).lhs, v) ::
        c.stack.drop (A.rule r).rhs.length, c.tokens, s⟩ := by
  have haction := h.action hsound
  rw [hreduce] at haction
  obtain ⟨hr, hstart, hshrinks, i, hi, hrule, hdot⟩ := haction
  obtain ⟨ts₁, ts₂, s', m₁, m₂, hinput, h₁, h₂, hlength, hm₁, hm₂⟩ :=
    h.reducible hsound hi hrule hdot
  obtain ⟨⟨hlt, hne, hsymbol, hlinked⟩, hfinal⟩ := h.enters hsound hstart hi hrule hdot
  have hderives := h₁.append (Derives.rule r hr h₂ hact (.nil s))
  rw [List.append_nil, ← hsymbol, ← symbols_cons, ← values_cons] at hderives
  refine ⟨.cons hlt hne hfinal hlinked (h.path.drop _), ts₁ ++ ts₂, _, hinput, hderives, ?_⟩
  have hpos : 0 < (A.rule r).rhs.length := List.length_pos_iff.mpr (hsound.nonempty r hr)
  have hroom := h₂.length_le
  rw [length_symbols, List.length_drop]
  omega

/-- Each step keeps the invariant. -/
theorem Inv.step
    (hsound : Sound A T C)
    (h : Inv A T C input s₀ c)
    (hstep : step A T c = .inl c') :
    Inv A T C input s₀ c' := by
  unfold ShiftReduce.step at hstep
  split at hstep
  · cases hstep
  · rename_i q hshift
    obtain ⟨rfl, hdepth, hq⟩ := enter_inl hstep
    exact h.shift hsound hshift hdepth hq
  · rename_i r hreduce
    unfold ShiftReduce.reduce at hstep
    split at hstep
    · cases hstep
    · rename_i v s hact
      obtain ⟨rfl, hdepth, hq⟩ := enter_inl hstep
      exact h.reduce hsound hreduce hact

/-- What is accepted is derived from the symbol in front of the end. -/
theorem Inv.accepted
    (hsound : Sound A T C)
    (h : Inv A T C input s₀ c)
    {s : G}
    (hstep : ShiftReduce.step A T c = .inr (.accepted s)) :
    ∃ vs n, Derives A ((A.rule C.start).rhs.take 1) input vs s₀ s n ∧ n + 1 < T.maxDepth := by
  have haction := h.action hsound
  unfold ShiftReduce.step at hstep
  split at hstep
  · cases hstep
  · rename_i q hshift
    obtain ⟨rfl, hdepth, hfinal⟩ := enter_accepted hstep
    rw [hshift] at haction
    obtain ⟨⟨hlt, hne, hsymbol, hlinked⟩, hend⟩ := haction
    have hq : q = T.final := hfinal
    have htokens : c.tokens = [] := by
      cases htokens : c.tokens with
      | nil =>
          rfl
      | cons t ts =>
          rw [htokens] at hend
          exact absurd (hend.mpr hq) (A.kind_ne_zero t)
    obtain ⟨i, hi, hstart, hdot⟩ := hsound.ends
    obtain ⟨j, hj, hjrule, hjdot, -⟩ := hlinked i (hq ▸ hi) (by omega)
    have hone : j.dot = 1 := by omega
    obtain ⟨hlength, hsymbols, k, hk, hkrule, hkdot⟩ := h.path.item hsound hj
    rw [hone] at hlength hsymbols hk
    have hbelow := h.path.drop 1
    have hempty : c.stack.drop 1 = [] := by
      have hzero := hsound.begins _ (hbelow.top_lt hsound) k hk
        (hkrule.trans (hjrule.trans hstart)) hkdot
      cases hdrop : c.stack.drop 1 with
      | nil =>
          rfl
      | cons e stack =>
          rw [hdrop] at hbelow hzero
          cases hbelow with
          | cons _ hne _ _ _ =>
              exact absurd hzero hne
    obtain ⟨done, n, hinput, hderives, hn⟩ := h.derives
    rw [symbols_split c.stack 1, hempty, hsymbols, hjrule, hstart] at hderives
    rw [htokens, List.append_nil] at hinput
    exact ⟨_, n, hinput ▸ hderives, hn⟩
  · rename_i r hreduce
    unfold ShiftReduce.reduce at hstep
    split at hstep
    · cases hstep
    · rename_i v s' hact
      obtain ⟨rfl, hdepth, hfinal⟩ := enter_accepted hstep
      have hinv := h.reduce hsound hreduce hact
      exact absurd hfinal (hinv.path.top_ne_final hsound)

/-- Where the action of a rule is undefined, its right side is derived from a part of the
text. -/
theorem Inv.undefined
    (hsound : Sound A T C)
    (h : Inv A T C input s₀ c)
    (hstep : ShiftReduce.step A T c = .inr .undefined) :
    ∃ r ∈ A.numbers, ∃ ts vs s s' n,
      ts <:+: input ∧ Derives A (A.rule r).rhs ts vs s s' n ∧ A.act r vs s' = none := by
  have haction := h.action hsound
  unfold ShiftReduce.step at hstep
  split at hstep
  · cases hstep
  · exact absurd hstep enter_ne_undefined
  · rename_i r hreduce
    unfold ShiftReduce.reduce at hstep
    split at hstep
    · rename_i hact
      rw [hreduce] at haction
      obtain ⟨hr, hstart, hshrinks, i, hi, hrule, hdot⟩ := haction
      obtain ⟨ts₁, ts₂, s', m₁, m₂, hinput, h₁, h₂, -⟩ := h.reducible hsound hi hrule hdot
      exact ⟨r, hr, ts₂, _, s', c.state, m₂, ⟨ts₁, c.tokens, hinput.symm⟩, h₂, hact⟩
    · exact absurd hstep enter_ne_undefined

/-- Without empty right sides a text is at least as long as what it is derived from. -/
theorem Derives.length_tokens
    {xs : List Nat} {ts : List τ} {vs : List V} {s s' : G} {n : Nat}
    (hnonempty : ∀ r ∈ A.numbers, (A.rule r).rhs ≠ [])
    (h : Derives A xs ts vs s s' n) :
    xs.length ≤ ts.length := by
  induction h with
  | nil s =>
      exact Nat.le_refl 0
  | terminal t hrest ih =>
      exact Nat.succ_le_succ ih
  | rule r hr hchildren hact hrest ihchildren ihrest =>
      have hpos := List.length_pos_iff.mpr (hnonempty r hr)
      rw [List.length_cons, List.length_append]
      omega

/-- Then the stack does not get deeper than the text is long. -/
theorem Derives.depth_le
    {xs : List Nat} {ts : List τ} {vs : List V} {s s' : G} {n : Nat}
    (hnonempty : ∀ r ∈ A.numbers, (A.rule r).rhs ≠ [])
    (h : Derives A xs ts vs s s' n) :
    n ≤ ts.length := by
  induction h with
  | nil s =>
      exact Nat.le_refl 0
  | terminal t hrest ih =>
      exact Nat.succ_le_succ ih
  | rule r hr hchildren hact hrest ihchildren ihrest =>
      have hpos := List.length_pos_iff.mpr (hnonempty r hr)
      have hlength := hchildren.length_tokens hnonempty
      rw [List.length_append]
      omega

/-- The stack is exhausted by long texts only. -/
theorem Inv.exhausted
    (hsound : Sound A T C)
    (h : Inv A T C input s₀ c)
    (hstep : ShiftReduce.step A T c = .inr .exhausted) :
    T.maxDepth ≤ input.length + 2 := by
  have haction := h.action hsound
  obtain ⟨done, n, hinput, hderives, hn⟩ := h.derives
  have hlength := hderives.length_tokens hsound.nonempty
  rw [length_symbols] at hlength
  have hdone : done.length ≤ input.length := by
    rw [hinput, List.length_append]
    exact Nat.le_add_right _ _
  unfold ShiftReduce.step at hstep
  split at hstep
  · cases hstep
  · have hdepth := enter_exhausted hstep
    rw [List.length_cons] at hdepth
    omega
  · rename_i r hreduce
    unfold ShiftReduce.reduce at hstep
    split at hstep
    · cases hstep
    · have hdepth := enter_exhausted hstep
      rw [List.length_cons, List.length_drop] at hdepth
      omega

variable (A C) in
/-- What a step makes smaller: tokens count more than what is on the stack, and that more than
the rank of the last symbol. -/
def measure (c : Config τ V G) : Nat :=
  2 * (C.maxRank + 1) * c.tokens.length + (C.maxRank + 1) * c.stack.length +
    (C.maxRank - C.rank (C.symbol (top c.stack)))

/-- A reduction takes away two entries at least, or puts a symbol of a higher rank in the place
of one. -/
theorem Inv.shrinks
    (hsound : Sound A T C)
    (h : Inv A T C input s₀ c)
    {r : Nat} {i : Item}
    (hshrinks : Shrinks A C r)
    (hi : i ∈ C.items (top c.stack))
    (hrule : i.rule = r)
    (hdot : i.dot = (A.rule r).rhs.length) :
    (A.rule r).rhs.length ≤ c.stack.length ∧
      (2 ≤ (A.rule r).rhs.length ∨
        (A.rule r).rhs.length = 1 ∧
          C.rank (C.symbol (top c.stack)) < C.rank (A.rule r).lhs) := by
  obtain ⟨hlength, hsymbols, -⟩ := h.path.item hsound hi
  rw [hdot] at hlength hsymbols
  rw [hrule, List.take_length] at hsymbols
  refine ⟨hlength, ?_⟩
  unfold Shrinks at hshrinks
  split at hshrinks
  · exact hshrinks.elim
  · rename_i x hrhs
    refine Or.inr ⟨by rw [hrhs]; rfl, ?_⟩
    rw [hrhs] at hsymbols hlength
    cases hstack : c.stack with
    | nil =>
        rw [hstack] at hlength
        exact absurd hlength (Nat.not_succ_le_zero 0)
    | cons e stack =>
        rw [hstack] at hsymbols
        obtain rfl : C.symbol e.1 = x := by
          simpa [symbols] using hsymbols
        exact hshrinks
  · rename_i hnil hone
    left
    match hrhs : (A.rule r).rhs with
    | [] => exact absurd hrhs hnil
    | [x] => exact absurd hrhs (hone x)
    | x :: y :: rest => exact Nat.le_add_left 2 rest.length

/-- Each step makes the measure smaller. -/
theorem Inv.measure_lt
    (hsound : Sound A T C)
    (h : Inv A T C input s₀ c)
    (hstep : ShiftReduce.step A T c = .inl c') :
    measure C c' < measure C c := by
  have haction := h.action hsound
  have hrank : C.rank (C.symbol (top c.stack)) ≤ C.maxRank :=
    hsound.ranks _ (h.path.top_lt hsound)
  have hinv := h.step hsound hstep
  have hrank' : C.rank (C.symbol (top c'.stack)) ≤ C.maxRank :=
    hsound.ranks _ (hinv.path.top_lt hsound)
  unfold ShiftReduce.step at hstep
  split at hstep
  · cases hstep
  · rename_i q hshift
    obtain ⟨rfl, hdepth, hq⟩ := enter_inl hstep
    rw [hshift] at haction
    cases htokens : c.tokens with
    | nil =>
        rw [htokens] at haction
        exact absurd (haction.2.mp rfl) hq
    | cons t ts =>
        simp only [measure, htokens, List.tail_cons, List.length_cons, Nat.mul_succ] at hrank' ⊢
        omega
  · rename_i r hreduce
    rw [hreduce] at haction
    obtain ⟨hr, hstart, hshrinks, i, hi, hrule, hdot⟩ := haction
    obtain ⟨hlength, hcases⟩ := h.shrinks hsound hshrinks hi hrule hdot
    unfold ShiftReduce.reduce at hstep
    split at hstep
    · cases hstep
    · rename_i v s hact
      obtain ⟨rfl, hdepth, hq⟩ := enter_inl hstep
      rcases hcases with htwo | ⟨hone, hup⟩
      · have hstack : (C.maxRank + 1) * (c.stack.length - (A.rule r).rhs.length + 1 + 1) ≤
            (C.maxRank + 1) * c.stack.length := Nat.mul_le_mul_left _ (by omega)
        simp only [measure, List.length_cons, List.length_drop, Nat.mul_succ] at hstack hrank' ⊢
        omega
      · have hsymbol := (h.enters hsound hstart hi hrule hdot).1.2.2.1
        have hstack : c.stack.length - 1 + 1 = c.stack.length := by omega
        rw [hone] at hsymbol
        simp only [measure, List.length_cons, List.length_drop, hone, hstack, top_cons, hsymbol]
          at hrank' ⊢
        omega

/-- Every run ends. -/
theorem Inv.exists_run
    (hsound : Sound A T C)
    (h : Inv A T C input s₀ c)
    {k : Nat}
    (hk : measure C c < k) :
    ∃ result, run A T k c = some result := by
  induction k generalizing c with
  | zero =>
      exact absurd hk (Nat.not_lt_zero _)
  | succ k ih =>
      cases hstep : ShiftReduce.step A T c with
      | inl c' =>
          have hlt := h.measure_lt hsound hstep
          obtain ⟨result, hresult⟩ := ih (h.step hsound hstep) (by omega)
          exact ⟨result, by rw [run, hstep]; exact hresult⟩
      | inr result =>
          exact ⟨result, by rw [run, hstep]⟩

/-- The last step of a run. -/
theorem Inv.last
    (hsound : Sound A T C)
    (h : Inv A T C input s₀ c)
    {k : Nat} {result : Result G}
    (hrun : run A T k c = some result) :
    ∃ c', Inv A T C input s₀ c' ∧ ShiftReduce.step A T c' = .inr result := by
  induction k generalizing c with
  | zero =>
      cases hrun
  | succ k ih =>
      rw [run] at hrun
      split at hrun
      · rename_i c' hstep
        exact ih (h.step hsound hstep) hrun
      · rename_i result' hstep
        cases hrun
        exact ⟨c, h, hstep⟩

end Soundness

/-- The state has the item with one more symbol. -/
def Moved (i : Item) (q : Nat) : Prop :=
  q < C.states ∧
    ∃ j ∈ C.items q, j.rule = i.rule ∧ j.dot = i.dot + 1 ∧ i.look &&& j.look = i.look

/-- The tokens that a symbol behind the next one can begin with. -/
def follow (i : Item) : Nat :=
  match (A.rule i.rule).rhs[i.dot + 1]? with
  | none => i.look
  | some y => C.first y

/-- The tables follow the item: they reduce its rule if it is read, and else take the next
symbol, which they can begin if it is on the left of a rule. -/
def Followed (p : Nat) (i : Item) : Prop :=
  match (A.rule i.rule).rhs[i.dot]? with
  | none =>
      i.dot = (A.rule i.rule).rhs.length ∧
        ∀ a < A.terminals, i.look.testBit a = true → T.action p a = .reduce i.rule
  | some x =>
      if x < A.terminals then
        match T.action p x with
        | .shift q => Moved C i q ∧ (q = T.final ↔ x = 0)
        | _ => False
      else
        Moved C i (T.goto p x) ∧ T.goto p x ≠ T.final ∧
          ∀ r ∈ A.numbers, (A.rule r).lhs = x →
            ∃ j ∈ C.items p, j.rule = r ∧ j.dot = 0 ∧ follow A C i &&& j.look = follow A C i

instance (i : Item) (q : Nat) : Decidable (Moved C i q) :=
  inferInstanceAs (Decidable (q < C.states ∧
    ∃ j ∈ C.items q, j.rule = i.rule ∧ j.dot = i.dot + 1 ∧ i.look &&& j.look = i.look))

instance (p : Nat) (i : Item) : Decidable (Followed A T C p i) := by
  unfold Followed
  split
  · infer_instance
  · split
    · split <;> infer_instance
    · infer_instance

/-- The tables accept what the grammar derives. -/
structure Complete : Prop where
  states : 0 < C.states
  terminals : 0 < A.terminals
  final : T.final ≠ 0
  maxDepth : 3 < T.maxDepth
  start : ∃ s, (A.rule C.start).rhs = [s, 0]
  begins : ∃ i ∈ C.items 0, i.rule = C.start ∧ i.dot = 0
  lefts : ∀ r ∈ A.numbers, A.terminals ≤ (A.rule r).lhs
  firstTerminal : ∀ a < A.terminals, (C.first a).testBit a = true
  firstRule : ∀ r ∈ A.numbers, ∃ x ∈ (A.rule r).rhs.head?,
    C.first x &&& C.first (A.rule r).lhs = C.first x
  followed : ∀ p < C.states, p ≠ T.final → ∀ i ∈ C.items p, Followed A T C p i

section Completeness

variable {A T C}
variable {stack : List (Nat × V)} {c c' : Config τ V G}
variable {xs more : List Nat} {ts tail : List τ} {vs : List V} {s s' : G} {n : Nat}

theorem testBit_of_and
    {a b k : Nat}
    (h : a &&& b = a)
    (hk : a.testBit k = true) :
    b.testBit k = true := by
  rw [← h, Nat.testBit_and, Bool.and_eq_true] at hk
  exact hk.2

theorem and_trans
    {a b k : Nat}
    (hab : a &&& b = a)
    (hbk : b &&& k = b) :
    a &&& k = a := by
  rw [← hab, Nat.and_assoc, hbk]

/-- What is derived from a symbol begins with one of its first tokens. -/
theorem Derives.first
    (hcomplete : Complete A T C)
    (h : Derives A xs ts vs s s' n)
    {x : Nat}
    (hx : x ∈ xs.head?) :
    ∃ t ts', ts = t :: ts' ∧ (C.first x).testBit (A.kind t) = true := by
  induction h generalizing x with
  | nil s =>
      cases hx
  | @terminal _ ts _ _ _ _ t hrest ih =>
      obtain rfl := Option.some.inj hx
      exact ⟨t, ts, rfl, hcomplete.firstTerminal _ (A.kind_lt t)⟩
  | rule r hr hchildren hact hrest ihchildren ihrest =>
      obtain rfl := Option.some.inj hx
      obtain ⟨y, hy, hsub⟩ := hcomplete.firstRule r hr
      obtain ⟨t, ts, rfl, hfirst⟩ := ihchildren hy
      exact ⟨t, ts ++ _, rfl, testBit_of_and hsub hfirst⟩

variable (A T) in
/-- Some steps. -/
def Steps : Config τ V G → Config τ V G → Prop :=
  Relation.ReflTransGen fun c c' => step A T c = .inl c'

variable (A C) in
/-- The token can come behind so many symbols of the rule. -/
def Follows (i : Item) (d a : Nat) : Prop :=
  match (A.rule i.rule).rhs[d]? with
  | none => i.look.testBit a = true
  | some y => (C.first y).testBit a = true

theorem follows_succ
    {i j : Item} {d a : Nat}
    (hrule : j.rule = i.rule)
    (hlook : i.look &&& j.look = i.look)
    (h : Follows A C i d a) :
    Follows A C j d a := by
  unfold Follows at h ⊢
  rw [hrule]
  split at h
  · exact testBit_of_and hlook h
  · exact h

theorem enter_of_lt
    (hdepth : c.stack.length + 1 < T.maxDepth)
    (hfinal : top c.stack ≠ T.final) :
    enter T c = .inl c := by
  rw [enter, if_neg (Nat.not_le.mpr hdepth), if_neg hfinal]

/-- A token that the state on top can take is shifted. -/
theorem step_shift
    {q : Nat} {t : τ} {s : G}
    (haction : T.action (top stack) (A.kind t) = .shift q)
    (hdepth : stack.length + 2 < T.maxDepth)
    (hfinal : q ≠ T.final) :
    step A T ⟨stack, t :: ts, s⟩ = .inl ⟨(q, A.value t) :: stack, ts, s⟩ := by
  have hlookahead : T.action (top stack) (A.lookahead (t :: ts)) = .shift q := haction
  rw [step, hlookahead]
  exact enter_of_lt hdepth hfinal

/-- A rule that is on the stack is reduced. -/
theorem step_reduce
    {pushed : List (Nat × V)} {r : Nat} {v : V} {s s' : G}
    (haction : T.action (top (pushed ++ stack)) (A.lookahead ts) = .reduce r)
    (hlength : pushed.length = (A.rule r).rhs.length)
    (hact : A.act r (pushed.map Prod.snd).reverse s = some (v, s'))
    (hdepth : stack.length + 2 < T.maxDepth)
    (hfinal : T.goto (top stack) (A.rule r).lhs ≠ T.final) :
    step A T ⟨pushed ++ stack, ts, s⟩ =
      .inl ⟨(T.goto (top stack) (A.rule r).lhs, v) :: stack, ts, s'⟩ := by
  have hpopped : popped (pushed ++ stack) (A.rule r).rhs.length =
      (pushed.map Prod.snd).reverse := by
    rw [popped, ← hlength, List.take_left]
  rw [step, haction]
  show reduce A T ⟨pushed ++ stack, ts, s⟩ r = _
  rw [reduce, hpopped, hact]
  show enter T ⟨(T.goto (top ((pushed ++ stack).drop (A.rule r).rhs.length)) (A.rule r).lhs, v) ::
    (pushed ++ stack).drop (A.rule r).rhs.length, ts, s'⟩ = _
  rw [← hlength, List.drop_left]
  exact enter_of_lt hdepth hfinal

theorem next_of_drop
    {l ys : List Nat} {d x : Nat}
    (h : l.drop d = x :: ys) :
    l[d]? = some x ∧ l.drop (d + 1) = ys := by
  constructor
  · have hzero : (l.drop d)[0]? = some x := by rw [h]; rfl
    rwa [List.getElem?_drop, Nat.add_zero] at hzero
  · rw [← List.drop_drop, h]
    rfl

/-- A stack on which the symbols of an item can be put. -/
structure Ready (stack : List (Nat × V)) (i : Item) : Prop where
  top_lt : top stack < C.states
  top_ne_final : top stack ≠ T.final
  item : i ∈ C.items (top stack)

/-- The state that a token in the middle of an item goes to. -/
theorem Ready.shift
    (hcomplete : Complete A T C)
    {i : Item}
    (hready : Ready (T := T) (C := C) stack i)
    {t : τ}
    (hnext : (A.rule i.rule).rhs[i.dot]? = some (A.kind t))
    (v : V) :
    ∃ q j, T.action (top stack) (A.kind t) = .shift q ∧
      Ready (T := T) (C := C) ((q, v) :: stack) j ∧ j.rule = i.rule ∧ j.dot = i.dot + 1 ∧
        i.look &&& j.look = i.look := by
  have hfollowed := hcomplete.followed _ hready.top_lt hready.top_ne_final i hready.item
  simp only [Followed, hnext, if_pos (A.kind_lt t)] at hfollowed
  split at hfollowed
  · rename_i q haction
    obtain ⟨⟨hlt, j, hj, hrule, hdot, hlook⟩, hfinal⟩ := hfollowed
    have hq : q ≠ T.final := fun h => A.kind_ne_zero t (hfinal.mp h)
    exact ⟨q, j, haction, ⟨hlt, hq, hj⟩, hrule, hdot, hlook⟩
  · exact hfollowed.elim

/-- In the middle of an item a rule for the next symbol can begin, and its value goes to a state
that has the item with one more symbol. -/
theorem Ready.begins
    (hcomplete : Complete A T C)
    {i : Item}
    (hready : Ready (T := T) (C := C) stack i)
    {r : Nat}
    (hr : r ∈ A.numbers)
    (hnext : (A.rule i.rule).rhs[i.dot]? = some (A.rule r).lhs)
    (v : V) :
    ∃ j k, Ready (T := T) (C := C) stack j ∧ j.rule = r ∧ j.dot = 0 ∧
      follow A C i &&& j.look = follow A C i ∧
      Ready (T := T) (C := C) ((T.goto (top stack) (A.rule r).lhs, v) :: stack) k ∧
        k.rule = i.rule ∧ k.dot = i.dot + 1 ∧ i.look &&& k.look = i.look := by
  have hfollowed := hcomplete.followed _ hready.top_lt hready.top_ne_final i hready.item
  simp only [Followed, hnext, if_neg (Nat.not_lt.mpr (hcomplete.lefts r hr))] at hfollowed
  obtain ⟨⟨hlt, k, hk, hkrule, hkdot, hklook⟩, hfinal, hbegins⟩ := hfollowed
  obtain ⟨j, hj, hjrule, hjdot, hjlook⟩ := hbegins r hr rfl
  exact ⟨j, k, ⟨hready.top_lt, hready.top_ne_final, hj⟩, hjrule, hjdot, hjlook,
    ⟨hlt, hfinal, hk⟩, hkrule, hkdot, hklook⟩

/-- At the end of an item its rule is reduced. -/
theorem Ready.reduces
    (hcomplete : Complete A T C)
    {i : Item}
    (hready : Ready (T := T) (C := C) stack i)
    (hdot : i.dot = (A.rule i.rule).rhs.length)
    (hlook : i.look.testBit (A.lookahead ts) = true) :
    T.action (top stack) (A.lookahead ts) = .reduce i.rule := by
  have hnone : (A.rule i.rule).rhs[i.dot]? = none := List.getElem?_eq_none (Nat.le_of_eq hdot.symm)
  have hfollowed := hcomplete.followed _ hready.top_lt hready.top_ne_final i hready.item
  simp only [Followed, hnone] at hfollowed
  refine hfollowed.2 _ ?_ hlook
  cases ts with
  | nil =>
      exact hcomplete.terminals
  | cons t ts =>
      exact A.kind_lt t

/-- What comes behind the next symbol is one of the tokens that can follow it. -/
theorem Derives.follow
    (hcomplete : Complete A T C)
    (h : Derives A xs ts vs s s' n)
    {i : Item}
    (hrest : (A.rule i.rule).rhs.drop (i.dot + 1) = xs ++ more)
    (hfollows : Follows A C i (i.dot + 1 + xs.length) (A.lookahead tail)) :
    (ShiftReduce.follow A C i).testBit (A.lookahead (ts ++ tail)) = true := by
  cases xs with
  | nil =>
      cases h with
      | nil s =>
          unfold Follows at hfollows
          unfold ShiftReduce.follow
          rw [List.length_nil, Nat.add_zero] at hfollows
          split at hfollows
          · exact hfollows
          · exact hfollows
  | cons x xs =>
      obtain ⟨t, ts, rfl, hfirst⟩ := h.first hcomplete rfl
      unfold ShiftReduce.follow
      rw [(next_of_drop hrest).1]
      exact hfirst

/-- The parser reads what is derived from the symbols of an item, and puts it on the stack. -/
theorem Derives.steps
    (hcomplete : Complete A T C)
    (h : Derives A xs ts vs s s' n)
    {i : Item}
    (hready : Ready (T := T) (C := C) stack i)
    (hrest : (A.rule i.rule).rhs.drop i.dot = xs ++ more)
    (hfollows : Follows A C i (i.dot + xs.length) (A.lookahead tail))
    (hdepth : stack.length + n + 1 < T.maxDepth) :
    ∃ pushed j,
      (pushed.map Prod.snd).reverse = vs ∧
        Steps A T ⟨stack, ts ++ tail, s⟩ ⟨pushed ++ stack, tail, s'⟩ ∧
        Ready (T := T) (C := C) (pushed ++ stack) j ∧ j.rule = i.rule ∧
        j.dot = i.dot + xs.length ∧ i.look &&& j.look = i.look := by
  induction h generalizing stack i tail more with
  | nil s =>
      exact ⟨[], i, rfl, .refl, hready, rfl, rfl, Nat.and_self _⟩
  | @terminal rest ts vs s s' n t hD ih =>
      obtain ⟨hnext, hbehind⟩ := next_of_drop hrest
      obtain ⟨q, j, haction, hj, hrule, hdot, hlook⟩ := hready.shift hcomplete hnext (A.value t)
      have hlength : j.dot + rest.length = i.dot + (A.kind t :: rest).length := by
        rw [hdot, List.length_cons]
        omega
      obtain ⟨pushed, k, hvalues, hsteps, hk, hkrule, hkdot, hklook⟩ := ih hj
        (by rw [hrule, hdot]; exact hbehind)
        (hlength ▸ follows_succ hrule hlook hfollows)
        (by rw [List.length_cons]; omega)
      refine ⟨pushed ++ [(q, A.value t)], k, ?_, ?_, ?_, hkrule.trans hrule,
        hkdot.trans hlength, ?_⟩
      · rw [List.map_append, List.reverse_append, hvalues]
        rfl
      · rw [List.append_assoc]
        refine Relation.ReflTransGen.head ?_ hsteps
        exact step_shift haction (by omega) hj.top_ne_final
      · rwa [List.append_assoc]
      · exact and_trans hlook hklook
  | @rule rest ts₁ ts₂ vs₁ vs₂ v s s₁ s₂ s' m n r hr hchildren hact hD ihchildren ih =>
      obtain ⟨hnext, hbehind⟩ := next_of_drop hrest
      obtain ⟨j, k, hj, hjrule, hjdot, hjlook, hk, hkrule, hkdot, hklook⟩ :=
        hready.begins hcomplete hr hnext v
      have hlength : k.dot + rest.length = i.dot + ((A.rule r).lhs :: rest).length := by
        rw [hkdot, List.length_cons]
        omega
      have hbehindLook : j.look.testBit (A.lookahead (ts₂ ++ tail)) = true := by
        refine testBit_of_and hjlook (hD.follow hcomplete hbehind ?_)
        rwa [← hkdot, hlength]
      -- the right side of the rule is read
      have hall : (A.rule j.rule).rhs.drop j.dot = (A.rule r).rhs ++ [] := by
        rw [hjrule, hjdot, List.append_nil, List.drop_zero]
      have hend : Follows A C j (j.dot + (A.rule r).rhs.length) (A.lookahead (ts₂ ++ tail)) := by
        have hnone : (A.rule j.rule).rhs[j.dot + (A.rule r).rhs.length]? = none := by
          rw [hjrule, hjdot, Nat.zero_add]
          exact List.getElem?_eq_none (Nat.le_refl _)
        rw [Follows, hnone]
        exact hbehindLook
      obtain ⟨pushed₁, j₁, hvalues₁, hsteps₁, hj₁, hj₁rule, hj₁dot, hj₁look⟩ :=
        ihchildren hj hall hend (by omega)
      -- and reduced
      rw [hjdot, Nat.zero_add] at hj₁dot
      rw [hjrule] at hj₁rule
      have haction := hj₁.reduces hcomplete (by rw [hj₁rule, hj₁dot])
        (testBit_of_and hj₁look hbehindLook)
      rw [hj₁rule] at haction
      have hpushed₁ : pushed₁.length = (A.rule r).rhs.length := by
        rw [← hchildren.length_values, ← hvalues₁]
        simp
      have hreduce := step_reduce haction hpushed₁ (hvalues₁ ▸ hact) (by omega)
        hk.top_ne_final
      -- what is behind it is read
      obtain ⟨pushed, l, hvalues, hsteps, hl, hlrule, hldot, hllook⟩ := ih hk
        (by rw [hkrule, hkdot]; exact hbehind)
        (hlength ▸ follows_succ hkrule hklook hfollows)
        (by rw [List.length_cons]; omega)
      refine ⟨pushed ++ [(T.goto (top stack) (A.rule r).lhs, v)], l, ?_, ?_, ?_,
        hlrule.trans hkrule, hldot.trans hlength, and_trans hklook hllook⟩
      · rw [List.map_append, List.reverse_append, hvalues]
        rfl
      · rw [List.append_assoc, List.append_assoc]
        exact (hsteps₁.tail hreduce).trans hsteps
      · rwa [List.append_assoc]

/-- A text that is derived from the symbol in front of the end is accepted. -/
theorem Derives.accepted
    (hcomplete : Complete A T C)
    (h : Derives A ((A.rule C.start).rhs.take 1) ts vs s s' n)
    (hdepth : n + 1 < T.maxDepth) :
    ∃ c, Steps A T ⟨[], ts, s⟩ c ∧ step A T c = .inr (.accepted s') := by
  obtain ⟨x, hstart⟩ := hcomplete.start
  obtain ⟨i, hi, hrule, hdot⟩ := hcomplete.begins
  have hready : Ready (T := T) (C := C) ([] : List (Nat × V)) i :=
    ⟨hcomplete.states, hcomplete.final.symm, hi⟩
  have hrest : (A.rule i.rule).rhs.drop i.dot = (A.rule C.start).rhs.take 1 ++ [0] := by
    rw [hrule, hdot, hstart]
    rfl
  have hone : ((A.rule C.start).rhs.take 1).length = 1 := by
    rw [hstart]
    rfl
  have hfollows : Follows A C i (i.dot + ((A.rule C.start).rhs.take 1).length)
      (A.lookahead []) := by
    have hzero : (A.rule i.rule).rhs[i.dot + ((A.rule C.start).rhs.take 1).length]? = some 0 := by
      rw [hone, hdot, hrule, hstart]
      rfl
    rw [Follows, hzero]
    exact hcomplete.firstTerminal 0 hcomplete.terminals
  obtain ⟨pushed, j, hvalues, hsteps, hj, hjrule, hjdot, hjlook⟩ :=
    h.steps hcomplete hready hrest hfollows (by simpa using hdepth)
  rw [List.append_nil, List.append_nil] at hsteps
  rw [List.append_nil] at hj
  refine ⟨⟨pushed, [], s'⟩, hsteps, ?_⟩
  have hlength : pushed.length = 1 := by
    have hpushed := h.length_values
    rw [hone, ← hvalues] at hpushed
    simpa using hpushed
  have hnext : (A.rule j.rule).rhs[j.dot]? = some 0 := by
    rw [hjrule, hrule, hjdot, hone, hdot, hstart]
    rfl
  have hfollowed := hcomplete.followed _ hj.top_lt hj.top_ne_final j hj.item
  simp only [Followed, hnext, if_pos hcomplete.terminals] at hfollowed
  split at hfollowed
  · rename_i q haction
    have hfinal : q = T.final := hfollowed.2.mpr trivial
    have hlookahead : T.action (top pushed) (A.lookahead []) = .shift q := haction
    have hmax := hcomplete.maxDepth
    rw [step, hlookahead]
    show enter T _ = _
    rw [enter, if_neg (by rw [List.length_cons, hlength]; omega), if_pos (by rw [top_cons, hfinal])]
  · exact hfollowed.elim

/-- A run goes on behind some steps. -/
theorem Steps.run
    (h : Steps A T c c')
    {result : Result G}
    (hstep : step A T c' = .inr result) :
    ∃ k, run A T k c = some result := by
  induction h using Relation.ReflTransGen.head_induction_on with
  | refl =>
      exact ⟨1, by rw [ShiftReduce.run, hstep]⟩
  | head hfirst hrest ih =>
      obtain ⟨k, hk⟩ := ih
      exact ⟨k + 1, by rw [ShiftReduce.run, hfirst]; exact hk⟩

/-- Two runs of different lengths end alike. -/
theorem run_unique
    {k m : Nat} {result result' : Result G}
    (h : run A T k c = some result)
    (h' : run A T m c = some result') :
    result = result' := by
  induction k generalizing c m with
  | zero =>
      cases h
  | succ k ih =>
      cases m with
      | zero =>
          cases h'
      | succ m =>
          rw [run] at h h'
          split at h
          · rename_i c' hstep
            rw [hstep] at h'
            exact ih h h'
          · rename_i result'' hstep
            rw [hstep] at h'
            cases h
            cases h'
            rfl

end Completeness

section Main

variable {A T C}

theorem initial_inv
    (hmax : 1 < T.maxDepth)
    (input : List τ) (s : G) :
    Inv A T C input s ⟨[], input, s⟩ :=
  ⟨.nil, [], 0, rfl, .nil s, hmax⟩

/-- The parser accepts exactly what is derived from the symbol in front of the end, as far as the
stack suffices. -/
theorem run_accepted_iff
    (hsound : Sound A T C)
    (hcomplete : Complete A T C)
    (input : List τ) (s s' : G) {k : Nat}
    (hk : measure C (⟨[], input, s⟩ : Config τ V G) < k) :
    run A T k ⟨[], input, s⟩ = some (.accepted s') ↔
      ∃ vs n, Derives A ((A.rule C.start).rhs.take 1) input vs s s' n ∧ n + 1 < T.maxDepth := by
  have hmax := hcomplete.maxDepth
  have hinv : Inv A T C input s ⟨[], input, s⟩ := initial_inv (by omega) input s
  constructor
  · intro hrun
    obtain ⟨c, hc, hstep⟩ := hinv.last hsound hrun
    exact hc.accepted hsound hstep
  · rintro ⟨vs, n, hderives, hdepth⟩
    obtain ⟨c, hsteps, hstep⟩ := hderives.accepted hcomplete hdepth
    obtain ⟨m, hm⟩ := hsteps.run hstep
    obtain ⟨result, hresult⟩ := hinv.exists_run hsound hk
    rw [hresult, run_unique hm hresult]

/-- Nothing depends on how deep the stack can be. -/
theorem Sound.of_depth
    (h : Sound A T C)
    (maxDepth : Nat) :
    Sound A { T with maxDepth := maxDepth } C :=
  ⟨h.states, h.final, h.terminals, h.nonempty, h.initial, h.begins, h.ends, h.twoSymbols, h.ranks,
    h.actions, h.gotos⟩

theorem Complete.of_depth
    (h : Complete A T C)
    {maxDepth : Nat}
    (hdepth : 3 < maxDepth) :
    Complete A { T with maxDepth := maxDepth } C :=
  ⟨h.states, h.terminals, h.final, hdepth, h.start, h.begins, h.lefts, h.firstTerminal,
    h.firstRule, h.followed⟩

/-- All derivations of a text compute the same: a parser with a stack that is deep enough finds
each of them. -/
theorem Derives.unique
    (hsound : Sound A T C)
    (hcomplete : Complete A T C)
    {input : List τ} {vs vs' : List V} {s s' s'' : G} {m n : Nat}
    (h : Derives A ((A.rule C.start).rhs.take 1) input vs s s' m)
    (h' : Derives A ((A.rule C.start).rhs.take 1) input vs' s s'' n) :
    s' = s'' := by
  have hdepth : 3 < m + n + 4 := by omega
  have hsound' := hsound.of_depth (m + n + 4)
  have hcomplete' := hcomplete.of_depth hdepth
  have hk := Nat.lt_succ_self (measure C (⟨[], input, s⟩ : Config τ V G))
  have hrun := (run_accepted_iff hsound' hcomplete' input s s' hk).mpr
    ⟨vs, m, h, show m + 1 < m + n + 4 by omega⟩
  have hrun' := (run_accepted_iff hsound' hcomplete' input s s'' hk).mpr
    ⟨vs', n, h', show n + 1 < m + n + 4 by omega⟩
  rw [hrun] at hrun'
  cases hrun'
  rfl

end Main

end ShiftReduce
end Gamnet
