import Gamnet.Redis.Connection

/-!
# Parse as a scan

The calls of Parse pass the words from left to right. What they have still to do is a
number of calls, and whether the next word is the text of a bulk string: Parse is a scan
with these two and the result set as its state (`parseAll_eq`). A result is defined when
no call is left at the end and no text is missing.
-/

namespace Gamnet
namespace Redis

/-- The calls that are left, whether the next word is a text, and the result set. -/
structure Scan where
  pending : Nat
  raw : Bool
  impl : ResultSetImpl

/-- One word. -/
def scanWord (s : Scan) (token : Bytes) : Option Scan :=
  if s.raw then some { s with raw := false, impl := s.impl.pushBack token }
  else
    let s := { s with pending := s.pending - 1 }
    match kindOf token with
    | .text => some { s with impl := s.impl.pushBack token.tail }
    | .error => some { s with impl := { s.impl with error := token } }
    | .null => some s
    | .bulk => some { s with raw := true }
    | .array => (atoi token.tail).map fun count => { s with pending := s.pending + count.toNat }
    | .other => some { s with impl := { s.impl with error := s.impl.error ++ 0x20 :: token } }

/-- The words in order. -/
def scan (s : Scan) (tokens : List Bytes) : Option Scan :=
  tokens.foldlM scanWord s

/-- The end of the words. -/
def Scan.finish (s : Scan) : Option ResultSetImpl :=
  if s.pending = 0 ∧ s.raw = false then some s.impl else none

/-- The result behind the words that are left. -/
def finishScan (s : Scan) (tokens : List Bytes) : Option ResultSetImpl :=
  (scan s tokens).bind Scan.finish

@[simp] theorem scan_nil
    (s : Scan) :
    scan s [] = some s := by
  rfl

theorem scan_cons
    (s : Scan) (token : Bytes) (tokens : List Bytes) :
    scan s (token :: tokens) = (scanWord s token).bind fun s' => scan s' tokens := by
  simp [scan, List.foldlM_cons]

theorem scan_append
    (s : Scan) (ts us : List Bytes) :
    scan s (ts ++ us) = (scan s ts).bind fun s' => scan s' us := by
  simp [scan, List.foldlM_append]

theorem finishScan_cons
    {s s' : Scan} {token : Bytes}
    (hword : scanWord s token = some s')
    (tokens : List Bytes) :
    finishScan s (token :: tokens) = finishScan s' tokens := by
  rw [finishScan, scan_cons, hword]
  rfl

/-- A call that is left and no word. -/
theorem finishScan_nil_succ
    (n : Nat) (raw : Bool) (impl : ResultSetImpl) :
    finishScan ⟨n + 1, raw, impl⟩ [] = none := by
  simp [finishScan, Scan.finish]

/-- What a call of Parse leaves is passed on to the scan of what is left. -/
def thenScan (n : Nat) (p : ResultSetImpl × List Bytes) : Option ResultSetImpl :=
  finishScan ⟨n, false, p.1⟩ p.2

variable {impl impl' : ResultSetImpl} {tokens rest : List Bytes}

theorem length_times_le
    {call : ResultSetImpl → List Bytes → Option (ResultSetImpl × List Bytes)}
    (hcall : ∀ impl tokens impl' rest, call impl tokens = some (impl', rest) →
      rest.length < tokens.length)
    {n : Nat}
    (htimes : times call n impl tokens = some (impl', rest)) :
    rest.length ≤ tokens.length := by
  induction n generalizing impl tokens with
  | zero =>
      cases htimes
      exact Nat.le_refl _
  | succ n ih =>
      rw [times] at htimes
      split at htimes
      · cases htimes
      · rename_i impl₁ rest₁ hfirst
        exact (ih htimes).trans (Nat.le_of_lt (hcall _ _ _ _ hfirst))

/-- A call passes at least one word. -/
theorem length_parse_lt
    {depth : Nat}
    (hparse : parse depth impl tokens = some (impl', rest)) :
    rest.length < tokens.length := by
  induction depth generalizing impl tokens impl' rest with
  | zero =>
      cases hparse
  | succ depth ih =>
      cases tokens with
      | nil =>
          cases hparse
      | cons token tokens =>
          rw [List.length_cons, Nat.lt_succ_iff]
          rw [parse] at hparse
          unfold parseWord at hparse
          cases hkind : kindOf token with
          | bulk =>
              rw [hkind] at hparse
              cases tokens with
              | nil =>
                  cases hparse
              | cons value tokens =>
                  cases hparse
                  exact Nat.le_succ _
          | array =>
              simp only [hkind] at hparse
              split at hparse
              · cases hparse
              · exact length_times_le (fun _ _ _ _ h => ih h) hparse
          | text | error | null | other =>
              rw [hkind] at hparse
              cases hparse
              exact Nat.le_refl _

/-- A loop of calls, when a call is one call of the scan. -/
theorem times_bind_thenScan
    {call : ResultSetImpl → List Bytes → Option (ResultSetImpl × List Bytes)}
    {length : Nat}
    (hcall : ∀ impl tokens n, tokens.length ≤ length →
      (call impl tokens).bind (thenScan n) = finishScan ⟨n + 1, false, impl⟩ tokens)
    (hshort : ∀ impl tokens impl' rest, call impl tokens = some (impl', rest) →
      rest.length < tokens.length)
    (m n : Nat)
    (hlength : tokens.length ≤ length) :
    (times call m impl tokens).bind (thenScan n) = finishScan ⟨n + m, false, impl⟩ tokens := by
  induction m generalizing impl tokens with
  | zero =>
      rfl
  | succ m ih =>
      have hfirst := hcall impl tokens (n + m) hlength
      rw [times]
      cases hone : call impl tokens with
      | none =>
          rw [hone] at hfirst
          exact hfirst
      | some p =>
          have hle := hshort _ _ p.1 p.2 hone
          rw [hone, Option.bind_some, thenScan] at hfirst
          rw [← Nat.add_assoc, ← hfirst]
          exact ih (by omega)

/-- A call of Parse is one call of the scan. The induction is on the depth, which the
number of words bounds. -/
theorem parse_bind_thenScan
    {depth : Nat}
    (n : Nat)
    (hdepth : tokens.length ≤ depth) :
    (parse depth impl tokens).bind (thenScan n) = finishScan ⟨n + 1, false, impl⟩ tokens := by
  induction depth generalizing impl tokens n with
  | zero =>
      obtain rfl := List.length_eq_zero_iff.mp (Nat.le_zero.mp hdepth)
      exact (finishScan_nil_succ n false impl).symm
  | succ depth ih =>
      cases tokens with
      | nil =>
          exact (finishScan_nil_succ n false impl).symm
      | cons token tokens =>
          rw [List.length_cons] at hdepth
          rw [parse]
          unfold parseWord
          cases hkind : kindOf token with
          | bulk =>
              rw [finishScan_cons (show scanWord ⟨n + 1, false, impl⟩ token =
                some ⟨n, true, impl⟩ by simp [scanWord, hkind])]
              cases tokens with
              | nil => simp [finishScan, Scan.finish]
              | cons value tokens => rfl
          | array =>
              cases hcount : atoi token.tail with
              | none =>
                  simp [finishScan, scan_cons, scanWord, hkind, hcount]
              | some count =>
                  rw [finishScan_cons (show scanWord ⟨n + 1, false, impl⟩ token =
                    some ⟨n + count.toNat, false, impl⟩ by simp [scanWord, hkind, hcount])]
                  simp only
                  exact times_bind_thenScan (fun impl ts k hts => ih k hts)
                    (fun _ _ _ _ h => length_parse_lt h) _ _ (by omega)
          | text | error | null | other =>
              simp only [finishScan, scan_cons, scanWord, hkind]
              rfl

/-- A call that begins without calls to do is one call. -/
theorem finishScan_zero
    (token : Bytes) :
    finishScan ⟨0, false, impl⟩ (token :: tokens) =
      finishScan ⟨1, false, impl⟩ (token :: tokens) := by
  rfl

/-- The calls behind the read loop are a scan of all words. -/
theorem parseAll_eq
    {n : Nat}
    (hn : tokens.length ≤ n) :
    parseAll n impl tokens = finishScan ⟨0, false, impl⟩ tokens := by
  induction n generalizing impl tokens with
  | zero =>
      obtain rfl := List.length_eq_zero_iff.mp (Nat.le_zero.mp hn)
      rfl
  | succ n ih =>
      cases tokens with
      | nil =>
          rfl
      | cons token tokens =>
          have hcall := @parse_bind_thenScan impl (token :: tokens) (tokens.length + 1) 0
            (Nat.le_refl _)
          rw [finishScan_zero, ← hcall, parseAll]
          cases hparse : parse (tokens.length + 1) impl (token :: tokens) with
          | none =>
              rfl
          | some p =>
              have hlt := length_parse_lt hparse
              rw [List.length_cons] at hlt hn
              exact ih (by omega)

end Redis
end Gamnet
