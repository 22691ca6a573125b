import SocketRpc.Duration
/-! Spacing of connection attempts: geometric growth under a cap, and a bound on their number. -/

namespace SocketRpc

structure Backoff where
  base : Duration
  multiplier : Binary64
  cap : Duration
  maxAttempts : Nat
deriving Repr, DecidableEq

namespace Backoff

def exponentCap : Nat := 2147483647

def growth (p : Backoff) (attempt : Nat) : Binary64 :=
  p.base.toSeconds * p.multiplier.pow (if attempt - 1 ≤ exponentCap then attempt - 1 else exponentCap)

/-- The pause after a failed attempt, attempts being counted from one. -/
def delayAfter (p : Backoff) (attempt : Nat) : Option Duration :=
  if attempt = 0 ∨ p.maxAttempts ≤ attempt then none
  else
    match Duration.ofSeconds? (p.growth attempt) with
    | some d => some (d.min p.cap)
    | none => some p.cap

theorem delayAfter_isSome (p : Backoff) (attempt : Nat) :
    (p.delayAfter attempt).isSome = true ↔ 0 < attempt ∧ attempt < p.maxAttempts := by
  unfold delayAfter
  split
  · simp; omega
  · split <;> simp <;> omega

structure Progress where
  policy : Backoff
  attempt : Nat := 0
deriving Repr, DecidableEq

def start (p : Backoff) : Progress := { policy := p }

def Progress.begin (t : Progress) : Progress := { t with attempt := t.attempt + 1 }

def Progress.nextDelay (t : Progress) : Option Duration := t.policy.delayAfter t.attempt

end Backoff

end SocketRpc
