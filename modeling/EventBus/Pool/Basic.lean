import EventBus.Sync.Semaphore

/-!
A fixed number of worker tokens. Whoever asks for a token gets a free one at once, or waits
for one until a deadline or until cancelled. Being cancelled counts before having been
given a token, and being given a token before the deadline.
-/

namespace EventBus

/-- Tokens of a pool and those who ask for them. -/
structure Pool (κ : Type) where
  size : Nat
  tokens : Semaphore κ
  deriving Repr

inductive Acquired where
  | token
  | canceled
  | timedOut
  | waiting
  deriving DecidableEq, Repr

namespace Pool

variable {κ : Type} [BEq κ]

def maxSize : Nat := Nat.pow 2 61 - 1

def ofSize (size : Nat) : Pool κ := ⟨min size maxSize, .ofPermits (min size maxSize)⟩

def available (pool : Pool κ) : Nat := pool.tokens.free

/-- Ask for a token. One who is not patient does not wait. -/
def request (pool : Pool κ) (who : κ) (canceled patient : Bool) : Acquired × Pool κ :=
  if canceled then (.canceled, pool)
  else match pool.tokens.take? with
    | some tokens => (.token, { pool with tokens })
    | none =>
        if patient then (.waiting, { pool with tokens := pool.tokens.wait who })
        else (.timedOut, pool)

/-- Give up waiting. The answer also says for whom a token is kept instead. -/
def leave (pool : Pool κ) (who : κ) : Pool κ × Option κ :=
  let (tokens, next) := pool.tokens.leave who
  ({ pool with tokens }, next)

def review (pool : Pool κ) (who : κ) (canceled due : Bool) : Acquired × Pool κ × Option κ :=
  if canceled then (.canceled, pool.leave who)
  else if pool.tokens.isGranted who then
    (.token, { pool with tokens := pool.tokens.redeem who }, none)
  else if due then (.timedOut, pool.leave who)
  else (.waiting, pool, none)

def release (pool : Pool κ) : Pool κ × Option κ :=
  let (tokens, next) := pool.tokens.release
  ({ pool with tokens }, next)

end Pool

end EventBus
