import Mathlib.Logic.Function.Basic
import IChat.Auth.Records

/-!
# Cooldowns and sliding windows in Redis

`rate_limit.py`. A command can be carried out and answered, be lost before it has an effect, or
have its effect and lose the answer: `CommandResult` says which, and the caller sees an exception
in the last two cases. The clock of Redis, which expires keys, and the clock of the process, which
the sliding window is about, are two arguments. A key lives up to the moment of its expiry, that
moment included, by the clock of Redis (`KeyExpired`); an expiry of no time at all deletes it.
-/

namespace IChat.Auth

/-- What becomes of one command. -/
inductive CommandResult
  | answered | lost | unanswered
  deriving DecidableEq, Repr

/-- The state after a command, and the answer unless the caller gets an exception. -/
def CommandResult.execute {σ β : Type} (effect : σ → σ × β) (state : σ) :
    CommandResult → σ × Option β
  | .answered => ((effect state).1, some (effect state).2)
  | .lost => (state, none)
  | .unanswered => ((effect state).1, none)

/-- When Redis finds a key expired. -/
abbrev KeyExpired (clock expiresAt : ℕ) : Prop := expiresAt < clock

/-- The sorted set of a sliding window: the scores of its members, and when the key expires. -/
structure Window where
  scores : List ℕ
  expiresAt : ℕ
  deriving DecidableEq, Repr

/-- The keys of the flows: sliding windows, and cooldowns with the moment they expire. -/
structure Redis where
  windows : String → Option Window
  cooldowns : String → Option ℕ

structure RateLimitResult where
  allowed : Bool
  retryAfterSeconds : ℕ
  deriving DecidableEq, Repr

/-- The members that `ZREMRANGEBYSCORE KEYS[1] 0 now - window` leaves. -/
def Window.remaining (clock now window : ℕ) : Option Window → List ℕ
  | none => []
  | some set =>
    if KeyExpired clock set.expiresAt then [] else set.scores.filter (now < · + window)

/-- `_SLIDING_WINDOW_LUA`. A set without members is no key. -/
def slidingWindow (clock now window limit : ℕ) (set : Option Window) :
    Option Window × RateLimitResult :=
  let scores := Window.remaining clock now window set
  if scores.length < limit then
    (if window = 0 then none else some ⟨scores ++ [now], clock + window⟩, ⟨true, 0⟩)
  else
    let retry :=
      match scores.min? with
      | some earliest => max 1 ((earliest + window - now + 999) / 1000)
      | none => 1
    (if scores = [] then none else set.map fun old => { old with scores }, ⟨false, retry⟩)

/-- `ip_rate_key`. -/
def ipRateKey (action ip : String) : String := s!"auth:rate:{action}:ip:{ip}"

/-- `cooldown_email_key`, for the digest that `_email_digest` makes of the email. -/
def cooldownEmailKey (emailDigest : String → String) (purpose : Purpose) (email : String) :
    String :=
  s!"auth:cooldown:{purpose.value}:email:{emailDigest email}"

/-- The command of `check_ip_rate_limit`. -/
def checkIpRateLimit (clock nowMs limit windowSeconds : ℕ) (key : String) (redis : Redis) :
    Redis × RateLimitResult :=
  let (set, result) := slidingWindow clock nowMs (windowSeconds * 1000) limit (redis.windows key)
  ({ redis with windows := Function.update redis.windows key set }, result)

/-- The command of `try_cooldown`, `SET key 1 NX EX ttl`. -/
def tryCooldown (clock ttlSeconds : ℕ) (key : String) (redis : Redis) : Redis × Bool :=
  if (redis.cooldowns key).any (¬KeyExpired clock ·) then (redis, false)
  else
    ({ redis with
        cooldowns := Function.update redis.cooldowns key (some (clock + ttlSeconds * 1000)) }, true)

/-- The command of `release_cooldown`. -/
def releaseCooldown (key : String) (redis : Redis) : Redis × Unit :=
  ({ redis with cooldowns := Function.update redis.cooldowns key none }, ())

end IChat.Auth
