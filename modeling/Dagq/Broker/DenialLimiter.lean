/-
This file models the limiter of the broker's refusals. A key (the run, the
destination, the code, the reason and the token run of a refusal) holds a
window in which at most `limit` refusals are recorded and the rest counted; a
pool of keys, and one token run in it, hold at most so many windows, and the
refusals of further keys are counted in an overflow of their code and token
run. Counts leave the limiter on the key's next record or when their window
ends.

The two maps of the limiter iterate in no order the program fixes, so a window
that ends reports its count at a place in the answer nothing may depend on.
Times are offsets of a monotonic clock, and a subtraction of them saturates.
-/

import Dagq.Lib.Machine
import Dagq.Lib.Table

namespace Dagq.Broker

open Dagq.Lib

/-! ### Keys, windows and answers -/

/-- The refusals a window counts together. -/
structure DenialKey where
  run : Option String
  destination : String
  code : String
  reason : String
  tokenRun : Option String
  deriving DecidableEq, Repr

/-- The pool of the key: the keys with a token run, and those without one. -/
def DenialKey.withTokenRun (key : DenialKey) : Bool := key.tokenRun.isSome

/-- Whether a refusal is recorded, with the count of its key's last window no record carries
yet. -/
inductive DenialStep where
  | record (suppressed : Nat)
  | suppress
  deriving DecidableEq, Repr

/-- A count of refusals not recorded whose window ended. -/
inductive DenialCount where
  | key (key : DenialKey) (suppressed : Nat)
  | overflow (code : String) (tokenRun : Option String) (suppressed : Nat)
  deriving DecidableEq, Repr

/-- The refusals the count stands for. -/
def DenialCount.suppressed : DenialCount → Nat
  | .key _ suppressed => suppressed
  | .overflow _ _ suppressed => suppressed

structure DenialWindow where
  opened : Nat
  recorded : Nat
  suppressed : Nat
  deriving DecidableEq, Repr

/-- The windows of the keys, and the overflows by code and token run. -/
structure DenialLimiter where
  windows : Table DenialKey DenialWindow
  overflow : Table (String × Option String) DenialWindow

/-- The limiter a broker starts with. -/
def DenialLimiter.default : DenialLimiter := ⟨Table.empty, Table.empty⟩

/-- The limits a broker holds its refusals to. -/
structure DenialLimits where
  limit : Nat
  keys : Nat
  perTokenRun : Nat
  window : Nat

/-- Whether a start `age` ago still counts in a window: up to the window's end, not at it. -/
def inWindow (age window : Nat) : Bool := age < window

/-! ### The two calls -/

namespace DenialLimiter

/-- The overflow with one more refusal of `code` and `tokenRun`, opened at `now` when it is the
first. -/
def overflowed (limiter : DenialLimiter) (code : String) (tokenRun : Option String)
    (now : Nat) : Table (String × Option String) DenialWindow :=
  let open_ := (limiter.overflow.get? (code, tokenRun)).getD
    { opened := now, recorded := 0, suppressed := 0 }
  limiter.overflow.insert (code, tokenRun) { open_ with suppressed := open_.suppressed + 1 }

/-- Whether a key without a window finds its pool, or its token run, full. -/
def full (limiter : DenialLimiter) (key : DenialKey) (limits : DenialLimits) : Bool :=
  let pool := key.withTokenRun
  let held := limiter.windows.count fun held => held.withTokenRun == pool
  let ofTokenRun := limiter.windows.count fun held => held.tokenRun == key.tokenRun
  decide (held ≥ limits.keys) || (pool && decide (ofTokenRun ≥ limits.perTokenRun))

/-- Whether the refusal of `key` at `now` is recorded. -/
def admitDenial (limiter : DenialLimiter) (key : DenialKey) (now : Nat) (limits : DenialLimits) :
    DenialLimiter × DenialStep :=
  let open_ : DenialWindow := { opened := now, recorded := 1, suppressed := 0 }
  match limiter.windows.get? key with
  | none =>
    if limiter.full key limits then
      ({ limiter with overflow := limiter.overflowed key.code key.tokenRun now }, .suppress)
    else
      ({ limiter with windows := limiter.windows.insert key open_ }, .record 0)
  | some current =>
    if !inWindow (now - current.opened) limits.window then
      ({ limiter with windows := limiter.windows.insert key open_ }, .record current.suppressed)
    else if current.recorded < limits.limit then
      ({ limiter with
          windows := limiter.windows.insert key { current with recorded := current.recorded + 1 } },
        .record 0)
    else
      ({ limiter with
          windows :=
            limiter.windows.insert key { current with suppressed := current.suppressed + 1 } },
        .suppress)

/-- Whether a window opened at `opened` is still in its time at `now`. -/
def stands (window now : Nat) (current : DenialWindow) : Bool :=
  inWindow (now - current.opened) window

/-- Forget the windows that ended by `now`: the counts no record carries yet. -/
def ended (limiter : DenialLimiter) (now : Nat) (limits : DenialLimits) :
    DenialLimiter × List DenialCount :=
  let keep := fun current => stands limits.window now current
  let keyCounts := (limiter.windows.entries.filter fun entry => !keep entry.2).filterMap
    fun entry => if entry.2.suppressed > 0 then some (.key entry.1 entry.2.suppressed) else none
  let overflowCounts := (limiter.overflow.entries.filter fun entry => !keep entry.2).map
    fun entry => .overflow entry.1.1 entry.1.2 entry.2.suppressed
  ({ windows := limiter.windows.retain fun _ current => keep current,
     overflow := limiter.overflow.retain fun _ current => keep current },
    keyCounts ++ overflowCounts)

end DenialLimiter

/-! ### Runs of calls -/

/-- A call of the limiter. -/
inductive DenialCall where
  | admitDenial (key : DenialKey) (now : Nat)
  | ended (now : Nat)

/-- When the call is made. -/
def DenialCall.now : DenialCall → Nat
  | .admitDenial _ now => now
  | .ended now => now

/-- What a call gives. -/
inductive DenialAnswer where
  | step (step : DenialStep)
  | counts (counts : List DenialCount)

/-- The limiter under fixed limits. -/
def denialMachine (limits : DenialLimits) : Machine DenialLimiter DenialCall DenialAnswer where
  step limiter
    | .admitDenial key now =>
      let (next, step) := limiter.admitDenial key now limits
      (next, .step step)
    | .ended now =>
      let (next, counts) := limiter.ended now limits
      (next, .counts counts)

/-- The calls are made in time order. -/
def TimeOrdered (calls : List DenialCall) : Prop :=
  calls.Pairwise fun earlier later => earlier.now ≤ later.now

/-- A call with its answer. -/
abbrev DenialEntry := DenialCall × DenialAnswer

/-- Whether the entry records a refusal of `key` at a time that `during` holds of. -/
def DenialEntry.recordsOf (key : DenialKey) (during : Nat → Bool) : DenialEntry → Bool
  | (.admitDenial admitted now, .step (.record _)) => decide (admitted = key) && during now
  | _ => false

/-- How many records of `key` the log has at times that `during` holds of. -/
def recordsOf (log : List DenialEntry) (key : DenialKey) (during : Nat → Bool) : Nat :=
  log.countP (DenialEntry.recordsOf key during)

/-- One for a call that admits a refusal. -/
def DenialCall.refusals : DenialCall → Nat
  | .admitDenial _ _ => 1
  | .ended _ => 0

/-- One for an answer that records a refusal. -/
def DenialAnswer.records : DenialAnswer → Nat
  | .step (.record _) => 1
  | _ => 0

/-- The suppressed count a record carries. -/
def DenialAnswer.carried : DenialAnswer → Nat
  | .step (.record suppressed) => suppressed
  | _ => 0

/-- The counts of the windows that ended. -/
def DenialAnswer.returned : DenialAnswer → Nat
  | .step _ => 0
  | .counts ended => (ended.map DenialCount.suppressed).sum

def refusals (log : List DenialEntry) : Nat := (log.map fun entry => entry.1.refusals).sum

def records (log : List DenialEntry) : Nat := (log.map fun entry => entry.2.records).sum

def carried (log : List DenialEntry) : Nat := (log.map fun entry => entry.2.carried).sum

def returned (log : List DenialEntry) : Nat := (log.map fun entry => entry.2.returned).sum

/-- The suppressed counts a limiter still holds. -/
def DenialLimiter.held (limiter : DenialLimiter) : Nat :=
  (limiter.windows.sum fun _ current => current.suppressed) +
    limiter.overflow.sum fun _ current => current.suppressed

end Dagq.Broker
